import ReversePolish.Proofs.Atomicity

/-!
The shape of the stack.

Commands never get onto the stack, the running count is right, and every operator stands on enough
expressions. With every name counted as an expression of its own, a stack of this shape splits into
complete expressions, as many as the count says.
-/

namespace ReversePolish

namespace Token

/-- Below every operator, where the top comes first, there are enough expressions for it. -/
def Supported (ts : List Token) : Prop :=
  ∀ above o below, ts = above ++ .op o :: below → (o.arity : Int) ≤ weights below

variable {t : Token} {ts us : List Token}

lemma supported_nil : Supported [] := by
  intro above o below h
  cases above <;> cases h

lemma Supported.of_append (h : Supported (ts ++ us)) : Supported us := by
  rintro above o below rfl
  exact h (ts ++ above) o below (by simp)

lemma Supported.cons (h : Supported ts) (ht : ∀ o, t = .op o → (o.arity : Int) ≤ weights ts) :
    Supported (t :: ts) := by
  intro above o below heq
  cases above with
  | nil =>
    cases heq
    exact ht o rfl
  | cons u above =>
    cases heq
    exact h above o below rfl

/-- Supported tokens count for no less than nothing, and for something if there are any. -/
lemma Supported.weights_pos (h : Supported ts) : 0 ≤ weights ts ∧ (ts ≠ [] → 1 ≤ weights ts) := by
  induction ts with
  | nil => simp
  | cons t ts ih =>
    obtain ⟨hnonneg, -⟩ := ih (show Supported ([t] ++ ts) from h).of_append
    have hpos : 1 ≤ weights (t :: ts) := by
      rw [weights_cons]
      cases t with
      | op o =>
        have ho := h [] o ts rfl
        simp only [weight]
        omega
      | _ =>
        simp only [weight]
        omega
    exact ⟨by omega, fun _ => hpos⟩

end Token

def Arities.leaves : Arities := fun _ => none

namespace Grouping

open Token (weights Supported)

variable {stack : List Token} {need count : Nat}

lemma operands_leaves {t : Token} (ht : ∀ c, t ≠ .command c) :
    ∃ k : Nat, operands .leaves t = .ok (k : Int) ∧ t.weight = 1 - k := by
  cases t with
  | number v => exact ⟨0, rfl, rfl⟩
  | name n => exact ⟨0, rfl, rfl⟩
  | arg i => exact ⟨0, rfl, rfl⟩
  | op o => exact ⟨o.arity, rfl, rfl⟩
  | command c => exact absurd rfl (ht c)

/-- A scan that needs no more expressions than the tokens count for leaves the others. -/
lemma takeRun_leaves (hc : ∀ c, .command c ∉ stack) (acc : List Token)
    (h : (need : Int) ≤ weights stack) : ∃ run below,
      takeRun .leaves need acc stack = .ok (run, below) ∧ weights below = weights stack - need := by
  induction stack generalizing need acc with
  | nil =>
    obtain rfl : need = 0 := by
      simp only [Token.weights_nil] at h
      omega
    exact ⟨acc, [], rfl, rfl⟩
  | cons t stack ih =>
    cases need with
    | zero => exact ⟨acc, t :: stack, rfl, by simp⟩
    | succ need =>
      obtain ⟨k, hk, hw⟩ := operands_leaves (t := t) fun c hct => hc c (by simp [hct])
      rw [Token.weights_cons, hw] at h ⊢
      have hneed : ((need : Int) + k).toNat = need + k := by omega
      obtain ⟨run, below, hrun, hbelow⟩ := ih (fun c hcs => hc c (List.mem_cons_of_mem _ hcs))
        (t :: acc) (show ((need + k : Nat) : Int) ≤ weights stack by omega)
      exact ⟨run, below, by simp only [takeRun, hk, hneed, hrun, bind, Except.bind], by omega⟩

/-- Supported tokens are taken apart to the last, into as many expressions as they count for. -/
lemma takeRuns_leaves (hc : ∀ c, .command c ∉ stack) (hs : Supported stack)
    (hle : stack.length ≤ count) : ∃ runs, takeRuns .leaves count stack = .ok (runs, []) ∧
      (runs.length : Int) = weights stack := by
  induction count generalizing stack with
  | zero =>
    obtain rfl := List.length_eq_zero_iff.mp (Nat.le_zero.mp hle)
    exact ⟨[], rfl, rfl⟩
  | succ count ih =>
    cases stack with
    | nil => exact ⟨[], rfl, rfl⟩
    | cons t stack =>
      -- tokens that count for something have an expression on top, and the rest is supported
      have hpos := hs.weights_pos.2 (by simp)
      obtain ⟨run, below, htop, hbelow⟩ : ∃ run below, topRun .leaves (t :: stack) =
          .ok (run, below) ∧ weights below = weights (t :: stack) - (1 : Nat) :=
        takeRun_leaves hc [] hpos
      have htokens := topRun_eq_ok htop
      have hlt := length_below_lt htop
      rw [htokens] at hc hs
      obtain ⟨runs, hruns, hlen⟩ := ih
        (fun c hcb => hc c (List.mem_append_right _ hcb)) hs.of_append (by omega)
      refine ⟨run :: runs, ?_, ?_⟩
      · simp only [takeRuns, htop, hruns, bind, Except.bind]
      · simp only [List.length_cons]
        omega

end Grouping

namespace Stack

structure Sound (s : Stack) : Prop where
  noCommand : ∀ c, .command c ∉ s.tokens
  counted : s.Counted
  supported : Token.Supported s.tokens

variable {s s' : Stack} {t : Token}

lemma sound_empty : Sound .empty := ⟨by simp [empty], rfl, Token.supported_nil⟩

lemma Sound.push (h : s.Sound) (hc : ∀ c, t ≠ .command c)
    (ht : ∀ o, t = .op o → (o.arity : Int) ≤ s.count) : (s.push t).Sound where
  noCommand c hmem := by
    rcases List.mem_cons.mp hmem with hct | hmem
    · exact hc c hct.symm
    · exact h.noCommand c hmem
  counted := h.counted.push t
  supported := h.supported.cons fun o ho => by
    rw [← h.counted]
    exact ht o ho

lemma Sound.below (h : s.Sound) (hb : s.Below s') : s'.Sound where
  counted := hb.counted h.counted
  noCommand c hmem := by
    cases hb with
    | taken hts _ => exact h.noCommand c (hts ▸ List.mem_append_right _ hmem)
    | cleared => cases hmem
  supported := by
    cases hb with
    | taken hts _ => exact (hts ▸ h.supported).of_append
    | cleared => exact Token.supported_nil

lemma Sound.count_nonneg (h : s.Sound) : 0 ≤ s.count := by
  rw [h.counted]
  exact h.supported.weights_pos.1

end Stack

namespace Engine

variable {e e' : Engine} {r : Reply}

lemma sound_pushValues (h : e.stack.Sound) (vs : List Number) : (e.pushValues vs).stack.Sound := by
  induction vs generalizing e with
  | nil => exact h
  | cons v vs ih => exact ih (h.push (by simp) (by simp))

lemma Answers.sound (h : Answers e r) (he : e.stack.Sound) : r.engine.stack.Sound := by
  cases h with
  | fails hb error =>
    unfold fail
    dsimp only
    split
    · rw [he.counted.ofTokens_eq]
      exact he
    · exact he.below hb.stack
  | succeeds hb vs table outputs => exact sound_pushValues (he.below hb.stack) vs

lemma sound_of_push {t : Token} (he : e.stack.Sound) (h : e.push t = .ok e') : e'.stack.Sound := by
  obtain ⟨rfl, hc, ho⟩ := push_eq_ok h
  exact he.push hc ho

lemma Reaches.sound {p : Token → Prop} {first : Engine} (h : Reaches p first e)
    (hlexed : ∀ t, t.Lexed → p t) (hfirst : first.stack.Sound) : e.stack.Sound :=
  h.invariant (fun _ _ _ _ he hp => sound_of_push he hp)
    (fun _ _ _ _ _ he hr => (answers_runBy hr).sound he) hlexed hfirst

lemma Reachable.sound (h : e.Reachable) : e.stack.Sound := by
  obtain ⟨limits, table, h⟩ := h
  exact h.sound (fun _ _ => trivial) Stack.sound_empty

/--
**The stack is in order**, whatever is done to an engine and however it fails: there is no command
on it, its count is the sum of the weights of its tokens, and every operator stands on as many
expressions as it takes. So, if every name stands for itself, the whole stack splits into complete
expressions, and there are as many as the count says.
-/
theorem stack_in_order (e : Engine) (h : e.Reachable) :
    (∀ c, .command c ∉ e.stack.tokens) ∧ e.stack.count = Token.weights e.stack.tokens ∧
    (∀ above o below, e.stack.tokens = above ++ .op o :: below →
      (o.arity : Int) ≤ Token.weights below) ∧
    ∃ runs, Grouping.splitAll .leaves e.stack.tokens = .ok runs ∧
      (runs.length : Int) = e.stack.count := by
  have hs := h.sound
  obtain ⟨runs, hruns, hlen⟩ := Grouping.takeRuns_leaves hs.noCommand hs.supported le_rfl
  refine ⟨hs.noCommand, hs.counted, hs.supported, runs, ?_, hlen.trans hs.counted.symm⟩
  simp only [Grouping.splitAll, hruns, bind, Except.bind]

/-- A failed sum leaves two expressions on the stack, and a failed settlement leaves one. -/
theorem adding_settling_stack_in_order :
    (∃ after, adding.run 10 .emit = some ⟨.error (.unknownFunction "x" 0), after⟩ ∧
      after.Reachable ∧ ∃ runs, Grouping.splitAll .leaves after.stack.tokens = .ok runs ∧
        (runs.length : Int) = after.stack.count) ∧
    ∃ after, settling.run 10 .settle = some ⟨.error .unwritable, after⟩ ∧
      after.Reachable ∧ ∃ runs, Grouping.splitAll .leaves after.stack.tokens = .ok runs ∧
        (runs.length : Int) = after.stack.count := by
  have hsum : adding.run 10 .emit = some ⟨.error (.unknownFunction "x" 0), adding⟩ := rfl
  have hadding : adding.Reachable := adding_reachable.run hsum
  have hsettling := settling_reachable.run settling_run
  exact ⟨⟨_, hsum, hadding, (stack_in_order adding hadding).2.2.2⟩,
    ⟨_, settling_run, hsettling, (stack_in_order _ hsettling).2.2.2⟩⟩

end Engine

end ReversePolish
