import ReversePolish.Proofs.Actions

/-!
Commands are atomic.

Whatever a command does, it begins by taking tokens off the top of the stack, and it writes to the
table only when nothing can fail any more. If it fails with an error of the language, the tokens are
put back and counted anew; that this is the old count is an invariant of the stack. If it fails in
another way, the stack stays as far as it was taken apart.
-/

namespace ReversePolish

namespace Token

@[simp] lemma weights_nil : weights [] = 0 := rfl

@[simp] lemma weights_cons (t : Token) (ts : List Token) :
    weights (t :: ts) = t.weight + weights ts := rfl

@[simp] lemma weights_append (ts us : List Token) :
    weights (ts ++ us) = weights ts + weights us := by
  induction ts with
  | nil => simp
  | cons t ts ih => simp [ih, Int.add_assoc]

@[simp] lemma weights_reverse (ts : List Token) : weights ts.reverse = weights ts := by
  induction ts with
  | nil => rfl
  | cons t ts ih => simp [ih, Int.add_comm]

lemma weights_flatten_reverse (runs : List (List Token)) :
    weights (runs.map List.reverse).flatten = weights runs.flatten := by
  induction runs with
  | nil => rfl
  | cons run runs ih => simp [ih]

end Token

namespace Stack

def Counted (s : Stack) : Prop := s.count = Token.weights s.tokens

/-- What is left of a stack when tokens are taken off its top. -/
inductive Below (s : Stack) : Stack → Prop
  | taken {tokens below : List Token} {count : Int} (h : s.tokens = tokens ++ below)
      (hc : count = s.count - Token.weights tokens) : Below s ⟨below, count⟩
  | cleared : Below s .empty

variable {s s' : Stack}

lemma Below.refl : Below s s := .taken (List.nil_append _).symm (by simp)

lemma Below.counted (h : Below s s') (hs : s.Counted) : s'.Counted := by
  cases h with
  | taken h hc =>
    have hw := congrArg Token.weights h
    simp only [Counted, Token.weights_append] at hs hw ⊢
    omega
  | cleared => rfl

lemma Below.toList_prefix (h : Below s s') : s'.toList <+: s.toList := by
  cases h with
  | @taken tokens below count h hc => exact ⟨tokens.reverse, by simp [toList, h]⟩
  | cleared => exact List.nil_prefix

lemma Counted.push (hs : s.Counted) (t : Token) : (s.push t).Counted := by
  simp only [Counted, Stack.push, Token.weights_cons] at hs ⊢
  omega

lemma Counted.ofTokens_eq (hs : s.Counted) : ofTokens s.tokens = s := by
  rw [ofTokens, ← hs]

end Stack

namespace Engine

variable {e e' popped : Engine} {r : Reply}

structure Below (e e' : Engine) : Prop where
  limits : e'.limits = e.limits
  table : e'.table = e.table
  stack : e.stack.Below e'.stack

lemma Below.refl : Below e e := ⟨rfl, rfl, .refl⟩

lemma Below.cleared : Below e { e with stack := .empty } := ⟨rfl, rfl, .cleared⟩

lemma Below.removed {tokens run below : List Token} (h : e.stack.tokens = tokens ++ below)
    (hw : Token.weights run = Token.weights tokens) :
    Below e { e with stack := e.stack.remove run below } :=
  ⟨rfl, rfl, .taken h (by rw [hw])⟩

def pushValues (e : Engine) (vs : List Number) : Engine := vs.foldl pushValue e

/-- What a command comes to: it fails with less on the stack, or it succeeds. -/
inductive Answers (e : Engine) : Reply → Prop
  | fails {popped : Engine} (h : Below e popped) (error : Error) : Answers e (e.fail popped error)
  /-- Numbers are pushed on what is left of the stack, and the table is written to. -/
  | succeeds {popped : Engine} (h : Below e popped) (vs : List Number) (table : Table)
      (outputs : List Output) :
    Answers e ⟨.ok outputs, { popped.pushValues vs with table := table }⟩

/-! ### Every command answers -/

lemma below_pop {arities : Arities} {arity : Int} {result : Except Error Expr}
    (h : e.pop arities arity = (result, popped)) : Below e popped := by
  unfold pop at h
  split at h
  · cases h
    exact .refl
  · next run below htop =>
    cases h
    exact .removed (Grouping.topRun_eq_ok htop) (by simp)

lemma answers_withTop {eval : Expr → Option Outcome} {next : Number → Engine → Reply}
    (hnext : ∀ v popped, Below e popped → Answers e (next v popped))
    (h : e.withTop eval next = some r) : Answers e r := by
  unfold withTop at h
  split at h
  · next error popped hpop =>
    cases h
    exact .fails (below_pop hpop) error
  · next expr popped hpop =>
    split at h
    · cases h
    · cases h
      exact hnext _ popped (below_pop hpop)
    · cases h
      exact .fails (below_pop hpop) _

lemma answers_ifWritable {v : Number} (h : Below e popped) (hr : Answers e r) :
    Answers e (popped.ifWritable v r) := by
  unfold ifWritable
  split
  · exact hr
  · exact .fails h .unwritable

lemma answers_flush {eval : Expr → Option Outcome} (h : e.flush eval = some r) : Answers e r := by
  unfold flush at h
  split at h
  · cases h
    exact .fails .refl _
  · dsimp only at h
    split at h
    · cases h
    · cases h
      exact .succeeds .cleared [] e.table _
    · cases h
      exact .fails .cleared _

lemma answers_declare (name : String) (arity : Nat) : Answers e (e.declare name arity) := by
  unfold declare
  split
  · next error popped hpop => exact .fails (below_pop hpop) error
  · next body popped hpop => exact .succeeds (below_pop hpop) [] _ []

lemma popParts_eq_ok {arities : Arities} {arity : Nat} {parts : List Expr}
    (h : e.popParts arities arity = .ok (parts, popped)) : ∃ runs below,
      Grouping.splitTop arities (arity + 2) e.stack.tokens = .ok (runs, below) ∧
      Grouping.buildAll arities arity runs.reverse = .ok parts ∧
      popped = { e with stack := e.stack.remove runs.flatten below } := by
  obtain ⟨⟨runs, below⟩, hsplit, h⟩ := bind_eq_ok h
  obtain ⟨parts', hbuild, h⟩ := bind_eq_ok h
  cases h
  exact ⟨runs, below, hsplit, hbuild, rfl⟩

lemma below_popParts {arities : Arities} {arity : Nat} {parts : List Expr}
    (h : e.popParts arities arity = .ok (parts, popped)) : Below e popped := by
  obtain ⟨runs, below, hsplit, -, rfl⟩ := popParts_eq_ok h
  have htokens := Grouping.takeRuns_eq_ok (Grouping.splitTop_eq_ok_iff.mp hsplit).1
  exact .removed htokens.1 (Token.weights_flatten_reverse runs).symm

lemma answers_declareLoop (name : String) (arity : Nat) :
    Answers e (e.declareLoop name arity) := by
  unfold declareLoop
  split
  · exact .fails .refl _
  · next parts popped hparts =>
    split
    · exact .succeeds (below_popParts hparts) [] _ []
    · exact .fails .refl _

lemma answers_runBy {eval : Expr → Option Outcome} {c : Command} (h : e.runBy eval c = some r) :
    Answers e r := by
  -- the first five commands take off the top expression, and differ in what they put back
  cases c with
  | emit => exact answers_withTop (fun v popped hp => .succeeds hp [] popped.table _) h
  | bind name => exact answers_withTop (fun v popped hp => .succeeds hp [] _ _) h
  | settle =>
    refine answers_withTop (fun v popped hp => answers_ifWritable hp ?_) h
    exact .succeeds hp [v] popped.table _
  | double =>
    refine answers_withTop (fun v popped hp => answers_ifWritable hp ?_) h
    exact .succeeds hp [v, v] popped.table _
  | bytes => exact answers_withTop (fun v popped hp => .succeeds hp [] popped.table _) h
  | flush => exact answers_flush h
  | list =>
    simp only [runBy] at h
    split at h
    · cases h
      exact .succeeds .refl [] e.table _
    · cases h
      exact .fails .refl _
  | drop =>
    simp only [runBy] at h
    split at h
    · next run below htop =>
      cases h
      exact .succeeds (.removed (Grouping.topRun_eq_ok htop) (by simp)) [] e.table []
    · cases h
      exact .fails .refl _
  | clear =>
    cases h
    exact .succeeds .cleared [] e.table []
  | declare name arity =>
    cases h
    exact answers_declare name arity
  | declareLoop name arity =>
    cases h
    exact answers_declareLoop name arity
  | unknown symbol =>
    simp only [runBy] at h
    split at h <;> cases h
    · exact .fails .refl _
    · exact .fails .refl _

/-! ### Reachable engines -/

/-- A push puts the token on the stack; it is no command, and an operator has its operands there. -/
lemma push_eq_ok {t : Token} (h : e.push t = .ok e') : e' = { e with stack := e.stack.push t } ∧
    (∀ c, t ≠ .command c) ∧ ∀ o, t = .op o → (o.arity : Int) ≤ e.stack.count := by
  unfold push at h
  split at h
  · cases h
  · next o =>
    split at h
    · cases h
    · next hle =>
      cases h
      refine ⟨rfl, by simp, fun o' ho => ?_⟩
      cases ho
      omega
  · next hc ho =>
    cases h
    exact ⟨rfl, hc, fun o hop => absurd hop (ho o)⟩

lemma counted_pushValues (h : e.stack.Counted) (vs : List Number) :
    (e.pushValues vs).stack.Counted := by
  induction vs generalizing e with
  | nil => exact h
  | cons v vs ih => exact ih (h.push (.number v))

lemma Answers.counted (h : Answers e r) (he : e.stack.Counted) : r.engine.stack.Counted := by
  cases h with
  | fails h error =>
    unfold fail
    dsimp only
    split
    · rfl
    · exact h.stack.counted he
  | succeeds h vs table outputs => exact counted_pushValues (h.stack.counted he) vs

lemma Reachable.counted (h : Reachable e) : e.stack.Counted := by
  obtain ⟨limits, table, h⟩ := h
  have hpush : ∀ (e e' : Engine) (t : Token), True → e.stack.Counted → e.push t = .ok e' →
      e'.stack.Counted := by
    intro e e' t _ he hp
    rw [(push_eq_ok hp).1]
    exact he.push t
  exact h.invariant hpush (fun _ _ _ _ _ he hr => (answers_runBy hr).counted he)
    (fun _ _ => trivial) rfl

/-! ### Failures -/

/-- A failure is reported after tokens were taken off, and may put them back. -/
lemma Answers.of_error {error : Error} {after : Engine} (h : Answers e ⟨.error error, after⟩) :
    ∃ popped, Below e popped ∧ after = (e.fail popped error).engine := by
  generalize hr : (⟨.error error, after⟩ : Reply) = r at h
  cases h with
  | fails h error' =>
    injection hr with hresult hengine
    cases hresult
    exact ⟨_, h, hengine⟩
  | succeeds => cases hr

/--
**Atomicity**: a command that fails with an error of the language, the limit on calls included,
leaves the engine exactly as it was. One that fails in any other way leaves the table as it was, and
a stack that is the lower part of what it was and still has its right count.
-/
theorem run_error_atomic {e : Engine} (he : e.Reachable) (fuel : Nat) (c : Command) (error : Error)
    (after : Engine) (h : e.run fuel c = some ⟨.error error, after⟩) :
    (error.isLanguage = true → after = e) ∧
    (error.isLanguage = false → after.table = e.table ∧ after.stack.toList <+: e.stack.toList ∧
      after.stack.count = Token.weights after.stack.tokens) := by
  obtain ⟨popped, hp, hafter⟩ := (answers_runBy h).of_error
  constructor
  · intro hl
    simp only [fail, hl, if_true] at hafter
    rw [hafter, he.counted.ofTokens_eq, hp.limits, hp.table]
  · intro hl
    simp only [fail, hl, Bool.false_eq_true, if_false] at hafter
    rw [hafter]
    exact ⟨hp.table, hp.stack.toList_prefix, hp.stack.counted he.counted⟩

def adding : Engine :=
  ⟨.standard, .ofTokens [.op (.binary .add), .name "x", .number 1, .number 7], .empty⟩

lemma adding_reachable : adding.Reachable :=
  ((((Reachable.start .standard .empty).push (.number 7) rfl).push (.number 1) rfl).push
    (.name "x") rfl).push (.op (.binary .add)) rfl

def settling : Engine :=
  ⟨.standard, .ofTokens [.number (Decimal.bound : Int), .number 7], .empty⟩

lemma settling_reachable : settling.Reachable :=
  ((Reachable.start .standard .empty).push (.number 7) rfl).push (.number (Decimal.bound : Int)) rfl

lemma ifWritable_eq_error {v : Number} (h : Token.literal? v = none) :
    e.ifWritable v r = ⟨.error .unwritable, e⟩ := by
  unfold ifWritable
  split
  · next t ht => simp [h] at ht
  · rfl

lemma literal?_bound : Token.literal? (Decimal.bound : Int) = none := by
  have hbound : Decimal.fits Decimal.bound = false := decide_eq_false (Nat.lt_irrefl _)
  have hfits : Number.fits (Decimal.bound : Int) = false := by
    rw [Number.fits, Rat.num_intCast, Int.natAbs_natCast, hbound, Bool.false_and]
  rw [Token.literal?, hfits, if_neg Bool.false_ne_true]

lemma settling_run : settling.run 10 .settle =
    some ⟨.error .unwritable, { settling with stack := .ofTokens [.number 7] }⟩ := by
  have hpop : settling.pop settling.table.arityOf 0 = (.ok (.literal (Decimal.bound : Int)),
      { settling with stack := .ofTokens [.number 7] }) := rfl
  have hvalue : settling.outcome 10 (.literal (Decimal.bound : Int)) =
      some (.ok (Decimal.bound : Int)) := rfl
  simp only [run, runBy, withTop, hpop, hvalue, ifWritable_eq_error literal?_bound]

/--
A sum that fails is put back. A number that cannot be written is gone, and what is below it stays.
-/
theorem adding_settling_run_error_atomic :
    (∃ after, adding.run 10 .emit = some ⟨.error (.unknownFunction "x" 0), after⟩ ∧
      after = adding) ∧
    ∃ after, settling.run 10 .settle = some ⟨.error .unwritable, after⟩ ∧
      after.table = settling.table ∧ after.stack.toList <+: settling.stack.toList ∧
      after.stack.count = Token.weights after.stack.tokens := by
  have hsum : adding.run 10 .emit = some ⟨.error (.unknownFunction "x" 0), adding⟩ := rfl
  exact ⟨⟨_, hsum, (run_error_atomic adding_reachable _ _ _ _ hsum).1 rfl⟩,
    ⟨_, settling_run, (run_error_atomic settling_reachable _ _ _ _ settling_run).2 rfl⟩⟩

end Engine

end ReversePolish
