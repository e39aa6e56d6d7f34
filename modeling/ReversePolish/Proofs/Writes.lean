import ReversePolish.Proofs.Atomicity
import ReversePolish.Proofs.Postfix

/-!
What is written to the table.

A write changes what one name stands for. Of the commands only three write, each once and only if
it succeeds: a binding writes a value, and a declaration writes a body whose trees were built from
tokens of the stack, grouped by the arities of the table with the new function among them.
-/

namespace ReversePolish

section Maps

variable {α β : Type} {cmp : α → α → Ordering} [Std.TransCmp cmp] [Std.LawfulEqCmp cmp]
  (s : Std.ExtTreeMap α β cmp)

lemma getElem?_insert_eq [DecidableEq α] (a b : α) (v : β) :
    (s.insert a v)[b]? = if b = a then some v else s[b]? := by
  rw [Std.ExtTreeMap.getElem?_insert]
  simp only [Std.LawfulEqCmp.compare_eq_iff_eq, @eq_comm _ a b]

/-- Erasing all keys with one feature leaves the others as they were. -/
lemma getElem?_filter_ne {γ : Type} [DecidableEq γ] (feature : α → γ) (c : γ) (a : α) :
    (s.filter fun key _ => feature key ≠ c)[a]? = if feature a = c then none else s[a]? := by
  rw [Std.ExtTreeMap.getElem?_filter']
  by_cases h : feature a = c
  · simp [h]
  · simp only [h, ne_eq, not_false_eq_true, decide_true, if_false]
    cases s[a]? <;> rfl

end Maps

namespace Table

variable (t : Table) (d : Definition) (n : String) (k : Int)

lemma definition?_define : (t.define d).definition? n k =
    if n = d.name ∧ k = d.arity then some d else t.definition? n k := by
  simp only [definition?, define, getElem?_insert_eq, Definition.key, Prod.mk.injEq]

lemma definition?_bind (m : String) (v : Number) : (t.bind m v).definition? n k =
    if n = m then none else t.definition? n k :=
  getElem?_filter_ne t.functions Prod.fst m (n, k)

lemma arityOf_define_apply :
    (t.define d).arityOf n = if n = d.name then some d.arity else t.arityOf n :=
  getElem?_insert_eq _ _ _ _

lemma arityOf_bind (m : String) (v : Number) : (t.bind m v).arityOf n =
    if n = m then none else t.arityOf n :=
  getElem?_filter_ne t.latest id m n

lemma valueOf?_define : (t.define d).valueOf? n = if n = d.name then none else t.valueOf? n :=
  getElem?_filter_ne t.values id d.name n

lemma valueOf?_bind (m : String) (v : Number) : (t.bind m v).valueOf? n =
    if n = m then some v else t.valueOf? n :=
  getElem?_insert_eq _ _ _ _

lemma body?_define : (t.define d).body? n k =
    if n = d.name ∧ k = d.arity then some d.body else t.body? n k := by
  rw [body?, definition?_define]
  split <;> rfl

lemma body?_bind (m : String) (v : Number) : (t.bind m v).body? n k =
    if n = m then none else t.body? n k := by
  rw [body?, definition?_bind]
  split <;> rfl

lemma body?_empty : empty.body? n k = none := by simp [body?, definition?, empty]

/-- A declaration changes the arities as the body that is declared has seen them. -/
lemma arityOf_define : (t.define d).arityOf = t.arityOf.declare d.name d.arity := by
  funext m
  exact t.arityOf_define_apply d m

lemma ext_lookup {t u : Table} (hvalues : ∀ n, t.valueOf? n = u.valueOf? n)
    (hfunctions : ∀ n k, t.definition? n k = u.definition? n k)
    (hlatest : ∀ n, t.arityOf n = u.arityOf n) (hgeneration : t.generation = u.generation) :
    t = u := by
  have hv : t.values = u.values := Std.ExtTreeMap.ext_getElem? hvalues
  have hf : t.functions = u.functions :=
    Std.ExtTreeMap.ext_getElem? fun key => hfunctions key.1 key.2
  have hl : t.latest = u.latest := Std.ExtTreeMap.ext_getElem? hlatest
  cases t
  cases u
  congr

/-- Declaring a function once more changes nothing but the number of writes. -/
lemma define_define : (t.define d).define d =
    { t.define d with generation := (t.define d).generation + 1 } := by
  refine ext_lookup (fun n => ?_) (fun n k => ?_) (fun n => ?_) rfl
  · change ((t.define d).define d).valueOf? n = (t.define d).valueOf? n
    simp only [valueOf?_define]
    split <;> rfl
  · change ((t.define d).define d).definition? n k = (t.define d).definition? n k
    simp only [definition?_define]
    split <;> rfl
  · change ((t.define d).define d).arityOf n = (t.define d).arityOf n
    simp only [arityOf_define_apply]
    split <;> rfl

def Keyed (t : Table) : Prop := ∀ n k d, t.definition? n k = some d → d.name = n ∧ d.arity = k

lemma keyed_empty : empty.Keyed := by
  intro n k d h
  simp [definition?, empty] at h

/-- No function was declared last with less than no arguments. -/
def Natural (t : Table) : Prop := ∀ n k, t.arityOf n = some k → 0 ≤ k

lemma natural_empty : empty.Natural := by
  intro n k h
  simp [arityOf, empty] at h

variable {t}

lemma Keyed.bind (h : t.Keyed) (m : String) (v : Number) : (t.bind m v).Keyed := by
  intro n k d hd
  rw [definition?_bind] at hd
  split at hd
  · cases hd
  · exact h n k d hd

lemma Keyed.define (h : t.Keyed) : (t.define d).Keyed := by
  intro n k d' hd
  rw [definition?_define] at hd
  split at hd
  · next hkey =>
    cases hd
    exact ⟨hkey.1.symm, hkey.2.symm⟩
  · exact h n k d' hd

lemma Natural.token (h : t.Natural) (token : Token) : t.arityOf.Natural token :=
  fun n a _ ha => h n a ha

lemma Natural.declare (h : t.Natural) {k : Int} (hk : 0 ≤ k) (token : Token) :
    (t.arityOf.declare n k).Natural token := by
  intro m a _ ha
  simp only [Arities.declare] at ha
  split at ha
  · cases ha
    exact hk
  · exact h m a ha

lemma Natural.bind (h : t.Natural) (m : String) (v : Number) : (t.bind m v).Natural := by
  intro n k hk
  rw [arityOf_bind] at hk
  split at hk
  · cases hk
  · exact h n k hk

lemma Natural.define (h : t.Natural) (hd : 0 ≤ d.arity) : (t.define d).Natural := by
  intro n k hk
  rw [arityOf_define_apply] at hk
  split at hk
  · cases hk
    exact hd
  · exact h n k hk

end Table

open ReversePolish.Expr (GroupedBy IndexBelow)

/-- The parts of a body refer only to so many arguments, and a loop passes on as many. -/
structure Body.Closed (arity : Int) (body : Body) : Prop where
  below : ∀ x ∈ body.parts, x.Every (IndexBelow arity)
  steps : ∀ loop, body = .iterative loop → (loop.steps.length : Int) = arity

namespace Engine

variable {e after : Engine} {eval : Expr → Option Outcome} {outputs : List Output} {r : Reply}

/-- A body that was made of tokens on the stack, for a function with a name and an arity. -/
structure Built (e : Engine) (name : String) (arity : Nat) (body : Body) : Prop where
  grouped : ∀ x ∈ body.parts, x.Every (GroupedBy (e.table.arityOf.declare name arity).clamped)
  closed : body.Closed arity
  taken : ∀ x ∈ body.parts, ∀ t ∈ x.tokens, t ∈ e.stack.tokens

/-! ### Trees from the stack -/

lemma tokens_of_pop {arities : Arities} {arity : Int} {x : Expr} {popped : Engine}
    (h : e.pop arities arity = (.ok x, popped)) :
    x.Every (GroupedBy arities.clamped) ∧ x.Every (IndexBelow arity) ∧
      ∀ t ∈ x.tokens, t ∈ e.stack.tokens := by
  unfold pop at h
  split at h
  · cases h
  · next run below htop =>
    injection h with hbuild hpopped
    obtain ⟨rfl, hg, hi⟩ := Grouping.build_eq_ok_iff.mp hbuild
    refine ⟨hg, hi, fun t ht => ?_⟩
    rw [Grouping.topRun_eq_ok htop]
    simp [ht]

lemma of_buildAll_eq_ok {arities : Arities} {arity : Int} {runs : List (List Token)}
    {es : List Expr} (h : Grouping.buildAll arities arity runs = .ok es) :
    es.map Expr.tokens = runs ∧
      ∀ x ∈ es, x.Every (GroupedBy arities.clamped) ∧ x.Every (IndexBelow arity) := by
  induction runs generalizing es with
  | nil =>
    cases h
    exact ⟨rfl, by simp⟩
  | cons run runs ih =>
    obtain ⟨x, es', hx, hes, rfl⟩ := Grouping.buildAll_cons_eq_ok h
    obtain ⟨hruns, hall⟩ := ih hes
    obtain ⟨rfl, hg⟩ := Grouping.build_eq_ok_iff.mp hx
    refine ⟨by rw [List.map_cons, hruns], fun y hy => ?_⟩
    rcases List.mem_cons.mp hy with rfl | hy
    · exact hg
    · exact hall y hy

/-! ### Declarations -/

lemma declare_eq_ok {name : String} {arity : Nat}
    (h : e.declare name arity = ⟨.ok outputs, after⟩) : ∃ x popped,
      e.pop (e.table.arityOf.declare name arity) arity = (.ok x, popped) ∧ outputs = [] ∧
      after = { popped with table := e.table.define ⟨name, arity, .recursive x⟩ } := by
  unfold declare at h
  split at h
  · cases h
  · next x popped hpop =>
    cases h
    exact ⟨x, popped, hpop, rfl, rfl⟩

lemma built_declare {name : String} {arity : Nat} {x : Expr} {popped : Engine}
    (h : e.pop (e.table.arityOf.declare name arity) arity = (.ok x, popped)) :
    Built e name arity (.recursive x) := by
  obtain ⟨hg, hi, ht⟩ := tokens_of_pop h
  refine ⟨by simpa [Body.parts] using hg, ⟨by simpa [Body.parts] using hi, ?_⟩,
    by simpa [Body.parts] using ht⟩
  intro loop hloop
  cases hloop

/-- The parts of a loop are its steps, its terminal expression and its predicate, and no others. -/
lemma parts_of_loopOfParts? {parts : List Expr} {loop : Loop}
    (h : loopOfParts? parts = some loop) : (Body.iterative loop).parts = parts := by
  unfold loopOfParts? at h
  split at h
  · next predicate terminal steps hparts =>
    cases h
    rw [← List.reverse_reverse parts, hparts]
    simp [Body.parts]
  · cases h

lemma declareLoop_eq_ok {name : String} {arity : Nat}
    (h : e.declareLoop name arity = ⟨.ok outputs, after⟩) : ∃ parts popped loop,
      e.popParts (e.table.arityOf.declare name arity) arity = .ok (parts, popped) ∧
      loopOfParts? parts = some loop ∧ outputs = [] ∧
      after = { popped with table := e.table.define ⟨name, arity, .iterative loop⟩ } := by
  unfold declareLoop at h
  split at h
  · cases h
  · next parts popped hparts =>
    split at h
    · next loop hloop =>
      cases h
      exact ⟨parts, popped, loop, hparts, hloop, rfl, rfl⟩
    · cases h

lemma built_declareLoop {name : String} {arity : Nat} {parts : List Expr} {popped : Engine}
    {loop : Loop} (h : e.popParts (e.table.arityOf.declare name arity) arity = .ok (parts, popped))
    (hl : loopOfParts? parts = some loop) : Built e name arity (.iterative loop) := by
  obtain ⟨runs, below, hsplit, hbuild, -⟩ := popParts_eq_ok h
  obtain ⟨hruns, hall⟩ := of_buildAll_eq_ok hbuild
  have hparts := parts_of_loopOfParts? hl
  refine ⟨?_, ⟨?_, ?_⟩, ?_⟩
  · rw [hparts]
    exact fun x hx => (hall x hx).1
  · rw [hparts]
    exact fun x hx => (hall x hx).2
  · -- of so many parts all but the last two are steps
    intro loop' hloop'
    cases hloop'
    have hlen := congrArg List.length hruns
    rw [← hparts] at hlen
    simp only [Body.parts, List.length_map, List.length_append, List.length_cons, List.length_nil,
      List.length_reverse, (Grouping.splitTop_eq_ok_iff.mp hsplit).2] at hlen
    omega
  · rw [hparts]
    intro x hx t ht
    have hrun : x.tokens ∈ runs := by
      rw [← List.mem_reverse, ← hruns]
      exact List.mem_map_of_mem hx
    exact Grouping.mem_of_takeRuns (Grouping.splitTop_eq_ok_iff.mp hsplit).1 hrun ht

/-- A declaration that succeeds writes a body that was built from the stack, and nothing else. -/
lemma runBy_declaration_eq_ok {c : Command} {name : String} {arity : Nat}
    (hc : c = .declare name arity ∨ c = .declareLoop name arity)
    (h : e.runBy eval c = some ⟨.ok outputs, after⟩) : ∃ body, Built e name arity body ∧
      outputs = [] ∧ after.table = e.table.define ⟨name, arity, body⟩ := by
  rcases hc with rfl | rfl
  · obtain ⟨x, popped, hpop, hout, rfl⟩ := declare_eq_ok (Option.some.inj h)
    exact ⟨_, built_declare hpop, hout, rfl⟩
  · obtain ⟨parts, popped, loop, hparts, hloop, hout, rfl⟩ := declareLoop_eq_ok (Option.some.inj h)
    exact ⟨_, built_declareLoop hparts hloop, hout, rfl⟩

/-! ### What a command writes -/

inductive Wrote (e : Engine) : Command → Table → Prop
  | nothing {c : Command} : Wrote e c e.table
  | value (name : String) (v : Number) : Wrote e (.bind name) (e.table.bind name v)
  | function {c : Command} {name : String} {arity : Nat} {body : Body}
      (hc : c = .declare name arity ∨ c = .declareLoop name arity) (hb : Built e name arity body) :
    Wrote e c (e.table.define ⟨name, arity, body⟩)

lemma withTop_eq_ok {next : Number → Engine → Reply}
    (h : e.withTop eval next = some ⟨.ok outputs, after⟩) : ∃ v popped, Below e popped ∧
      next v popped = ⟨.ok outputs, after⟩ := by
  unfold withTop at h
  split at h
  · cases h
  · next x popped hpop =>
    split at h
    · cases h
    · exact ⟨_, popped, below_pop hpop, Option.some.inj h⟩
    · cases h

lemma ifWritable_eq_ok {v : Number} (h : e.ifWritable v r = ⟨.ok outputs, after⟩) :
    r = ⟨.ok outputs, after⟩ := by
  unfold ifWritable at h
  split at h
  · exact h
  · cases h

lemma wrote_of_flush (h : e.flush eval = some ⟨.ok outputs, after⟩) :
    Wrote e .flush after.table := by
  unfold flush at h
  split at h
  · cases h
  · dsimp only at h
    split at h
    · cases h
    · cases h
      exact .nothing
    · cases h

lemma wrote_of_ok {c : Command} (h : e.runBy eval c = some ⟨.ok outputs, after⟩) :
    Wrote e c after.table := by
  -- a command that takes the top expression off leaves the table as it was
  have hsame : ∀ {c : Command} {popped : Engine}, Below e popped → Wrote e c popped.table := by
    intro c popped hp
    rw [hp.table]
    exact .nothing
  cases c with
  | emit =>
    obtain ⟨v, popped, hp, hnext⟩ := withTop_eq_ok h
    cases hnext
    exact hsame hp
  | bind name =>
    obtain ⟨v, popped, hp, hnext⟩ := withTop_eq_ok h
    cases hnext
    dsimp only
    rw [hp.table]
    exact .value name v
  | settle =>
    obtain ⟨v, popped, hp, hnext⟩ := withTop_eq_ok h
    cases ifWritable_eq_ok hnext
    change Wrote e _ popped.table
    exact hsame hp
  | double =>
    obtain ⟨v, popped, hp, hnext⟩ := withTop_eq_ok h
    cases ifWritable_eq_ok hnext
    change Wrote e _ popped.table
    exact hsame hp
  | bytes =>
    obtain ⟨v, popped, hp, hnext⟩ := withTop_eq_ok h
    cases hnext
    exact hsame hp
  | flush => exact wrote_of_flush h
  | list =>
    simp only [runBy] at h
    split at h <;> cases h
    exact .nothing
  | drop =>
    simp only [runBy] at h
    split at h <;> cases h
    exact .nothing
  | clear =>
    cases h
    exact .nothing
  | declare name arity =>
    obtain ⟨body, hb, -, htable⟩ := runBy_declaration_eq_ok (.inl rfl) h
    rw [htable]
    exact .function (.inl rfl) hb
  | declareLoop name arity =>
    obtain ⟨body, hb, -, htable⟩ := runBy_declaration_eq_ok (.inr rfl) h
    rw [htable]
    exact .function (.inr rfl) hb
  | unknown symbol =>
    simp only [runBy] at h
    split at h <;> cases h

lemma table_of_error {c : Command} {error : Error}
    (h : e.runBy eval c = some ⟨.error error, after⟩) : after.table = e.table := by
  obtain ⟨popped, hp, rfl⟩ := (answers_runBy h).of_error
  unfold fail
  dsimp only
  split
  · exact hp.table
  · exact hp.table

lemma wrote_of_runBy {c : Command} (h : e.runBy eval c = some r) : Wrote e c r.engine.table := by
  obtain ⟨error | outputs, after⟩ := r
  · rw [table_of_error h]
    exact .nothing
  · exact wrote_of_ok h

lemma Reaches.table_invariant {p : Token → Prop} {inv : Table → Prop} {first : Engine}
    (hbind : ∀ t n v, inv t → inv (t.bind n v))
    (hdefine : ∀ t d, 0 ≤ d.arity → inv t → inv (t.define d)) (h : Reaches p first e)
    (hlexed : ∀ t, t.Lexed → p t) (hfirst : inv first.table) : inv e.table := by
  have hpush : ∀ (e e' : Engine) (t : Token), p t → inv e.table → e.push t = .ok e' →
      inv e'.table := by
    intro e e' t _ he hp
    rw [(push_eq_ok hp).1]
    exact he
  have hrun : ∀ (e : Engine) (fuel : Nat) (c : Command) (r : Reply), p (.command c) →
      inv e.table → e.run fuel c = some r → inv r.engine.table := by
    intro e fuel c r _ he hr
    have hwrote := wrote_of_runBy hr
    generalize r.engine.table = table at hwrote
    cases hwrote with
    | nothing => exact he
    | value name v => exact hbind _ name v he
    | @function _ name arity body _ _ => exact hdefine _ _ (Int.natCast_nonneg arity) he
  exact h.invariant hpush hrun hlexed hfirst

lemma Reaches.natural {p : Token → Prop} {first : Engine} (h : Reaches p first e)
    (hlexed : ∀ t, t.Lexed → p t) (hfirst : first.table.Natural) : e.table.Natural :=
  h.table_invariant (fun _ n v ht => ht.bind n v) (fun _ d hd ht => ht.define d hd) hlexed hfirst

lemma Reaches.keyed {p : Token → Prop} {first : Engine} (h : Reaches p first e)
    (hlexed : ∀ t, t.Lexed → p t) (hfirst : first.table.Keyed) : e.table.Keyed :=
  h.table_invariant (fun _ n v ht => ht.bind n v) (fun _ d _ ht => ht.define d) hlexed hfirst

lemma Sourced.natural (h : e.Sourced) : e.table.Natural := by
  obtain ⟨limits, h⟩ := h
  exact h.natural (fun _ => id) Table.natural_empty

lemma Sourced.keyed (h : e.Sourced) : e.table.Keyed := by
  obtain ⟨limits, h⟩ := h
  exact h.keyed (fun _ => id) Table.keyed_empty

end Engine

end ReversePolish
