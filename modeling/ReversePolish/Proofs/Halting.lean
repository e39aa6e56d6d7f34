import Mathlib.Logic.Relation
import ReversePolish.Machine

/-!
Runs of the machine: which states lead to which, and the outcome a state ends with.

The number of steps is given up here. A machine that has halted within some number of steps halts
in the same way within any greater one, so a state has at most one outcome. The only fatal outcome
is the error that names the limit.
-/

namespace ReversePolish.Machine

variable (scope : Scope) (limit : Int)

def Leads : State → State → Prop :=
  Relation.ReflTransGen fun s t => step scope limit s = .continue t

def Halts (s : State) (o : Outcome) : Prop := ∃ fuel, run scope limit fuel s = some o

variable {scope limit} {s t u : State} {o o' : Outcome} {fuel fuel' : Nat}

lemma run_continue (h : step scope limit s = .continue t) :
    run scope limit (fuel + 1) s = run scope limit fuel t := by
  simp [run, h]

lemma run_halt (h : step scope limit s = .halt o) : run scope limit (fuel + 1) s = some o := by
  simp [run, h]

lemma run_eq_some (h : run scope limit fuel s = some o) :
    ∃ rest, fuel = rest + 1 ∧ (step scope limit s = .halt o ∨
      ∃ t, step scope limit s = .continue t ∧ run scope limit rest t = some o) := by
  cases fuel with
  | zero => simp [run] at h
  | succ rest =>
    refine ⟨rest, rfl, ?_⟩
    cases hs : step scope limit s with
    | «continue» t => exact Or.inr ⟨t, rfl, by rwa [run_continue hs] at h⟩
    | halt o' =>
      rw [run_halt hs] at h
      cases h
      exact Or.inl rfl
    | stuck => simp [run, hs] at h

lemma run_mono (h : run scope limit fuel s = some o) (hle : fuel ≤ fuel') :
    run scope limit fuel' s = some o := by
  induction fuel generalizing s fuel' with
  | zero => simp [run] at h
  | succ fuel ih =>
    obtain ⟨rest, rfl⟩ : ∃ rest, fuel' = rest + 1 := ⟨fuel' - 1, by omega⟩
    obtain ⟨_, hrest, hs | ⟨t, hs, ht⟩⟩ := run_eq_some h
    · exact run_halt hs
    · cases hrest
      rw [run_continue hs]
      exact ih ht (by omega)

lemma run_unique (h : run scope limit fuel s = some o) (h' : run scope limit fuel' s = some o') :
    o = o' := by
  rcases Nat.le_total fuel fuel' with hle | hle
  · rw [run_mono h hle] at h'
    exact Option.some.inj h'
  · rw [run_mono h' hle] at h
    exact (Option.some.inj h).symm

lemma Halts.unique (h : Halts scope limit s o) (h' : Halts scope limit s o') : o = o' := by
  obtain ⟨fuel, h⟩ := h
  obtain ⟨fuel', h'⟩ := h'
  exact run_unique h h'

lemma Halts.of_step (h : step scope limit s = .halt o) : Halts scope limit s o :=
  ⟨1, run_halt h⟩

lemma halts_continue (h : step scope limit s = .continue t) :
    Halts scope limit s o ↔ Halts scope limit t o := by
  constructor
  · rintro ⟨fuel, hr⟩
    obtain ⟨rest, -, hs | ⟨t', hs, ht⟩⟩ := run_eq_some hr
    · rw [h] at hs
      cases hs
    · rw [h] at hs
      cases hs
      exact ⟨rest, ht⟩
  · rintro ⟨fuel, hr⟩
    exact ⟨fuel + 1, by rwa [run_continue h]⟩

lemma Leads.refl : Leads scope limit s s := Relation.ReflTransGen.refl

lemma Leads.one (h : step scope limit s = .continue t) : Leads scope limit s t :=
  Relation.ReflTransGen.single h

lemma Leads.trans (h : Leads scope limit s t) (h' : Leads scope limit t u) :
    Leads scope limit s u :=
  Relation.ReflTransGen.trans h h'

lemma Leads.halts_iff (h : Leads scope limit s t) :
    Halts scope limit s o ↔ Halts scope limit t o := by
  induction h with
  | refl => exact Iff.rfl
  | tail _ hs ih => exact ih.trans (halts_continue hs)

/-! ### Fatal errors -/

lemma isFatal_showing {a : Number} {error : Error} (h : error.isFatal = false) :
    (Error.showing a error).isFatal = false := by
  unfold Error.showing
  split
  · exact h
  · rfl

lemma isFatal_naming {i : Int} {error : Error} (h : error.isFatal = false) :
    (Error.naming i error).isFatal = false := by
  unfold Error.naming
  split
  · exact h
  · rfl

lemma argument_eq_error {frame : Frame} {i : Int} {error : Error}
    (h : frame.argument i = .error error) :
    error = .outOfRange i frame.length ∨ ∃ fault, error = .noArgument fault := by
  unfold Frame.argument at h
  split at h
  · exact .inl (Except.error.inj h).symm
  · split at h <;> cases h
    exact .inr ⟨_, rfl⟩

lemma isFatal_argument {frame : Frame} {i : Int} {error : Error}
    (h : frame.argument i = .error error) : error.isFatal = false := by
  rcases argument_eq_error h with herror | ⟨fault, herror⟩
  · rw [herror, Error.outOfRange]
    exact isFatal_naming (isFatal_naming rfl)
  · rw [herror]
    rfl

lemma naming_of_fits {i : Int} {error : Error} (h : Decimal.fits i.natAbs = true) :
    Error.naming i error = error := by
  unfold Error.naming
  exact if_pos h

lemma naming_of_not_fits {i : Int} {error : Error} (h : Decimal.fits i.natAbs = false) :
    Error.naming i error = .unwritable := by
  unfold Error.naming
  exact if_neg (Bool.not_eq_true _ ▸ h)

/-- The error of a limit that is hit is fatal if the limit can be written. -/
lemma tooDeep_of_fits {limit : Int} (h : Decimal.fits limit.natAbs = true) :
    Error.tooDeep limit = .depthExceeded limit := by
  unfold Error.tooDeep
  exact naming_of_fits h

lemma tooDeep_of_not_fits {limit : Int} (h : Decimal.fits limit.natAbs = false) :
    Error.tooDeep limit = .unwritable := by
  unfold Error.tooDeep
  exact naming_of_not_fits h

lemma tooDeep_of_isFatal {limit : Int} (h : (Error.tooDeep limit).isFatal = true) :
    Error.tooDeep limit = .depthExceeded limit := by
  cases hfits : Decimal.fits limit.natAbs with
  | true => exact tooDeep_of_fits hfits
  | false =>
    rw [tooDeep_of_not_fits hfits] at h
    cases h

lemma apply_eq_error {op : Binary} {a b : Number} {error : Error}
    (h : op.apply a b = .error error) : error = .showing a (.divisionByZero a) := by
  cases op <;> simp only [Binary.apply, Number.quotient, Number.floorQuotient, reduceCtorEq] at h
  all_goals
    split at h <;> simp only [Except.error.injEq, reduceCtorEq] at h
    exact h.symm

lemma modularPower_eq_error {a e m : Number} {error : Error}
    (h : a.modularPower e m = .error error) : error = .showing a (.modulusZero a) := by
  simp only [Number.modularPower] at h
  split at h <;> simp only [Except.error.injEq, reduceCtorEq] at h
  exact h.symm

variable {error : Error} {tasks : List Task} {values : List Number} {d : Nat}

lemma put_eq_halt (h : put o tasks values d = .halt (.error error)) : o = .error error := by
  cases o with
  | ok v => cases h
  | error error' => simpa [put] using h

lemma isFatal_expand {e : Expr} {frame : Frame}
    (h : expand scope e frame tasks values d = .halt (.error error)) : error.isFatal = false := by
  cases e with
  | arg i =>
    simp only [expand] at h
    split at h
    · cases h
    · next error' harg =>
      cases h
      exact isFatal_argument harg
  | name n =>
    simp only [expand] at h
    split at h <;> cases h
  | literal v => cases h
  | binary op l r => cases h
  | powMod b e m => cases h
  | select t u p => cases h
  | call n args => cases h

lemma enter_fatal {n : String} {frame : Frame}
    (h : enter scope limit n frame tasks values d = .halt (.error error))
    (hf : error.isFatal = true) : error = .depthExceeded limit := by
  unfold enter at h
  split at h
  · cases h
    cases hf
  · cases h
  · split at h
    · have herror : Error.tooDeep limit = error := Except.error.inj (Step.halt.inj h)
      rw [← herror] at hf ⊢
      exact tooDeep_of_isFatal hf
    · cases h

lemma step_fatal (h : step scope limit s = .halt (.error error)) (hf : error.isFatal = true) :
    error = .depthExceeded limit := by
  unfold step at h
  split at h <;> try cases h
  · simp [isFatal_expand h] at hf
  · rw [apply_eq_error (put_eq_halt h), isFatal_showing rfl] at hf
    cases hf
  · rw [modularPower_eq_error (put_eq_halt h), isFatal_showing rfl] at hf
    cases hf
  · exact enter_fatal h hf
  · split at h <;> cases h

lemma halts_fatal (h : Halts scope limit s (.error error)) (hf : error.isFatal = true) :
    error = .depthExceeded limit := by
  obtain ⟨fuel, h⟩ := h
  induction fuel generalizing s with
  | zero => cases h
  | succ fuel ih =>
    obtain ⟨rest, hrest, hs | ⟨t, hs, ht⟩⟩ := run_eq_some h
    · exact step_fatal hs hf
    · cases hrest
      exact ih ht

end ReversePolish.Machine
