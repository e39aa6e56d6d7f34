import Mathlib.Tactic.Lemma
import ReversePolish.Console.Session

/-!
What tokens and lines do to a session.

A token changes a session by the reply of the engine to it and nothing else, and what it writes
hangs on nothing but what was written before. So sessions that differ only in their reports and
their log go on alike. A session that has ended stays as it is.
-/

namespace ReversePolish.Console.Session

variable {fuel : Nat} {s s' : Session} {t : Token} {error : Error}

/-! ### What a token writes -/

/-- The session `r` with what `s` has written, ended as `s` has. -/
def onto (s r : Session) : Session := { r with output := s.output, halted := s.halted }

lemma writeOutput_onto (c : Command) (r s : Session) (o : Output) :
    writeOutput c (s.onto r) o = (writeOutput c s o).onto r := by
  have hhalted : (s.onto r).halted = s.halted := rfl
  unfold writeOutput
  rw [hhalted]
  by_cases hs : s.halted.isSome = true
  · rw [if_pos hs, if_pos hs]
  · rw [if_neg hs, if_neg hs]
    cases o with
    | value v =>
      dsimp only
      generalize v.text? = text?
      cases text? <;> rfl
    | bytes b => rfl
    | text text => rfl

/-- What is written hangs on nothing but what was written before, and changes nothing else. -/
lemma writeOutputs_onto (t : Token) (outputs : List Output) (s r : Session) :
    (s.onto r).writeOutputs t outputs = (s.writeOutputs t outputs).onto r := by
  unfold writeOutputs
  split
  · next c =>
    unfold writeAll
    split
    · rfl
    · exact List.foldl_hom (onto · r) fun s o => writeOutput_onto _ r s o
  · rfl

lemma writeOutput_halted (c : Command) (s : Session) (o : Output) :
    (writeOutput c s o).halted = s.halted ∨
      (writeOutput c s o).halted = some (.failure .unwritable) := by
  unfold writeOutput
  split
  · exact .inl rfl
  · cases o with
    | value v =>
      dsimp only
      generalize v.text? = text?
      cases text? with
      | some text => exact .inl rfl
      | none => exact .inr rfl
    | bytes b => exact .inl rfl
    | text text => exact .inl rfl

/-- No output can end a session with a fatal error. -/
lemma writeOutputs_halted (hs : s.halted ≠ some (.fatal error)) (t : Token)
    (outputs : List Output) :
    (s.writeOutputs t outputs).halted ≠ some (.fatal error) := by
  unfold writeOutputs
  split
  · next c =>
    unfold writeAll
    split
    · exact hs
    · induction outputs generalizing s with
      | nil => exact hs
      | cons o outputs ih =>
        refine ih (s := writeOutput c s o) ?_
        obtain ho | ho := writeOutput_halted c s o
        · rwa [ho]
        · rw [ho]
          simp
  · exact hs

/-! ### What a token does -/

def respond (s : Session) (t : Token) : Option Reply → Session
  | none => s.halt .exhausted
  | some ⟨.ok outputs, after⟩ => Session.writeOutputs { s with engine := after } t outputs
  | some ⟨.error error, after⟩ =>
    if error.isFatal then
      { s with
        engine := after
        reports := ("fatal: " ++ error.message ++ "\n") :: s.reports
        halted := some (.fatal error) }
    else if error.isLanguage then
      { s with engine := after, reports := ("error: " ++ error.message ++ "\n") :: s.reports }
    else { s with engine := after, halted := some (.failure error) }

lemma exists_journal (fuel : Nat) (t : Token) (after : Engine) (s : Session) :
    ∃ log, s.journal fuel t after = { s with log := log } := by
  unfold journal
  split
  · exact ⟨_, rfl⟩
  · exact ⟨s.log, rfl⟩

lemma exists_note (level : Level) (line : String) (s : Session) :
    ∃ log, s.note level line = { s with log := log } := by
  unfold note
  split
  · exact ⟨_, rfl⟩
  · exact ⟨s.log, rfl⟩

lemma exists_runToken (hs : s.halted = none) (fuel : Nat) (t : Token) :
    ∃ log, s.runToken fuel t =
      respond { s with log := log } t (s.engine.accept (·.run fuel ·) t) := by
  unfold runToken
  rw [if_neg (by simp [hs])]
  rcases s.engine.accept (·.run fuel ·) t with _ | ⟨error | outputs, after⟩
  · exact ⟨s.log, rfl⟩
  · obtain ⟨log, hlog⟩ := exists_journal fuel t after s
    dsimp only [respond]
    rw [hlog, recover]
    split
    · exact ⟨log, rfl⟩
    · split
      · obtain ⟨log', hlog'⟩ := exists_note .debug _ { s with engine := after, log := log }
        rw [hlog']
        exact ⟨log', rfl⟩
      · exact ⟨log, rfl⟩
  · obtain ⟨log, hlog⟩ := exists_journal fuel t after s
    dsimp only
    rw [hlog]
    exact ⟨log, rfl⟩

/-! ### Sessions that go on alike -/

/-- Two sessions that differ at most in what they have reported and logged. -/
structure Alike (s s' : Session) : Prop where
  engine : s.engine = s'.engine
  output : s.output = s'.output
  halted : s.halted = s'.halted

lemma Alike.refl (s : Session) : Alike s s := ⟨rfl, rfl, rfl⟩

lemma Alike.respond (h : Alike s s') (t : Token) (reply : Option Reply) :
    Alike (s.respond t reply) (s'.respond t reply) ∧ ∃ new,
      (s.respond t reply).reports = new ++ s.reports ∧
      (s'.respond t reply).reports = new ++ s'.reports := by
  rcases reply with _ | ⟨error | outputs, after⟩
  · exact ⟨⟨h.engine, h.output, rfl⟩, [], rfl, rfl⟩
  · simp only [Session.respond]
    split
    · exact ⟨⟨rfl, h.output, rfl⟩, [_], rfl, rfl⟩
    · split
      · exact ⟨⟨rfl, h.output, h.halted⟩, [_], rfl, rfl⟩
      · exact ⟨⟨rfl, h.output, rfl⟩, [], rfl, rfl⟩
  · -- both sessions write what `s` writes, each onto itself
    have hs := writeOutputs_onto t outputs s { s with engine := after }
    have hs' := writeOutputs_onto t outputs s { s' with engine := after }
    have heq : s.onto { s' with engine := after } = { s' with engine := after } := by
      simp only [onto, h.output, h.halted]
    rw [heq] at hs'
    simp only [Session.respond, hs']
    rw [show ({ s with engine := after } : Session) = s.onto { s with engine := after } from rfl,
      hs]
    exact ⟨⟨rfl, rfl, rfl⟩, [], rfl, rfl⟩

lemma Alike.runToken (h : Alike s s') (fuel : Nat) (t : Token) :
    Alike (s.runToken fuel t) (s'.runToken fuel t) ∧ ∃ new,
      (s.runToken fuel t).reports = new ++ s.reports ∧
      (s'.runToken fuel t).reports = new ++ s'.reports := by
  cases hs : s.halted with
  | some halt =>
    have hs' : s'.halted = some halt := h.halted ▸ hs
    simp only [Session.runToken, hs, hs', Option.isSome_some, if_true]
    exact ⟨h, [], rfl, rfl⟩
  | none =>
    obtain ⟨log, hlog⟩ := exists_runToken hs fuel t
    obtain ⟨log', hlog'⟩ := exists_runToken (h.halted ▸ hs) fuel t
    have halike : Alike { s with log := log } { s' with log := log' } :=
      ⟨h.engine, h.output, h.halted⟩
    have haccept : s'.engine.accept (·.run fuel ·) t = s.engine.accept (·.run fuel ·) t := by
      rw [h.engine]
    rw [hlog, hlog', haccept]
    exact halike.respond t _

/--
A token after which the session goes on has succeeded, or it has failed with an error of the
language and left nothing but a report.
-/
lemma runToken_cases (hs : s.halted = none) (h : (s.runToken fuel t).halted = none) :
    (∃ outputs, s.engine.accept (·.run fuel ·) t = some ⟨.ok outputs, (s.runToken fuel t).engine⟩ ∧
      (s.runToken fuel t).reports = s.reports) ∨
    ∃ error, s.engine.accept (·.run fuel ·) t = some ⟨.error error, (s.runToken fuel t).engine⟩ ∧
      error.isLanguage = true ∧ (s.runToken fuel t).output = s.output ∧
      (s.runToken fuel t).reports = ("error: " ++ error.message ++ "\n") :: s.reports := by
  obtain ⟨log, hlog⟩ := exists_runToken hs fuel t
  rcases ha : s.engine.accept (·.run fuel ·) t with _ | ⟨error | outputs, after⟩
  · rw [hlog, ha] at h
    cases h
  · -- of the errors only one of the language lets the session go on
    rw [ha] at hlog
    simp only [respond] at hlog
    split at hlog
    · rw [hlog] at h
      cases h
    · split at hlog
      · next hl =>
        rw [hlog]
        exact .inr ⟨error, rfl, hl, rfl, rfl⟩
      · rw [hlog] at h
        cases h
  · rw [ha] at hlog
    have honto := writeOutputs_onto t outputs s { s with engine := after, log := log }
    have hrun : s.runToken fuel t =
      (s.writeOutputs t outputs).onto { s with engine := after, log := log } := hlog.trans honto
    rw [hrun]
    exact .inl ⟨outputs, rfl, rfl⟩

/-- Two sessions that differ at most in what they have logged. -/
structure Twins (s s' : Session) : Prop extends Alike s s' where
  reports : s.reports = s'.reports

lemma Twins.refl (s : Session) : Twins s s := ⟨.refl s, rfl⟩

lemma Twins.note (h : Twins s s') (level : Level) (line : String) :
    Twins (s.note level line) s' := by
  obtain ⟨log, hlog⟩ := exists_note level line s
  rw [hlog]
  exact ⟨⟨h.engine, h.output, h.halted⟩, h.reports⟩

lemma Twins.runToken (h : Twins s s') (t : Token) :
    Twins (s.runToken fuel t) (s'.runToken fuel t) := by
  obtain ⟨halike, new, hnew, hnew'⟩ := h.toAlike.runToken fuel t
  exact ⟨halike, by rw [hnew, hnew', h.reports]⟩

lemma Twins.foldl {α : Type} {f : Session → α → Session}
    (hf : ∀ {s s' : Session}, Twins s s' → ∀ x, Twins (f s x) (f s' x)) (h : Twins s s')
    (xs : List α) : Twins (xs.foldl f s) (xs.foldl f s') := by
  induction xs generalizing s s' with
  | nil => exact h
  | cons x xs ih => exact ih (hf h x)

lemma Twins.runLine (h : Twins s s') (line : String) :
    Twins (s.runLine fuel line) (s'.runLine fuel line) := by
  unfold Session.runLine
  rw [h.halted]
  split
  · exact h
  · split
    · next ts _ => exact h.foldl Twins.runToken ts
    · split
      · exact ⟨⟨h.engine, h.output, h.halted⟩, congrArg (List.cons _) h.reports⟩
      · exact ⟨⟨h.engine, h.output, rfl⟩, h.reports⟩

lemma Twins.writeSize (h : Twins s s') : Twins s.writeSize s'.writeSize := by
  unfold Session.writeSize
  rw [h.halted, h.engine]
  split
  · exact h
  · exact ⟨⟨h.engine, congrArg (List.cons _) h.output, h.halted⟩, h.reports⟩

lemma Twins.runLines (h : Twins s s') (fuel : Nat) (showStack : Bool) (lines : List String) :
    Twins (s.runLines fuel showStack lines) (s'.runLines fuel showStack lines) := by
  refine h.foldl ?_ lines
  intro s s' h line
  split
  · exact (h.runLine line).writeSize
  · exact h.runLine line

/-! ### Sessions that have ended -/

lemma runToken_of_halted (s : Session) (t : Token) (h : s.halted.isSome = true) :
    s.runToken fuel t = s := by
  rw [runToken, if_pos h]

section Halting

variable {α : Type} {f : Session → α → Session}
  (hf : ∀ (s : Session) (x : α), s.halted.isSome = true → f s x = s)

include hf

lemma foldl_of_halted (h : s.halted.isSome = true) (xs : List α) : xs.foldl f s = s := by
  induction xs with
  | nil => rfl
  | cons x xs ih => rw [List.foldl_cons, hf s x h, ih]

lemma halted_of_foldl {xs : List α} (h : (xs.foldl f s).halted = none) : s.halted = none := by
  cases hs : s.halted with
  | none => rfl
  | some halt =>
    rw [foldl_of_halted hf (by simp [hs]) xs, hs] at h
    cases h

/-- A run that ends a session ends it at some point, and nothing after this has an effect. -/
lemma exists_halting {xs : List α} (hs : s.halted = none)
    (h : (xs.foldl f s).halted.isSome = true) :
    ∃ before x after, xs = before ++ x :: after ∧ (before.foldl f s).halted = none ∧
      xs.foldl f s = f (before.foldl f s) x := by
  induction xs generalizing s with
  | nil => simp [hs] at h
  | cons x xs ih =>
    cases hx : (f s x).halted with
    | some halt => exact ⟨[], x, xs, rfl, hs, foldl_of_halted hf (by simp [hx]) xs⟩
    | none =>
      obtain ⟨before, y, after, rfl, hbefore, hlast⟩ := ih hx h
      exact ⟨x :: before, y, after, rfl, hbefore, hlast⟩

end Halting

def passLine (fuel : Nat) (showStack : Bool) (s : Session) (line : String) : Session :=
  if showStack then (s.runLine fuel line).writeSize else s.runLine fuel line

lemma runLines_append (fuel : Nat) (showStack : Bool) (s : Session) (lines more : List String) :
    s.runLines fuel showStack (lines ++ more) =
      (s.runLines fuel showStack lines).runLines fuel showStack more := List.foldl_append

lemma runLines_cons (fuel : Nat) (showStack : Bool) (s : Session) (line : String)
    (lines : List String) : s.runLines fuel showStack (line :: lines) =
      (passLine fuel showStack s line).runLines fuel showStack lines := rfl

lemma runLine_of_halted (h : s.halted.isSome = true) (line : String) : s.runLine fuel line = s := by
  rw [runLine, if_pos h]

lemma writeSize_of_halted (h : s.halted.isSome = true) : s.writeSize = s := by
  rw [writeSize, if_pos h]

lemma passLine_of_halted {showStack : Bool} (s : Session) (line : String)
    (h : s.halted.isSome = true) :
    passLine fuel showStack s line = s := by
  rw [passLine, runLine_of_halted h, writeSize_of_halted h, ite_self]

lemma runLines_of_halted {showStack : Bool} (h : s.halted.isSome = true) (lines : List String) :
    s.runLines fuel showStack lines = s := foldl_of_halted passLine_of_halted h lines

lemma passLine_frame (fuel : Nat) (showStack : Bool) (s : Session) (line : String) :
    (passLine fuel showStack s line).engine = (s.runLine fuel line).engine ∧
      (passLine fuel showStack s line).reports = (s.runLine fuel line).reports ∧
      (passLine fuel showStack s line).halted = (s.runLine fuel line).halted := by
  unfold passLine
  split
  · unfold writeSize
    split
    · exact ⟨rfl, rfl, rfl⟩
    · exact ⟨rfl, rfl, rfl⟩
  · exact ⟨rfl, rfl, rfl⟩

end ReversePolish.Console.Session
