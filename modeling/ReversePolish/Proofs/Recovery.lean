import ReversePolish.Console.Program
import ReversePolish.Proofs.Atomicity
import ReversePolish.Proofs.Session

/-!
Tokens that fail have no effect on a session.

An error of the language leaves the engine as it was, so a session goes on after it as if the token
had not been there: it writes the same and comes to the same engine as a session that gets only the
tokens that succeed. All that is left of an error is its report. A fatal error is different, since
nothing is run after it.
-/

namespace ReversePolish

/-- What becomes of a token, or of a line that cannot be read. -/
inductive Event
  | done (t : Token)
  | refused (t : Token) (error : Error)
  | unread (line : String) (error : Error)

namespace Event

def token? : Event → Option Token
  | .done t => some t
  | .refused _ _ => none
  | .unread _ _ => none

def error? : Event → Option Error
  | .done _ => none
  | .refused _ error => some error
  | .unread _ error => some error

def kept (events : List Event) : List Token := events.filterMap token?

/-- The reports of all errors, in order. -/
def complaints (events : List Event) : List String :=
  (events.filterMap error?).map fun error => "error: " ++ error.message ++ "\n"

variable (events more : List Event)

lemma kept_append : kept (events ++ more) = kept events ++ kept more :=
  List.filterMap_append

lemma complaints_append : complaints (events ++ more) = complaints events ++ complaints more := by
  simp [complaints]

end Event

lemma Error.isLanguage_of_isFatal {error : Error} (h : error.isFatal = true) :
    error.isLanguage = true := by
  cases error with
  | depthExceeded _ => rfl
  | _ => cases h

namespace Engine

variable (fuel : Nat)

def next (e : Engine) (t : Token) : Engine :=
  match e.accept (·.run fuel ·) t with
  | some r => r.engine
  | none => e

/-- What becomes of a token, if this is found within so many steps. -/
def event? (e : Engine) (t : Token) : Option Event :=
  match e.accept (·.run fuel ·) t with
  | some ⟨.ok _, _⟩ => some (.done t)
  | some ⟨.error error, _⟩ => some (.refused t error)
  | none => none

def events : Engine → List Token → List Event
  | _, [] => []
  | e, t :: ts => (e.event? fuel t).toList ++ (e.next fuel t).events ts

/-- The engine after a line, which has no effect if it cannot be read. -/
def nextLine (e : Engine) (line : String) : Engine :=
  match Token.ofSource line with
  | .ok ts => ts.foldl (next fuel) e
  | .error _ => e

def lineEvents (e : Engine) (line : String) : List Event :=
  match Token.ofSource line with
  | .ok ts => e.events fuel ts
  | .error error => [.unread line error]

def linesEvents : Engine → List String → List Event
  | _, [] => []
  | e, line :: lines => e.lineEvents fuel line ++ (e.nextLine fuel line).linesEvents lines

variable {fuel : Nat} {e after : Engine} {t : Token} {error : Error} {r : Reply}

lemma events_append (e : Engine) (ts us : List Token) :
    e.events fuel (ts ++ us) = e.events fuel ts ++ (ts.foldl (next fuel) e).events fuel us := by
  induction ts generalizing e with
  | nil => rfl
  | cons t ts ih => simp only [List.cons_append, events, ih, List.foldl_cons, List.append_assoc]

lemma exists_command_of_isFatal (h : e.accept (·.run fuel ·) t = some ⟨.error error, after⟩)
    (hf : error.isFatal = true) :
    ∃ c, t = .command c ∧ e.run fuel c = some ⟨.error error, after⟩ := by
  unfold accept at h
  split at h
  · next c => exact ⟨c, rfl, h⟩
  · -- no error of a push is fatal
    unfold pushToken at h
    split at h
    · cases h
    · next error' hp =>
      cases h
      unfold push at hp
      split at hp
      · cases hp
        cases hf
      · split at hp <;> cases hp
        cases hf
      · cases hp

/-- A token that fails with an error of the language leaves the engine as it was. -/
lemma eq_of_accept_error (hc : e.stack.Counted)
    (h : e.accept (·.run fuel ·) t = some ⟨.error error, after⟩) (hl : error.isLanguage = true) :
    after = e := by
  unfold accept at h
  split at h
  · -- the tokens are put back and counted anew, which gives the count that was there
    obtain ⟨popped, hp, rfl⟩ := (answers_runBy h).of_error
    simp only [fail, hl, if_true, hc.ofTokens_eq, hp.limits, hp.table]
  · unfold pushToken at h
    split at h <;> cases h
    rfl

lemma counted_of_accept (hc : e.stack.Counted) (h : e.accept (·.run fuel ·) t = some r) :
    r.engine.stack.Counted := by
  unfold accept at h
  split at h
  · exact (answers_runBy h).counted hc
  · rw [← Option.some.inj h, pushToken]
    split
    · next e' hp =>
      have he' : e'.stack = e.stack.push t := by rw [(push_eq_ok hp).1]
      exact he' ▸ hc.push t
    · exact hc

end Engine

namespace Console

namespace Session

variable {fuel : Nat} {s s₁ s₂ : Session} {t : Token} {e e' : Engine} {events more : List Event}

/-! ### What is left of a run when all that fails is dropped -/

/-- The session `s'` has the engine `e`, and has reported the errors of some events since `s`. -/
structure Accounts (s s' : Session) (e : Engine) (events : List Event) : Prop where
  engine : s'.engine = e
  counted : e.stack.Counted
  reports : s'.reports = (Event.complaints events).reverse ++ s.reports

/--
The tokens kept of some events, run alone by any session alike to `s`, all succeed and lead to a
session alike to `s'`.
-/
structure Reduces (fuel : Nat) (s s' : Session) (e : Engine) (events : List Event) : Prop
    extends Accounts s s' e events where
  kept_engine : (Event.kept events).foldl (Engine.next fuel) s.engine = e
  kept_done : s.engine.events fuel (Event.kept events) = (Event.kept events).map .done
  kept_alike {r : Session} (h : Alike s r) :
    Alike s' ((Event.kept events).foldl (runToken fuel) r) ∧
      ((Event.kept events).foldl (runToken fuel) r).reports = r.reports

lemma Accounts.refl (hc : s.engine.stack.Counted) : Accounts s s s.engine [] := ⟨rfl, hc, rfl⟩

lemma Accounts.trans (h : Accounts s s₁ e events) (h' : Accounts s₁ s₂ e' more) :
    Accounts s s₂ e' (events ++ more) where
  engine := h'.engine
  counted := h'.counted
  reports := by
    rw [h'.reports, h.reports, Event.complaints_append, List.reverse_append, List.append_assoc]

lemma Reduces.refl (hc : s.engine.stack.Counted) : Reduces fuel s s s.engine [] :=
  ⟨.refl hc, rfl, rfl, fun h => ⟨h, rfl⟩⟩

lemma Reduces.trans (h : Reduces fuel s s₁ e events) (h' : Reduces fuel s₁ s₂ e' more) :
    Reduces fuel s s₂ e' (events ++ more) where
  toAccounts := h.toAccounts.trans h'.toAccounts
  kept_engine := by
    rw [Event.kept_append, List.foldl_append, h.kept_engine, ← h.engine, h'.kept_engine]
  kept_done := by
    rw [Event.kept_append, Engine.events_append, h.kept_done, h.kept_engine, ← h.engine,
      h'.kept_done, List.map_append]
  kept_alike := by
    intro r hr
    obtain ⟨halike, hreports⟩ := h.kept_alike hr
    obtain ⟨halike', hreports'⟩ := h'.kept_alike halike
    rw [Event.kept_append, List.foldl_append]
    exact ⟨halike', hreports'.trans hreports⟩

lemma reduces_runToken (hc : s.engine.stack.Counted) (hs : s.halted = none)
    (h : (s.runToken fuel t).halted = none) :
    Reduces fuel s (s.runToken fuel t) (s.engine.next fuel t) (s.engine.event? fuel t).toList := by
  obtain ⟨outputs, ha, hreports⟩ | ⟨error, ha, hl, houtput, hreports⟩ := runToken_cases hs h
  · have hnext : s.engine.next fuel t = (s.runToken fuel t).engine := by rw [Engine.next, ha]
    have hevent : s.engine.event? fuel t = some (.done t) := by rw [Engine.event?, ha]
    rw [hevent]
    refine ⟨⟨hnext.symm, hnext ▸ Engine.counted_of_accept hc ha, hreports⟩, rfl, ?_, ?_⟩
    · change (s.engine.event? fuel t).toList ++ [] = [.done t]
      rw [hevent]
      rfl
    · intro r hr
      obtain ⟨halike, new, hnew, hnew'⟩ := hr.runToken fuel t
      have hnil : new = [] := List.append_left_eq_self.1 (hnew.symm.trans hreports)
      exact ⟨halike, hnew'.trans (by rw [hnil, List.nil_append])⟩
  · -- the error has put back all that was taken, so it is as if there had been no token
    have hsame : (s.runToken fuel t).engine = s.engine := Engine.eq_of_accept_error hc ha hl
    have hnext : s.engine.next fuel t = s.engine := by rw [Engine.next, ha, hsame]
    have hevent : s.engine.event? fuel t = some (.refused t error) := by rw [Engine.event?, ha]
    rw [hevent, hnext]
    refine ⟨⟨hsame, hc, hreports⟩, rfl, rfl, ?_⟩
    intro r hr
    exact ⟨⟨hsame.trans hr.engine, houtput.trans hr.output, h.trans (hs ▸ hr.halted)⟩, rfl⟩

lemma reduces_tokens (ts : List Token) (hc : s.engine.stack.Counted)
    (h : (ts.foldl (runToken fuel) s).halted = none) :
    Reduces fuel s (ts.foldl (runToken fuel) s) (ts.foldl (Engine.next fuel) s.engine)
      (s.engine.events fuel ts) := by
  induction ts generalizing s with
  | nil => exact .refl hc
  | cons t ts ih =>
    have hs : s.halted = none := halted_of_foldl runToken_of_halted h
    have hfirst : (s.runToken fuel t).halted = none := halted_of_foldl runToken_of_halted h
    have htoken := reduces_runToken hc hs hfirst
    have hrest := ih (s := s.runToken fuel t) (htoken.engine ▸ htoken.counted) h
    rw [htoken.engine] at hrest
    exact htoken.trans hrest

lemma reduces_runLine {line : String} (hc : s.engine.stack.Counted) (hs : s.halted = none)
    (h : (s.runLine fuel line).halted = none) :
    Reduces fuel s (s.runLine fuel line) (s.engine.nextLine fuel line)
      (s.engine.lineEvents fuel line) := by
  have hgoes : ¬ s.halted.isSome = true := by simp [hs]
  rw [runLine, if_neg hgoes] at h ⊢
  unfold Engine.nextLine Engine.lineEvents
  cases hline : Token.ofSource line with
  | ok ts =>
    rw [hline] at h
    exact reduces_tokens ts hc h
  | error error =>
    rw [hline] at h
    by_cases hl : error.isLanguage = true
    · -- a line that cannot be read leaves a report and nothing else
      simp only [hl, if_true]
      exact ⟨⟨rfl, hc, rfl⟩, rfl, rfl, fun hr => ⟨⟨hr.engine, hr.output, hr.halted⟩, rfl⟩⟩
    · simp only [hl] at h
      cases h

lemma reduces_runLines (lines : List String) (hc : s.engine.stack.Counted)
    (h : (s.runLines fuel false lines).halted = none) :
    ∃ e, Reduces fuel s (s.runLines fuel false lines) e (s.engine.linesEvents fuel lines) := by
  induction lines generalizing s with
  | nil => exact ⟨_, .refl hc⟩
  | cons line lines ih =>
    have hs : s.halted = none := halted_of_foldl passLine_of_halted h
    have hfirst : (s.runLine fuel line).halted = none := halted_of_foldl passLine_of_halted h
    have hline := reduces_runLine hc hs hfirst
    obtain ⟨e, hrest⟩ := ih (s := s.runLine fuel line) (hline.engine ▸ hline.counted) h
    rw [hline.engine] at hrest
    exact ⟨e, hline.trans hrest⟩

lemma accounts_runLines (showStack : Bool) (lines : List String) (hc : s.engine.stack.Counted)
    (h : (s.runLines fuel showStack lines).halted = none) :
    ∃ e, Accounts s (s.runLines fuel showStack lines) e (s.engine.linesEvents fuel lines) := by
  induction lines generalizing s with
  | nil => exact ⟨_, .refl hc⟩
  | cons line lines ih =>
    have hs : s.halted = none := halted_of_foldl passLine_of_halted h
    rw [runLines_cons] at h ⊢
    have hfirst : (passLine fuel showStack s line).halted = none :=
      halted_of_foldl passLine_of_halted h
    obtain ⟨hengine, hreports, hhalted⟩ := passLine_frame fuel showStack s line
    have hline := (reduces_runLine hc hs (hhalted.symm.trans hfirst)).toAccounts
    have hpass : Accounts s (passLine fuel showStack s line) _ _ :=
      ⟨hengine.trans hline.engine, hline.counted, hreports.trans hline.reports⟩
    obtain ⟨e, hrest⟩ := ih (s := passLine fuel showStack s line) (hpass.engine ▸ hpass.counted) h
    rw [hpass.engine] at hrest
    exact ⟨e, hpass.trans hrest⟩

/-! ### Fatal errors -/

/-- The session that has run some lines, and then some tokens of the next. -/
def reached (s : Session) (fuel : Nat) (showStack : Bool) (before : List String)
    (done : List Token) : Session :=
  done.foldl (runToken fuel) (s.runLines fuel showStack before)

/--
Of the lines that a session runs, those `before` and the tokens `done` of the next do not end it,
and after them comes a command that fails with a fatal error.
-/
def Breaks (s : Session) (fuel : Nat) (showStack : Bool) (lines before : List String)
    (done : List Token) (error : Error) : Prop :=
  ∃ line after c rest e, lines = before ++ line :: after ∧
    Token.ofSource line = .ok (done ++ .command c :: rest) ∧
    (s.reached fuel showStack before done).halted = none ∧
    (s.reached fuel showStack before done).engine.run fuel c = some ⟨.error error, e⟩ ∧
    error.isFatal = true

variable {showStack : Bool} {lines before after : List String} {line : String}
  {done rest : List Token} {error : Error}

lemma accounts_reached (hc : s.engine.stack.Counted)
    (h : (s.reached fuel showStack before done).halted = none) :
    ∃ e, Accounts s (s.reached fuel showStack before done) e
      (s.engine.linesEvents fuel before ++
        (s.runLines fuel showStack before).engine.events fuel done) := by
  have hbefore : (s.runLines fuel showStack before).halted = none :=
    halted_of_foldl runToken_of_halted h
  obtain ⟨e, hlines⟩ := accounts_runLines showStack before hc hbefore
  have htokens := reduces_tokens done (hlines.engine ▸ hlines.counted) h
  exact ⟨_, hlines.trans htokens.toAccounts⟩

/-- A token that ends the session is the last that has an effect. -/
lemma runLines_of_halting (hline : Token.ofSource line = .ok (done ++ t :: rest))
    (hlast : (s.reached fuel showStack before done).halted = none)
    (h : ((s.reached fuel showStack before done).runToken fuel t).halted.isSome = true) :
    s.runLines fuel showStack (before ++ line :: after) =
      (s.reached fuel showStack before done).runToken fuel t := by
  have hbefore : (s.runLines fuel showStack before).halted = none :=
    halted_of_foldl runToken_of_halted hlast
  have hrun : (s.runLines fuel showStack before).runLine fuel line =
      (s.reached fuel showStack before done).runToken fuel t := by
    rw [runLine, if_neg (by simp [hbefore]), hline]
    simp only [List.foldl_append, List.foldl_cons]
    exact foldl_of_halted runToken_of_halted h rest
  have hpass : passLine fuel showStack (s.runLines fuel showStack before) line =
      (s.reached fuel showStack before done).runToken fuel t := by
    rw [passLine, hrun, writeSize_of_halted h, ite_self]
  rw [runLines_append, runLines_cons, hpass, runLines_of_halted h]

/-- Nothing that comes after a fatal error has an effect. -/
lemma Breaks.runLines (h : s.Breaks fuel showStack lines before done error)
    (hc : s.engine.stack.Counted) :
    let final := s.runLines fuel showStack lines
    let last := s.reached fuel showStack before done
    final.engine = last.engine ∧ final.output = last.output ∧
      final.reports = ("fatal: " ++ error.message ++ "\n") :: last.reports ∧
      final.halted = some (.fatal error) := by
  obtain ⟨line, after, c, rest, e, rfl, hline, hlast, hrun, hfatal⟩ := h
  obtain ⟨e', hreached⟩ := accounts_reached hc hlast
  have hsame : e = (s.reached fuel showStack before done).engine :=
    Engine.eq_of_accept_error (t := .command c) (hreached.engine ▸ hreached.counted) hrun
      (Error.isLanguage_of_isFatal hfatal)
  obtain ⟨log, htoken⟩ := exists_runToken hlast fuel (.command c)
  have haccept : (s.reached fuel showStack before done).engine.accept (·.run fuel ·) (.command c) =
      some ⟨.error error, e⟩ := hrun
  rw [haccept] at htoken
  simp only [respond, hfatal, if_true] at htoken
  dsimp only
  rw [runLines_of_halting hline hlast (by rw [htoken]; rfl), htoken]
  exact ⟨hsame, rfl, rfl, rfl⟩

lemma exists_command_of_fatal (hs : s.halted = none)
    (h : (s.runToken fuel t).halted = some (.fatal error)) :
    ∃ c e, t = .command c ∧ s.engine.run fuel c = some ⟨.error error, e⟩ ∧
      error.isFatal = true := by
  obtain ⟨log, hlog⟩ := exists_runToken hs fuel t
  rcases ha : s.engine.accept (·.run fuel ·) t with _ | ⟨error' | outputs, after⟩
  · rw [hlog, ha] at h
    cases h
  · rw [ha] at hlog
    simp only [respond] at hlog
    split at hlog
    · next hfatal =>
      rw [hlog] at h
      cases h
      obtain ⟨c, rfl, hrun⟩ := Engine.exists_command_of_isFatal ha hfatal
      exact ⟨c, after, rfl, hrun, hfatal⟩
    · -- any other error lets the session go on, or ends it in another way
      split at hlog
      · rw [hlog] at h
        exact absurd (hs.symm.trans h) (by simp)
      · rw [hlog] at h
        cases h
  · rw [hlog, ha] at h
    have hgoes : ({ s with log := log, engine := after } : Session).halted ≠
        some (.fatal error) := by
      simp [hs]
    exact absurd h (writeOutputs_halted hgoes t outputs)

lemma exists_breaks (hs : s.halted = none)
    (h : (s.runLines fuel showStack lines).halted = some (.fatal error)) :
    ∃ before done, s.Breaks fuel showStack lines before done error := by
  have hsome : (s.runLines fuel showStack lines).halted.isSome = true := by rw [h]; rfl
  -- first the line at which the session ends is found, and then the token
  obtain ⟨before, line, after, rfl, hbefore, hfinal⟩ := exists_halting passLine_of_halted hs hsome
  change (s.runLines fuel showStack before).halted = none at hbefore
  change s.runLines fuel showStack (before ++ line :: after) =
    passLine fuel showStack (s.runLines fuel showStack before) line at hfinal
  rw [hfinal, (passLine_frame fuel showStack _ line).2.2, runLine, if_neg (by simp [hbefore])] at h
  cases hline : Token.ofSource line with
  | error error' =>
    rw [hline] at h
    dsimp only at h
    split at h
    · exact absurd (hbefore.symm.trans h) (by simp)
    · cases h
  | ok ts =>
    rw [hline] at h
    dsimp only at h
    have hsome : (ts.foldl (runToken fuel) (s.runLines fuel showStack before)).halted.isSome =
        true := by
      rw [h]
      rfl
    obtain ⟨done, t, rest, rfl, hdone, hlast⟩ := exists_halting runToken_of_halted hbefore hsome
    rw [hlast] at h
    obtain ⟨c, e, rfl, hrun, hfatal⟩ := exists_command_of_fatal hdone h
    exact ⟨before, done, line, after, c, rest, e, rfl, hline, hdone, hrun, hfatal⟩

end Session

/-! ### The whole program -/

/--
All lines that a run is to read one after the other, and why it goes no further if a script cannot
be read.
-/
def World.program (w : World) (o : Options) : List String → List String × Option Failure
  | [] => (if o.readInput then Text.inputLines w.input else [], none)
  | file :: files =>
    match w.script (plainPath file) with
    | .error failure => ([], some failure)
    | .ok lines => (lines ++ (w.program o files).1, (w.program o files).2)

/-- The transcript of a run whose lines were all run by a session, which then stopped as said. -/
structure Transcript.Tells (tr : Transcript) (final : Session) (stop : Option Failure) : Prop where
  output : tr.output = final.output.reverse
  reports : tr.reports = String.join final.reports.reverse
  ending : tr.ending = if final.halted.isSome then final.ending else stop.elim (.ok 0) .error

variable {fuel : Nat} {s s' : Session}

lemma tells_ofSession (h : s.Twins s') (stop : Option Failure) {ending : Except Failure Nat}
    (hending : ending = if s.halted.isSome then s.ending else stop.elim (.ok 0) .error) :
    (Transcript.ofSession s ending).Tells s' stop where
  output := congrArg List.reverse h.output
  reports := by rw [Transcript.ofSession, h.reports]
  ending := by
    have hends : s.ending = s'.ending := by rw [Session.ending, h.halted, Session.ending]
    rw [← h.halted, ← hends]
    exact hending

/-- Scripts and the input run as one sequence of lines would. -/
lemma tells_runScripts (w : World) (fuel : Nat) (o : Options) (files : List String) (h : s.Twins s')
    (hs : s.halted = none) :
    (runScripts w fuel o s files).Tells (s'.runLines fuel o.showStack (w.program o files).1)
      (w.program o files).2 := by
  induction files generalizing s s' with
  | nil =>
    have hends : ∀ s : Session, s.ending = if s.halted.isSome then s.ending else .ok 0 := by
      intro s
      cases hs : s.halted with
      | none => simp only [Session.ending, hs]; rfl
      | some halt => rfl
    unfold runScripts World.program
    dsimp only
    cases o.readInput with
    | true => exact tells_ofSession (h.runLines fuel o.showStack _) none (hends _)
    | false => exact tells_ofSession h none (hends _)
  | cons file files ih =>
    have hnote : ∀ line, (s.note .info line).Twins s' := h.note .info
    have hgoes : ∀ line, (s.note .info line).halted = none := fun line =>
      (hnote line).halted.trans (h.halted.symm.trans hs)
    unfold runScripts World.program
    dsimp only
    cases w.script (plainPath file) with
    | error failure =>
      -- the session goes no further, and the failure is what ends the run
      refine tells_ofSession (hnote _) (some failure) ?_
      simp [hgoes]
    | ok lines =>
      have hlines := fun line => (hnote line).runLines fuel o.showStack lines
      dsimp only
      rw [Session.runLines_append]
      split
      · next hhalted =>
        -- a session that has ended passes over all the lines that are left
        have hhalted' := (hlines _).halted ▸ hhalted
        rw [Session.runLines_of_halted hhalted']
        exact tells_ofSession (hlines _) _ (if_pos hhalted).symm
      · next hhalted => exact ih (hlines _) (by simpa using hhalted)

lemma Transcript.Tells.ending_of_none {tr : Transcript} (h : tr.Tells s none)
    (hs : s.halted = none) : tr.ending = .ok 0 := by
  rw [h.ending, hs]
  rfl

lemma Transcript.Tells.ending_of_fatal {tr : Transcript} {stop : Option Failure} {error : Error}
    (h : tr.Tells s stop) (hs : s.halted = some (.fatal error)) : tr.ending = .ok 1 := by
  have hending : s.ending = .ok 1 := by rw [Session.ending, hs]
  rw [h.ending, hs, hending]
  rfl

/-- Any exit code but 0 is that of a fatal error. -/
lemma Transcript.Tells.eq_zero_or_fatal {tr : Transcript} {stop : Option Failure} {code : Nat}
    (h : tr.Tells s stop) (hcode : tr.ending = .ok code) :
    code = 0 ∨ ∃ error, s.halted = some (.fatal error) := by
  rw [h.ending] at hcode
  rcases hs : s.halted with _ | error | error | _
  · rw [hs] at hcode
    cases stop with
    | none => exact .inl (Except.ok.inj hcode).symm
    | some failure => cases hcode
  · exact .inr ⟨error, rfl⟩
  · rw [Session.ending, hs] at hcode
    cases hcode
  · rw [Session.ending, hs] at hcode
    cases hcode

lemma run_eq_ran {w : World} {args : List String} {o : Options} {level : Level} {limits : Limits}
    (ho : Options.ofArguments args = .ok o) (hlevel : o.findLevel = .ok level)
    (hlimits : o.findLimits w.defaults = .ok limits) :
    run w fuel args = .ran (runScripts w fuel o (.new limits level) o.files) := by
  unfold run
  rw [ho]
  dsimp only
  rw [hlevel, hlimits]

/-- The session that gets only the tokens that have not failed. -/
def Session.reduced (s : Session) (fuel : Nat) (lines : List String) : Session :=
  (Event.kept (s.engine.linesEvents fuel lines)).foldl (Session.runToken fuel) s

/-- A session passes over all that fails in some lines. -/
structure Session.PassesOver (s : Session) (fuel : Nat) (lines : List String) : Prop where
  output : (s.reduced fuel lines).output = (s.runLines fuel false lines).output
  engine : (s.reduced fuel lines).engine = (s.runLines fuel false lines).engine
  /-- Nothing that is kept fails, when it is run alone. -/
  done : s.engine.events fuel (Event.kept (s.engine.linesEvents fuel lines)) =
    (Event.kept (s.engine.linesEvents fuel lines)).map .done
  halted : (s.reduced fuel lines).halted = none
  silent : (s.reduced fuel lines).reports = s.reports
  /-- Each line and each token that is dropped has given one report, in order. -/
  reports : (s.runLines fuel false lines).reports =
    (Event.complaints (s.engine.linesEvents fuel lines)).reverse ++ s.reports

/--
A run of the program is broken off by a fatal error, which comes after the lines `before` and the
tokens `done` of the next.
-/
structure Transcript.BreaksOff (tr : Transcript) (s : Session) (fuel : Nat) (showStack : Bool)
    (lines before : List String) (done : List Token) (error : Error) : Prop where
  ending : tr.ending = .ok 1
  output : tr.output = (s.reached fuel showStack before done).output.reverse
  engine : (s.runLines fuel showStack lines).engine = (s.reached fuel showStack before done).engine
  reports : tr.reports = String.join (Event.complaints (s.engine.linesEvents fuel before ++
    (s.runLines fuel showStack before).engine.events fuel done) ++
      ["fatal: " ++ error.message ++ "\n"])

lemma Session.Breaks.breaksOff {showStack : Bool} {lines before : List String} {done : List Token}
    {error : Error} {tr : Transcript} {stop : Option Failure}
    (h : s.Breaks fuel showStack lines before done error) (hc : s.engine.stack.Counted)
    (hreports : s.reports = []) (htells : tr.Tells (s.runLines fuel showStack lines) stop) :
    tr.BreaksOff s fuel showStack lines before done error := by
  obtain ⟨hengine, houtput, hfinal, hhalted⟩ := h.runLines hc
  obtain ⟨_, _, _, _, _, _, _, hlast, _, _⟩ := h
  obtain ⟨e, hreached⟩ := accounts_reached hc hlast
  refine ⟨htells.ending_of_fatal hhalted, ?_, hengine, ?_⟩
  · rw [htells.output, houtput]
  · rw [htells.reports, hfinal, hreached.reports, hreports]
    simp

/--
**Failing tokens have no effect.** If a session goes through some lines without an end, then the
tokens that have not failed, run alone, all succeed, write the same and come to the same engine; and
each line that cannot be read and each token that fails has given one report, in order.

A run of the whole program in which a command fails with a fatal error reports this last, has
written what was written before it, and exits with 1. One without such a command exits with 0, if it
comes to an end of its own.
-/
theorem failing_tokens_have_no_effect (fuel : Nat) :
    (∀ (s : Session) (lines : List String), s.engine.Reachable → s.halted = none →
      (s.runLines fuel false lines).halted = none → s.PassesOver fuel lines) ∧
    ∀ (w : World) (args : List String) (o : Options) (level : Level) (limits : Limits),
      Options.ofArguments args = .ok o → o.findLevel = .ok level →
      o.findLimits w.defaults = .ok limits →
      let s := Session.new limits level
      let lines := (w.program o o.files).1
      ∃ tr, run w fuel args = .ran tr ∧
        (∀ before done error, s.Breaks fuel o.showStack lines before done error →
          tr.BreaksOff s fuel o.showStack lines before done error) ∧
        ((¬ ∃ before done error, s.Breaks fuel o.showStack lines before done error) →
          ∀ code, tr.ending = .ok code → code = 0) ∧
        ((s.runLines fuel o.showStack lines).halted = none → (w.program o o.files).2 = none →
          tr.ending = .ok 0) := by
  constructor
  · intro s lines hreach hs h
    obtain ⟨e, hreduces⟩ := Session.reduces_runLines lines hreach.counted h
    obtain ⟨halike, hreports⟩ := hreduces.kept_alike (.refl s)
    exact ⟨halike.output.symm, halike.engine.symm, hreduces.kept_done, halike.halted.symm.trans h,
      hreports, hreduces.reports⟩
  · intro w args o level limits ho hlevel hlimits s lines
    have htells := tells_runScripts w fuel o o.files (.refl s) rfl
    refine ⟨_, run_eq_ran ho hlevel hlimits, ?_, ?_, ?_⟩
    · intro before done error hbreaks
      exact hbreaks.breaksOff rfl rfl htells
    · -- a code other than 0 would need a fatal error, which comes from a command
      intro hnone code hcode
      obtain hzero | ⟨error, hfatal⟩ := htells.eq_zero_or_fatal hcode
      · exact hzero
      · obtain ⟨before, done, hbreaks⟩ := Session.exists_breaks rfl hfatal
        exact absurd ⟨before, done, error, hbreaks⟩ hnone
    · intro hhalted hstop
      rw [hstop] at htells
      exact htells.ending_of_none hhalted

/-- An operator too early, a division by zero, and a line that cannot be read. -/
def mending : List String := ["2 + 1 0 / = ! 3 + =", "1 [ 2 =", "4 ="]

/-- An input that has an error, and then calls a function that calls itself without end. -/
def endless : World :=
  ⟨.standard, fun _ => .error .missing, "2 + =\n$0 f f|1\n1 f = 9 =\n9 =\n"⟩

def shallow : Limits := { Limits.standard with depth := 3, depth_pos := by decide }

def shallowOptions : Options := { Options.standard with depth := .given 3 }

lemma ofArguments_depth : Options.ofArguments ["--max-depth", "3"] = .ok shallowOptions := by
  have hlook : Options.classifyAll ["--max-depth", "3"] =
      .ok [.switch "--max-depth" .depth none, .plain "3"] := by decide +kernel
  have hthree : Text.readInteger "3" = .ok 3 := by decide +kernel
  have hread : Options.read ⟨.standard, false, []⟩ [.switch "--max-depth" .depth none, .plain "3"] =
      .ok ⟨shallowOptions, false, []⟩ := by
    simp only [Options.read, Switch.takesValue, Options.assign, Options.integerSetting, hthree,
      if_true]
    rfl
  rw [Options.ofArguments, hlook]
  dsimp only
  rw [hread]
  rfl

lemma endless_breaks : (Session.new shallow .warning).Breaks 100 false
    (endless.program shallowOptions []).1 ["2 + =\n", "$0 f f|1\n"] [.number 1, .name "f"]
    (.depthExceeded 3) := by
  have hlines : (endless.program shallowOptions []).1 =
      ["2 + =\n", "$0 f f|1\n"] ++ "1 f = 9 =\n" :: ["9 =\n"] := by decide +kernel
  have hline : Token.ofSource "1 f = 9 =\n" =
      .ok ([.number 1, .name "f"] ++ .command .emit :: [.number 9, .command .emit]) := by
    decide +kernel
  have hgoes : ((Session.new shallow .warning).reached 100 false ["2 + =\n", "$0 f f|1\n"]
      [.number 1, .name "f"]).halted.isNone = true := by decide +kernel
  have hfails : (((Session.new shallow .warning).reached 100 false ["2 + =\n", "$0 f f|1\n"]
      [.number 1, .name "f"]).engine.run 100 .emit).map Reply.result =
        some (.error (.depthExceeded 3)) := by decide +kernel
  obtain ⟨⟨result, e⟩, hrun, hresult⟩ := Option.map_eq_some_iff.1 hfails
  cases hresult
  exact ⟨_, _, _, _, e, hlines, hline, Option.isNone_iff_eq_none.1 hgoes, hrun, rfl⟩

/--
Of the first lines two tokens and a line are dropped; of the input a token is, and all that follows
the call.
-/
theorem mending_endless_failing_tokens_have_no_effect :
    (let s := Session.new .standard .warning;
      s.engine.Reachable ∧ (s.runLines 100 false mending).halted = none ∧
      (Event.kept (s.engine.linesEvents 100 mending)).length = 10 ∧ s.PassesOver 100 mending ∧
      (s.runLines 100 false mending).reports = ["error: Unexpected character '[' at index 2\n",
        "error: Division of 1 by zero\n", "error: Operator '+' needs 2 operands\n"]) ∧
    ∃ tr, run endless 100 ["--max-depth", "3"] = .ran tr ∧ tr.ending = .ok 1 ∧
      tr.output = ((Session.new shallow .warning).reached 100 false ["2 + =\n", "$0 f f|1\n"]
        [.number 1, .name "f"]).output.reverse ∧
      tr.reports = String.join ["error: Operator '+' needs 2 operands\n",
        "fatal: Recursion depth limit of 3 exceeded\n"] := by
  obtain ⟨hsession, hprogram⟩ := failing_tokens_have_no_effect 100
  constructor
  · have hreach : (Session.new .standard .warning).engine.Reachable := .start .standard .empty
    have hgoes : ((Session.new .standard .warning).runLines 100 false mending).halted.isNone =
        true := by
      decide +kernel
    have hhalted := Option.isNone_iff_eq_none.1 hgoes
    have hkept : (Event.kept
        ((Session.new .standard .warning).engine.linesEvents 100 mending)).length = 10 := by
      decide +kernel
    have hcomplaints : Event.complaints
        ((Session.new .standard .warning).engine.linesEvents 100 mending) =
          ["error: Operator '+' needs 2 operands\n", "error: Division of 1 by zero\n",
            "error: Unexpected character '[' at index 2\n"] := by decide +kernel
    have hpasses := hsession _ mending hreach rfl hhalted
    have hreports := hpasses.reports
    rw [hcomplaints] at hreports
    exact ⟨hreach, hhalted, hkept, hpasses, hreports⟩
  · obtain ⟨tr, hrun, hbreaks, -, -⟩ :=
      hprogram endless _ _ .warning shallow ofArguments_depth rfl rfl
    obtain ⟨hending, houtput, -, hreports⟩ := hbreaks _ _ _ endless_breaks
    have hcomplaints : Event.complaints
        ((Session.new shallow .warning).engine.linesEvents 100 ["2 + =\n", "$0 f f|1\n"] ++
          ((Session.new shallow .warning).runLines 100 false
            ["2 + =\n", "$0 f f|1\n"]).engine.events 100 [.number 1, .name "f"]) =
        ["error: Operator '+' needs 2 operands\n"] := by decide +kernel
    have hfatal : Error.message (.depthExceeded 3) = "Recursion depth limit of 3 exceeded" := by
      decide +kernel
    rw [show shallowOptions.showStack = false from rfl] at houtput hreports
    rw [hcomplaints, hfatal] at hreports
    exact ⟨tr, hrun, hending, houtput, hreports⟩

end Console

end ReversePolish
