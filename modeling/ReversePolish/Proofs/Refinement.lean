import Mathlib.Data.List.Basic
import Mathlib.Order.Nat
import ReversePolish.Proofs.Halting
import ReversePolish.Proofs.Semantics

/-!
The machine does what the rules say.

A derivation tells what the machine does on top of any tasks and values: it comes back to them with
one more value, or it halts with the error. Conversely a run that halts is cut at the states where
the expressions it evaluates are done, and the pieces are put together to a derivation.
-/

namespace ReversePolish

lemma EvaluatesAll.length_eq {scope : Scope} {limit : Int} {d : Nat} {es : List Expr}
    {frame : Frame} {vs : List Number} (h : EvaluatesAll scope limit d es frame (.ok vs)) :
    vs.length = es.length := by
  induction es generalizing vs with
  | nil => cases h; rfl
  | cons e es ih =>
    cases h with
    | cons _ hs => simp [ih hs]

lemma EvaluatesAll.ne_nil {scope : Scope} {limit : Int} {d : Nat} {es : List Expr}
    {frame : Frame} {error : Error} (h : EvaluatesAll scope limit d es frame (.error error)) :
    es ≠ [] := by
  rintro rfl
  cases h

namespace Machine

variable {scope : Scope} {limit : Int} {s t : State} {tasks : List Task} {values : List Number}
  {d : Nat}

/-! ### Single steps -/

lemma step_operands {e : Expr} (he : e.operands ≠ []) (frame : Frame) :
    ∃ last : Task, ∀ tasks values d, step scope limit ⟨.eval e frame :: tasks, values, d⟩ =
      .continue ⟨evalAll e.operands frame ++ last :: tasks, values, d⟩ := by
  cases e with
  | literal v => simp [Expr.operands] at he
  | name n => simp [Expr.operands] at he
  | arg i => simp [Expr.operands] at he
  | binary op l r => exact ⟨.apply op, fun _ _ _ => rfl⟩
  | powMod b e m => exact ⟨.applyPowMod, fun _ _ _ => rfl⟩
  | select t u p => exact ⟨.select t u frame, fun _ _ _ => rfl⟩
  | call n args => exact ⟨.call n args.length, fun _ _ _ => rfl⟩

lemma step_call (n : String) (vs : List Number) :
    step scope limit ⟨.call n vs.length :: tasks, vs.reverse ++ values, d⟩ =
      enter scope limit n vs tasks values d := by
  have htake : ((vs.reverse ++ values).take vs.length).reverse = vs := by simp
  have hdrop : (vs.reverse ++ values).drop vs.length = values := by simp
  simp only [step, htake, hdrop]

lemma step_check_zero (loop : Loop) (frame : Frame) :
    step scope limit ⟨.check loop frame :: tasks, 0 :: values, d⟩ =
      .continue ⟨evalAll loop.steps frame ++ .again loop :: tasks, values, d⟩ := by
  simp [step]

lemma step_again (loop : Loop) (vs : List Number) (hlen : vs.length = loop.steps.length) :
    step scope limit ⟨.again loop :: tasks, vs.reverse ++ values, d⟩ =
      .continue ⟨.test loop vs :: tasks, values, d⟩ := by
  have htake : ((vs.reverse ++ values).take loop.steps.length).reverse = vs := by simp [← hlen]
  have hdrop : (vs.reverse ++ values).drop loop.steps.length = values := by simp [← hlen]
  simp only [step, htake, hdrop]

/-! ### From derivations to runs -/

/-- The machine comes from a state to the one that a result makes, or halts with the error. -/
def Delivers (scope : Scope) (limit : Int) {α : Type} (s : State) (next : α → State) :
    Except Error α → Prop
  | .ok a => Leads scope limit s (next a)
  | .error error => Halts scope limit s (.error error)

lemma Delivers.of_leads {α : Type} {next : α → State} {r : Except Error α}
    (h : Leads scope limit s t) (ht : Delivers scope limit t next r) :
    Delivers scope limit s next r := by
  cases r with
  | ok a => exact h.trans ht
  | error error => exact h.halts_iff.mpr ht

lemma delivers_put {o : Outcome} (h : step scope limit s = put o tasks values d) :
    Delivers scope limit s (fun v => ⟨tasks, v :: values, d⟩) o := by
  cases o with
  | ok v => exact Leads.one h
  | error error => exact Halts.of_step h

lemma Delivers.leave {o : Outcome}
    (h : Delivers scope limit s (fun v => ⟨.leave :: tasks, v :: values, d + 1⟩) o) :
    Delivers scope limit s (fun v => ⟨tasks, v :: values, d⟩) o := by
  cases o with
  | ok v => exact Leads.trans h (Leads.one rfl)
  | error error => exact h

mutual

/-- An expression on top of any tasks and values leaves them with its value. -/
lemma delivers_eval {e : Expr} {frame : Frame} {o : Outcome} {d : Nat} :
    Evaluates scope limit d e frame o → ∀ tasks values,
      Delivers scope limit ⟨.eval e frame :: tasks, values, d⟩ (fun v => ⟨tasks, v :: values, d⟩) o
  | .literal, _, _ => Leads.one rfl
  | .arg (i := i) h, tasks, values => by
    refine delivers_put ?_
    subst h
    rcases hi : frame.argument i with error | v <;> simp [step, expand, put, hi]
  | .value h, _, _ => Leads.one (by simp [step, expand, h])
  | .name h hc, tasks, values => by
    refine .of_leads (Leads.one ?_) (delivers_call hc tasks values)
    simp [step, expand, h]
  | .operand h, tasks, values => by
    obtain ⟨last, hstep⟩ := step_operands h.ne_nil frame
    exact .of_leads (Leads.one (hstep tasks values d)) (delivers_all h (last :: tasks) values)
  | .binary h ho, tasks, values => by
    refine .of_leads (Leads.one rfl) (.of_leads (delivers_all h (.apply _ :: tasks) values) ?_)
    subst ho
    exact delivers_put rfl
  | .powMod h ho, tasks, values => by
    refine .of_leads (Leads.one rfl) (.of_leads (delivers_all h (.applyPowMod :: tasks) values) ?_)
    subst ho
    exact delivers_put rfl
  | .taken hp hv ht, tasks, values => by
    refine .of_leads (Leads.one rfl) (.of_leads (delivers_eval hp _ values) ?_)
    exact .of_leads (Leads.one (by simp [step, hv])) (delivers_eval ht tasks values)
  | .untaken hp hu, tasks, values => by
    refine .of_leads (Leads.one rfl) (.of_leads (delivers_eval hp _ values) ?_)
    exact .of_leads (Leads.one (by simp [step])) (delivers_eval hu tasks values)
  | .call h hc, tasks, values => by
    refine .of_leads (Leads.one rfl) (.of_leads (delivers_all h _ values) ?_)
    rw [← h.length_eq]
    exact delivers_call hc tasks values

lemma delivers_all {es : List Expr} {frame : Frame} {r : Except Error (List Number)} {d : Nat} :
    EvaluatesAll scope limit d es frame r → ∀ tasks values,
      Delivers scope limit ⟨evalAll es frame ++ tasks, values, d⟩
        (fun vs => ⟨tasks, vs.reverse ++ values, d⟩) r
  | .nil, _, _ => Leads.refl
  | .cons (v := v) h hs, tasks, values => by
    have htail := delivers_all hs tasks (v :: values)
    simp only [Delivers, List.reverse_cons, List.append_assoc]
    exact Leads.trans (delivers_eval h _ values) htail
  | .head h, _, values => delivers_eval h _ values
  | .tail h hs, tasks, values => .of_leads (delivers_eval h _ values) (delivers_all hs tasks _)

lemma delivers_call {n : String} {vs : List Number} {o : Outcome} {d : Nat} :
    CallEvaluates scope limit d n vs o → ∀ tasks values,
      Delivers scope limit ⟨.call n vs.length :: tasks, vs.reverse ++ values, d⟩
        (fun v => ⟨tasks, v :: values, d⟩) o
  | .unknown h, _, _ => Halts.of_step (by simp [step_call, enter, h])
  | .exhausted h hd, _, _ => Halts.of_step (by simp [step_call, enter, h, hd])
  | .recursive h hd hb, tasks, values => by
    refine .of_leads (Leads.one ?_) (delivers_eval hb (.leave :: tasks) values).leave
    simp [step_call, enter, h, Int.not_le.mpr hd]
  | .iterative h hl, tasks, values => by
    refine .of_leads (Leads.one ?_) (delivers_loop hl tasks values)
    simp [step_call, enter, h]

lemma delivers_loop {loop : Loop} {frame : Frame} {o : Outcome} {d : Nat} :
    LoopEvaluates scope limit d loop frame o → ∀ tasks values,
      Delivers scope limit ⟨.test loop frame :: tasks, values, d⟩
        (fun v => ⟨tasks, v :: values, d⟩) o
  | .predicate h, _, values => .of_leads (Leads.one rfl) (delivers_eval h _ values)
  | .terminal hp hv ht, tasks, values => by
    refine .of_leads (Leads.one rfl) (.of_leads (delivers_eval hp _ values) ?_)
    exact .of_leads (Leads.one (by simp [step, hv])) (delivers_eval ht tasks values)
  | .steps hp hs, tasks, values => by
    refine .of_leads (Leads.one rfl) (.of_leads (delivers_eval hp _ values) ?_)
    exact .of_leads (Leads.one (step_check_zero loop frame)) (delivers_all hs _ values)
  | .again hp hs hl, tasks, values => by
    refine .of_leads (Leads.one rfl) (.of_leads (delivers_eval hp _ values) ?_)
    refine .of_leads (Leads.one (step_check_zero loop frame)) ?_
    refine .of_leads (delivers_all hs (.again loop :: tasks) values) ?_
    exact .of_leads (Leads.one (step_again loop _ hs.length_eq)) (delivers_loop hl tasks values)

end

/-! ### From runs to derivations -/

/--
A run of `fuel` steps with the outcome `o` comes by the state that a result makes, or the result is
the error it ends with.
-/
def Resumes (scope : Scope) (limit : Int) (fuel : Nat) {α : Type} (next : α → State) (o : Outcome) :
    Except Error α → Prop
  | .ok a => ∃ rest ≤ fuel, run scope limit rest (next a) = some o
  | .error error => o = .error error

variable {fuel fuel' : Nat} {o : Outcome}

lemma Resumes.mono {α : Type} {next : α → State} {r : Except Error α}
    (h : Resumes scope limit fuel next o r) (hle : fuel ≤ fuel') :
    Resumes scope limit fuel' next o r := by
  cases r with
  | ok a =>
    obtain ⟨rest, hrest, hrun⟩ := h
    exact ⟨rest, hrest.trans hle, hrun⟩
  | error error => exact h

lemma run_of_continue (hs : step scope limit s = .continue t)
    (h : run scope limit fuel s = some o) : ∃ rest < fuel, run scope limit rest t = some o := by
  obtain ⟨rest, rfl, hh | ⟨t', hc, ht⟩⟩ := run_eq_some h
  · rw [hs] at hh
    cases hh
  · rw [hs] at hc
    cases hc
    exact ⟨rest, Nat.lt_succ_self rest, ht⟩

lemma run_of_halt {o' : Outcome} (hs : step scope limit s = .halt o')
    (h : run scope limit fuel s = some o) : o = o' :=
  Halts.unique ⟨fuel, h⟩ (Halts.of_step hs)

lemma resumes_put {r : Outcome} (hs : step scope limit s = put r tasks values d)
    (h : run scope limit fuel s = some o) :
    Resumes scope limit fuel (fun v => ⟨tasks, v :: values, d⟩) o r := by
  cases r with
  | ok v =>
    obtain ⟨rest, hlt, ht⟩ := run_of_continue hs h
    exact ⟨rest, hlt.le, ht⟩
  | error error => exact run_of_halt hs h

/-- Runs of this length that begin with an expression or with a loop are derived. -/
structure Derived (scope : Scope) (limit : Int) (fuel : Nat) : Prop where
  eval : ∀ {e frame tasks values d o},
    run scope limit fuel ⟨.eval e frame :: tasks, values, d⟩ = some o →
      ∃ r, Evaluates scope limit d e frame r ∧
        Resumes scope limit fuel (fun v => ⟨tasks, v :: values, d⟩) o r
  loop : ∀ {loop frame tasks values d o},
    run scope limit fuel ⟨.test loop frame :: tasks, values, d⟩ = some o →
      ∃ r, LoopEvaluates scope limit d loop frame r ∧
        Resumes scope limit fuel (fun v => ⟨tasks, v :: values, d⟩) o r

lemma derived_all (ih : ∀ k ≤ fuel, Derived scope limit k) (es : List Expr) {frame : Frame}
    (h : run scope limit fuel ⟨evalAll es frame ++ tasks, values, d⟩ = some o) :
    ∃ r, EvaluatesAll scope limit d es frame r ∧
      Resumes scope limit fuel (fun vs => ⟨tasks, vs.reverse ++ values, d⟩) o r := by
  induction es generalizing fuel values with
  | nil => exact ⟨.ok [], .nil, fuel, le_rfl, h⟩
  | cons e es ihs =>
    obtain ⟨r, he, hr⟩ := (ih fuel le_rfl).eval h
    cases r with
    | error error => exact ⟨.error error, .head he, hr⟩
    | ok v =>
      obtain ⟨rest, hle, hrest⟩ := hr
      obtain ⟨r', hes, hr'⟩ := ihs (fun k hk => ih k (hk.trans hle)) hrest
      cases r' with
      | error error => exact ⟨.error error, .tail he hes, hr'⟩
      | ok vs => exact ⟨.ok (v :: vs), .cons he hes, by simpa [Resumes] using hr'.mono hle⟩

lemma derived_call (ih : ∀ k < fuel, Derived scope limit k) {n : String} (vs : List Number)
    (h : run scope limit fuel ⟨.call n vs.length :: tasks, vs.reverse ++ values, d⟩ = some o) :
    ∃ r, CallEvaluates scope limit d n vs r ∧
      Resumes scope limit fuel (fun v => ⟨tasks, v :: values, d⟩) o r := by
  rcases hbody : scope.body? n vs.length with _ | (body | loop)
  · refine ⟨.error (.unknownFunction n vs.length), .unknown hbody, run_of_halt ?_ h⟩
    simp [step_call, enter, hbody]
  · by_cases hd : limit ≤ d
    · refine ⟨.error (.tooDeep limit), .exhausted hbody hd, run_of_halt ?_ h⟩
      simp [step_call, enter, hbody, hd]
    · -- the body is cut out of the run, and so is the task behind it that ends the call
      have hs : step scope limit ⟨.call n vs.length :: tasks, vs.reverse ++ values, d⟩ =
          .continue ⟨.eval body vs :: .leave :: tasks, values, d + 1⟩ := by
        simp [step_call, enter, hbody, hd]
      obtain ⟨rest, hlt, hrest⟩ := run_of_continue hs h
      obtain ⟨r, hb, hr⟩ := (ih rest hlt).eval hrest
      refine ⟨r, .recursive hbody (Int.not_le.mp hd) hb, ?_⟩
      cases r with
      | error error => exact hr
      | ok v =>
        obtain ⟨back, hle, hback⟩ := hr
        obtain ⟨last, hlast, hrun⟩ := run_of_continue rfl hback
        exact ⟨last, by omega, hrun⟩
  · have hs : step scope limit ⟨.call n vs.length :: tasks, vs.reverse ++ values, d⟩ =
        .continue ⟨.test loop vs :: tasks, values, d⟩ := by
      simp [step_call, enter, hbody]
    obtain ⟨rest, hlt, hrest⟩ := run_of_continue hs h
    obtain ⟨r, hl, hr⟩ := (ih rest hlt).loop hrest
    exact ⟨r, .iterative hbody hl, hr.mono hlt.le⟩

lemma derived_eval (ih : ∀ k < fuel, Derived scope limit k) {e : Expr} {frame : Frame}
    (h : run scope limit fuel ⟨.eval e frame :: tasks, values, d⟩ = some o) :
    ∃ r, Evaluates scope limit d e frame r ∧
      Resumes scope limit fuel (fun v => ⟨tasks, v :: values, d⟩) o r := by
  cases e with
  | literal v => exact ⟨.ok v, .literal, resumes_put rfl h⟩
  | arg i =>
    refine ⟨frame.argument i, .arg rfl, resumes_put ?_ h⟩
    rcases hi : frame.argument i with error | v <;> simp [step, expand, put, hi]
  | name n =>
    rcases hn : scope.valueOf? n with _ | v
    · -- a name without a value is a call, which takes a step of its own
      have hs : step scope limit ⟨.eval (.name n) frame :: tasks, values, d⟩ =
          .continue ⟨.call n 0 :: tasks, values, d⟩ := by
        simp [step, expand, hn]
      obtain ⟨rest, hlt, hrest⟩ := run_of_continue hs h
      obtain ⟨r, hc, hr⟩ := derived_call (fun k hk => ih k (hk.trans hlt)) [] hrest
      exact ⟨r, .name hn hc, hr.mono hlt.le⟩
    · refine ⟨.ok v, .value hn, resumes_put ?_ h⟩
      simp [step, expand, put, hn]
  | binary op l r =>
    obtain ⟨rest, hlt, hrest⟩ := run_of_continue rfl h
    obtain ⟨r, hes, hr⟩ := derived_all (fun k hk => ih k (by omega)) [l, r] hrest
    cases r with
    | error error => exact ⟨.error error, .operand hes, hr⟩
    | ok vs =>
      obtain ⟨a, b, rfl⟩ := List.length_eq_two.mp hes.length_eq
      obtain ⟨last, hle, hlast⟩ := hr
      exact ⟨op.apply a b, .binary hes rfl, (resumes_put rfl hlast).mono (by omega)⟩
  | powMod b e m =>
    obtain ⟨rest, hlt, hrest⟩ := run_of_continue rfl h
    obtain ⟨r, hes, hr⟩ := derived_all (fun k hk => ih k (by omega)) [b, e, m] hrest
    cases r with
    | error error => exact ⟨.error error, .operand hes, hr⟩
    | ok vs =>
      obtain ⟨x, y, z, rfl⟩ := List.length_eq_three.mp hes.length_eq
      obtain ⟨last, hle, hlast⟩ := hr
      exact ⟨x.modularPower y z, .powMod hes rfl, (resumes_put rfl hlast).mono (by omega)⟩
  | select t u p =>
    -- the run is cut twice, behind the predicate and behind the branch that it selects
    obtain ⟨rest, hlt, hrest⟩ := run_of_continue rfl h
    obtain ⟨r, hp, hr⟩ := (ih rest hlt).eval hrest
    cases r with
    | error error => exact ⟨.error error, .operand (.head hp), hr⟩
    | ok v =>
      obtain ⟨back, hle, hback⟩ := hr
      obtain ⟨last, hlast, hrun⟩ := run_of_continue rfl hback
      obtain ⟨r, hb, hr⟩ := (ih last (by omega)).eval hrun
      by_cases hv : v = 0
      · rw [if_pos hv] at hb
        exact ⟨r, .untaken (hv ▸ hp) hb, hr.mono (by omega)⟩
      · rw [if_neg hv] at hb
        exact ⟨r, .taken hp hv hb, hr.mono (by omega)⟩
  | call n args =>
    obtain ⟨rest, hlt, hrest⟩ := run_of_continue rfl h
    obtain ⟨r, hes, hr⟩ := derived_all (fun k hk => ih k (by omega)) args hrest
    cases r with
    | error error => exact ⟨.error error, .operand hes, hr⟩
    | ok vs =>
      obtain ⟨last, hle, hlast⟩ := hr
      rw [← hes.length_eq] at hlast
      obtain ⟨r, hc, hr⟩ := derived_call (fun k hk => ih k (by omega)) vs hlast
      exact ⟨r, .call hes hc, hr.mono (by omega)⟩

lemma derived_loop (ih : ∀ k < fuel, Derived scope limit k) {loop : Loop} {frame : Frame}
    (h : run scope limit fuel ⟨.test loop frame :: tasks, values, d⟩ = some o) :
    ∃ r, LoopEvaluates scope limit d loop frame r ∧
      Resumes scope limit fuel (fun v => ⟨tasks, v :: values, d⟩) o r := by
  obtain ⟨rest, hlt, hrest⟩ := run_of_continue rfl h
  obtain ⟨r, hp, hr⟩ := (ih rest hlt).eval hrest
  cases r with
  | error error => exact ⟨.error error, .predicate hp, hr⟩
  | ok v =>
    obtain ⟨back, hle, hback⟩ := hr
    by_cases hv : v = 0
    · -- one more round: what is left of the run after the steps begins with the same loop
      subst hv
      obtain ⟨round, hround, hrun⟩ := run_of_continue (step_check_zero loop frame) hback
      obtain ⟨r, hes, hr⟩ := derived_all (fun k hk => ih k (by omega)) loop.steps hrun
      cases r with
      | error error => exact ⟨.error error, .steps hp hes, hr⟩
      | ok vs =>
        obtain ⟨again, hagain, hrun⟩ := hr
        obtain ⟨next, hnext, hrun⟩ := run_of_continue (step_again loop vs hes.length_eq) hrun
        obtain ⟨r, hl, hr⟩ := (ih next (by omega)).loop hrun
        exact ⟨r, .again hp hes hl, hr.mono (by omega)⟩
    · have hs : step scope limit ⟨.check loop frame :: tasks, v :: values, d⟩ =
          .continue ⟨.eval loop.terminal frame :: tasks, values, d⟩ := by
        simp [step, hv]
      obtain ⟨last, hlast, hrun⟩ := run_of_continue hs hback
      obtain ⟨r, ht, hr⟩ := (ih last (by omega)).eval hrun
      exact ⟨r, .terminal hp hv ht, hr.mono (by omega)⟩

lemma derived (scope : Scope) (limit : Int) (fuel : Nat) : Derived scope limit fuel := by
  induction fuel using Nat.strong_induction_on with
  | _ fuel ih => exact ⟨derived_eval ih, derived_loop ih⟩

/-! ### Outcomes -/

lemma halts_of_evaluates {e : Expr} {frame : Frame} (h : Evaluates scope limit d e frame o) :
    Halts scope limit (start e frame d) o := by
  have hd := delivers_eval h [] []
  cases o with
  | ok v => exact Leads.halts_iff hd |>.mpr (Halts.of_step rfl)
  | error error => exact hd

lemma evaluates_of_halts {e : Expr} {frame : Frame} (h : Halts scope limit (start e frame d) o) :
    Evaluates scope limit d e frame o := by
  obtain ⟨fuel, h⟩ := h
  obtain ⟨r, he, hr⟩ := (derived scope limit fuel).eval h
  cases r with
  | ok v =>
    obtain ⟨rest, -, hrest⟩ := hr
    rw [run_of_halt rfl hrest]
    exact he
  | error error =>
    rw [hr]
    exact he

/--
**Refinement**: the machine halts with an outcome exactly if the rules derive it, whatever the
scope, the limit and the number of calls that are active at the start.
-/
theorem run_start_iff_evaluates (scope : Scope) (limit : Int) (d : Nat) (e : Expr) (frame : Frame)
    (o : Outcome) :
    (∃ fuel, run scope limit fuel (start e frame d) = some o) ↔
      Evaluates scope limit d e frame o :=
  ⟨evaluates_of_halts, halts_of_evaluates⟩

end Machine

end ReversePolish
