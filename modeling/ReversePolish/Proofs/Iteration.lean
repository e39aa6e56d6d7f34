import ReversePolish.Proofs.Unrolling

/-!
A loop takes no more room the longer it runs.

The predicate and the steps of a loop are evaluated on top of whatever tasks and values are there,
and leave them as they were, however long that takes and whatever calls and loops it involves. So
each round begins with the tasks, the values and the active calls of the first one.
-/

namespace ReversePolish

open Machine (start Halts Leads)

/--
In a round of a loop with `d` active calls, the predicate is zero, and the values of the steps are
the arguments of the next round. Each expression is evaluated by itself.
-/
structure Loop.Advances (scope : Scope) (limit : Int) (d : Nat) (loop : Loop) (frame next : Frame) :
    Prop where
  predicate : Halts scope limit (start loop.predicate frame d) (.ok 0)
  steps : List.Forall₂ (fun e v => Halts scope limit (start e frame d) (.ok v)) loop.steps next

namespace Machine

variable {scope : Scope} {limit : Int} {loop : Loop} {frame next : Frame} {d : Nat} {v : Number}

/-- What an expression evaluates to by itself is its value on top of any tasks and values. -/
lemma leads_of_halts {e : Expr} (h : Halts scope limit (start e frame d) (.ok v))
    (tasks : List Task) (values : List Number) :
    Leads scope limit ⟨.eval e frame :: tasks, values, d⟩ ⟨tasks, v :: values, d⟩ :=
  delivers_eval (evaluates_of_halts h) tasks values

lemma evaluatesAll_of_halts {es : List Expr} {vs : List Number}
    (h : List.Forall₂ (fun e v => Halts scope limit (start e frame d) (.ok v)) es vs) :
    EvaluatesAll scope limit d es frame (.ok vs) := by
  induction h with
  | nil => exact .nil
  | cons he _ ih => exact .cons (evaluates_of_halts he) ih

lemma leads_check (h : Halts scope limit (start loop.predicate frame d) (.ok v)) (tasks : List Task)
    (values : List Number) : Leads scope limit ⟨.test loop frame :: tasks, values, d⟩
      ⟨.check loop frame :: tasks, v :: values, d⟩ :=
  (Leads.one rfl).trans (leads_of_halts h (.check loop frame :: tasks) values)

lemma leads_round (h : loop.Advances scope limit d frame next) (tasks : List Task)
    (values : List Number) :
    Leads scope limit ⟨.test loop frame :: tasks, values, d⟩
      ⟨.test loop next :: tasks, values, d⟩ := by
  have hsteps := evaluatesAll_of_halts h.steps
  refine (leads_check h.predicate tasks values).trans ?_
  refine (Leads.one (step_check_zero loop frame)).trans ?_
  exact Leads.trans (delivers_all hsteps (.again loop :: tasks) values)
    (Leads.one (step_again loop next hsteps.length_eq))

lemma leads_rounds {frames : Nat → Frame} {n : Nat}
    (h : ∀ i < n, loop.Advances scope limit d (frames i) (frames (i + 1))) (tasks : List Task)
    (values : List Number) : Leads scope limit ⟨.test loop (frames 0) :: tasks, values, d⟩
      ⟨.test loop (frames n) :: tasks, values, d⟩ := by
  induction n with
  | zero => exact Leads.refl
  | succ n ih =>
    have hbefore := ih fun i hi => h i (Nat.lt_succ_of_lt hi)
    exact hbefore.trans (leads_round (h n (Nat.lt_succ_self n)) tasks values)

lemma leads_terminal (h : Halts scope limit (start loop.predicate frame d) (.ok v)) (hv : v ≠ 0)
    (tasks : List Task) (values : List Number) :
    Leads scope limit ⟨.test loop frame :: tasks, values, d⟩
      ⟨.eval loop.terminal frame :: tasks, values, d⟩ := by
  refine (leads_check h tasks values).trans (Leads.one ?_)
  simp only [step, if_neg hv]

/--
**Loops run in constant space.** If the predicate of a loop is zero and its steps have values, then
the machine comes from the beginning of the round to the beginning of the next one, with the values
of the steps for arguments and with the same tasks and values below and as many active calls. So
these are the same at the beginning of each round as at the beginning of the first, however many
rounds there are, and when the predicate is not zero any more, the terminal expression is evaluated
on top of just these tasks and values.
-/
theorem loop_runs_in_constant_space (scope : Scope) (limit : Int) (loop : Loop) (tasks : List Task)
    (values : List Number) (d : Nat) :
    (∀ frame next, loop.Advances scope limit d frame next →
      Leads scope limit ⟨.test loop frame :: tasks, values, d⟩
        ⟨.test loop next :: tasks, values, d⟩) ∧
    ∀ (frames : Nat → Frame) (n : Nat),
      (∀ i < n, loop.Advances scope limit d (frames i) (frames (i + 1))) →
      Leads scope limit ⟨.test loop (frames 0) :: tasks, values, d⟩
        ⟨.test loop (frames n) :: tasks, values, d⟩ ∧
      ∀ v, Halts scope limit (start loop.predicate (frames n) d) (.ok v) → v ≠ 0 →
        Leads scope limit ⟨.test loop (frames 0) :: tasks, values, d⟩
          ⟨.eval loop.terminal (frames n) :: tasks, values, d⟩ := by
  refine ⟨fun frame next h => leads_round h tasks values, fun frames n h => ?_⟩
  have hrounds := leads_rounds h tasks values
  exact ⟨hrounds, fun v hv hne => hrounds.trans (leads_terminal hv hne tasks values)⟩

def factorialFrames : Nat → Frame
  | 0 => [1, 3]
  | 1 => [3, 2]
  | 2 => [6, 1]
  | _ => [6, 0]

/-- The factorial of three, within a sum and two active calls. -/
theorem factorial_loop_runs_in_constant_space :
    (∀ i < 3, factorialLoop.Advances factorialScope 2 2 (factorialFrames i)
      (factorialFrames (i + 1))) ∧
    Leads factorialScope 2 ⟨[.test factorialLoop [1, 3], .leave, .apply .add, .leave], [7], 2⟩
      ⟨[.test factorialLoop [6, 1], .leave, .apply .add, .leave], [7], 2⟩ ∧
    Leads factorialScope 2 ⟨[.test factorialLoop [1, 3], .leave, .apply .add, .leave], [7], 2⟩
      ⟨[.eval (.arg 0) [6, 0], .leave, .apply .add, .leave], [7], 2⟩ := by
  have hrounds : ∀ i < 3,
      factorialLoop.Advances factorialScope 2 2 (factorialFrames i) (factorialFrames (i + 1)) := by
    intro i hi
    have hcases : i = 0 ∨ i = 1 ∨ i = 2 := by omega
    rcases hcases with rfl | rfl | rfl
    all_goals exact ⟨⟨10, by decide +kernel⟩,
      .cons ⟨10, by decide +kernel⟩ (.cons ⟨10, by decide +kernel⟩ .nil)⟩
  have hend :
      Halts factorialScope 2 (start factorialLoop.predicate (factorialFrames 3) 2) (.ok 1) :=
    ⟨10, by decide +kernel⟩
  obtain ⟨-, hrun⟩ := loop_runs_in_constant_space factorialScope 2 factorialLoop
    [.leave, .apply .add, .leave] [7] 2
  exact ⟨hrounds, (hrun factorialFrames 2 fun i hi => hrounds i (by omega)).1,
    (hrun factorialFrames 3 hrounds).2 1 hend (by decide)⟩

end Machine

end ReversePolish
