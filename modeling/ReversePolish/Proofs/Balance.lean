import Mathlib.Algebra.Order.Group.Unbundled.Int
import ReversePolish.Proofs.Halting

/-!
The tasks of the machine and its values are in balance.

Each task takes a known number of values and leaves a known number in their place, once all that it
leads to is done. A step replaces the first task by others that amount to the same, and touches
neither the tasks after it nor the values below those it takes. So at every point of a run, be it
one without an end, the values are there that the tasks will take, and a single one is left after
them.
-/

namespace ReversePolish

def Task.takes : Task → Nat
  | .eval _ _ => 0
  | .apply _ => 2
  | .applyPowMod => 3
  | .select _ _ _ => 1
  | .call _ count => count
  | .leave => 0
  | .test _ _ => 0
  | .check _ _ => 1
  | .again loop => loop.steps.length

def Task.isLeave : Task → Bool
  | .leave => true
  | _ => false

/-- How many values are there in place of those taken, once all is done that a task leads to. -/
def Task.gives (t : Task) : Nat := if t.isLeave then 0 else 1

namespace Machine

/--
How many values there are after tasks, unless one of them takes more than there are at its turn.
-/
def tally : List Task → Nat → Option Nat
  | [], count => some count
  | t :: tasks, count =>
    if t.takes ≤ count then tally tasks (count - t.takes + t.gives) else none

def calls (tasks : List Task) : Nat := tasks.countP Task.isLeave

variable {scope : Scope} {limit : Int} {s s' : State} {t : Task} {tasks more : List Task}
  {values : List Number} {count count' d : Nat}

/-! ### Counting values -/

lemma tally_cons_eq_some : tally (t :: tasks) count = some count' ↔
    t.takes ≤ count ∧ tally tasks (count - t.takes + t.gives) = some count' := by
  rw [tally]
  split
  · next h => simp [h]
  · next h => simp [h]

lemma tally_append (tasks more : List Task) (count : Nat) :
    tally (tasks ++ more) count = (tally tasks count).bind (tally more) := by
  induction tasks generalizing count with
  | nil => rfl
  | cons t tasks ih =>
    rw [List.cons_append, tally, tally]
    split
    · exact ih _
    · rfl

/-- Values that lie below those taken stay there. -/
lemma tally_add (h : tally tasks count = some count') (below : Nat) :
    tally tasks (count + below) = some (count' + below) := by
  induction tasks generalizing count with
  | nil =>
    cases h
    rfl
  | cons t tasks ih =>
    obtain ⟨htakes, hrest⟩ := tally_cons_eq_some.mp h
    refine tally_cons_eq_some.mpr ⟨by omega, ?_⟩
    have hbelow : count + below - t.takes + t.gives = count - t.takes + t.gives + below := by omega
    rw [hbelow]
    exact ih hrest

lemma tally_evalAll (es : List Expr) (frame : Frame) (count : Nat) :
    tally (evalAll es frame) count = some (count + es.length) := by
  induction es generalizing count with
  | nil => rfl
  | cons e es ih =>
    have hlength : count + (e :: es).length = count + 1 + es.length := by
      rw [List.length_cons]
      omega
    rw [hlength, ← ih]
    rfl

lemma calls_append (tasks more : List Task) : calls (tasks ++ more) = calls tasks + calls more :=
  List.countP_append

lemma calls_evalAll (es : List Expr) (frame : Frame) : calls (evalAll es frame) = 0 := by
  refine List.countP_eq_zero.mpr fun t ht => ?_
  obtain ⟨e, -, rfl⟩ := List.mem_map.mp ht
  exact Bool.false_ne_true

/-! ### One step -/

/--
The first task of a state is replaced by others in the next one, and the values that it takes by
others.
-/
structure Replaces (limit : Int) (s s' : State) (t : Task) (rest new : List Task)
    (pushed : List Number) : Prop where
  tasks : s.tasks = t :: rest
  tasks_after : s'.tasks = new ++ rest
  values_after : s'.values = pushed ++ s.values.drop t.takes
  /-- The new tasks give what the first one gives. -/
  tally : tally new pushed.length = some t.gives
  depth : s'.depth = s.depth + calls new - calls [t]
  room : s'.depth ≤ s.depth ∨ (s'.depth : Int) ≤ limit

/--
The first task becomes the evaluation of expressions, if any, and a task that takes just their
values.
-/
lemma Replaces.of_evalAll (es : List Expr) (frame : Frame) (last : Task)
    (htakes : last.takes = es.length) (hlast : last.isLeave = false) (ht : t.isLeave = false) :
    Replaces limit ⟨t :: tasks, values, d⟩
      ⟨evalAll es frame ++ last :: tasks, values.drop t.takes, d⟩ t tasks
      (evalAll es frame ++ [last]) [] where
  tasks := rfl
  tasks_after := List.append_cons ..
  values_after := rfl
  tally := by
    have hgives : last.gives = t.gives := by simp [Task.gives, hlast, ht]
    have hcount : 0 + es.length - last.takes + last.gives = t.gives := by omega
    rw [List.length_nil, tally_append, tally_evalAll]
    refine tally_cons_eq_some.mpr ⟨by omega, ?_⟩
    rw [hcount]
    rfl
  depth := by
    rw [calls_append, calls_evalAll]
    simp [calls, hlast, ht]
  room := .inl le_rfl

lemma put_replaces {o : Outcome} (h : put o tasks (values.drop t.takes) d = .continue s')
    (ht : t.isLeave = false) :
    ∃ new pushed, Replaces limit ⟨t :: tasks, values, d⟩ s' t tasks new pushed := by
  have hgives : t.gives = 1 := by simp [Task.gives, ht]
  have hcalls : calls [t] = 0 := by simp [calls, ht]
  cases o with
  | error error => cases h
  | ok v =>
    cases h
    exact ⟨[], [v], rfl, rfl, rfl, by rw [hgives]; rfl, by rw [hcalls]; rfl, .inl le_rfl⟩

lemma expand_replaces {e : Expr} {frame : Frame}
    (h : expand scope e frame tasks values d = .continue s') :
    ∃ new pushed,
      Replaces limit ⟨.eval e frame :: tasks, values, d⟩ s' (.eval e frame) tasks new pushed := by
  cases e with
  | literal v => exact put_replaces (o := .ok v) h rfl
  | arg i => exact put_replaces (o := frame.argument i) h rfl
  | name n =>
    simp only [expand] at h
    rcases hn : scope.valueOf? n with _ | v
    · rw [hn] at h
      cases h
      exact ⟨_, _, .of_evalAll [] frame (.call n 0) rfl rfl rfl⟩
    · rw [hn] at h
      exact put_replaces (o := .ok v) h rfl
  | binary op l r =>
    cases h
    exact ⟨_, _, .of_evalAll [l, r] frame (.apply op) rfl rfl rfl⟩
  | powMod b e m =>
    cases h
    exact ⟨_, _, .of_evalAll [b, e, m] frame .applyPowMod rfl rfl rfl⟩
  | select t u p =>
    cases h
    exact ⟨_, _, .of_evalAll [p] frame (.select t u frame) rfl rfl rfl⟩
  | call n args =>
    cases h
    exact ⟨_, _, .of_evalAll args frame (.call n args.length) rfl rfl rfl⟩

lemma enter_replaces {n : String} {count : Nat}
    (h : enter scope limit n (values.take count).reverse tasks (values.drop count) d =
      .continue s') :
    ∃ new pushed,
      Replaces limit ⟨.call n count :: tasks, values, d⟩ s' (.call n count) tasks new pushed := by
  unfold enter at h
  generalize (values.take count).reverse = frame at h
  split at h
  · cases h
  · next loop _ =>
    cases h
    exact ⟨_, _, .of_evalAll [] frame (.test loop frame) rfl rfl rfl⟩
  · next body _ =>
    split at h
    · cases h
    · next hroom =>
      -- the only step that adds an active call, for which the limit leaves room
      cases h
      refine ⟨[.eval body frame, .leave], [], rfl, rfl, rfl, rfl, rfl, .inr ?_⟩
      push_cast
      omega

lemma step_replaces (h : step scope limit s = .continue s') :
    ∃ t rest new pushed, Replaces limit s s' t rest new pushed := by
  obtain ⟨_ | ⟨t, rest⟩, values, d⟩ := s
  · -- with nothing left to do the machine halts or is stuck
    rcases values with _ | ⟨v, _ | ⟨w, values⟩⟩ <;> cases h
  refine ⟨t, rest, ?_⟩
  cases t with
  | eval e frame => exact expand_replaces h
  | call n count => exact enter_replaces h
  | apply op =>
    -- an operator that finds too few values has no next state
    rcases values with _ | ⟨b, _ | ⟨a, values⟩⟩
    · cases h
    · cases h
    · exact put_replaces h rfl
  | applyPowMod =>
    rcases values with _ | ⟨m, _ | ⟨e, _ | ⟨b, values⟩⟩⟩
    · cases h
    · cases h
    · cases h
    · exact put_replaces h rfl
  | select t u frame =>
    rcases values with _ | ⟨v, values⟩ <;> cases h
    exact ⟨_, _, .of_evalAll [] frame (.eval (if v = 0 then u else t) frame) rfl rfl rfl⟩
  | leave =>
    -- the only step that ends an active call, and it touches no value
    cases h
    exact ⟨[], [], rfl, rfl, rfl, rfl, rfl, .inl (Nat.sub_le d 1)⟩
  | test loop frame =>
    cases h
    exact ⟨_, _, .of_evalAll [loop.predicate] frame (.check loop frame) rfl rfl rfl⟩
  | check loop frame =>
    rcases values with _ | ⟨v, values⟩
    · cases h
    simp only [step] at h
    split at h
    · cases h
      exact ⟨_, _, .of_evalAll loop.steps frame (.again loop) rfl rfl rfl⟩
    · cases h
      exact ⟨_, _, .of_evalAll [] frame (.eval loop.terminal frame) rfl rfl rfl⟩
  | again loop =>
    cases h
    exact ⟨_, _, .of_evalAll [] [] (.test loop _) rfl rfl rfl⟩

/-! ### Every state of a run -/

/-- What holds of every state of a run that began with so many active calls. -/
structure Balanced (limit : Int) (first : Nat) (s : State) : Prop where
  tally : tally s.tasks s.values.length = some 1
  depth : s.depth = first + calls s.tasks
  bound : (s.depth : Int) ≤ max (first : Int) limit

variable {first : Nat}

lemma balanced_start (limit : Int) (e : Expr) (frame : Frame) (first : Nat) :
    Balanced limit first (start e frame first) := ⟨rfl, rfl, le_max_left _ _⟩

lemma Balanced.step (h : Balanced limit first s) (hstep : step scope limit s = .continue s') :
    Balanced limit first s' := by
  obtain ⟨t, rest, new, pushed, hr⟩ := step_replaces hstep
  obtain ⟨htally, hdepth, hbound⟩ := h
  rw [hr.tasks] at htally hdepth
  obtain ⟨htakes, hrest⟩ := tally_cons_eq_some.mp htally
  refine ⟨?_, ?_, ?_⟩
  · -- the new tasks leave what the first one leaves, on top of the values that it does not take
    have hlength : s'.values.length = pushed.length + (s.values.length - t.takes) := by
      rw [hr.values_after, List.length_append, List.length_drop]
    rw [hr.tasks_after, hlength, tally_append, tally_add hr.tally, Option.bind_some, Nat.add_comm,
      hrest]
  · have hcalls : calls (t :: rest) = calls [t] + calls rest := calls_append [t] rest
    rw [hr.depth, hr.tasks_after, calls_append, hdepth, hcalls]
    omega
  · rcases hr.room with hle | hle
    · exact (Int.ofNat_le.mpr hle).trans hbound
    · exact hle.trans (le_max_right _ _)

lemma Balanced.leads (h : Balanced limit first s) (hleads : Leads scope limit s s') :
    Balanced limit first s' := by
  induction hleads with
  | refl => exact h
  | tail _ hstep ih => exact ih.step hstep

lemma exists_tally_of_append (h : tally (tasks ++ t :: more) count = some count') :
    ∃ here, tally tasks count = some here ∧ t.takes ≤ here := by
  rw [tally_append] at h
  obtain ⟨here, hhere, hrest⟩ := Option.bind_eq_some_iff.mp h
  exact ⟨here, hhere, (tally_cons_eq_some.mp hrest).1⟩

lemma expand_ne_stuck (e : Expr) (frame : Frame) (tasks : List Task) (values : List Number)
    (d : Nat) : expand scope e frame tasks values d ≠ .stuck := by
  cases e <;> simp only [expand, ne_eq, reduceCtorEq, not_false_eq_true]
  all_goals split <;> simp

lemma put_ne_stuck (o : Outcome) : put o tasks values d ≠ .stuck := by
  cases o <;> simp [put]

lemma enter_ne_stuck (n : String) (frame : Frame) :
    enter scope limit n frame tasks values d ≠ .stuck := by
  unfold enter
  split
  · simp
  · simp
  · split <;> simp

/-- A task that finds the values it takes can be done. -/
lemma step_ne_stuck_of_takes (h : t.takes ≤ values.length) :
    step scope limit ⟨t :: tasks, values, d⟩ ≠ .stuck := by
  cases t with
  | eval e frame => exact expand_ne_stuck e frame tasks values d
  | apply op =>
    rcases values with _ | ⟨b, _ | ⟨a, values⟩⟩
    · simp [Task.takes] at h
    · simp [Task.takes] at h
    · exact put_ne_stuck _
  | applyPowMod =>
    rcases values with _ | ⟨m, _ | ⟨e, _ | ⟨b, values⟩⟩⟩
    · simp [Task.takes] at h
    · simp [Task.takes] at h
    · simp [Task.takes] at h
    · exact put_ne_stuck _
  | select t u frame =>
    obtain ⟨v, values, rfl⟩ := List.exists_cons_of_length_pos h
    simp [step]
  | call n count => exact enter_ne_stuck n _
  | leave => simp [step]
  | test loop frame => simp [step]
  | check loop frame =>
    obtain ⟨v, values, rfl⟩ := List.exists_cons_of_length_pos h
    simp only [step]
    split <;> simp
  | again loop => simp [step]

lemma Balanced.exists_value (h : Balanced limit first s) (htasks : s.tasks = []) :
    ∃ v, s.values = [v] := by
  have hcount := h.tally
  rw [htasks, Machine.tally, Option.some.injEq] at hcount
  exact List.length_eq_one_iff.mp hcount

lemma Balanced.step_ne_stuck (h : Balanced limit first s) :
    Machine.step scope limit s ≠ .stuck := by
  rcases hs : s with ⟨_ | ⟨t, tasks⟩, values, d⟩
  · obtain ⟨v, hv⟩ := h.exists_value (by rw [hs])
    rw [hs] at hv
    cases hv
    simp [Machine.step]
  · have htally := h.tally
    rw [hs] at htally
    exact step_ne_stuck_of_takes (tally_cons_eq_some.mp htally).1

/--
**Tasks and values are in balance** in every state that the evaluation of an expression comes by,
also if it never ends. The tasks, done in order, leave a single value, and none of them takes more
values than there are at its turn. So the next task finds the values that it takes, the machine does
not get stuck, and when there is nothing left to do there is one value. A step takes just the values
that its task takes, and what it puts in the place of the task and of these values gives what the
task gives. The number of active calls is the one at the start and one for each call that is to end,
and is never greater than both the one at the start and the limit.
-/
theorem tasks_and_values_in_balance (scope : Scope) (limit : Int) (e : Expr) (frame : Frame)
    (first : Nat) (s : State) (h : Leads scope limit (start e frame first) s) :
    (tally s.tasks s.values.length = some 1 ∧
      ∀ before t after, s.tasks = before ++ t :: after →
        ∃ here, tally before s.values.length = some here ∧ t.takes ≤ here) ∧
    ((∀ t rest, s.tasks = t :: rest → t.takes ≤ s.values.length) ∧
      step scope limit s ≠ .stuck ∧ (s.tasks = [] → ∃ v, s.values = [v])) ∧
    (∀ s', step scope limit s = .continue s' → ∃ t rest new pushed, s.tasks = t :: rest ∧
      s'.tasks = new ++ rest ∧ s'.values = pushed ++ s.values.drop t.takes ∧
      tally new pushed.length = some t.gives) ∧
    s.depth = first + s.tasks.countP Task.isLeave ∧ (s.depth : Int) ≤ max (first : Int) limit := by
  have hs : Balanced limit first s := (balanced_start limit e frame first).leads h
  refine ⟨⟨hs.tally, fun before t after htasks => ?_⟩, ⟨fun t rest htasks => ?_, hs.step_ne_stuck,
    hs.exists_value⟩, fun s' hstep => ?_, hs.depth, hs.bound⟩
  · exact exists_tally_of_append (htasks ▸ hs.tally)
  · exact (tally_cons_eq_some.mp (htasks ▸ hs.tally)).1
  · obtain ⟨t, rest, new, pushed, hr⟩ := step_replaces hstep
    exact ⟨t, rest, new, pushed, hr.tasks, hr.tasks_after, hr.values_after, hr.tally⟩

def spinning : Loop := ⟨[], .literal 0, .literal 0⟩

def spinningScope : Scope where
  valueOf? _ := none
  body? n _ :=
    if n = "deep" then some (.recursive (.name "spin"))
    else if n = "spin" then some (.iterative spinning) else none

/-- In the loop, within a sum of which the other operand has been evaluated. -/
def spinningState : State := ⟨[.check spinning [], .leave, .apply .add], [0, 1], 5⟩

/-- A sum that has no value, since the machine comes back to the same state. -/
theorem spinning_tasks_and_values_in_balance :
    (Leads spinningScope 5 (start (.binary .add (.literal 1) (.name "deep")) [] 4) spinningState ∧
      ∃ s, step spinningScope 5 spinningState = .continue s ∧
        Leads spinningScope 5 s spinningState) ∧
    tally spinningState.tasks 2 = some 1 ∧ step spinningScope 5 spinningState ≠ .stuck ∧
    spinningState.depth = 4 + spinningState.tasks.countP Task.isLeave ∧
    (spinningState.depth : Int) ≤ max ((4 : Nat) : Int) 5 := by
  let head : State := ⟨[.test spinning [], .leave, .apply .add], [1], 5⟩
  have hround : Leads spinningScope 5 head spinningState := (Leads.one rfl).trans (Leads.one rfl)
  have hcall : Leads spinningScope 5 ⟨[.eval (.name "deep") [], .apply .add], [1], 4⟩ head :=
    (Leads.one rfl).trans ((Leads.one rfl).trans ((Leads.one rfl).trans (Leads.one rfl)))
  have hstart : Leads spinningScope 5 (start (.binary .add (.literal 1) (.name "deep")) [] 4)
      spinningState := (Leads.one rfl).trans ((Leads.one rfl).trans (hcall.trans hround))
  obtain ⟨⟨htally, -⟩, ⟨-, hstuck, -⟩, -, hdepth, hbound⟩ :=
    tasks_and_values_in_balance spinningScope 5 _ [] 4 spinningState hstart
  exact ⟨⟨hstart, _, rfl, (Leads.one rfl).trans hround⟩, htally, hstuck, hdepth, hbound⟩

end Machine

end ReversePolish
