import Mathlib.Data.List.Forall2
import Mathlib.Data.Set.List
import Mathlib.Order.Nat
import ReversePolish.Proofs.Halting

/-!
Workers that share a pass over several expressions.

The expressions wait in a queue. A free worker takes the first one that waits, and the machines of
all busy workers go on in any order, each on its own state; nothing else is shared but the scope,
which nobody writes to. The outcomes are at the places of their expressions, whoever is done first.
-/

namespace ReversePolish.Pool

open Machine (Halts)

/-- An expression that waits, is being evaluated, or has its outcome. -/
inductive Job
  | waiting (e : Expr)
  | running (s : Machine.State)
  | finished (o : Outcome)

namespace Job

def isWaiting : Job → Bool
  | .waiting _ => true
  | _ => false

def isRunning : Job → Bool
  | .running _ => true
  | _ => false

def isFinished : Job → Bool
  | .finished _ => true
  | _ => false

end Job

variable (scope : Scope) (limit : Int) (workers : Nat)

/-- One worker does something. -/
inductive Step : List Job → List Job → Prop
  /-- A worker that is free takes the first expression that waits. -/
  | take {before after : List Job} {e : Expr} (hfirst : ∀ job ∈ before, job.isWaiting = false)
      (hfree : (before ++ .waiting e :: after).countP Job.isRunning < workers) :
    Step (before ++ .waiting e :: after) (before ++ .running (Machine.start e [] 0) :: after)
  | advance {before after : List Job} {s t : Machine.State}
      (h : Machine.step scope limit s = .continue t) :
    Step (before ++ .running s :: after) (before ++ .running t :: after)
  | finish {before after : List Job} {s : Machine.State} {o : Outcome}
      (h : Machine.step scope limit s = .halt o) :
    Step (before ++ .running s :: after) (before ++ .finished o :: after)

/-- What workers that go on in any order make of jobs. -/
def Reaches : List Job → List Job → Prop := Relation.ReflTransGen (Step scope limit workers)

variable {scope limit workers} {es : List Expr} {jobs jobs' before after : List Job}
  {os : List Outcome}

/-! ### Outcomes are those of the expressions -/

def Tracks (scope : Scope) (limit : Int) (e : Expr) : Job → Prop
  | .waiting e' => e' = e
  | .running s => ∀ o, Halts scope limit (Machine.start e [] 0) o ↔ Halts scope limit s o
  | .finished o => Halts scope limit (Machine.start e [] 0) o

lemma forall₂_replace {α β : Type} {p : α → β → Prop} {as : List α} {before after : List β}
    {x y : β} (h : List.Forall₂ p as (before ++ x :: after)) (hxy : ∀ a, p a x → p a y) :
    List.Forall₂ p as (before ++ y :: after) := by
  induction before generalizing as with
  | nil =>
    cases h with
    | cons hx hs => exact .cons (hxy _ hx) hs
  | cons b before ih =>
    cases h with
    | cons hb hs => exact .cons hb (ih hs)

lemma exists_of_forall₂ {α β : Type} {p : α → β → Prop} {as : List α} {bs : List β} {b : β}
    (h : List.Forall₂ p as bs) (hb : b ∈ bs) : ∃ a ∈ as, p a b := by
  induction h with
  | nil => cases hb
  | @cons a b' as bs hab _ ih =>
    rcases List.mem_cons.mp hb with rfl | hb
    · exact ⟨a, List.mem_cons_self, hab⟩
    · obtain ⟨a', ha', hp⟩ := ih hb
      exact ⟨a', List.mem_cons_of_mem _ ha', hp⟩

lemma Step.tracks (h : Step scope limit workers jobs jobs')
    (hj : List.Forall₂ (Tracks scope limit) es jobs) :
    List.Forall₂ (Tracks scope limit) es jobs' := by
  cases h with
  | take =>
    refine forall₂_replace hj fun e he => ?_
    cases he
    exact fun _ => Iff.rfl
  | advance h => exact forall₂_replace hj fun e he o => (he o).trans (Machine.halts_continue h)
  | finish h => exact forall₂_replace hj fun e he => (he _).mpr (Halts.of_step h)

lemma Reaches.tracks (h : Reaches scope limit workers jobs jobs')
    (hj : List.Forall₂ (Tracks scope limit) es jobs) :
    List.Forall₂ (Tracks scope limit) es jobs' := by
  induction h with
  | refl => exact hj
  | tail _ hs ih => exact hs.tracks ih

lemma tracks_waiting (es : List Expr) :
    List.Forall₂ (Tracks scope limit) es (es.map .waiting) := by
  rw [List.forall₂_map_right_iff, List.forall₂_same]
  exact fun _ _ => rfl

/-- Whatever the order in which the jobs are done, each outcome is that of its expression. -/
lemma halts_of_reaches
    (h : Reaches scope limit workers (es.map .waiting) (os.map .finished)) :
    List.Forall₂ (fun e o => Halts scope limit (Machine.start e [] 0) o) es os := by
  have ht := h.tracks (tracks_waiting es)
  rw [List.forall₂_map_right_iff] at ht
  exact ht

/-! ### Every pass can be finished -/

lemma reaches_finished {s : Machine.State} {o : Outcome} (h : Halts scope limit s o) :
    Reaches scope limit workers (before ++ .running s :: after)
      (before ++ .finished o :: after) := by
  obtain ⟨fuel, h⟩ := h
  induction fuel generalizing s with
  | zero => cases h
  | succ fuel ih =>
    obtain ⟨rest, hrest, hs | ⟨t, hs, ht⟩⟩ := Machine.run_eq_some h
    · exact .single (.finish hs)
    · cases hrest
      exact .head (.advance hs) (ih ht)

/-- One more job can be finished: one that a worker is busy with, or the first that waits. -/
lemma exists_reaches_finished (hw : 0 < workers)
    (hstop : ∀ e ∈ es, ∃ o, Halts scope limit (Machine.start e [] 0) o)
    (hj : List.Forall₂ (Tracks scope limit) es jobs) (hu : ∃ job ∈ jobs, job.isFinished = false) :
    ∃ before job o after, jobs = before ++ job :: after ∧ job.isFinished = false ∧
      Reaches scope limit workers jobs (before ++ .finished o :: after) := by
  by_cases hr : ∃ job ∈ jobs, job.isRunning = true
  · obtain ⟨job, hjob, hrun⟩ := hr
    obtain ⟨e, he, ht⟩ := exists_of_forall₂ hj hjob
    obtain ⟨o, ho⟩ := hstop e he
    obtain ⟨before, after, rfl⟩ := List.append_of_mem hjob
    cases job with
    | running s =>
      exact ⟨before, .running s, o, after, rfl, rfl, reaches_finished ((ht o).mp ho)⟩
    | waiting e => cases hrun
    | finished o => cases hrun
  · -- nobody is busy, so the first that waits is taken
    have hidle : jobs.countP Job.isRunning = 0 := by
      rw [List.countP_eq_zero]
      exact fun job hjob hrun => hr ⟨job, hjob, hrun⟩
    obtain ⟨job, hjob, hnot⟩ := hu
    have hwait : job.isWaiting = true := by
      cases job with
      | waiting e => rfl
      | running s => exact absurd ⟨_, hjob, rfl⟩ hr
      | finished o => cases hnot
    obtain ⟨first, hfirst⟩ := Option.isSome_iff_exists.mp
      (List.find?_isSome.mpr ⟨job, hjob, hwait⟩)
    obtain ⟨hfw, before, after, rfl, hbefore⟩ := List.find?_eq_some_iff_append.mp hfirst
    cases first with
    | running s => cases hfw
    | finished o => cases hfw
    | waiting e =>
      obtain ⟨e', he', ht⟩ := exists_of_forall₂ hj (List.mem_append_right _ List.mem_cons_self)
      cases ht
      obtain ⟨o, ho⟩ := hstop e he'
      refine ⟨before, .waiting e, o, after, rfl, rfl, .head (.take ?_ (by omega))
        (reaches_finished ho)⟩
      exact fun job hjob => by simpa using hbefore job hjob

lemma exists_reaches_all_finished (hw : 0 < workers)
    (hstop : ∀ e ∈ es, ∃ o, Halts scope limit (Machine.start e [] 0) o)
    (hj : List.Forall₂ (Tracks scope limit) es jobs) :
    ∃ os : List Outcome, Reaches scope limit workers jobs (os.map .finished) := by
  -- by induction on the number of jobs that are not done
  generalize hn : jobs.countP (fun job => !job.isFinished) = n
  induction n generalizing jobs with
  | zero =>
    have hall : jobs ∈ Set.range (List.map Job.finished) := by
      rw [Set.range_list_map]
      intro job hjob
      have hdone := List.countP_eq_zero.mp hn job hjob
      cases job with
      | finished o => exact ⟨o, rfl⟩
      | waiting e => exact absurd rfl hdone
      | running s => exact absurd rfl hdone
    obtain ⟨os, rfl⟩ := hall
    exact ⟨os, .refl⟩
  | succ n ih =>
    have hu : ∃ job ∈ jobs, job.isFinished = false := by
      have hpos : 0 < jobs.countP (fun job => !job.isFinished) := by omega
      obtain ⟨job, hjob, h⟩ := List.countP_pos_iff.mp hpos
      exact ⟨job, hjob, by simpa using h⟩
    obtain ⟨before, job, o, after, rfl, hnot, hr⟩ := exists_reaches_finished hw hstop hj hu
    have hcount : (before ++ .finished o :: after).countP (fun job => !job.isFinished) = n := by
      have hdone : (Job.finished o).isFinished = true := rfl
      simp only [List.countP_append, List.countP_cons, hnot, hdone, Bool.not_false, Bool.not_true,
        Bool.false_eq_true, if_true, if_false] at hn ⊢
      omega
    obtain ⟨os, hos⟩ := ih (hr.tracks hj) hcount
    exact ⟨os, hr.trans hos⟩

/-- Jobs that any run of the workers has come to can be finished, and there is one way they end. -/
lemma reaches_all_finished (hw : 0 < workers)
    (hos : List.Forall₂ (fun e o => Halts scope limit (Machine.start e [] 0) o) es os)
    (h : Reaches scope limit workers (es.map .waiting) jobs) :
    Reaches scope limit workers jobs (os.map .finished) := by
  have hstop : ∀ e ∈ es, ∃ o, Halts scope limit (Machine.start e [] 0) o := by
    intro e he
    obtain ⟨o, -, ho⟩ := exists_of_forall₂ hos.flip he
    exact ⟨o, ho⟩
  obtain ⟨os', hos'⟩ := exists_reaches_all_finished hw hstop (h.tracks (tracks_waiting es))
  -- an expression has one outcome, whichever way the workers have taken
  have heq : os' = os := List.right_unique_forall₂' (fun _ _ _ h h' => h.unique h')
    (halts_of_reaches (h.trans hos')) hos
  rwa [heq] at hos'

end ReversePolish.Pool
