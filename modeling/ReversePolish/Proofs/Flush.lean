import Mathlib.Data.List.Forall2
import ReversePolish.Proofs.Pool
import ReversePolish.Proofs.Writes

/-!
Evaluating all entries of the stack in one pass agrees with emitting them one by one.

The pass cuts the whole stack into expressions and evaluates them independently; of several errors
one that is fatal comes first. Emission takes one expression after the other off the stack and stops
at the first error. Which expressions there are, their order and their outcomes are the same.
-/

namespace ReversePolish

/-! ### Gathering outcomes -/

variable {os : List Outcome} {es : List Expr} {eval : Expr → Option Outcome}

def inOrder : List Outcome → Except Error (List Number)
  | [] => .ok []
  | .ok v :: rest => (inOrder rest).map (v :: ·)
  | .error error :: _ => .error error

lemma mem_failures {error : Error} : error ∈ failures os ↔ .error error ∈ os := by
  induction os with
  | nil => simp [failures]
  | cons o os ih => cases o <;> simp [failures, ih]

lemma inOrder_of_failures_eq_nil (h : failures os = []) : inOrder os = .ok (successes os) := by
  induction os with
  | nil => rfl
  | cons o os ih =>
    cases o with
    | ok v => simp [inOrder, successes, ih h, Except.map]
    | error error => cases h

lemma inOrder_of_failures_eq_cons {error : Error} {rest : List Error}
    (h : failures os = error :: rest) : inOrder os = .error error := by
  induction os with
  | nil => cases h
  | cons o os ih =>
    cases o with
    | ok v => simp [inOrder, ih h, Except.map]
    | error error' =>
      cases h
      rfl

/-- A pass in which nothing fatal happens gives what going through the outcomes in order gives. -/
lemma gather_eq_inOrder (h : ∀ error, .error error ∈ os → error.isFatal = false) :
    gather os = inOrder os := by
  have hnone : (failures os).find? Error.isFatal = none := by
    rw [List.find?_eq_none]
    intro error hmem
    simp [h error (mem_failures.mp hmem)]
  unfold gather
  rw [hnone]
  cases hf : failures os with
  | nil => exact (inOrder_of_failures_eq_nil hf).symm
  | cons error rest => exact (inOrder_of_failures_eq_cons hf).symm

/-- A fatal error, at whatever place, comes before the others. -/
lemma gather_of_fatal {error : Error} (hmem : .error error ∈ os) (hf : error.isFatal = true) :
    ∃ fatal, .error fatal ∈ os ∧ fatal.isFatal = true ∧ gather os = .error fatal := by
  obtain ⟨fatal, hfind⟩ := Option.isSome_iff_exists.mp
    (List.find?_isSome.mpr ⟨error, mem_failures.mpr hmem, hf⟩)
  refine ⟨fatal, mem_failures.mp (List.mem_of_find?_eq_some hfind), List.find?_some hfind, ?_⟩
  simp [gather, hfind]

lemma inOrder_eq_ok_iff {values : List Number} : inOrder os = .ok values ↔ os = values.map .ok := by
  induction os generalizing values with
  | nil => cases values <;> simp [inOrder]
  | cons o os ih =>
    cases o with
    | error error => cases values <;> simp [inOrder]
    | ok v =>
      cases values with
      | nil => cases hrest : inOrder os <;> simp [inOrder, hrest, Except.map]
      | cons w ws =>
        have ih' : inOrder os = .ok ws ↔ os = ws.map .ok := ih
        cases hrest : inOrder os <;> simp [inOrder, hrest, Except.map, ← ih']

lemma mapM_eq_some (h : List.Forall₂ (fun e o => eval e = some o) es os) :
    es.mapM eval = some os := by
  induction h with
  | nil => rfl
  | cons ho _ ih => simp [List.mapM_cons, ho, ih]

lemma forall₂_of_mapM (h : es.mapM eval = some os) :
    List.Forall₂ (fun e o => eval e = some o) es os := by
  induction es generalizing os with
  | nil =>
    cases h
    exact .nil
  | cons e es ih =>
    simp only [List.mapM_cons, Option.bind_eq_bind, Option.bind_eq_some_iff] at h
    obtain ⟨o, ho, os', hos, heq⟩ := h
    cases heq
    exact .cons ho (ih hos)

/-- Also with no expression or with one, what a pass gives is what its outcomes come to. -/
lemma gatherAll_eq (h : List.Forall₂ (fun e o => eval e = some o) es os) :
    gatherAll eval es = some (gather os) := by
  cases h with
  | nil => rfl
  | @cons e o _ _ ho hs =>
    cases hs with
    | nil =>
      rw [gatherAll, ho]
      cases o with
      | ok v => rfl
      | error error => cases hf : error.isFatal <;> simp [gather, failures, hf, Except.map]
    | cons ho' hs =>
      rw [gatherAll, mapM_eq_some (.cons ho (.cons ho' hs))]
      · rfl
      · simp
      · simp

lemma mem_of_gather {error : Error} (h : gather os = .error error) : .error error ∈ os := by
  unfold gather at h
  split at h
  · next fatal _ hfind =>
    cases h
    exact mem_failures.mp (List.mem_of_find?_eq_some hfind)
  · next first rest _ hf =>
    cases h
    exact mem_failures.mp (hf ▸ List.mem_cons_self)
  · cases h

lemma exists_of_gatherAll {error : Error} (h : gatherAll eval es = some (.error error)) :
    ∃ e ∈ es, eval e = some (.error error) := by
  unfold gatherAll at h
  split at h
  · cases h
  · next e =>
    obtain ⟨o, ho, herror⟩ := Option.map_eq_some_iff.mp h
    cases o with
    | ok v => cases herror
    | error error' =>
      cases herror
      exact ⟨e, by simp, ho⟩
  · obtain ⟨os, hos, herror⟩ := Option.map_eq_some_iff.mp h
    obtain ⟨e, he, ho⟩ := Pool.exists_of_forall₂ (forall₂_of_mapM hos) (mem_of_gather herror)
    exact ⟨e, he, ho⟩

/-- A pass hangs on the outcomes of its expressions alone. -/
lemma gatherAll_congr {eval' : Expr → Option Outcome} (h : ∀ e ∈ es, eval e = eval' e) :
    gatherAll eval es = gatherAll eval' es := by
  have hmap : es.mapM eval = es.mapM eval' := by
    induction es with
    | nil => rfl
    | cons e es ih =>
      rw [List.mapM_cons, List.mapM_cons, h e (by simp),
        ih fun x hx => h x (List.mem_cons_of_mem _ hx)]
  match es, h, hmap with
  | [], _, _ => rfl
  | [e], h, _ => simp only [gatherAll, h e (by simp)]
  | _ :: _ :: _, _, hmap => simp only [gatherAll, hmap]

section Pass

variable {scope : Scope} {limit : Int}

/-- Some number of steps is enough for all expressions, and so is any greater one. -/
lemma exists_enough
    (h : List.Forall₂ (fun e o => ∃ fuel, evaluate scope limit fuel e [] = some o) es os) :
    ∃ enough, ∀ fuel ≥ enough,
      List.Forall₂ (fun e o => evaluate scope limit fuel e [] = some o) es os := by
  induction h with
  | nil => exact ⟨0, fun _ _ => .nil⟩
  | cons ho _ ih =>
    obtain ⟨fuel₁, ho⟩ := ho
    obtain ⟨fuel₂, ih⟩ := ih
    refine ⟨fuel₁ + fuel₂, fun fuel hle => .cons (Machine.run_mono ho ?_) (ih fuel ?_)⟩
    · omega
    · omega

lemma fatal_of_stops
    (h : List.Forall₂ (fun e o => ∃ fuel, evaluate scope limit fuel e [] = some o) es os)
    {error : Error} (hmem : .error error ∈ os) (hf : error.isFatal = true) :
    error = .depthExceeded limit := by
  obtain ⟨e, -, hhalts⟩ := Pool.exists_of_forall₂ h hmem
  exact Machine.halts_fatal hhalts hf

/-- What a pass gives for the outcomes of its expressions. -/
lemma gather_of_stops
    (h : List.Forall₂ (fun e o => ∃ fuel, evaluate scope limit fuel e [] = some o) es os) :
    (.error (.depthExceeded limit) ∈ os → gather os = .error (.depthExceeded limit)) ∧
    (.error (.depthExceeded limit) ∉ os → gather os = inOrder os) := by
  constructor
  · intro hmem
    obtain ⟨fatal, hmem', hf, hgather⟩ := gather_of_fatal hmem rfl
    rw [hgather, fatal_of_stops h hmem' hf]
  · intro hnot
    refine gather_eq_inOrder fun error hmem => ?_
    by_contra hf
    have hlimit := fatal_of_stops h hmem (by simpa using hf)
    exact hnot (hlimit ▸ hmem)

end Pass

/-! ### Emission -/

namespace Engine

variable {e : Engine} {fuel count : Nat} {run below : List Token} {runs : List (List Token)}

/-- Emits the top expression so many times, up to the first failure. -/
def emitTimes (e : Engine) (fuel n : Nat) : Option Reply :=
  e.forEach (accept fun e c => e.run fuel c) (List.replicate n (.command .emit))

section

variable {x : Expr} (htop : Grouping.topRun e.table.arityOf e.stack.tokens = .ok (run, below))
  (hb : Grouping.build e.table.arityOf 0 run = .ok x)

include htop hb

lemma run_emit_ok {v : Number} (ho : e.outcome fuel x = some (.ok v)) :
    e.run fuel .emit = some ⟨.ok [.value v], { e with stack := e.stack.remove run below }⟩ := by
  simp only [Engine.run, runBy, withTop, pop, htop, hb, ho]

lemma run_emit_error {error : Error} (ho : e.outcome fuel x = some (.error error)) :
    e.run fuel .emit = some (e.fail { e with stack := e.stack.remove run below } error) := by
  simp only [Engine.run, runBy, withTop, pop, htop, hb, ho]

end

lemma emitTimes_succ_ok {popped after : Engine} {outputs : List Output} {n : Nat}
    {result : Except Error (List Output)} (h : e.run fuel .emit = some ⟨.ok outputs, popped⟩)
    (hr : popped.emitTimes fuel n = some ⟨result, after⟩) :
    e.emitTimes fuel (n + 1) = some ⟨result.map (outputs ++ ·), after⟩ := by
  unfold emitTimes at hr ⊢
  simp only [List.replicate_succ, forEach, accept, h, hr]
  cases result <;> rfl

lemma emitTimes_succ_error {after : Engine} {error : Error} {n : Nat}
    (h : e.run fuel .emit = some ⟨.error error, after⟩) :
    e.emitTimes fuel (n + 1) = some ⟨.error error, after⟩ := by
  simp only [emitTimes, List.replicate_succ, forEach, accept, h]

lemma emitTimes_nil (hc : e.stack.Counted) (h : e.stack.tokens = []) :
    e.emitTimes fuel 0 = some ⟨.ok [], { e with stack := .empty }⟩ := by
  have hempty : Stack.ofTokens e.stack.tokens = .empty := by rw [h]; rfl
  rw [← hempty, hc.ofTokens_eq]
  rfl

/-- One emission after the other goes through the outcomes in order. -/
lemma emitTimes_eq {es : List Expr} {os : List Outcome} (hc : e.stack.Counted)
    (hr : Grouping.takeRuns e.table.arityOf count e.stack.tokens = .ok (runs, []))
    (hb : Grouping.buildAll e.table.arityOf 0 runs = .ok es)
    (ho : List.Forall₂ (fun x o => e.outcome fuel x = some o) es os) :
    ∃ after, e.emitTimes fuel runs.length =
        some ⟨(inOrder os).map (List.map .value), after⟩ ∧
      ∀ values, inOrder os = .ok values → after = { e with stack := .empty } := by
  induction count generalizing e runs es os with
  | zero =>
    injection hr with hr
    injection hr with hruns htokens
    subst hruns
    cases hb
    cases ho
    exact ⟨_, emitTimes_nil hc htokens, fun _ _ => rfl⟩
  | succ count ih =>
    cases hs : e.stack.tokens with
    | nil =>
      rw [hs] at hr
      cases hr
      cases hb
      cases ho
      exact ⟨_, emitTimes_nil hc hs, fun _ _ => rfl⟩
    | cons t stack =>
      rw [hs] at hr
      obtain ⟨run, below, runs', htop, hrest, rfl⟩ := Grouping.takeRuns_succ_eq_ok hr
      obtain ⟨x, xs, hx, hxs, rfl⟩ := Grouping.buildAll_cons_eq_ok hb
      rw [← hs] at htop
      cases ho with
      | @cons _ o _ os hox hos =>
        cases o with
        | error error =>
          exact ⟨_, emitTimes_succ_error (run_emit_error htop hx hox), by simp [inOrder]⟩
        | ok v =>
          -- the engine below the top expression has the same table, so it goes on in the same way
          have hbelow : Below e { e with stack := e.stack.remove run below } :=
            .removed (Grouping.topRun_eq_ok htop) (by simp)
          obtain ⟨after, hemit, hafter⟩ := ih (hbelow.stack.counted hc) hrest hxs hos
          have hstep := emitTimes_succ_ok (run_emit_ok htop hx hox) hemit
          refine ⟨after, ?_, ?_⟩
          · rw [List.length_cons, hstep]
            cases hin : inOrder os <;> simp [inOrder, hin, Except.map]
          · intro values hvalues
            cases hin : inOrder os with
            | error error => simp [inOrder, hin, Except.map] at hvalues
            | ok vs => exact hafter vs hin

/-! ### One pass and one by one -/

lemma entries_eq_ok
    (hsplit : Grouping.splitAll e.table.arityOf e.stack.tokens = .ok runs)
    (hnatural : ∀ t ∈ e.stack.tokens, e.table.arityOf.Natural t)
    (hargs : ∀ i, .arg i ∉ e.stack.tokens) :
    ∃ es, Grouping.buildAll e.table.arityOf 0 runs = .ok es ∧ e.entries = .ok es ∧
      es.length = runs.length := by
  obtain ⟨es, hb, hlen⟩ := Grouping.buildAll_takeRuns (Grouping.splitAll_eq_ok hsplit) hnatural
    fun i hi => absurd hi (hargs i)
  exact ⟨es, hb, by simp only [entries, hsplit, bind, Except.bind, hb], hlen⟩

lemma run_flush_eq {es : List Expr} {os : List Outcome} (he : e.entries = .ok es)
    (ho : List.Forall₂ (fun x o => e.outcome fuel x = some o) es os) :
    ∃ after, e.run fuel .flush = some ⟨(gather os).map (List.map .value), after⟩ ∧
      ∀ values, gather os = .ok values → after = { e with stack := .empty } := by
  simp only [Engine.run, runBy, flush, he, gatherAll_eq ho]
  cases hg : gather os with
  | ok values => exact ⟨_, rfl, fun _ _ => rfl⟩
  | error error => exact ⟨_, rfl, by simp⟩

/-- One pass agrees with `n` emissions on entries that have the outcomes given. -/
structure FlushAgrees (e : Engine) (n fuel : Nat) (os : List Outcome) : Prop where
  /-- If there are only values, both give them and leave the same engine. -/
  values (vs : List Number) (h : os = vs.map .ok) :
    e.run fuel .flush = some ⟨.ok (vs.map .value), { e with stack := .empty }⟩ ∧
    e.emitTimes fuel n = some ⟨.ok (vs.map .value), { e with stack := .empty }⟩
  /-- The limit on calls comes first, wherever it is exceeded. -/
  fatal (limit : Int) (h : .error (.depthExceeded limit) ∈ os) :
    ∃ after, e.run fuel .flush = some ⟨.error (.depthExceeded limit), after⟩
  /-- Else both fail with the same error, if there is one. -/
  failure (error : Error) (h : .error error ∈ os)
      (hnot : ∀ limit, .error (.depthExceeded limit) ∉ os) :
    ∃ first after after', e.run fuel .flush = some ⟨.error first, after⟩ ∧
      e.emitTimes fuel n = some ⟨.error first, after'⟩

lemma flushAgrees {es : List Expr} {os : List Outcome} (hc : e.stack.Counted)
    (hsplit : Grouping.splitAll e.table.arityOf e.stack.tokens = .ok runs)
    (hb : Grouping.buildAll e.table.arityOf 0 runs = .ok es) (hentries : e.entries = .ok es)
    (hos : List.Forall₂ (fun x o => ∃ fuel, e.outcome fuel x = some o) es os)
    (hfuel : List.Forall₂ (fun x o => e.outcome fuel x = some o) es os) :
    e.FlushAgrees runs.length fuel os := by
  obtain ⟨after, hflush, hafter⟩ := run_flush_eq hentries hfuel
  obtain ⟨after', hemit, hafter'⟩ := emitTimes_eq hc (Grouping.splitAll_eq_ok hsplit) hb hfuel
  obtain ⟨hfatal, hordinary⟩ := gather_of_stops hos
  constructor
  case values =>
    intro vs hvs
    have hin : inOrder os = .ok vs := inOrder_eq_ok_iff.mpr hvs
    have hg : gather os = .ok vs := by rw [hordinary (by simp [hvs]), hin]
    rw [hflush, hemit, hafter vs hg, hafter' vs hin, hg, hin]
    exact ⟨rfl, rfl⟩
  case fatal =>
    intro limit hmem
    have hlimit := fatal_of_stops hos hmem rfl
    rw [hlimit] at hmem ⊢
    rw [hfatal hmem] at hflush
    exact ⟨after, hflush⟩
  case failure =>
    intro error hmem hnot
    rw [hordinary (hnot _)] at hflush
    rcases hin : inOrder os with first | vs
    · rw [hin] at hflush hemit
      exact ⟨first, after, after', hflush, hemit⟩
    · -- if all had values, there would be no error among them
      rw [inOrder_eq_ok_iff.mp hin] at hmem
      simp at hmem

end Engine

/--
**Flushing is emission**: one pass over a stack that splits into complete expressions, none of which
refers to an argument and all of which stop, gives the values that as many emissions give and leaves
the same engine, or fails with the error that they fail with, unless the limit on calls is exceeded
somewhere, which then comes first. No arity of these expressions may be below zero, and in an engine
that was new none is. So a pass is no more than the evaluation of each expression by itself, in the
order given, however many workers share it and in whichever order they get done.
-/
theorem flush_agrees_with_emission :
    (∀ (e : Engine) (runs : List (List Token)), e.Reachable →
      Grouping.splitAll e.table.arityOf e.stack.tokens = .ok runs →
      (∀ t ∈ e.stack.tokens, e.table.arityOf.Natural t) → (∀ i, .arg i ∉ e.stack.tokens) →
      ∃ es, e.entries = .ok es ∧ es.length = runs.length ∧
        ∀ os, List.Forall₂ (fun x o => ∃ fuel, e.outcome fuel x = some o) es os →
          ∃ enough, ∀ fuel ≥ enough, e.FlushAgrees runs.length fuel os) ∧
    (∀ (limits : Limits) (e : Engine), Engine.Reaches (fun _ => True) (.new limits) e →
      e.Reachable ∧ ∀ t, e.table.arityOf.Natural t) ∧
    ∀ (scope : Scope) (limit : Int) (workers : Nat) (es : List Expr) (os : List Outcome),
      0 < workers →
      (Pool.Reaches scope limit workers (es.map .waiting) (os.map .finished) ↔
        List.Forall₂ (fun x o => ∃ fuel, evaluate scope limit fuel x [] = some o) es os) ∧
      (List.Forall₂ (fun x o => ∃ fuel, evaluate scope limit fuel x [] = some o) es os →
        (∀ jobs, Pool.Reaches scope limit workers (es.map .waiting) jobs →
          Pool.Reaches scope limit workers jobs (os.map .finished)) ∧
        ∃ enough, ∀ fuel ≥ enough,
          (.error (.depthExceeded limit) ∈ os →
            evaluateAll scope limit fuel es = some (.error (.depthExceeded limit))) ∧
          (.error (.depthExceeded limit) ∉ os →
            evaluateAll scope limit fuel es = some (inOrder os))) := by
  refine ⟨?_, ?_, ?_⟩
  · intro e runs he hsplit hnatural hargs
    obtain ⟨es, hb, hentries, hlen⟩ := Engine.entries_eq_ok hsplit hnatural hargs
    refine ⟨es, hentries, hlen, fun os hos => ?_⟩
    -- the expressions stop after different numbers of steps, and one number is enough for all
    obtain ⟨enough, henough⟩ := exists_enough hos
    exact ⟨enough, fun fuel hle =>
      Engine.flushAgrees he.counted hsplit hb hentries hos (henough fuel hle)⟩
  · intro limits e he
    have hnatural := he.natural (fun _ _ => trivial) Table.natural_empty
    exact ⟨⟨limits, .empty, he⟩, hnatural.token⟩
  · intro scope limit workers es os hw
    refine ⟨⟨Pool.halts_of_reaches, fun hos => Pool.reaches_all_finished hw hos .refl⟩,
      fun hos => ⟨fun jobs hjobs => Pool.reaches_all_finished hw hos hjobs, ?_⟩⟩
    obtain ⟨enough, henough⟩ := exists_enough hos
    obtain ⟨hfatal, hordinary⟩ := gather_of_stops hos
    refine ⟨enough, fun fuel hle => ?_⟩
    have hall := gatherAll_eq (henough fuel hle)
    exact ⟨fun hmem => by rw [evaluateAll, hall, hfatal hmem],
      fun hnot => by rw [evaluateAll, hall, hordinary hnot]⟩

def Engine.numbers : Engine := ⟨.standard, .ofTokens [.number 2, .number 7], .empty⟩

lemma Engine.numbers_reachable : numbers.Reachable :=
  ((Reachable.start .standard .empty).push (.number 7) rfl).push (.number 2) rfl

/-- An engine with `f`, which calls itself, and on top of it `x`, which is not known. -/
def Engine.descending : Engine :=
  ⟨{ Limits.standard with depth := 1, depth_pos := Int.one_pos },
    .ofTokens [.name "x", .name "f"], Table.empty.define ⟨"f", 0, .recursive (.name "f")⟩⟩

lemma Engine.descending_reachable : descending.Reachable :=
  ((Reachable.start descending.limits descending.table).push (.name "f") rfl).push (.name "x") rfl

lemma Engine.descending_natural : descending.table.Natural :=
  Table.natural_empty.define _ (Int.le_refl 0)

lemma Engine.descending_call :
    descending.outcome 10 (.call "f" []) = some (.error (.depthExceeded 1)) := by
  have hdeep : descending.outcome 10 (.call "f" []) = some (.error (.tooDeep 1)) := rfl
  rw [hdeep, Machine.tooDeep_of_fits (by decide +kernel)]

/--
Two numbers are emitted alike. Of two failures the limit on calls comes first, though it is exceeded
below; and two workers come to the outcomes of both expressions.
-/
theorem numbers_descending_flush_agrees_with_emission :
    (∃ enough, ∀ fuel ≥ enough,
      Engine.numbers.run fuel .flush =
        some ⟨.ok [.value 2, .value 7], { Engine.numbers with stack := .empty }⟩ ∧
      Engine.numbers.emitTimes fuel 2 =
        some ⟨.ok [.value 2, .value 7], { Engine.numbers with stack := .empty }⟩) ∧
    (∃ enough, ∀ fuel ≥ enough, ∃ after,
      Engine.descending.run fuel .flush = some ⟨.error (.depthExceeded 1), after⟩) ∧
    Pool.Reaches Engine.descending.table.scope 1 2 [.waiting (.name "x"), .waiting (.call "f" [])]
      [.finished (.error (.unknownFunction "x" 0)), .finished (.error (.depthExceeded 1))] := by
  have hx : Engine.descending.outcome 10 (.name "x") = some (.error (.unknownFunction "x" 0)) := rfl
  have hf := Engine.descending_call
  refine ⟨?_, ?_, ?_⟩
  · obtain ⟨es, hes, -, hall⟩ := flush_agrees_with_emission.1 Engine.numbers _
      Engine.numbers_reachable rfl (fun t _ => Table.natural_empty.token t)
      (by simp [Engine.numbers, Stack.ofTokens])
    obtain rfl : [.literal 2, .literal 7] = es := Except.ok.inj hes
    obtain ⟨enough, h⟩ := hall [.ok 2, .ok 7] (.cons ⟨2, rfl⟩ (.cons ⟨2, rfl⟩ .nil))
    exact ⟨enough, fun fuel hle => (h fuel hle).values [2, 7] rfl⟩
  · obtain ⟨es, hes, -, hall⟩ := flush_agrees_with_emission.1 Engine.descending _
      Engine.descending_reachable rfl (fun t _ => Engine.descending_natural.token t)
      (by simp [Engine.descending, Stack.ofTokens])
    obtain rfl : [.name "x", .call "f" []] = es := Except.ok.inj hes
    obtain ⟨enough, h⟩ := hall [_, _] (.cons ⟨10, hx⟩ (.cons ⟨10, hf⟩ .nil))
    exact ⟨enough, fun fuel hle => (h fuel hle).fatal 1 (by simp)⟩
  · exact (flush_agrees_with_emission.2.2 Engine.descending.table.scope 1 2
      [.name "x", .call "f" []] [_, _] (by decide)).1.mpr
      (.cons ⟨10, hx⟩ (.cons ⟨10, hf⟩ .nil))

end ReversePolish
