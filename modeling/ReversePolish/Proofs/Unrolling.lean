import ReversePolish.Proofs.Refinement

/-!
A loop means the same as a function that calls itself for the next round.

The recursive form needs one more active call for each round. So as long as the limit is not hit it
ends as the loop does, and it ends as the loop does whenever the limit leaves enough room. Both are
shown for scopes that differ in any number of loops.
-/

namespace ReversePolish

/-- A loop has one step for each argument. -/
def Scope.WellFormed (scope : Scope) : Prop :=
  ∀ n k loop, scope.body? n k = some (.iterative loop) → loop.steps.length = k

def Scope.redeclare (scope : Scope) (name : String) (arity : Nat) (body : Body) : Scope :=
  { scope with body? := fun n k => if n = name ∧ k = arity then some body else scope.body? n k }

/-- A round of a loop as an expression; the next one is a call. -/
def Loop.unrolled (loop : Loop) (name : String) : Expr :=
  .select loop.terminal (.call name loop.steps) loop.predicate

/-- The error with which an evaluation ends that hits the limit on active calls. -/
def Exhausted (limit : Int) {α : Type} : Except Error α → Prop
  | .ok _ => False
  | .error error => error = .tooDeep limit

/-- A scope that has recursive functions in the place of some loops of another. -/
structure Unrolls (unrolled scope : Scope) : Prop where
  value (n : String) : unrolled.valueOf? n = scope.valueOf? n
  body (n : String) (k : Nat) : unrolled.body? n k = scope.body? n k ∨
    ∃ loop : Loop, loop.steps.length = k ∧ scope.body? n k = some (.iterative loop) ∧
      unrolled.body? n k = some (.recursive (loop.unrolled n))

lemma Unrolls.redeclare {scope : Scope} (hs : scope.WellFormed) {name : String} {k : Nat}
    {loop : Loop} (hl : scope.body? name k = some (.iterative loop)) :
    Unrolls (scope.redeclare name k (.recursive (loop.unrolled name))) scope where
  value _ := rfl
  body n j := by
    by_cases h : n = name ∧ j = k
    · obtain ⟨rfl, rfl⟩ := h
      exact Or.inr ⟨loop, hs _ _ _ hl, hl, by simp [Scope.redeclare]⟩
    · exact Or.inl (by simp [Scope.redeclare, h])

variable {unrolled scope : Scope} {limit limit' : Int} {d d' : Nat}

/-- Under a scope that has the loop itself, a round as an expression is a round of the loop. -/
lemma loopEvaluates_of_round {n : String} {loop : Loop} {frame : Frame} {o : Outcome}
    (hl : scope.body? n loop.steps.length = some (.iterative loop))
    (h : Evaluates scope limit d (loop.unrolled n) frame o) :
    LoopEvaluates scope limit d loop frame o := by
  cases h with
  | operand h =>
    cases h with
    | head hp => exact .predicate hp
    | tail _ hs => cases hs
  | taken hp hv ht => exact .terminal hp hv ht
  | untaken hp hu =>
    cases hu with
    | operand hs => exact .steps hp hs
    | call hs hc =>
      -- the call finds the loop, so it is the rest of the rounds
      rw [← hs.length_eq] at hl
      cases hc with
      | unknown h => rw [hl] at h; cases h
      | exhausted h => rw [hl] at h; cases h
      | recursive h => rw [hl] at h; cases h
      | iterative h hr =>
        rw [hl] at h
        cases h
        exact .again hp hs hr

/-! ### From recursion to loops -/

mutual

/-- What ends with less room for calls ends in the same way with more. -/
lemma evaluates_of_unrolled (hu : Unrolls unrolled scope) {limit limit' : Int} {d d' : Nat}
    {e : Expr} {frame : Frame} {o : Outcome} (hle : limit + d' ≤ limit' + d)
    (ho : ¬Exhausted limit o) :
    Evaluates unrolled limit d e frame o → Evaluates scope limit' d' e frame o
  | .literal => .literal
  | .arg h => .arg h
  | .value h => .value (hu.value _ ▸ h)
  | .name h hc => .name (hu.value _ ▸ h) (callEvaluates_of_unrolled hu hle ho hc)
  | .operand h => .operand (evaluatesAll_of_unrolled hu hle ho h)
  | .binary h hop => .binary (evaluatesAll_of_unrolled hu hle id h) hop
  | .powMod h hop => .powMod (evaluatesAll_of_unrolled hu hle id h) hop
  | .taken hp hv ht =>
    .taken (evaluates_of_unrolled hu hle id hp) hv (evaluates_of_unrolled hu hle ho ht)
  | .untaken hp hf =>
    .untaken (evaluates_of_unrolled hu hle id hp) (evaluates_of_unrolled hu hle ho hf)
  | .call h hc =>
    .call (evaluatesAll_of_unrolled hu hle id h) (callEvaluates_of_unrolled hu hle ho hc)

lemma evaluatesAll_of_unrolled (hu : Unrolls unrolled scope) {limit limit' : Int} {d d' : Nat}
    {es : List Expr} {frame : Frame} {r : Except Error (List Number)}
    (hle : limit + d' ≤ limit' + d) (hr : ¬Exhausted limit r) :
    EvaluatesAll unrolled limit d es frame r → EvaluatesAll scope limit' d' es frame r
  | .nil => .nil
  | .cons h hs =>
    .cons (evaluates_of_unrolled hu hle id h) (evaluatesAll_of_unrolled hu hle id hs)
  | .head h => .head (evaluates_of_unrolled hu hle hr h)
  | .tail h hs =>
    .tail (evaluates_of_unrolled hu hle id h) (evaluatesAll_of_unrolled hu hle hr hs)

lemma callEvaluates_of_unrolled (hu : Unrolls unrolled scope) {limit limit' : Int} {d d' : Nat}
    {n : String} {vs : List Number} {o : Outcome} (hle : limit + d' ≤ limit' + d)
    (ho : ¬Exhausted limit o) :
    CallEvaluates unrolled limit d n vs o → CallEvaluates scope limit' d' n vs o
  | .unknown h => by
    rcases hu.body n vs.length with heq | ⟨loop, -, -, hr⟩
    · exact .unknown (heq ▸ h)
    · rw [hr] at h
      cases h
  | .exhausted _ _ => absurd rfl ho
  | .recursive h hd hb => by
    rcases hu.body n vs.length with heq | ⟨loop, hlen, hl, hr⟩
    · have hb' : Evaluates scope limit' (d' + 1) _ vs o :=
        evaluates_of_unrolled hu (by omega) ho hb
      exact .recursive (heq ▸ h) (by omega) hb'
    · -- the call of the next round has become the loop, so the body is a round of it
      have hb' : Evaluates scope limit' d' _ vs o := evaluates_of_unrolled hu (by omega) ho hb
      rw [hr] at h
      cases h
      exact .iterative hl (loopEvaluates_of_round (hlen ▸ hl) hb')
  | .iterative h hl => by
    rcases hu.body n vs.length with heq | ⟨loop, -, -, hr⟩
    · exact .iterative (heq ▸ h) (loopEvaluates_of_unrolled hu hle ho hl)
    · rw [hr] at h
      cases h

lemma loopEvaluates_of_unrolled (hu : Unrolls unrolled scope) {limit limit' : Int} {d d' : Nat}
    {loop : Loop} {frame : Frame} {o : Outcome} (hle : limit + d' ≤ limit' + d)
    (ho : ¬Exhausted limit o) :
    LoopEvaluates unrolled limit d loop frame o → LoopEvaluates scope limit' d' loop frame o
  | .predicate h => .predicate (evaluates_of_unrolled hu hle ho h)
  | .terminal hp hv ht =>
    .terminal (evaluates_of_unrolled hu hle id hp) hv (evaluates_of_unrolled hu hle ho ht)
  | .steps hp hs =>
    .steps (evaluates_of_unrolled hu hle id hp) (evaluatesAll_of_unrolled hu hle ho hs)
  | .again hp hs hl =>
    .again (evaluates_of_unrolled hu hle id hp) (evaluatesAll_of_unrolled hu hle id hs)
      (loopEvaluates_of_unrolled hu hle ho hl)

end

/-! ### From loops to recursion -/

/-- Something holds whenever the limit leaves room for so many more calls. -/
def WithRoom (p : Int → Nat → Prop) : Prop :=
  ∃ room : Nat, ∀ (limit : Int) (d : Nat), (d : Int) + room ≤ limit → p limit d

section Room

variable {p q r : Int → Nat → Prop}

lemma WithRoom.of_forall (h : ∀ limit d, p limit d) : WithRoom p := ⟨0, fun limit d _ => h limit d⟩

lemma WithRoom.imp (hp : WithRoom p) (h : ∀ limit d, p limit d → q limit d) : WithRoom q := by
  obtain ⟨room, hp⟩ := hp
  exact ⟨room, fun limit d hroom => h limit d (hp limit d hroom)⟩

lemma WithRoom.imp₂ (hp : WithRoom p) (hq : WithRoom q)
    (h : ∀ limit d, p limit d → q limit d → r limit d) : WithRoom r := by
  obtain ⟨m, hp⟩ := hp
  obtain ⟨n, hq⟩ := hq
  exact ⟨m + n, fun limit d hroom => h limit d (hp limit d (by omega)) (hq limit d (by omega))⟩

lemma WithRoom.call (hp : WithRoom p) :
    WithRoom fun limit d => (d : Int) < limit ∧ p limit (d + 1) := by
  obtain ⟨room, hp⟩ := hp
  exact ⟨room + 1, fun limit d hroom => ⟨by omega, hp limit (d + 1) (by omega)⟩⟩

end Room

mutual

lemma withRoom_eval (hu : Unrolls unrolled scope) {limit : Int} {d : Nat} {e : Expr}
    {frame : Frame} {o : Outcome} (ho : ¬Exhausted limit o) :
    Evaluates scope limit d e frame o →
      WithRoom fun limit d => Evaluates unrolled limit d e frame o
  | .literal => .of_forall fun _ _ => .literal
  | .arg h => .of_forall fun _ _ => .arg h
  | .value h => .of_forall fun _ _ => .value (hu.value _ ▸ h)
  | .name h hc => (withRoom_call hu ho hc).imp fun _ _ hc => .name (hu.value _ ▸ h) hc
  | .operand h => (withRoom_all hu ho h).imp fun _ _ h => .operand h
  | .binary h hop => (withRoom_all hu id h).imp fun _ _ h => .binary h hop
  | .powMod h hop => (withRoom_all hu id h).imp fun _ _ h => .powMod h hop
  | .taken hp hv ht =>
    (withRoom_eval hu id hp).imp₂ (withRoom_eval hu ho ht) fun _ _ hp ht => .taken hp hv ht
  | .untaken hp hf =>
    (withRoom_eval hu id hp).imp₂ (withRoom_eval hu ho hf) fun _ _ hp hf => .untaken hp hf
  | .call h hc =>
    (withRoom_all hu id h).imp₂ (withRoom_call hu ho hc) fun _ _ h hc => .call h hc

lemma withRoom_all (hu : Unrolls unrolled scope) {limit : Int} {d : Nat} {es : List Expr}
    {frame : Frame} {r : Except Error (List Number)} (hr : ¬Exhausted limit r) :
    EvaluatesAll scope limit d es frame r →
      WithRoom fun limit d => EvaluatesAll unrolled limit d es frame r
  | .nil => .of_forall fun _ _ => .nil
  | .cons h hs => (withRoom_eval hu id h).imp₂ (withRoom_all hu id hs) fun _ _ h hs => .cons h hs
  | .head h => (withRoom_eval hu hr h).imp fun _ _ h => .head h
  | .tail h hs => (withRoom_eval hu id h).imp₂ (withRoom_all hu hr hs) fun _ _ h hs => .tail h hs

lemma withRoom_call (hu : Unrolls unrolled scope) {limit : Int} {d : Nat} {n : String}
    {vs : List Number} {o : Outcome} (ho : ¬Exhausted limit o) :
    CallEvaluates scope limit d n vs o →
      WithRoom fun limit d => CallEvaluates unrolled limit d n vs o
  | .unknown h => by
    rcases hu.body n vs.length with heq | ⟨loop, -, hl, -⟩
    · exact .of_forall fun _ _ => .unknown (heq.trans h)
    · rw [hl] at h
      cases h
  | .exhausted _ _ => absurd rfl ho
  | .recursive h hd hb => by
    rcases hu.body n vs.length with heq | ⟨loop, -, hl, -⟩
    · exact (withRoom_eval hu ho hb).call.imp fun _ _ ⟨hd, hb⟩ => .recursive (heq.trans h) hd hb
    · rw [hl] at h
      cases h
  | .iterative h hl => by
    have hrounds := withRoom_loop hu ho hl
    rcases hu.body n vs.length with heq | ⟨loop, hlen, hloop, hr⟩
    · exact hrounds.imp fun _ _ hl => .iterative (heq.trans h) hl.1
    · rw [hloop] at h
      cases h
      exact hrounds.call.imp fun _ _ ⟨hd, hl⟩ => .recursive hr hd (hl.2 n (hlen ▸ hr))

/-- The rounds of a loop can be done as a loop, and as a function that calls itself. -/
lemma withRoom_loop (hu : Unrolls unrolled scope) {limit : Int} {d : Nat} {loop : Loop}
    {frame : Frame} {o : Outcome} (ho : ¬Exhausted limit o) :
    LoopEvaluates scope limit d loop frame o →
      WithRoom fun limit d => LoopEvaluates unrolled limit d loop frame o ∧
        ∀ n, unrolled.body? n loop.steps.length = some (.recursive (loop.unrolled n)) →
          Evaluates unrolled limit d (loop.unrolled n) frame o
  | .predicate h =>
    (withRoom_eval hu ho h).imp fun _ _ h => ⟨.predicate h, fun _ _ => .operand (.head h)⟩
  | .terminal hp hv ht =>
    (withRoom_eval hu id hp).imp₂ (withRoom_eval hu ho ht) fun _ _ hp ht =>
      ⟨.terminal hp hv ht, fun _ _ => .taken hp hv ht⟩
  | .steps hp hs =>
    (withRoom_eval hu id hp).imp₂ (withRoom_all hu ho hs) fun _ _ hp hs =>
      ⟨.steps hp hs, fun _ _ => .untaken hp (.operand hs)⟩
  | .again hp hs hl => by
    have hfirst := (withRoom_eval hu id hp).imp₂ (withRoom_all hu id hs) fun _ _ => And.intro
    -- as a loop the next round needs no room, as a call it does
    have hnext := (withRoom_loop hu ho hl).imp₂ (withRoom_loop hu ho hl).call fun _ _ => And.intro
    refine hfirst.imp₂ hnext fun limit d ⟨hp, hs⟩ ⟨hloop, hd, hcall⟩ => ?_
    refine ⟨.again hp hs hloop.1, fun n hn => .untaken hp (.call hs ?_)⟩
    exact .recursive (hs.length_eq ▸ hn) hd (hcall.2 n hn)

end

/--
**Loops and recursion agree.** Let a function of a scope be a loop, and let it be declared anew as
the function that calls itself for the next round. What ends under the recursive form, and not by
hitting the limit on calls, ends in the same way under the loop with the same limit. What ends under
the loop, and not by hitting the limit, ends in the same way under the recursive form with every
limit that is great enough. Hitting a limit is fatal if the limit can be written.
-/
theorem evaluate_loop_agrees_with_recursion (scope : Scope) (hs : scope.WellFormed)
    (name : String) (k : Nat) (loop : Loop) (hl : scope.body? name k = some (.iterative loop))
    (e : Expr) (frame : Frame) (limit : Int) (o : Outcome) (ho : o ≠ .error (.tooDeep limit)) :
    ((∃ fuel, evaluate (scope.redeclare name k (.recursive (loop.unrolled name))) limit fuel e frame
        = some o) →
      ∃ fuel, evaluate scope limit fuel e frame = some o) ∧
    ((∃ fuel, evaluate scope limit fuel e frame = some o) →
      ∃ bound : Int, ∀ limit' ≥ bound, ∃ fuel,
        evaluate (scope.redeclare name k (.recursive (loop.unrolled name))) limit' fuel e frame
          = some o) := by
  have hu := Unrolls.redeclare hs hl
  have hexhausted : ¬Exhausted limit o := by
    cases o with
    | ok v => exact id
    | error error => exact fun h => ho (congrArg Except.error h)
  constructor
  · intro h
    have he := Machine.evaluates_of_halts h
    exact Machine.halts_of_evaluates (evaluates_of_unrolled hu (Int.le_refl _) hexhausted he)
  · intro h
    obtain ⟨room, hroom⟩ := withRoom_eval hu hexhausted (Machine.evaluates_of_halts h)
    refine ⟨room, fun limit' hle => ?_⟩
    exact Machine.halts_of_evaluates (hroom limit' 0 (by simpa using hle))

def factorialLoop : Loop where
  steps := [.binary .mul (.arg 0) (.arg 1), .binary .sub (.arg 1) (.literal 1)]
  terminal := .arg 0
  predicate := .binary .monus (.literal 1) (.arg 1)

def factorialScope : Scope where
  valueOf? _ := none
  body? n k := if n = "factorial" ∧ k = 2 then some (.iterative factorialLoop) else none

lemma factorialScope_wellFormed : factorialScope.WellFormed := by
  intro n k loop h
  simp only [factorialScope] at h
  split at h
  · next hk =>
    cases h
    exact hk.2.symm
  · cases h

/-- The factorial of five as a loop, which no limit stops, and as a recursion. -/
theorem factorial_loop_agrees_with_recursion :
    (∃ fuel, evaluate factorialScope 0 fuel
      (.call "factorial" [.literal 1, .literal 5]) [] = some (.ok 120)) ∧
    ∃ bound : Int, ∀ limit ≥ bound, ∃ fuel, evaluate (factorialScope.redeclare "factorial" 2
      (.recursive (factorialLoop.unrolled "factorial"))) limit fuel
      (.call "factorial" [.literal 1, .literal 5]) [] = some (.ok 120) := by
  have hloop : ∃ fuel, evaluate factorialScope 0 fuel
      (.call "factorial" [.literal 1, .literal 5]) [] = some (.ok 120) :=
    ⟨100, by decide +kernel⟩
  exact ⟨hloop, (evaluate_loop_agrees_with_recursion factorialScope factorialScope_wellFormed
    "factorial" 2 factorialLoop rfl _ [] 0 (.ok 120) (by simp)).2 hloop⟩

/--
A limit below zero that is too long to write stops the recursion with an error that is not fatal,
since its message would name the limit. The loop never hits a limit.
-/
theorem long_limit_stops_recursion_only :
    evaluate (factorialScope.redeclare "factorial" 2
        (.recursive (factorialLoop.unrolled "factorial"))) (-(Decimal.bound : Int)) 10
      (.call "factorial" [.literal 1, .literal 5]) [] = some (.error .unwritable) ∧
    Error.isFatal .unwritable = false ∧
    evaluate factorialScope (-(Decimal.bound : Int)) 100
      (.call "factorial" [.literal 1, .literal 5]) [] = some (.ok 120) :=
  ⟨by decide +kernel, rfl, by decide +kernel⟩

end ReversePolish
