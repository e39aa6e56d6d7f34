import ReversePolish.Proofs.Congruence

/-!
Arguments as substitution.

Every expression that waits to be evaluated carries the arguments that it may refer to. It ends as
it would with these arguments written in the place of the references and none to refer to. A call of
a recursive function ends as its body does with the values written in, except that the body is then
evaluated with one active call less. What counts is only how many more calls may become active, so
this is made up for by a limit that is less by one.
-/

namespace ReversePolish

open ReversePolish.Expr (IndexBelow)

/-! ### Writing arguments into an expression -/

/-- The argument at an index as an expression. An index at which there is none stays. -/
def Frame.insert (frame : Frame) (i : Int) : Expr :=
  match frame.argument i with
  | .ok v => .literal v
  | .error _ => .arg i

namespace Expr

mutual

def substitute (frame : Frame) : Expr → Expr
  | .literal v => .literal v
  | .name n => .name n
  | .arg i => frame.insert i
  | .binary op l r => .binary op (l.substitute frame) (r.substitute frame)
  | .powMod b e m => .powMod (b.substitute frame) (e.substitute frame) (m.substitute frame)
  | .select t u p => .select (t.substitute frame) (u.substitute frame) (p.substitute frame)
  | .call n args => .call n (substituteAll frame args)

def substituteAll (frame : Frame) : List Expr → List Expr
  | [] => []
  | e :: es => e.substitute frame :: substituteAll frame es

end

lemma forall₂_substituteAll {R : Expr → Expr → Prop} {frame : Frame} {es : List Expr}
    (h : ∀ x ∈ es, R x (x.substitute frame)) : List.Forall₂ R es (substituteAll frame es) := by
  induction es with
  | nil => exact .nil
  | cons x es ih => exact .cons (h x (by simp)) (ih fun y hy => h y (List.mem_cons_of_mem _ hy))

/-- Substitution leaves the kind of a node as it is, unless the node is a reference. -/
lemma similar_substitute {R : Expr → Expr → Prop} {frame : Frame} {e : Expr}
    (harg : ∀ i, e ≠ .arg i) (h : ∀ x ∈ e.children, R x (x.substitute frame)) :
    e.Similar R (e.substitute frame) := by
  cases e with
  | literal v => exact .literal v
  | name n => exact .name n
  | arg i => exact absurd rfl (harg i)
  | binary op l r => exact .binary op (h l (by simp [children])) (h r (by simp [children]))
  | powMod b e m =>
    exact .powMod (h b (by simp [children])) (h e (by simp [children])) (h m (by simp [children]))
  | select t u p =>
    exact .select (h t (by simp [children])) (h u (by simp [children])) (h p (by simp [children]))
  | call n args => exact .call n (forall₂_substituteAll h)

end Expr

section Substitute

variable {scope : Scope} {limit : Int} {d : Nat} {frame : Frame}

/-- An index that counts from the end of a list and finds nothing finds nothing in an empty list. -/
lemma Index.position_zero {length : Nat} {i : Int} {fault : Fault} (hi : i < 0)
    (h : position length i = .error fault) : position 0 i = .error fault := by
  unfold position at h ⊢
  split at h
  · next hwide =>
    rw [if_pos hwide]
    exact h
  · next hwide =>
    rw [if_neg hwide]
    have hplace : ¬0 ≤ i := by omega
    dsimp only at h
    split at h
    · cases h
    · cases h
      simp [hi, hplace]

/-- A reference that finds no argument finds none either where there are no arguments at all. -/
lemma argument_nil_of_error {i : Int} {error : Error} (hi : i < frame.length)
    (hframe : (frame.length : Int) ≤ Index.bound) (h : frame.argument i = .error error) :
    Frame.argument [] i = .error error := by
  unfold Frame.argument at h ⊢
  rw [if_neg (Int.not_le.mpr hi)] at h
  rcases hp : Index.position frame.length i with fault | place
  · rw [hp] at h
    cases h
    have hneg : i < 0 := by
      by_contra hpos
      rw [Index.position_of_lt (Int.not_lt.mp hpos) hi hframe] at hp
      cases hp
    rw [if_neg (by simpa using hneg), List.length_nil, Index.position_zero hneg hp]
  · rw [hp] at h
    cases h

/-- A reference ends as the argument does that is written in its place. -/
lemma sameOutcome_insert {i : Int} (hi : i < frame.length)
    (hframe : (frame.length : Int) ≤ Index.bound) :
    SameOutcome scope limit d frame [] (.arg i) (frame.insert i) := by
  unfold Frame.insert
  rcases h : frame.argument i with error | v
  · refine .of_similar (.arg i) fun j hj => ?_
    cases hj
    rw [h, argument_nil_of_error hi hframe h]
  · exact sameOutcome_literal (.arg h) []

lemma sameOutcome_substitute {e : Expr} (he : e.Every (IndexBelow frame.length))
    (hframe : (frame.length : Int) ≤ Index.bound) :
    SameOutcome scope limit d frame [] e (e.substitute frame) := by
  induction he with
  | @node e hbelow _ ih =>
    by_cases harg : ∃ i, e = .arg i
    · obtain ⟨i, rfl⟩ := harg
      exact sameOutcome_insert hbelow hframe
    · have hne : ∀ i, e ≠ .arg i := fun i hi => harg ⟨i, hi⟩
      exact .of_similar (Expr.similar_substitute hne ih) fun i hi => absurd hi (hne i)

end Substitute

/-! ### Room for calls -/

/-- The error as it is under another limit: the one that the limit is hit names the limit. -/
def Error.underLimit (limit : Int) : Error → Error
  | .depthExceeded _ => .tooDeep limit
  | error => error

/--
A property holds of a result, or the result is the error of hitting one limit, and the property
holds of the error of hitting the other.
-/
def Alike {α : Type} (limit limit' : Int) (p : Except Error α → Prop) (r : Except Error α) : Prop :=
  p r ∨ r = .error (.tooDeep limit) ∧ p (.error (.tooDeep limit'))

namespace Alike

variable {α β : Type} {limit limit' : Int} {p : Except Error α → Prop} {q : Except Error β → Prop}

lemma ok {a : α} (h : Alike limit limit' p (.ok a)) : p (.ok a) := by
  rcases h with h | ⟨h, -⟩
  · exact h
  · cases h

lemma imp {q : Except Error α → Prop} {r : Except Error α} (h : Alike limit limit' p r)
    (hpq : ∀ r, p r → q r) : Alike limit limit' q r :=
  Or.imp (hpq r) (fun h => ⟨h.1, hpq _ h.2⟩) h

lemma error {error : Error} (h : Alike limit limit' p (.error error))
    (hpq : ∀ error, p (.error error) → q (.error error)) :
    Alike limit limit' q (.error error) :=
  Or.imp (hpq error) (fun h => ⟨congrArg Except.error (Except.error.inj h.1), hpq _ h.2⟩) h

end Alike

section Room

variable {scope : Scope} {limit limit' : Int}

mutual

/--
What is derived under one limit is derived under any other that leaves as many calls, rule by rule,
or it is the error of hitting the limit.
-/
lemma evaluates_alike {d d' : Nat} (hroom : limit - d = limit' - d') {e : Expr} {frame : Frame}
    {o : Outcome} : Evaluates scope limit d e frame o →
      Alike limit limit' (Evaluates scope limit' d' e frame) o
  | .literal => .inl .literal
  | .arg h => .inl (.arg h)
  | .value h => .inl (.value h)
  | .name h hc => (callEvaluates_alike hroom hc).imp fun _ => .name h
  | .operand h => (evaluatesAll_alike hroom h).error fun _ => .operand
  | .binary h ho => .inl (.binary (evaluatesAll_alike hroom h).ok ho)
  | .powMod h ho => .inl (.powMod (evaluatesAll_alike hroom h).ok ho)
  -- the predicate has a value, so only the branch can hit the limit
  | .taken hp hv ht =>
    (evaluates_alike hroom ht).imp fun _ => .taken (evaluates_alike hroom hp).ok hv
  | .untaken hp hu => (evaluates_alike hroom hu).imp fun _ => .untaken (evaluates_alike hroom hp).ok
  | .call h hc => (callEvaluates_alike hroom hc).imp fun _ => .call (evaluatesAll_alike hroom h).ok

lemma evaluatesAll_alike {d d' : Nat} (hroom : limit - d = limit' - d') {es : List Expr}
    {frame : Frame} {r : Except Error (List Number)} : EvaluatesAll scope limit d es frame r →
      Alike limit limit' (EvaluatesAll scope limit' d' es frame) r
  | .nil => .inl .nil
  | .cons h hs => .inl (.cons (evaluates_alike hroom h).ok (evaluatesAll_alike hroom hs).ok)
  | .head h => (evaluates_alike hroom h).error fun _ => .head
  | .tail h hs => (evaluatesAll_alike hroom hs).error fun _ => .tail (evaluates_alike hroom h).ok

lemma callEvaluates_alike {d d' : Nat} (hroom : limit - d = limit' - d') {n : String}
    {vs : List Number} {o : Outcome} : CallEvaluates scope limit d n vs o →
      Alike limit limit' (CallEvaluates scope limit' d' n vs) o
  | .unknown h => .inl (.unknown h)
  | .exhausted h hd => .inr ⟨rfl, .exhausted h (by omega)⟩
  -- one more call is active under both limits, so as many are left
  | .recursive h hd hb => (evaluates_alike (by omega) hb).imp fun _ => .recursive h (by omega)
  | .iterative h hl => (loopEvaluates_alike hroom hl).imp fun _ => .iterative h

lemma loopEvaluates_alike {d d' : Nat} (hroom : limit - d = limit' - d') {loop : Loop}
    {frame : Frame} {o : Outcome} : LoopEvaluates scope limit d loop frame o →
      Alike limit limit' (LoopEvaluates scope limit' d' loop frame) o
  | .predicate h => (evaluates_alike hroom h).error fun _ => .predicate
  | .terminal hp hv ht =>
    (evaluates_alike hroom ht).imp fun _ => .terminal (evaluates_alike hroom hp).ok hv
  | .steps hp hs =>
    (evaluatesAll_alike hroom hs).error fun _ => .steps (evaluates_alike hroom hp).ok
  | .again hp hs hl => (loopEvaluates_alike hroom hl).imp fun _ =>
    .again (evaluates_alike hroom hp).ok (evaluatesAll_alike hroom hs).ok

end

variable {d d' : Nat} {e : Expr} {frame : Frame} {o : Outcome}

/-- What ends alike under two limits does not name either. -/
lemma underLimit_of_evaluates (h : Evaluates scope limit d e frame o)
    (h' : Evaluates scope limit' d' e frame o) (hne : limit ≠ limit') (other : Int) :
    o.mapError (.underLimit other) = o := by
  rcases o with error | v
  · cases error with
    | depthExceeded k =>
      have hk := Machine.halts_fatal (Machine.halts_of_evaluates h) rfl
      have hk' := Machine.halts_fatal (Machine.halts_of_evaluates h') rfl
      rw [hk] at hk'
      exact absurd (Error.depthExceeded.inj hk') hne
    | _ => rfl
  · rfl

/-- The error of hitting a limit is that of hitting another, if this can be written at all. -/
lemma underLimit_tooDeep
    (h : Decimal.fits limit'.natAbs = true → Decimal.fits limit.natAbs = true) :
    (Error.tooDeep limit).underLimit limit' = .tooDeep limit' := by
  cases hfits : Decimal.fits limit.natAbs with
  | true =>
    rw [Machine.tooDeep_of_fits hfits]
    rfl
  | false =>
    have hfits' : Decimal.fits limit'.natAbs = false := by
      rw [← Bool.not_eq_true]
      intro htrue
      rw [h htrue] at hfits
      cases hfits
    rw [Machine.tooDeep_of_not_fits hfits, Machine.tooDeep_of_not_fits hfits']
    rfl

lemma fits_of_le {m n : Nat} (hle : m ≤ n) (h : Decimal.fits n = true) : Decimal.fits m = true :=
  decide_eq_true (Nat.lt_of_le_of_lt hle (of_decide_eq_true h))

/--
Under limits that leave as many calls an expression ends alike, but for the limit that is named.
-/
lemma evaluates_iff_of_room {m n : Nat} (hlt : m < n) (hroom : (n : Int) - d = m - d') :
    Evaluates scope n d e frame o ↔ ∃ o', Evaluates scope m d' e frame o' ∧
      o = o'.mapError (.underLimit n) ∧
      ((Decimal.fits m = true → Decimal.fits n = true) →
        o' = o.mapError (.underLimit m)) := by
  have hne : (n : Int) ≠ m := by omega
  have hup : (Error.tooDeep m).underLimit n = .tooDeep n :=
    underLimit_tooDeep fun h => fits_of_le (by omega) h
  constructor
  · intro h
    rcases evaluates_alike hroom h with h' | ⟨rfl, h'⟩
    · have hsame := underLimit_of_evaluates h h' hne
      exact ⟨o, h', (hsame n).symm, fun _ => (hsame m).symm⟩
    · refine ⟨_, h', congrArg Except.error hup.symm, fun hfits => congrArg Except.error ?_⟩
      rw [← Int.natAbs_natCast m, ← Int.natAbs_natCast n] at hfits
      exact (underLimit_tooDeep hfits).symm
  · rintro ⟨o', h', rfl, -⟩
    rcases evaluates_alike hroom.symm h' with h | ⟨rfl, h⟩
    · rwa [underLimit_of_evaluates h h' hne]
    · rwa [Except.mapError, hup]

end Room

/-! ### Calls -/

section Call

variable {scope : Scope} {limit : Int} {d : Nat} {frame : Frame} {name : String}
  {values : List Number} {o : Outcome}

lemma evaluatesAll_literals_iff {r : Except Error (List Number)} :
    EvaluatesAll scope limit d (values.map .literal) frame r ↔ r = .ok values := by
  induction values generalizing r with
  | nil =>
    constructor
    · intro h
      cases h
      rfl
    · rintro rfl
      exact .nil
  | cons v values ih =>
    have hliteral : ∀ o, Evaluates scope limit d (.literal v) frame o ↔ o = .ok v := fun _ =>
      evaluates_iff_eq_ok .literal
    constructor
    · intro h
      cases h with
      | cons h hs =>
        cases (hliteral _).mp h
        cases ih.mp hs
        rfl
      | head h => cases (hliteral _).mp h
      | tail h hs => cases ih.mp hs
    · rintro rfl
      exact .cons .literal (ih.mpr rfl)

/-- A call with given values ends as the function does with these arguments. -/
lemma evaluates_call_literals_iff :
    Evaluates scope limit d (.call name (values.map .literal)) frame o ↔
      CallEvaluates scope limit d name values o := by
  constructor
  · intro h
    cases h with
    | operand h => cases evaluatesAll_literals_iff.mp h
    | call h hc =>
      cases evaluatesAll_literals_iff.mp h
      exact hc
  · intro h
    exact .call (evaluatesAll_literals_iff.mpr rfl) h

/-- A recursive function that may be called ends as its body does while one more call is active. -/
lemma callEvaluates_recursive_iff {body : Expr}
    (hbody : scope.body? name values.length = some (.recursive body)) (hd : d < limit) :
    CallEvaluates scope limit d name values o ↔ Evaluates scope limit (d + 1) body values o := by
  constructor
  · intro h
    cases h with
    | unknown h =>
      rw [hbody] at h
      cases h
    | exhausted _ hle => omega
    | recursive h _ hb =>
      rw [hbody] at h
      cases h
      exact hb
    | iterative h _ =>
      rw [hbody] at h
      cases h
  · intro h
    exact .recursive hbody hd h

end Call

/--
**Arguments behave as substitution.** An expression that refers only to arguments that are there
ends as it does, without arguments, with these in the place of the references to them: with the same
value or the same error, or not at all. A call of a recursive function, while no call is active,
ends as the body does with the values in the place of the references and with a limit that is less
by one, except that each of the two names its own limit if it is hit. So each of the outcomes is
known from the other, unless the lesser limit is the greatest number that can be written.
-/
theorem arguments_behave_as_substitution (scope : Scope) :
    (∀ limit d e (frame : Frame), e.Every (IndexBelow frame.length) →
      (frame.length : Int) ≤ Index.bound → ∀ o,
        (∃ fuel, Machine.run scope limit fuel (Machine.start e frame d) = some o) ↔
          ∃ fuel,
            Machine.run scope limit fuel (Machine.start (e.substitute frame) [] d) = some o) ∧
    ∀ name body (values : List Number), scope.body? name values.length = some (.recursive body) →
      body.Every (IndexBelow values.length) → (values.length : Int) ≤ Index.bound → ∀ (m : Nat) o,
        (∃ fuel, call scope (m + 1) fuel name values = some o) ↔
          ∃ o', (∃ fuel, evaluate scope m fuel (body.substitute values) [] = some o') ∧
            o = o'.mapError (.underLimit (m + 1)) ∧
            ((Decimal.fits m = true → Decimal.fits (m + 1) = true) →
              o' = o.mapError (.underLimit m)) := by
  refine ⟨fun limit d e frame he hframe o => (sameOutcome_substitute he hframe).halts_iff,
    fun name body values hbody hbelow hvalues m o => ?_⟩
  -- inside the call one more is active, which leaves as much room as the lesser limit does
  have hroom : ((m + 1 : Nat) : Int) - (0 + 1 : Nat) = (m : Int) - (0 : Nat) := by omega
  calc (∃ fuel, call scope (m + 1) fuel name values = some o)
    _ ↔ Evaluates scope (m + 1) 0 (.call name (values.map .literal)) [] o :=
      ⟨Machine.evaluates_of_halts, Machine.halts_of_evaluates⟩
    _ ↔ CallEvaluates scope (m + 1) 0 name values o := evaluates_call_literals_iff
    _ ↔ Evaluates scope (m + 1) (0 + 1) body values o :=
      callEvaluates_recursive_iff hbody (by omega)
    _ ↔ Evaluates scope (m + 1) (0 + 1) (body.substitute values) [] o :=
      sameOutcome_substitute hbelow hvalues o
    _ ↔ ∃ o', Evaluates scope m 0 (body.substitute values) [] o' ∧
          o = o'.mapError (.underLimit (m + 1)) ∧
          ((Decimal.fits m = true → Decimal.fits (m + 1) = true) →
            o' = o.mapError (.underLimit m)) :=
      evaluates_iff_of_room (Nat.lt_succ_self m) hroom
    _ ↔ _ := exists_congr fun o' =>
      and_congr_left' ⟨Machine.halts_of_evaluates, Machine.evaluates_of_halts⟩

def lessCountdown : Expr := .binary .sub (.arg (-1)) (.call "down" [.arg 0])

def countdownBody : Expr :=
  .select (.call "down" [.binary .sub (.arg 0) (.literal 1)]) (.literal 0) (.arg 0)

/--
Eight less the countdown from three is eight, which takes four calls. The countdown from nine
exceeds a limit of five calls, since its body with nine written in exceeds one of four.
-/
theorem countdown_arguments_behave_as_substitution :
    (lessCountdown.Every (IndexBelow 2) ∧
      lessCountdown.substitute [3, 8] = .binary .sub (.literal 8) (.call "down" [.literal 3]) ∧
      ∃ fuel,
        Machine.run countdownScope 4 fuel (Machine.start lessCountdown [3, 8] 0) = some (.ok 8)) ∧
    (countdownScope.body? "down" 1 = some (.recursive countdownBody) ∧
      countdownBody.Every (IndexBelow 1) ∧
      (∃ fuel, evaluate countdownScope 4 fuel (countdownBody.substitute [9]) [] =
        some (.error (.depthExceeded 4))) ∧
      ∃ fuel, call countdownScope 5 fuel "down" [9] = some (.error (.depthExceeded 5))) := by
  have hless : lessCountdown.Every (IndexBelow 2) := by
    have htokens : lessCountdown.tokens =
        [.arg (-1), .arg 0, .name "down", .op (.binary .sub)] := rfl
    refine Grouping.every_indexBelow_iff.mpr fun i hi => ?_
    simp only [htokens, List.mem_cons, Token.arg.injEq, reduceCtorEq, List.not_mem_nil,
      or_false] at hi
    omega
  have hbelow : countdownBody.Every (IndexBelow 1) := by
    have htokens : countdownBody.tokens = [.arg 0, .number 1, .op (.binary .sub), .name "down",
        .number 0, .arg 0, .op .select] := rfl
    refine Grouping.every_indexBelow_iff.mpr fun i hi => ?_
    simp only [htokens, List.mem_cons, Token.arg.injEq, reduceCtorEq, List.not_mem_nil, or_false,
      false_or] at hi
    omega
  obtain ⟨hexpr, hcall⟩ := arguments_behave_as_substitution countdownScope
  have height : ∃ fuel, Machine.run countdownScope 4 fuel
      (Machine.start (lessCountdown.substitute [3, 8]) [] 0) = some (.ok 8) :=
    ⟨50, by decide +kernel⟩
  have hnine : ∃ fuel, evaluate countdownScope 4 fuel (countdownBody.substitute [9]) [] =
      some (.error (.depthExceeded 4)) := ⟨80, by decide +kernel⟩
  refine ⟨⟨hless, rfl, (hexpr 4 0 _ [3, 8] hless (by decide) _).mpr height⟩, rfl, hbelow, hnine, ?_⟩
  have hfour : Error.tooDeep 4 = .depthExceeded 4 := Machine.tooDeep_of_fits (by decide +kernel)
  have hfive : Error.tooDeep 5 = .depthExceeded 5 := Machine.tooDeep_of_fits (by decide +kernel)
  exact (hcall "down" countdownBody [9] rfl hbelow (by decide) 4 _).mpr
    ⟨_, hnine, congrArg Except.error hfive.symm, fun _ => congrArg Except.error hfour.symm⟩

end ReversePolish
