import ReversePolish.Proofs.Closed
import ReversePolish.Proofs.Extent

/-!
What the limit on recursive calls does to an evaluation.

It only ever cuts off: two machines with different limits take the same steps until one of them
calls a recursive function while as many calls as its limit allows are active. The one with the
lesser limit comes to that first. And where there are no loops the limit is enough to end every
evaluation, since a body is evaluated with one call less to spare, and all else that is evaluated is
a part of an expression.
-/

namespace ReversePolish

/-! ### Different limits -/

namespace Machine

/-- The next task calls a recursive function while as many calls are active as the limit allows. -/
def Exceeds (scope : Scope) (limit : Int) (s : State) : Prop :=
  ∃ n count tasks body, s.tasks = .call n count :: tasks ∧
    scope.body? n (s.values.take count).reverse.length = some (.recursive body) ∧ limit ≤ s.depth

variable {scope : Scope} {limit limit' : Int} {s : State} {fuel : Nat} {o : Outcome}

lemma Exceeds.of_le (h : Exceeds scope limit' s) (hle : limit ≤ limit') :
    Exceeds scope limit s := by
  obtain ⟨n, count, tasks, body, htasks, hbody, hdepth⟩ := h
  exact ⟨n, count, tasks, body, htasks, hbody, hle.trans hdepth⟩

lemma step_of_exceeds (h : Exceeds scope limit s) :
    step scope limit s = .halt (.error (.tooDeep limit)) := by
  obtain ⟨tasks, values, d⟩ := s
  obtain ⟨n, count, tasks, body, rfl, hbody, hdepth⟩ := h
  simp only [step, enter, hbody, if_pos hdepth]

lemma exceeds_of_enter {n : String} {count : Nat} {tasks : List Task} {values : List Number}
    {d : Nat} {k : Int}
    (h : enter scope limit n (values.take count).reverse tasks (values.drop count) d =
      .halt (.error (.depthExceeded k))) :
    Exceeds scope limit ⟨.call n count :: tasks, values, d⟩ := by
  unfold enter at h
  split at h
  · cases h
  · cases h
  · next body hbody =>
    split at h
    · next hdepth => exact ⟨n, count, tasks, body, rfl, hbody, hdepth⟩
    · cases h

lemma exceeds_of_step {k : Int} (h : step scope limit s = .halt (.error (.depthExceeded k))) :
    Exceeds scope limit s := by
  have hfatal : (Error.depthExceeded k).isFatal = true := rfl
  unfold step at h
  split at h <;> try cases h
  · rw [isFatal_expand h] at hfatal
    cases hfatal
  · rw [apply_eq_error (put_eq_halt h), isFatal_showing rfl] at hfatal
    cases hfatal
  · rw [modularPower_eq_error (put_eq_halt h), isFatal_showing rfl] at hfatal
    cases hfatal
  · exact exceeds_of_enter h
  · split at h <;> cases h

/-- A step that exceeds neither of two limits does not depend on them. -/
lemma step_congr (h : ¬Exceeds scope limit s) (h' : ¬Exceeds scope limit' s) :
    step scope limit s = step scope limit' s := by
  obtain ⟨_ | ⟨task, tasks⟩, values, d⟩ := s
  · rcases values with _ | ⟨v, _ | ⟨w, values⟩⟩ <;> rfl
  · cases task with
    | call n count =>
      simp only [step, enter]
      split
      · rfl
      · rfl
      · next body hbody =>
        have hd : ¬limit ≤ d := fun hd => h ⟨n, count, tasks, body, rfl, hbody, hd⟩
        have hd' : ¬limit' ≤ d := fun hd => h' ⟨n, count, tasks, body, rfl, hbody, hd⟩
        rw [if_neg hd, if_neg hd']
    -- the other tasks know nothing of a limit, whether or not they find their values
    | apply op => rcases values with _ | ⟨b, _ | ⟨a, values⟩⟩ <;> rfl
    | applyPowMod => rcases values with _ | ⟨m, _ | ⟨e, _ | ⟨b, values⟩⟩⟩ <;> rfl
    | select t u frame => cases values <;> rfl
    | check loop frame => cases values <;> rfl
    | eval e frame => rfl
    | leave => rfl
    | test loop frame => rfl
    | again loop => rfl

/-- A run that ends before the limit is exceeded ends alike with a greater limit. -/
lemma run_of_le (hle : limit ≤ limit') (h : run scope limit fuel s = some o)
    (ho : o ≠ .error (.tooDeep limit)) : run scope limit' fuel s = some o := by
  induction fuel generalizing s with
  | zero => cases h
  | succ fuel ih =>
    have hs : ¬Exceeds scope limit s := by
      intro hs
      rw [run_halt (step_of_exceeds hs)] at h
      exact ho (Option.some.inj h).symm
    have hstep := step_congr hs fun hs' => hs (hs'.of_le hle)
    obtain ⟨_, hrest, hhalt | ⟨t, ht, hrun⟩⟩ := run_eq_some h
    · exact run_halt (hstep ▸ hhalt)
    · cases hrest
      rw [run_continue (hstep ▸ ht)]
      exact ih hrun

/-- A run that exceeds the limit exceeds a lesser one, and no later. -/
lemma run_exceeds_of_le (hle : limit ≤ limit')
    (h : run scope limit' fuel s = some (.error (.depthExceeded limit'))) :
    run scope limit fuel s = some (.error (.tooDeep limit)) := by
  induction fuel generalizing s with
  | zero => cases h
  | succ fuel ih =>
    by_cases hs : Exceeds scope limit s
    · exact run_halt (step_of_exceeds hs)
    · have hs' : ¬Exceeds scope limit' s := fun hs' => hs (hs'.of_le hle)
      obtain ⟨_, hrest, hhalt | ⟨t, ht, hrun⟩⟩ := run_eq_some h
      · exact absurd (exceeds_of_step hhalt) hs'
      · cases hrest
        rw [run_continue ((step_congr hs hs').trans ht)]
        exact ih hrun

end Machine

/--
**The limit only cuts off.** If an evaluation ends with anything but the error of hitting its limit,
then it ends alike under every greater limit, and if it exceeds its limit, then it hits every lesser
one. It takes no more steps there. Hitting a limit is the fatal error that names it, if the limit
can be written.
-/
theorem limit_only_cuts_off (scope : Scope) (e : Expr) (frame : Frame) (limit limit' : Int)
    (hle : limit ≤ limit') (fuel : Nat) :
    (∀ o, evaluate scope limit fuel e frame = some o → o ≠ .error (.tooDeep limit) →
      evaluate scope limit' fuel e frame = some o) ∧
    (evaluate scope limit' fuel e frame = some (.error (.depthExceeded limit')) →
      evaluate scope limit fuel e frame = some (.error (.tooDeep limit))) ∧
    (Decimal.fits limit.natAbs = true → Error.tooDeep limit = .depthExceeded limit) :=
  ⟨fun _ => Machine.run_of_le hle, Machine.run_exceeds_of_le hle, Machine.tooDeep_of_fits⟩

/-- Counts down to zero, one call for each number. -/
def countdownScope : Scope where
  valueOf? _ := none
  body? n k := if n = "down" ∧ k = 1 then some (.recursive (.select
    (.call "down" [.binary .sub (.arg 0) (.literal 1)]) (.literal 0) (.arg 0))) else none

/-- From two to zero takes three calls, which five allow as well; from nine on, five are too few. -/
theorem countdown_limit_only_cuts_off :
    (evaluate countdownScope 3 50 (.call "down" [.literal 2]) [] = some (.ok 0) ∧
      evaluate countdownScope 5 50 (.call "down" [.literal 2]) [] = some (.ok 0)) ∧
    evaluate countdownScope 5 50 (.call "down" [.literal 9]) [] =
        some (.error (.depthExceeded 5)) ∧
      evaluate countdownScope 3 50 (.call "down" [.literal 9]) [] =
        some (.error (.depthExceeded 3)) := by
  have htwo : evaluate countdownScope 3 50 (.call "down" [.literal 2]) [] = some (.ok 0) := by
    decide +kernel
  have hnine : evaluate countdownScope 5 50 (.call "down" [.literal 9]) [] =
      some (.error (.depthExceeded 5)) := by
    decide +kernel
  obtain ⟨hmore, hless, hfits⟩ :=
    limit_only_cuts_off countdownScope (.call "down" [.literal 9]) [] 3 5 (by decide) 50
  have hthree : Error.tooDeep 3 = .depthExceeded 3 := hfits (by decide +kernel)
  have hfive := (limit_only_cuts_off countdownScope (.call "down" [.literal 2]) [] 3 5 (by decide)
    50).1 _ htwo nofun
  exact ⟨⟨htwo, hfive⟩, hnine, hthree ▸ hless hnine⟩

/--
A limit below zero that is too long to write stops the evaluation with an error that names no limit
and is not fatal. Greater limits let it come to its value, or stop it with the fatal error.
-/
theorem long_limit_cuts_off_silently :
    evaluate countdownScope (-(Decimal.bound : Int)) 50 (.call "down" [.literal 2]) [] =
      some (.error .unwritable) ∧
    (Error.unwritable ≠ .depthExceeded (-(Decimal.bound : Int)) ∧
      Error.isFatal .unwritable = false) ∧
    evaluate countdownScope 3 50 (.call "down" [.literal 2]) [] = some (.ok 0) ∧
    evaluate countdownScope 0 50 (.call "down" [.literal 2]) [] =
      some (.error (.depthExceeded 0)) :=
  ⟨by decide +kernel, ⟨nofun, rfl⟩, by decide +kernel, by decide +kernel⟩

/-! ### No loops -/

/--
References that find what is there: an index counts from the first argument, and a call has no more
arguments than there are indices.
-/
def Expr.Indexed : Expr → Prop
  | .arg i => 0 ≤ i
  | .call _ args => (args.length : Int) ≤ Index.bound
  | _ => True

namespace Scope

def LoopFree (scope : Scope) : Prop := ∀ n count loop, scope.body? n count ≠ some (.iterative loop)

/-- All references in bodies find what is there. -/
def Indexed (scope : Scope) : Prop :=
  ∀ n count body, scope.body? n count = some (.recursive body) → body.Every Expr.Indexed

end Scope

/--
What an evaluation raises. An error that shows a number is replaced by another one if the number
cannot be written.
-/
inductive Error.Raised (limit : Int) (error : Error) : Prop
  | division (a : Number) (h : error = .showing a (.divisionByZero a))
  | modulus (a : Number) (h : error = .showing a (.modulusZero a))
  | unknown (n : String) (count : Nat) (h : error = .unknownFunction n count)
  | argument (i count : Int) (h : error = .outOfRange i count)
  | depth (h : error = .tooDeep limit)

/--
A result whose error is raised, or else is that there is no argument, if references may stray.
-/
def Foreseen {α : Type} (limit : Int) (stray : Prop) (r : Except Error α) : Prop :=
  ∀ error, r = .error error → error.Raised limit ∨ stray ∧ ∃ fault, error = .noArgument fault

namespace Foreseen

variable {α β : Type} {limit : Int} {stray : Prop} {error : Error}

lemma ok (a : α) : Foreseen limit stray (.ok a : Except Error α) := by
  intro error h
  cases h

lemma raised (h : error.Raised limit) : Foreseen limit stray (.error error : Except Error α) := by
  intro error' h'
  cases h'
  exact .inl h

lemma cast (h : Foreseen limit stray (.error error : Except Error α)) :
    Foreseen limit stray (.error error : Except Error β) := by
  intro error' h'
  cases h'
  exact h error rfl

lemma apply (op : Binary) (a b : Number) : Foreseen limit stray (op.apply a b) := fun _ h =>
  .inl (.division a (Machine.apply_eq_error h))

lemma modularPower (a e m : Number) : Foreseen limit stray (a.modularPower e m) := fun _ h =>
  .inl (.modulus a (Machine.modularPower_eq_error h))

lemma argument {frame : Frame} {i : Int} (hi : 0 ≤ i ∨ stray)
    (hframe : (frame.length : Int) ≤ Index.bound ∨ stray) :
    Foreseen limit stray (frame.argument i) := by
  intro error herror
  unfold Frame.argument at herror
  by_cases hlt : (frame.length : Int) ≤ i
  · rw [if_pos hlt] at herror
    exact .inl (.argument i frame.length (Except.error.inj herror).symm)
  · rw [if_neg hlt] at herror
    rcases hp : Index.position frame.length i with fault | place
    · rw [hp] at herror
      cases herror
      have hs : stray := by
        rcases hi with hi | hs
        · rcases hframe with hframe | hs
          · rw [Index.position_of_lt hi (Int.not_le.mp hlt) hframe] at hp
            cases hp
          · exact hs
        · exact hs
      exact .inr ⟨hs, fault, rfl⟩
    · rw [hp] at herror
      cases herror

end Foreseen

section LoopFree

variable {scope : Scope} {limit : Int} {stray : Prop} {d : Nat} {frame : Frame}

/-- An expression has an outcome that is foreseen. -/
def Concludes (scope : Scope) (limit : Int) (stray : Prop) (d : Nat) (e : Expr) (frame : Frame) :
    Prop :=
  ∃ o, Evaluates scope limit d e frame o ∧ Foreseen limit stray o

lemma exists_evaluatesAll {es : List Expr} (h : ∀ x ∈ es, Concludes scope limit stray d x frame) :
    ∃ r, EvaluatesAll scope limit d es frame r ∧ Foreseen limit stray r := by
  induction es with
  | nil => exact ⟨.ok [], .nil, .ok []⟩
  | cons x es ih =>
    obtain ⟨o, hx, ho⟩ := h x (by simp)
    obtain ⟨r, hes, hr⟩ := ih fun y hy => h y (List.mem_cons_of_mem _ hy)
    cases o with
    | error error => exact ⟨.error error, .head hx, ho.cast⟩
    | ok v =>
      cases r with
      | error error => exact ⟨.error error, .tail hx hes, hr⟩
      | ok vs => exact ⟨.ok (v :: vs), .cons hx hes, .ok _⟩

/-- A call has an outcome if the body of a function has one while one call more is active. -/
lemma exists_callEvaluates (hloop : scope.LoopFree) (n : String) (vs : List Number)
    (hbody : ∀ body, scope.body? n vs.length = some (.recursive body) → (d : Int) < limit →
      Concludes scope limit stray (d + 1) body vs) :
    ∃ o, CallEvaluates scope limit d n vs o ∧ Foreseen limit stray o := by
  rcases hb : scope.body? n vs.length with _ | (body | loop)
  · exact ⟨_, .unknown hb, .raised (.unknown n vs.length rfl)⟩
  · rcases Int.lt_or_le d limit with hd | hd
    · obtain ⟨o, he, ho⟩ := hbody body hb hd
      exact ⟨o, .recursive hb hd he, ho⟩
    · exact ⟨_, .exhausted hb hd, .raised (.depth rfl)⟩
  · exact absurd hb (hloop n vs.length loop)

/-- An expression has an outcome if its children and the calls that it makes have. -/
lemma concludes_of_children (e : Expr) (hindexed : e.Indexed ∨ stray)
    (hframe : (frame.length : Int) ≤ Index.bound ∨ stray)
    (hchildren : ∀ x ∈ e.children, Concludes scope limit stray d x frame)
    (hcall : ∀ n vs, ((vs.length : Int) ≤ Index.bound ∨ stray) →
      ∃ o, CallEvaluates scope limit d n vs o ∧ Foreseen limit stray o) :
    Concludes scope limit stray d e frame := by
  -- whatever comes before anything else is a child
  obtain ⟨r, hes, hr⟩ := exists_evaluatesAll fun x hx =>
    hchildren x (Expr.mem_children_of_mem_operands hx)
  cases r with
  | error error => exact ⟨.error error, .operand hes, hr.cast⟩
  | ok vs =>
    have hlen := hes.length_eq
    cases e with
    | literal v => exact ⟨.ok v, .literal, .ok v⟩
    | arg i => exact ⟨_, .arg rfl, .argument hindexed hframe⟩
    | name n =>
      rcases hn : scope.valueOf? n with _ | v
      · obtain ⟨o, hc, ho⟩ := hcall n [] (.inl (by decide))
        exact ⟨o, .name hn hc, ho⟩
      · exact ⟨.ok v, .value hn, .ok v⟩
    | binary op l r =>
      obtain ⟨a, b, rfl⟩ := List.length_eq_two.mp hlen
      exact ⟨_, .binary hes rfl, .apply op a b⟩
    | powMod b e m =>
      obtain ⟨x, y, z, rfl⟩ := List.length_eq_three.mp hlen
      exact ⟨_, .powMod hes rfl, .modularPower x y z⟩
    | select t u p =>
      obtain ⟨v, rfl⟩ := List.length_eq_one_iff.mp hlen
      obtain ⟨ot, ht, hot⟩ := hchildren t (by simp [Expr.children])
      obtain ⟨ou, hu, hou⟩ := hchildren u (by simp [Expr.children])
      cases hes with
      | cons hp _ =>
        by_cases hv : v = 0
        · exact ⟨ou, .untaken (hv ▸ hp) hu, hou⟩
        · exact ⟨ot, .taken hp hv ht, hot⟩
    | call n args =>
      have hargs : (vs.length : Int) ≤ Index.bound ∨ stray := by
        rw [hlen]
        exact hindexed
      obtain ⟨o, hc, ho⟩ := hcall n vs hargs
      exact ⟨o, .call hes hc, ho⟩

/--
Every expression has an outcome where there are no loops. A body is evaluated with less room for
calls, and within the same room an expression needs only its children.
-/
lemma concludes_of_loopFree (hloop : scope.LoopFree)
    (hscope : ∀ n count body, scope.body? n count = some (.recursive body) →
      body.Every fun x => x.Indexed ∨ stray)
    (e : Expr) (he : e.Every fun x => x.Indexed ∨ stray)
    (hframe : (frame.length : Int) ≤ Index.bound ∨ stray) :
    Concludes scope limit stray d e frame := by
  -- on the calls that the limit still allows, and for as many of them on the tree
  obtain ⟨room, hroom⟩ : ∃ room, room = (limit - d).toNat := ⟨_, rfl⟩
  induction room using Nat.strong_induction_on generalizing d e frame with
  | _ room ihroom =>
    induction he with
    | @node e hindexed _ ih =>
      refine concludes_of_children e hindexed hframe ih fun n vs hvs => ?_
      refine exists_callEvaluates hloop n vs fun body hbody hd => ?_
      exact ihroom (limit - (d + 1 : Nat)).toNat (by omega) body (hscope _ _ _ hbody) hvs rfl

end LoopFree

/--
**Without loops every evaluation ends**, whatever the limit, the arguments and the number of calls
that are active at the start: with a value, or with an error that is raised. Only if a reference has
a negative index, or there are more arguments than indices, can the error be that there is no
argument.
-/
theorem evaluation_without_loops_ends (scope : Scope) (hloop : scope.LoopFree) (limit : Int)
    (d : Nat) (e : Expr) (frame : Frame) :
    ∃ fuel o, Machine.run scope limit fuel (Machine.start e frame d) = some o ∧
      ∀ error, o = .error error → error.Raised limit ∨
        (∃ fault, error = .noArgument fault) ∧
          ¬(e.Every Expr.Indexed ∧ scope.Indexed ∧ (frame.length : Int) ≤ Index.bound) := by
  have hconcludes : Concludes scope limit
      (¬(e.Every Expr.Indexed ∧ scope.Indexed ∧ (frame.length : Int) ≤ Index.bound)) d e frame := by
    by_cases hall : e.Every Expr.Indexed ∧ scope.Indexed ∧ (frame.length : Int) ≤ Index.bound
    · obtain ⟨he, hscope, hframe⟩ := hall
      exact concludes_of_loopFree hloop
        (fun n count body hbody => (hscope n count body hbody).imp fun _ => .inl) e
        (he.imp fun _ => .inl) (.inl hframe)
    · exact concludes_of_loopFree hloop
        (fun _ _ body _ => Expr.every_of_forall (fun _ => .inr hall) body) e
        (Expr.every_of_forall (fun _ => .inr hall) e) (.inr hall)
  obtain ⟨o, hevaluates, ho⟩ := hconcludes
  obtain ⟨fuel, hrun⟩ := Machine.halts_of_evaluates hevaluates
  refine ⟨fuel, o, hrun, fun error herror => ?_⟩
  rcases ho error herror with hraised | ⟨hstray, hfault⟩
  · exact .inl hraised
  · exact .inr ⟨hfault, hstray⟩

/-- Every name is a function without arguments that calls itself twice. -/
def doublingScope : Scope where
  valueOf? _ := none
  body? n count :=
    if count = 0 then some (.recursive (.binary .add (.name n) (.name n))) else none

lemma doublingScope_loopFree : doublingScope.LoopFree := by
  intro n count loop h
  simp only [doublingScope] at h
  split at h <;> cases h

/-- A recursion that never comes to a value is ended by the limit. -/
theorem doubling_evaluation_without_loops_ends :
    doublingScope.LoopFree ∧
    ∃ fuel o, Machine.run doublingScope 1000 fuel (Machine.start (.name "f") [] 0) = some o ∧
      ∀ error, o = .error error → error.Raised 1000 := by
  have hname : ∀ n, (Expr.name n).Every Expr.Indexed := fun n =>
    .node trivial (by simp [Expr.children])
  have hscope : doublingScope.Indexed := by
    intro n count body h
    simp only [doublingScope] at h
    split at h <;> cases h
    exact .node trivial (by simp [Expr.children, hname])
  obtain ⟨fuel, o, hrun, ho⟩ :=
    evaluation_without_loops_ends doublingScope doublingScope_loopFree 1000 0 (.name "f") []
  refine ⟨doublingScope_loopFree, fuel, o, hrun, fun error herror => ?_⟩
  rcases ho error herror with hraised | ⟨-, hstray⟩
  · exact hraised
  · exact absurd ⟨hname "f", hscope, by decide⟩ hstray

lemma noArgument_ne_ite {written : Bool} {error : Error} {fault : Index.Fault}
    (h : error ≠ .noArgument fault) :
    Error.noArgument fault ≠ if written then error else .unwritable := by
  cases written with
  | true => exact h.symm
  | false => simp

/-- With a negative index and no arguments an evaluation ends with an error that is not raised. -/
theorem negative_index_finds_no_argument :
    doublingScope.LoopFree ∧
    Machine.run doublingScope 1000 1 (Machine.start (.arg (-1)) [] 0) =
      some (.error (.noArgument .outOfRange)) ∧
    ¬(Error.noArgument .outOfRange).Raised 1000 := by
  refine ⟨doublingScope_loopFree, rfl, fun h => ?_⟩
  cases h with
  | division a h => exact noArgument_ne_ite (by simp) h
  | modulus a h => exact noArgument_ne_ite (by simp) h
  | unknown n count h => cases h
  | argument i count h =>
    simp only [Error.outOfRange, Error.naming] at h
    exact noArgument_ne_ite (noArgument_ne_ite (by simp)).symm h
  | depth h =>
    simp only [Error.tooDeep, Error.naming] at h
    exact noArgument_ne_ite (by simp) h

end ReversePolish
