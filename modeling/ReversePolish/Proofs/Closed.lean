import ReversePolish.Engine.Journal
import ReversePolish.Proofs.Declared
import ReversePolish.Proofs.Flush
import ReversePolish.Proofs.Refinement

/-!
Functions are closed once they are declared.

The index of an argument is checked when the tree that refers to it is built, against the arity of
the function that is being declared. What a name means is looked up only when it is called, so the
check is never made again; it need not be, since a function is found by the number of its arguments,
and a loop has as many steps as arguments.
-/

namespace ReversePolish

open ReversePolish.Expr (IndexBelow)

/-- A result other than the error that an index is out of range. -/
def InRange {α : Type} (r : Except Error α) : Prop := ∀ i k, r ≠ .error (.argumentOutOfRange i k)

namespace InRange

variable {α β : Type} {error : Error}

lemma ok (a : α) : InRange (.ok a : Except Error α) := by simp [InRange]

lemma cast (h : InRange (.error error : Except Error α)) :
    InRange (.error error : Except Error β) := by
  intro i k heq
  cases heq
  exact h i k rfl

lemma bind {x : Except Error α} {f : α → Except Error β} (h : InRange x)
    (hf : ∀ a, InRange (f a)) : InRange (x >>= f) := by
  cases x with
  | error error => exact h.cast
  | ok a => exact hf a

lemma naming {i : Int} (h : InRange (.error error : Except Error α)) :
    InRange (.error (.naming i error) : Except Error α) := by
  unfold Error.naming
  split
  · exact h
  · simp [InRange]

/-- A result whose only error shows a number, in place of which there may be another error. -/
lemma of_showing {r : Except Error α} {a : Number} {shown : Error}
    (h : ∀ error, r = .error error → error = .showing a shown)
    (hs : InRange (.error shown : Except Error α)) : InRange r := by
  rintro i k rfl
  have herror := h _ rfl
  unfold Error.showing at herror
  split at herror
  · exact hs i k (congrArg _ herror.symm)
  · cases herror

end InRange

/-! ### Evaluation -/

def Scope.Closed (scope : Scope) : Prop :=
  ∀ n count body, scope.body? n count = some body → body.Closed count

lemma Expr.mem_children_of_mem_operands {e x : Expr} (h : x ∈ e.operands) : x ∈ e.children := by
  cases e with
  | select t u p =>
    obtain rfl := List.mem_singleton.mp h
    simp [Expr.children]
  | literal v => cases h
  | name n => cases h
  | arg i => cases h
  | binary op l r => exact h
  | powMod b e m => exact h
  | call n args => exact h

lemma inRange_argument {frame : Frame} {i : Int} (h : i < frame.length) :
    InRange (frame.argument i) := by
  unfold Frame.argument
  rw [if_neg (by omega)]
  split
  · simp [InRange]
  · exact .ok _

lemma inRange_apply {op : Binary} {a b : Number} : InRange (op.apply a b) :=
  .of_showing (fun _ => Machine.apply_eq_error) (by simp [InRange])

lemma inRange_modularPower {a e m : Number} : InRange (a.modularPower e m) :=
  .of_showing (fun _ => Machine.modularPower_eq_error) (by simp [InRange])

section Evaluation

variable {scope : Scope} {limit : Int}

mutual

/-- An expression that refers only to arguments that are there finds them. -/
lemma inRange_eval (hscope : scope.Closed) {d : Nat} {e : Expr} {frame : Frame} {o : Outcome} :
    Evaluates scope limit d e frame o → e.Every (IndexBelow frame.length) → InRange o
  | .literal, _ => .ok _
  | .arg h, .node hi _ => h ▸ inRange_argument hi
  | .value _, _ => .ok _
  | .name _ hc, _ => inRange_call hscope hc
  | .operand h, .node _ hs =>
    (inRange_all hscope h fun x hx => hs x (Expr.mem_children_of_mem_operands hx)).cast
  | .binary _ ho, _ => ho ▸ inRange_apply
  | .powMod _ ho, _ => ho ▸ inRange_modularPower
  | .taken _ _ ht, .node _ hs => inRange_eval hscope ht (hs _ (by simp [Expr.children]))
  | .untaken _ hu, .node _ hs => inRange_eval hscope hu (hs _ (by simp [Expr.children]))
  | .call _ hc, _ => inRange_call hscope hc

lemma inRange_all (hscope : scope.Closed) {d : Nat} {es : List Expr} {frame : Frame}
    {r : Except Error (List Number)} :
    EvaluatesAll scope limit d es frame r → (∀ x ∈ es, x.Every (IndexBelow frame.length)) →
      InRange r
  | .nil, _ => .ok _
  | .cons _ _, _ => .ok _
  | .head h, hes => (inRange_eval hscope h (hes _ (by simp))).cast
  | .tail _ hs, hes => inRange_all hscope hs fun x hx => hes x (List.mem_cons_of_mem _ hx)

lemma inRange_call (hscope : scope.Closed) {d : Nat} {n : String} {vs : List Number}
    {o : Outcome} : CallEvaluates scope limit d n vs o → InRange o
  | .unknown _ => by simp [InRange]
  | .exhausted _ _ => .naming (by simp [InRange])
  | .recursive h _ hb => inRange_eval hscope hb ((hscope _ _ _ h).below _ (by simp [Body.parts]))
  | .iterative h hl => inRange_loop hscope hl (hscope _ _ _ h)

/-- The values of the steps are as many as the arguments, so the next round has no fewer. -/
lemma inRange_loop (hscope : scope.Closed) {d : Nat} {loop : Loop} {frame : Frame} {o : Outcome} :
    LoopEvaluates scope limit d loop frame o → (Body.iterative loop).Closed frame.length →
      InRange o
  | .predicate h, hl => inRange_eval hscope h (hl.below _ (by simp [Body.parts]))
  | .terminal _ _ ht, hl => inRange_eval hscope ht (hl.below _ (by simp [Body.parts]))
  | .steps _ hs, hl =>
    (inRange_all hscope hs fun x hx => hl.below x (by simp [Body.parts, hx])).cast
  | .again _ hs hl', hl => by
    refine inRange_loop hscope hl' ?_
    rw [hs.length_eq, hl.steps loop rfl]
    exact hl

end

lemma inRange_of_evaluate (hscope : scope.Closed) {fuel : Nat} {x : Expr} {o : Outcome}
    (hx : x.Every (IndexBelow 0)) (h : evaluate scope limit fuel x [] = some o) : InRange o :=
  inRange_eval hscope (Machine.evaluates_of_halts ⟨fuel, h⟩) hx

end Evaluation

/-! ### Trees that cannot be built -/

namespace Grouping

variable {arities : Arities} {arity : Int}

lemma inRange_operands (t : Token) : InRange (operands arities t) := by
  cases t <;> simp [operands, InRange]

lemma inRange_takeRun (need : Nat) (run stack : List Token) :
    InRange (takeRun arities need run stack) := by
  induction stack generalizing need run with
  | nil => cases need <;> simp [takeRun, InRange]
  | cons t stack ih =>
    cases need with
    | zero => exact .ok _
    | succ need => exact (inRange_operands t).bind fun k => ih _ (t :: run)

lemma inRange_topRun (stack : List Token) : InRange (topRun arities stack) :=
  inRange_takeRun 1 [] stack

lemma inRange_takeRuns (count : Nat) (stack : List Token) :
    InRange (takeRuns arities count stack) := by
  induction count generalizing stack with
  | zero => exact .ok _
  | succ count ih =>
    cases stack with
    | nil => exact .ok _
    | cons t stack => exact (inRange_topRun _).bind fun _ => (ih _).bind fun _ => .ok _

lemma inRange_splitAll (stack : List Token) : InRange (splitAll arities stack) :=
  (inRange_takeRuns _ _).bind fun _ => .ok _

lemma inRange_splitTop (count : Nat) (stack : List Token) :
    InRange (splitTop arities count stack) := by
  refine (inRange_takeRuns _ _).bind fun found => ?_
  dsimp only
  split
  · exact .naming (by simp [InRange])
  · exact .ok _

lemma exists_build_eq_error {runs : List (List Token)} {error : Error}
    (h : buildAll arities arity runs = .error error) :
    ∃ run ∈ runs, build arities arity run = .error error := by
  induction runs with
  | nil => cases h
  | cons run runs ih =>
    rcases bind_eq_error h with hrun | ⟨x, -, h⟩
    · exact ⟨run, by simp, hrun⟩
    rcases bind_eq_error h with hruns | ⟨es, -, h⟩
    · obtain ⟨run', hmem, hrun'⟩ := ih hruns
      exact ⟨run', List.mem_cons_of_mem _ hmem, hrun'⟩
    · cases h

end Grouping

lemma Stack.inRange_listedRuns {arities : Arities} (count : Nat) (stack : List Token) :
    InRange (listedRuns arities count stack) := by
  induction count generalizing stack with
  | zero => exact .ok _
  | succ count ih =>
    cases stack with
    | nil => exact .ok _
    | cons t stack =>
      rw [listedRuns]
      split
      · exact (ih _).bind fun _ => .ok _
      · exact .ok _
      · next error _ htop =>
        have h : InRange (Grouping.topRun arities (t :: stack)) := Grouping.inRange_topRun _
        rw [htop] at h
        exact h.cast

lemma Stack.inRange_listing {arities : Arities} (s : Stack) : InRange (s.listing arities) := by
  refine (inRange_listedRuns _ _).bind fun runs => ?_
  induction runs with
  | nil => exact .ok _
  | cons run runs ih =>
    rw [lines]
    split
    · exact ih.bind fun _ => .ok _
    · simp [InRange]

/-! ### Commands -/

namespace Engine

variable {e after popped : Engine} {eval eval' : Expr → Option Outcome} {c : Command} {i k : Int}
  {next : Number → Engine → Reply}

/-- Some tokens of the stack cannot be made a tree, since an index among them is out of range. -/
def Refuses (e : Engine) (i k : Int) : Prop :=
  ∃ arities arity run, (∀ t ∈ run, t ∈ e.stack.tokens) ∧
    Grouping.build arities arity run = .error (.argumentOutOfRange i k)

lemma refuses_of_pop {arities : Arities} {arity : Int}
    (h : e.pop arities arity = (.error (.argumentOutOfRange i k), popped)) : e.Refuses i k := by
  unfold pop at h
  split at h
  · next error htop =>
    cases h
    exact absurd htop (Grouping.inRange_topRun _ i k)
  · next run below htop =>
    refine ⟨arities, arity, run, fun t ht => ?_, congrArg Prod.fst h⟩
    rw [Grouping.topRun_eq_ok htop]
    simp [ht]

lemma refuses_of_buildAll {arities : Arities} {arity : Int} {runs : List (List Token)}
    (hruns : ∀ run ∈ runs, ∀ t ∈ run, t ∈ e.stack.tokens)
    (h : Grouping.buildAll arities arity runs = .error (.argumentOutOfRange i k)) :
    e.Refuses i k := by
  obtain ⟨run, hrun, hbuild⟩ := Grouping.exists_build_eq_error h
  exact ⟨arities, arity, run, hruns run hrun, hbuild⟩

lemma refuses_of_popParts {arities : Arities} {arity : Nat}
    (h : e.popParts arities arity = .error (.argumentOutOfRange i k)) : e.Refuses i k := by
  rcases bind_eq_error h with hsplit | ⟨⟨runs, below⟩, hsplit, h⟩
  · exact absurd hsplit (Grouping.inRange_splitTop _ _ i k)
  rcases bind_eq_error h with hbuild | ⟨parts, -, h⟩
  · refine refuses_of_buildAll (fun run hrun t ht => ?_) hbuild
    exact Grouping.mem_of_takeRuns (Grouping.splitTop_eq_ok_iff.mp hsplit).1
      (List.mem_reverse.mp hrun) ht
  · cases h

lemma refuses_of_entries (h : e.entries = .error (.argumentOutOfRange i k)) : e.Refuses i k := by
  rcases bind_eq_error h with hsplit | ⟨runs, hsplit, hbuild⟩
  · exact absurd hsplit (Grouping.inRange_splitAll _ i k)
  · refine refuses_of_buildAll (fun run hrun t ht => ?_) hbuild
    exact Grouping.mem_of_takeRuns (Grouping.splitAll_eq_ok hsplit) hrun ht

/-- The ways in which commands evaluate: the top expression, all expressions, or none. -/
inductive Evaluation (e : Engine) : Command → Prop
  | top {c : Command} (next : Number → Engine → Reply)
      (hrun : ∀ eval, e.runBy eval c = e.withTop eval next) (hx : e.evaluated c = e.top)
      (hnext : ∀ v popped, InRange (next v popped).result) : Evaluation e c
  | all : Evaluation e .flush
  | none {c : Command} (r : Reply) (hrun : ∀ eval, e.runBy eval c = some r)
      (hx : e.evaluated c = []) (hr : ∀ i k, r.result = .error (.argumentOutOfRange i k) →
        e.Refuses i k) : Evaluation e c

lemma inRange_ifWritable {v : Number} {r : Reply} (h : InRange r.result) :
    InRange (e.ifWritable v r).result := by
  unfold ifWritable
  split
  · exact h
  · simp [InRange]

lemma refuses_of_declare {name : String} {arity : Nat}
    (h : (e.declare name arity).result = .error (.argumentOutOfRange i k)) : e.Refuses i k := by
  unfold declare at h
  split at h
  · next error popped hpop =>
    cases h
    exact refuses_of_pop hpop
  · cases h

lemma refuses_of_declareLoop {name : String} {arity : Nat}
    (h : (e.declareLoop name arity).result = .error (.argumentOutOfRange i k)) : e.Refuses i k := by
  unfold declareLoop at h
  split at h
  · next error hparts =>
    cases h
    exact refuses_of_popParts hparts
  · split at h <;> cases h

lemma evaluation (e : Engine) (c : Command) : Evaluation e c := by
  cases c with
  | emit => exact .top _ (fun _ => rfl) rfl fun v popped => .ok _
  | bind name => exact .top _ (fun _ => rfl) rfl fun v popped => .ok _
  | settle => exact .top _ (fun _ => rfl) rfl fun v popped => inRange_ifWritable (.ok _)
  | double => exact .top _ (fun _ => rfl) rfl fun v popped => inRange_ifWritable (.ok _)
  | bytes => exact .top _ (fun _ => rfl) rfl fun v popped => .ok _
  | flush => exact .all
  | list =>
    -- a listing and a scan only group tokens, which never looks at an index
    cases h : e.stack.listing e.table.arityOf with
    | ok lines => exact .none _ (fun _ => by simp only [runBy, h]; rfl) rfl (by simp)
    | error error =>
      refine .none (e.fail e error) (fun _ => by simp only [runBy, h]) rfl fun i k hr => ?_
      cases hr
      exact absurd h (Stack.inRange_listing _ i k)
  | drop =>
    cases h : Grouping.topRun e.table.arityOf e.stack.tokens with
    | ok found => exact .none _ (fun _ => by simp only [runBy, h]; rfl) rfl (by simp)
    | error error =>
      refine .none (e.fail e error) (fun _ => by simp only [runBy, h]) rfl fun i k hr => ?_
      cases hr
      exact absurd h (Grouping.inRange_topRun _ i k)
  | clear => exact .none _ (fun _ => rfl) rfl (by simp)
  | declare name arity => exact .none _ (fun _ => rfl) rfl fun i k => refuses_of_declare
  | declareLoop name arity => exact .none _ (fun _ => rfl) rfl fun i k => refuses_of_declareLoop
  | unknown symbol =>
    by_cases h : symbol = "|" || symbol = "@"
    · exact .none (e.fail e .headlessDeclaration) (fun _ => by simp only [runBy, h, if_true]) rfl
        fun i k hr => by cases hr
    · exact .none (e.fail e (.unknownCommand symbol)) (fun _ => by simp only [runBy, h]; rfl) rfl
        fun i k hr => by cases hr

lemma withTop_congr (h : ∀ x ∈ e.top, eval x = eval' x) :
    e.withTop eval next = e.withTop eval' next := by
  unfold withTop
  split
  · rfl
  · next x popped hpop => rw [h x (by simp [top, hpop])]

/-- It does not matter how any other expressions are evaluated. -/
lemma runBy_congr (h : ∀ x ∈ e.evaluated c, eval x = eval' x) :
    e.runBy eval c = e.runBy eval' c := by
  cases evaluation e c with
  | top next hrun hx _ =>
    rw [hrun, hrun]
    exact withTop_congr (hx ▸ h)
  | all =>
    simp only [runBy, flush]
    split
    · rfl
    · next es hes => rw [gatherAll_congr fun x hx => h x (by simpa [evaluated, hes] using hx)]
  | none r hrun _ _ => rw [hrun, hrun]

/-- What a command evaluates refers to no argument. -/
lemma below_of_evaluated {x : Expr} (h : x ∈ e.evaluated c) : x.Every (IndexBelow 0) := by
  cases evaluation e c with
  | top next _ hx _ =>
    rw [hx, top] at h
    split at h
    · next y popped hpop =>
      obtain rfl := List.mem_singleton.mp h
      exact (tokens_of_pop hpop).2.1
    · cases h
  | all =>
    simp only [evaluated] at h
    split at h
    · next es hes =>
      obtain ⟨runs, -, hbuild⟩ := bind_eq_ok hes
      exact ((of_buildAll_eq_ok hbuild).2 x h).2
    · cases h
  | none r _ hx _ =>
    rw [hx] at h
    cases h

/--
A command that fails with an index out of range, though no evaluation does, has not evaluated
anything: it refuses tokens of the stack, however expressions are evaluated.
-/
lemma refuses_of_runBy (hx : ∀ x ∈ e.evaluated c, ∀ o, eval x = some o → InRange o)
    (h : e.runBy eval c = some ⟨.error (.argumentOutOfRange i k), after⟩) :
    (∀ eval', e.runBy eval' c = some ⟨.error (.argumentOutOfRange i k), after⟩) ∧
      e.Refuses i k := by
  cases evaluation e c with
  | top next hrun hx' hnext =>
    simp only [hrun] at h ⊢
    rw [hx'] at hx
    unfold withTop at h ⊢
    split at h
    · next error popped hpop =>
      cases h
      exact ⟨fun _ => rfl, refuses_of_pop hpop⟩
    · -- once there is a tree, neither its evaluation nor what comes after has such an error
      next x popped hpop =>
      have hin := hx x (by simp [top, hpop])
      split at h
      · cases h
      · next v _ =>
        exact absurd (congrArg Reply.result (Option.some.inj h)) (hnext v popped i k)
      · next error heval =>
        cases h
        exact absurd rfl (hin _ heval i k)
  | all =>
    simp only [runBy, flush] at h ⊢
    split at h
    · next error hentries =>
      cases h
      exact ⟨fun _ => rfl, refuses_of_entries hentries⟩
    · next es hes =>
      split at h
      · cases h
      · cases h
      · -- the error of a pass is that of one of its expressions
        next error hgather =>
        cases h
        obtain ⟨x, hmem, heval⟩ := exists_of_gatherAll hgather
        exact absurd rfl (hx x (by simpa [evaluated, hes] using hmem) _ heval i k)
  | none r hrun _ hr =>
    rw [hrun] at h
    cases h
    exact ⟨hrun, hr i k rfl⟩

/--
**Functions are closed once they are declared**, whatever source texts have made of an engine and
however they failed. A function that is found under a name and an arity has this name and this
arity, its parts refer only to arguments below the arity, a loop has as many steps, and every
operator in the parts has its operands. So of the expressions that a command evaluates none fails
with an index out of range. A command that fails in this way has refused to build a tree from tokens
of the stack, before it would have evaluated anything: it fails in the same way however expressions
are evaluated.
-/
theorem closed_once_declared (e : Engine) (h : e.Sourced) :
    (∀ n k d, e.table.definition? n k = some d → d.name = n ∧ d.arity = k ∧
      (∀ x ∈ d.body.parts, x.Every (IndexBelow k)) ∧
      (∀ loop, d.body = .iterative loop → (loop.steps.length : Int) = k) ∧
      ∀ x ∈ d.body.parts, x.Every fun y => ∀ o, y.last = .op o → y.children.length = o.arity) ∧
    (∀ c, (∀ x ∈ e.evaluated c, ∀ fuel i k,
        e.outcome fuel x ≠ some (.error (.argumentOutOfRange i k))) ∧
      ∀ fuel eval, (∀ x ∈ e.evaluated c, eval x = e.outcome fuel x) →
        e.runBy eval c = e.run fuel c) ∧
    ∀ c fuel i k after, e.run fuel c = some ⟨.error (.argumentOutOfRange i k), after⟩ →
      (∀ eval, e.runBy eval c = some ⟨.error (.argumentOutOfRange i k), after⟩) ∧
      ∃ arities arity run, (∀ t ∈ run, t ∈ e.stack.tokens) ∧
        Grouping.build arities arity run = .error (.argumentOutOfRange i k) := by
  have hscope : e.table.scope.Closed := fun n count body hb =>
    (h.legible.table n count body hb).closed
  have hin : ∀ c, ∀ x ∈ e.evaluated c, ∀ fuel o, e.outcome fuel x = some o → InRange o :=
    fun c x hx fuel o ho => inRange_of_evaluate hscope (below_of_evaluated hx) ho
  refine ⟨fun n k d hd => ?_, fun c => ⟨fun x hx fuel i k ho => ?_, fun fuel eval heval => ?_⟩,
    fun c fuel i k after hrun => ?_⟩
  · obtain ⟨hname, harity⟩ := h.keyed n k d hd
    have hclosed := (h.legible.table n k d.body (by rw [Table.body?, hd, Option.map_some])).closed
    exact ⟨hname, harity, hclosed.below, hclosed.steps,
      fun x _ => Expr.every_of_forall (fun y o => Expr.children_length) x⟩
  · exact absurd rfl (hin c x hx fuel _ ho i k)
  · exact runBy_congr heval
  · exact refuses_of_runBy (fun x hx o ho => hin c x hx fuel o ho) hrun

/-- An engine with a function that adds one to its argument, and with a call of it on the stack. -/
def incrementing : Engine :=
  ⟨.standard, .ofTokens [.name "inc", .number 2],
    Table.empty.define ⟨"inc", 1, .recursive (.binary .add (.arg 0) (.literal 1))⟩⟩

lemma incrementing_sourced : incrementing.Sourced := by
  have hread : Token.ofSource "$0 1 + inc|1 2 inc" = .ok [.arg 0, .number 1, .op (.binary .add),
      .command (.declare "inc" 1), .number 2, .name "inc"] := by decide +kernel
  have hfeed : (new .standard).feed 1 "$0 1 + inc|1 2 inc" = some ⟨.ok [], incrementing⟩ := by
    rw [feed_of_ofSource hread]
    rfl
  exact (Sourced.start .standard).feed hfeed

def referring : Engine := { incrementing with stack := incrementing.stack.push (.arg 0) }

lemma referring_sourced : referring.Sourced := by
  have hread : Token.ofSource "$0" = .ok [.arg 0] := by decide +kernel
  have hfeed : incrementing.feed 1 "$0" = some ⟨.ok [], referring⟩ := by
    rw [feed_of_ofSource hread]
    rfl
  exact incrementing_sourced.feed hfeed

lemma referring_run :
    referring.run 1 .emit = some ⟨.error (.argumentOutOfRange 0 0), referring⟩ := by
  have hpop : referring.pop referring.table.arityOf 0 = (.error (.outOfRange 0 0), incrementing) :=
    rfl
  have hwritten : Error.outOfRange 0 0 = .argumentOutOfRange 0 0 := by decide +kernel
  rw [hwritten] at hpop
  simp only [run, runBy, withTop, hpop]
  rfl

/-- The call is evaluated in range, and the reference outside a function is refused. -/
theorem incrementing_closed_once_declared :
    (incrementing.Sourced ∧
      incrementing.table.definition? "inc" 1 =
        some ⟨"inc", 1, .recursive (.binary .add (.arg 0) (.literal 1))⟩ ∧
      (Expr.binary .add (.arg 0) (.literal 1)).Every (IndexBelow 1) ∧
      incrementing.evaluated .emit = [.call "inc" [.literal 2]] ∧
      ∀ fuel i k, incrementing.outcome fuel (.call "inc" [.literal 2]) ≠
        some (.error (.argumentOutOfRange i k))) ∧
    referring.Sourced ∧
      referring.run 1 .emit = some ⟨.error (.argumentOutOfRange 0 0), referring⟩ ∧
      ∀ eval, referring.runBy eval .emit =
        some ⟨.error (.argumentOutOfRange 0 0), referring⟩ := by
  obtain ⟨hclosed, heval, -⟩ := closed_once_declared incrementing incrementing_sourced
  obtain ⟨-, -, hrefused⟩ := closed_once_declared referring referring_sourced
  exact ⟨⟨incrementing_sourced, rfl, (hclosed "inc" 1 _ rfl).2.2.1 _ (by simp [Body.parts]), rfl,
      (heval .emit).1 _ (List.mem_singleton.mpr rfl)⟩,
    referring_sourced, referring_run, (hrefused .emit 1 0 0 _ referring_run).1⟩

end Engine

end ReversePolish
