import ReversePolish.Proofs.Redeclaration
import ReversePolish.Proofs.Tiling

/-!
Commands act only on the top of the stack.

The scan for an expression stops where the expression begins, so it never sees what is below. A
command that finds all it takes does the same whatever is below that: it gives the same outputs or
fails with the same error, it writes the same to the table, and it leaves what is below as it was,
also if it puts back what it has taken.

Where arities are below zero, the scan may stop before the first token of what the fold makes one
tree of. The command then takes less, but still nothing of what is below.
-/

namespace ReversePolish

namespace Grouping

variable {arities : Arities} {run stack rest : List Token} {m n : Nat}
  {found runs : List (List Token)}

/--
The tokens are one complete expression: the fold makes one tree of them, or the scan takes them all.
Unless an arity is below zero, both come to the same.
-/
def Whole (arities : Arities) (run : List Token) : Prop :=
  Complete arities.clamped run ∨ topRun arities run.reverse = .ok (run, [])

/-! ### What the scan takes of complete expressions -/

lemma exists_takeRuns_of_le (h : takeRuns arities m stack = .ok (found, rest))
    (hlen : found.length = m) (hle : n ≤ m) :
    ∃ fewer left, takeRuns arities n stack = .ok (fewer, left) ∧ fewer.length = n := by
  induction n generalizing stack m found with
  | zero => exact ⟨[], stack, rfl, rfl⟩
  | succ n ih =>
    obtain ⟨m, rfl⟩ : ∃ k, m = k + 1 := ⟨m - 1, by omega⟩
    cases stack with
    | nil =>
      cases h
      cases hlen
    | cons t stack =>
      obtain ⟨run, lower, found', htop, hrest, rfl⟩ := takeRuns_succ_eq_ok h
      obtain ⟨fewer, left, hfewer, hfewer'⟩ := ih hrest (Nat.succ.inj hlen) (by omega)
      refine ⟨run :: fewer, left, ?_, by rw [List.length_cons, hfewer']⟩
      simp only [takeRuns, htop, hfewer, bind, Except.bind]

lemma takeRuns_length (h : takeRuns arities m stack = .ok (found, rest)) :
    takeRuns arities found.length stack = .ok (found, rest) := by
  induction m generalizing stack found with
  | zero =>
    cases h
    rfl
  | succ m ih =>
    cases stack with
    | nil =>
      cases h
      rfl
    | cons t stack =>
      obtain ⟨run, lower, found', htop, hrest, rfl⟩ := takeRuns_succ_eq_ok h
      simp only [List.length_cons, takeRuns, htop, ih hrest, bind, Except.bind]

/--
One complete expression is taken apart by the scan into at least one, which leave nothing: what the
scan takes first is the end of it, and the fold gets through the rest.
-/
lemma Whole.takeRuns (h : Whole arities run) :
    ∃ found, 0 < found.length ∧
      takeRuns arities found.length run.reverse = .ok (found, []) := by
  rcases h with h | h
  · obtain ⟨arity, harity⟩ := exists_above run
    obtain ⟨e, he⟩ := h.build_eq_ok_iff.mpr harity
    obtain ⟨trees, hfold, -⟩ := bind_eq_ok he
    obtain ⟨found, hfound⟩ := exists_split_of_fold hfold
    have hall := splitAll_eq_ok hfound
    obtain ⟨x, rfl, -⟩ := h
    refine ⟨found, ?_, takeRuns_length hall⟩
    -- nothing is left, so something was taken
    have htokens := (takeRuns_eq_ok hall).1
    refine List.length_pos_of_ne_nil ?_
    rintro rfl
    exact x.tokens_ne_nil (by simpa using htokens)
  · refine ⟨[run], Nat.one_pos, ?_⟩
    obtain ⟨t, ts, ht⟩ := List.exists_cons_of_ne_nil
      (List.reverse_ne_nil_iff.mpr (topRun_ne_nil h))
    rw [ht] at h ⊢
    simp only [List.length_singleton, Grouping.takeRuns, h, bind, Except.bind]

lemma Whole.exists_topRun (h : Whole arities run) :
    ∃ taken left, topRun arities run.reverse = .ok (taken, left) := by
  obtain ⟨found, hpos, hfound⟩ := h.takeRuns
  obtain ⟨n, hn⟩ : ∃ n, found.length = n + 1 := ⟨found.length - 1, by omega⟩
  rw [hn] at hfound
  cases hrun : run.reverse with
  | nil =>
    rw [hrun] at hfound
    cases hfound
    cases hn
  | cons t ts =>
    rw [hrun] at hfound
    obtain ⟨taken, left, -, htop, -, -⟩ := takeRuns_succ_eq_ok hfound
    exact ⟨taken, left, htop⟩

/-- Complete expressions side by side are taken apart into at least as many. -/
lemma exists_takeRuns_flatten (h : ∀ run ∈ runs, Whole arities run) :
    ∃ found, runs.length ≤ found.length ∧
      takeRuns arities found.length runs.flatten.reverse = .ok (found, []) := by
  -- from the bottom up: the last run is on top, and is taken apart before the others
  induction runs using List.reverseRecOn with
  | nil => exact ⟨[], Nat.le_refl 0, rfl⟩
  | append_singleton runs run ih =>
    obtain ⟨lower, hlower, hbelow⟩ := ih fun r hr => h r (List.mem_append_left _ hr)
    obtain ⟨found, hpos, hfound⟩ := (h run (by simp)).takeRuns
    refine ⟨found ++ lower, ?_, ?_⟩
    · rw [List.length_append, List.length_append, List.length_singleton]
      omega
    · have hflatten : (runs ++ [run]).flatten.reverse = run.reverse ++ runs.flatten.reverse := by
        simp
      rw [hflatten, List.length_append]
      exact takeRuns_append hfound rfl hbelow

lemma exists_splitTop (h : ∀ run ∈ runs, Whole arities run) :
    ∃ found left, splitTop arities runs.length runs.flatten.reverse = .ok (found, left) := by
  obtain ⟨found, hle, hfound⟩ := exists_takeRuns_flatten h
  obtain ⟨fewer, left, hfewer, hlen⟩ := exists_takeRuns_of_le hfound rfl hle
  exact ⟨fewer, left, splitTop_eq_ok_iff.mpr ⟨hfewer, hlen⟩⟩

end Grouping

/--
The tokens are what a command takes off the stack: one complete expression, or all parts of a loop.
A declaration counts as made while its tokens are grouped.
-/
def Command.Takes (table : Table) (run : List Token) : Command → Prop
  | .emit | .bind _ | .settle | .double | .bytes | .drop => Grouping.Whole table.arityOf run
  | .declare n k => Grouping.Whole (table.arityOf.declare n k) run
  | .declareLoop n k => ∃ runs : List (List Token), runs.length = k + 2 ∧
    (∀ part ∈ runs, Grouping.Whole (table.arityOf.declare n k) part) ∧ runs.flatten = run
  | _ => False

/-- The stack with tokens below those that are on it. -/
def Stack.above (base : List Token) (s : Stack) : Stack :=
  ⟨s.tokens ++ base.reverse, s.count + Token.weights base⟩

/-- The engine with tokens below those on its stack. -/
def Engine.above (base : List Token) (e : Engine) : Engine := { e with stack := e.stack.above base }

def Reply.above (base : List Token) (r : Reply) : Reply := ⟨r.result, r.engine.above base⟩

namespace Stack

variable (base : List Token) (s : Stack)

lemma above_ofTokens (tokens : List Token) :
    (ofTokens tokens).above base = ofTokens (tokens ++ base.reverse) := by
  simp [above, ofTokens]

lemma push_above (t : Token) : (s.above base).push t = (s.push t).above base := by
  simp only [above, push, List.cons_append]
  congr 1
  omega

lemma remove_above (run below : List Token) :
    (s.above base).remove run (below ++ base.reverse) = (s.remove run below).above base := by
  simp only [above, remove]
  congr 1
  omega

end Stack

/-! ### Commands -/

namespace Engine

variable {e : Engine} {arities : Arities} {run : List Token} (base : List Token)

lemma fail_above (popped : Engine) (error : Error) :
    (e.above base).fail (popped.above base) error = (e.fail popped error).above base := by
  unfold fail
  split
  · simp only [Reply.above, above, Stack.above_ofTokens]
    rfl
  · rfl

lemma topRun_above {taken left : List Token}
    (h : Grouping.topRun arities e.stack.tokens = .ok (taken, left)) :
    Grouping.topRun arities (e.above base).stack.tokens = .ok (taken, left ++ base.reverse) :=
  Grouping.topRun_append h base.reverse

lemma pop_above {taken left : List Token}
    (h : Grouping.topRun arities e.stack.tokens = .ok (taken, left)) (arity : Int) :
    (e.above base).pop arities arity =
      ((e.pop arities arity).1, (e.pop arities arity).2.above base) := by
  unfold pop
  rw [h, topRun_above base h]
  simp only [above, Stack.remove_above]

variable {eval : Expr → Option Outcome} {next : Number → Engine → Reply}

lemma withTop_above {taken left : List Token}
    (h : Grouping.topRun e.table.arityOf e.stack.tokens = .ok (taken, left))
    (hnext : ∀ v popped, next v (above base popped) = (next v popped).above base) :
    (e.above base).withTop eval next = (e.withTop eval next).map (Reply.above base) := by
  have hpop := pop_above base h 0
  have htable : (e.above base).table = e.table := rfl
  unfold withTop
  rw [htable, hpop]
  obtain ⟨error | x, popped⟩ := e.pop e.table.arityOf 0
  · simp only [fail_above, Option.map_some]
  · dsimp only
    rcases eval x with _ | error | v
    · rfl
    · simp only [fail_above, Option.map_some]
    · simp only [hnext, Option.map_some]

lemma pushValue_above (v : Number) : (e.above base).pushValue v = (e.pushValue v).above base := by
  simp only [pushValue, above, Stack.push_above]

lemma ifWritable_above (v : Number) (r : Reply) :
    (e.above base).ifWritable v (r.above base) = (e.ifWritable v r).above base := by
  unfold ifWritable
  split <;> rfl

lemma declare_above {n : String} {k : Nat} {taken left : List Token}
    (h : Grouping.topRun (e.table.arityOf.declare n k) e.stack.tokens = .ok (taken, left)) :
    (e.above base).declare n k = (e.declare n k).above base := by
  have hpop := pop_above base h k
  have htable : (e.above base).table = e.table := rfl
  unfold declare
  rw [htable, hpop]
  obtain ⟨error | x, popped⟩ := e.pop (e.table.arityOf.declare n k) k
  · exact fail_above base popped error
  · rfl

lemma popParts_above {k : Nat} {found : List (List Token)} {left : List Token}
    (h : Grouping.splitTop arities (k + 2) e.stack.tokens = .ok (found, left)) :
    (e.above base).popParts arities k =
      (e.popParts arities k).map fun parts => (parts.1, parts.2.above base) := by
  have hbase : Grouping.splitTop arities (k + 2) (e.above base).stack.tokens =
      .ok (found, left ++ base.reverse) := Grouping.splitTop_append h base.reverse
  unfold popParts
  rw [h, hbase]
  simp only [bind, Except.bind]
  cases Grouping.buildAll arities k found.reverse with
  | error error => rfl
  | ok parts => simp only [Except.map, above, Stack.remove_above]

lemma declareLoop_above {n : String} {k : Nat} {found : List (List Token)} {left : List Token}
    (h : Grouping.splitTop (e.table.arityOf.declare n k) (k + 2) e.stack.tokens =
      .ok (found, left)) :
    (e.above base).declareLoop n k = (e.declareLoop n k).above base := by
  have hparts := popParts_above base h
  have htable : (e.above base).table = e.table := rfl
  unfold declareLoop
  rw [htable, hparts]
  rcases e.popParts (e.table.arityOf.declare n k) k with error | ⟨parts, popped⟩
  · exact fail_above base e error
  · simp only [Except.map]
    cases loopOfParts? parts with
    | none => exact fail_above base e _
    | some loop => rfl

/-- A command that finds all it takes on the stack does the same on top of anything. -/
lemma runBy_above {c : Command} (h : c.Takes e.table run) (he : e.stack.tokens = run.reverse) :
    (e.above base).runBy eval c = (e.runBy eval c).map (Reply.above base) := by
  have hscan : ∀ {arities : Arities}, Grouping.Whole arities run →
      ∃ taken left, Grouping.topRun arities e.stack.tokens = .ok (taken, left) := by
    intro arities hwhole
    rw [he]
    exact hwhole.exists_topRun
  cases c with
  | emit =>
    obtain ⟨taken, left, htop⟩ := hscan h
    exact withTop_above base htop fun v popped => rfl
  | bind n =>
    obtain ⟨taken, left, htop⟩ := hscan h
    exact withTop_above base htop fun v popped => rfl
  | bytes =>
    obtain ⟨taken, left, htop⟩ := hscan h
    exact withTop_above base htop fun v popped => rfl
  -- a value is pushed above what is below, if it can be written
  | settle =>
    obtain ⟨taken, left, htop⟩ := hscan h
    refine withTop_above base htop fun v popped => ?_
    rw [pushValue_above, ← ifWritable_above]
    rfl
  | double =>
    obtain ⟨taken, left, htop⟩ := hscan h
    refine withTop_above base htop fun v popped => ?_
    rw [pushValue_above, pushValue_above, ← ifWritable_above]
    rfl
  | drop =>
    have htable : (e.above base).table = e.table := rfl
    obtain ⟨taken, left, htop⟩ := hscan h
    simp only [runBy]
    rw [htable, htop, topRun_above base htop]
    simp only [Option.map_some, Reply.above, above, Stack.remove_above]
  | declare n k =>
    obtain ⟨taken, left, htop⟩ := hscan h
    exact congrArg some (declare_above base htop)
  | declareLoop n k =>
    obtain ⟨runs, hlen, hparts, rfl⟩ := h
    obtain ⟨found, left, hsplit⟩ := Grouping.exists_splitTop hparts
    rw [hlen, ← he] at hsplit
    exact congrArg some (declareLoop_above base hsplit)
  | flush => cases h
  | list => cases h
  | clear => cases h
  | unknown s => cases h

/--
**Commands act only on the top of the stack.** Take tokens that are exactly what a command takes:
one complete expression, or the parts of a loop, by the arities that the command uses. Run on these
tokens alone and on top of any others, whether those are expressions or not, the command ends in
both cases or in none. It gives the same outputs or fails with the same error, it leaves the same
table, and the stack after it is what was below followed by the stack that it leaves on its own,
with the count to match.
-/
theorem command_acts_on_top (limits : Limits) (table : Table) (base run : List Token) (c : Command)
    (h : c.Takes table run) (fuel : Nat) :
    Engine.run ⟨limits, .ofTokens (base ++ run).reverse, table⟩ fuel c =
      (Engine.run ⟨limits, .ofTokens run.reverse, table⟩ fuel c).map fun r =>
        ⟨r.result, ⟨r.engine.limits,
          ⟨(base ++ r.engine.stack.toList).reverse, Token.weights base + r.engine.stack.count⟩,
          r.engine.table⟩⟩ := by
  have hstack : Stack.ofTokens (base ++ run).reverse = (Stack.ofTokens run.reverse).above base := by
    rw [Stack.above_ofTokens, List.reverse_append]
  have hreply : ∀ r : Reply, r.above base = ⟨r.result, ⟨r.engine.limits,
      ⟨(base ++ r.engine.stack.toList).reverse, Token.weights base + r.engine.stack.count⟩,
      r.engine.table⟩⟩ := by
    intro r
    simp [Reply.above, above, Stack.above, Stack.toList, Int.add_comm]
  rw [hstack, ← funext hreply]
  have he : Stack.tokens (.ofTokens run.reverse) = run.reverse := rfl
  exact runBy_above (e := ⟨limits, .ofTokens run.reverse, table⟩) base h he

/-- What may be below a complete expression: an operator without operands, and a name. -/
def rubble : List Token := [.op (.binary .add), .name "x"]

def selection : List Token := [.number 5, .number 6, .number 1, .op .select]

/-- The parts of a loop with one argument, of which the first refers to another. -/
def strayParts : List (List Token) := [[.arg 1], [.number 6], [.number 1]]

/-- A table whose only function takes less than no arguments. -/
def indebted : Table := Table.empty.define ⟨"debt", -1, .recursive (.literal 0)⟩

/-- One tree for the fold, but a scan stops before its first operand. -/
def owing : List Token := [.number 1, .name "debt", .op (.binary .add)]

lemma bind_takes_selection : (Command.bind "y").Takes .empty selection := .inr (by decide)

lemma declareLoop_takes_strayParts :
    (Command.declareLoop "f" 1).Takes .empty strayParts.flatten := by
  refine ⟨strayParts, rfl, fun part hpart => .inr ?_, rfl⟩
  simp only [strayParts, List.mem_cons, List.not_mem_nil, or_false] at hpart
  rcases hpart with rfl | rfl | rfl <;> decide

lemma run_strayParts :
    Engine.run ⟨.standard, .ofTokens strayParts.flatten.reverse, .empty⟩ 10 (.declareLoop "f" 1) =
      some ⟨.error (.argumentOutOfRange 1 1),
        ⟨.standard, .ofTokens strayParts.flatten.reverse, .empty⟩⟩ := by
  have herror : Error.outOfRange 1 1 = .argumentOutOfRange 1 1 := by decide +kernel
  have hparts : Engine.popParts ⟨.standard, .ofTokens strayParts.flatten.reverse, .empty⟩
      (Table.empty.arityOf.declare "f" (1 : Nat)) 1 = .error (.argumentOutOfRange 1 1) := by
    rw [← herror]
    rfl
  simp only [Engine.run, runBy, declareLoop, hparts]
  rfl

lemma drop_takes_owing : Command.drop.Takes indebted owing := by
  have hbuild : Grouping.build indebted.arityOf 0 owing =
      .ok (.binary .add (.literal 1) (.call "debt" [])) := rfl
  exact .inl (Grouping.complete_of_build hbuild)

/--
A selection is bound on top of an operator that has no operands. A loop that refers to an argument
it does not have fails there as it does alone, and its parts are put back. Of a sum with a name that
takes less than no arguments, the first operand is left.
-/
theorem rubble_command_acts_on_top :
    ((Command.bind "y").Takes .empty selection ∧
      Engine.run ⟨.standard, .ofTokens (rubble ++ selection).reverse, .empty⟩ 10 (.bind "y") =
        some ⟨.ok [], ⟨.standard, .ofTokens rubble.reverse, Table.empty.bind "y" 5⟩⟩) ∧
    ((Command.declareLoop "f" 1).Takes .empty strayParts.flatten ∧
      Engine.run ⟨.standard, .ofTokens (rubble ++ strayParts.flatten).reverse, .empty⟩ 10
          (.declareLoop "f" 1) =
        some ⟨.error (.argumentOutOfRange 1 1),
          ⟨.standard, .ofTokens (rubble ++ strayParts.flatten).reverse, .empty⟩⟩) ∧
    Command.drop.Takes indebted owing ∧
      Engine.run ⟨.standard, .ofTokens (rubble ++ owing).reverse, indebted⟩ 10 .drop =
        some ⟨.ok [], ⟨.standard, .ofTokens (rubble ++ [Token.number 1]).reverse, indebted⟩⟩ := by
  refine ⟨⟨bind_takes_selection, ?_⟩, ⟨declareLoop_takes_strayParts, ?_⟩, drop_takes_owing, ?_⟩
  · rw [command_acts_on_top _ _ _ _ _ bind_takes_selection]
    rfl
  · rw [command_acts_on_top _ _ _ _ _ declareLoop_takes_strayParts, run_strayParts]
    rfl
  · rw [command_acts_on_top _ _ _ _ _ drop_takes_owing]
    rfl

end Engine

end ReversePolish
