import ReversePolish.Proofs.Redeclaration
import ReversePolish.Proofs.StackShape
import ReversePolish.Proofs.Tiling

/-!
The check that is made when an operator is pushed.

The running count takes every name for an expression of its own. A declaration can only make a name
take operands, so whatever is declared there are at most as many expressions on the stack as the
count says. An operator that is refused for want of operands would therefore have been incomplete
under any declarations.
-/

namespace ReversePolish

open ReversePolish.Token (weights)

namespace Grouping

variable {arities : Arities} {stack run below : List Token} {runs : List (List Token)}

/-- Complete expressions count for no fewer than they are. -/
lemma length_le_weights_flatten (h : ∀ run ∈ runs, Complete arities run) :
    (runs.length : Int) ≤ weights (runs.map List.reverse).flatten := by
  obtain ⟨es, rfl, -⟩ := exists_trees_of_complete h
  have hes := Token.length_le_weights fun x (_ : x ∈ es) => Token.one_le_weights_tokens x
  rwa [List.length_map, Token.weights_flatten_reverse, ← List.flatMap_def]

/--
An operator that completes an expression stands on tokens that count for no less than it takes.
-/
lemma arity_le_weights_of_topRun {o : Operator}
    (h : topRun arities (.op o :: stack) = .ok (run, below))
    (hrun : ∀ t ∈ run, arities.Natural t) :
    ∃ taken, stack = taken ++ below ∧ (o.arity : Int) ≤ weights taken := by
  obtain ⟨x, rfl, -⟩ := complete_of_topRun h hrun
  have hstack := topRun_eq_ok h
  rw [Expr.tokens_eq, List.reverse_append, List.reverse_singleton, List.singleton_append,
    List.cons_append, List.cons.injEq] at hstack
  obtain ⟨hlast, hstack⟩ := hstack
  have hchildren := Token.length_le_weights fun y (_ : y ∈ x.children) =>
    Token.one_le_weights_tokens y
  rw [Expr.children_length hlast.symm] at hchildren
  exact ⟨_, hstack, by rwa [Token.weights_reverse]⟩

end Grouping

/-- What stands on top counts for no more than the whole stack. -/
lemma Stack.Sound.weights_le_count {s : Stack} (h : s.Sound) {taken rest : List Token}
    (hs : s.tokens = taken ++ rest) : weights taken ≤ s.count := by
  have hcounted := h.counted
  have hsupported := h.supported
  rw [hs] at hsupported
  have hrest := hsupported.of_append.weights_pos.1
  rw [Stack.Counted, hs, Token.weights_append] at hcounted
  omega

lemma Stack.length_toList_append (s : Stack) (t : Token) :
    ((s.toList ++ [t]).length : Int) = s.toList.length + 1 := by
  rw [List.length_append, List.length_singleton, Int.natCast_add, Int.natCast_one]

lemma Stack.reverse_toList_append (s : Stack) (t : Token) :
    (s.toList ++ [t]).reverse = t :: s.tokens := by
  rw [Stack.toList, List.reverse_append, List.reverse_reverse, List.reverse_singleton,
    List.singleton_append]

namespace Engine

variable {e : Engine} {o : Operator} {error : Error} {arities : Arities}

lemma push_op_eq_error (h : e.push (.op o) = .error error) :
    error = .shortage (.pushed o) ∧ e.stack.count < o.arity := by
  simp only [push] at h
  split at h
  · next hlt =>
    cases h
    exact ⟨rfl, hlt⟩
  · cases h

lemma push_op_eq_ok (h : (o.arity : Int) ≤ e.stack.count) :
    e.push (.op o) = .ok { e with stack := e.stack.push (.op o) } := by
  simp only [push, if_neg (Int.not_lt.mpr h)]

section Sound

variable (hs : e.stack.Sound) (hnatural : ∀ t ∈ e.stack.tokens, arities.Natural t)

include hs hnatural

lemma count_le_of_split {count : Int} {runs : List (List Token)}
    (h : Grouping.split arities (some count) e.stack.tokens = .ok runs) :
    count ≤ e.stack.count := by
  obtain ⟨hlen, rest, hruns⟩ := Grouping.split_some_eq_ok_iff.mp h
  have hle := Grouping.length_le_weights_flatten (Grouping.complete_of_takeRuns hruns hnatural)
  have hcount := hs.weights_le_count (Grouping.takeRuns_eq_ok hruns).1
  omega

lemma arity_le_count_of_topRun {run below : List Token}
    (h : Grouping.topRun arities (.op o :: e.stack.tokens) = .ok (run, below)) :
    (o.arity : Int) ≤ e.stack.count := by
  have hrun : ∀ t ∈ run, arities.Natural t := by
    intro t ht
    rcases List.mem_cons.mp (Grouping.mem_of_topRun h ht) with rfl | ht
    · rintro n a hn
      cases hn
    · exact hnatural t ht
  obtain ⟨taken, htokens, hle⟩ := Grouping.arity_le_weights_of_topRun h hrun
  exact Int.le_trans hle (hs.weights_le_count htokens)

/-- An operator with which an expression ends has its operands on the stack. -/
lemma arity_le_count_of_start {first : Int}
    (h : Grouping.start arities (e.stack.toList ++ [.op o]) (e.stack.toList.length + 1) =
      .ok first) :
    (o.arity : Int) ≤ e.stack.count := by
  rw [← Stack.length_toList_append _ (.op o)] at h
  obtain ⟨run, below, htop, -, -⟩ := Grouping.start_eq_ok h
  rw [Index.cut_natCast, List.take_length, Stack.reverse_toList_append] at htop
  exact arity_le_count_of_topRun hs hnatural htop

lemma topRun_of_count_lt (hlt : e.stack.count < o.arity) :
    Grouping.topRun arities (.op o :: e.stack.tokens) = .error (.shortage .incomplete) := by
  rcases htop : Grouping.topRun arities (.op o :: e.stack.tokens) with error | ⟨run, below⟩
  · -- without commands a scan can only run out of tokens
    have hcommand : ∀ c, .command c ∉ .op o :: e.stack.tokens := fun c hc =>
      hs.noCommand c (by simpa using hc)
    rw [Grouping.takeRun_eq_error hcommand htop]
  · have hle := arity_le_count_of_topRun hs hnatural htop
    omega

end Sound

/--
**The check of a push refuses nothing that could be complete.** Under any arities that are not below
zero for the names on the stack, no more expressions can be split off than the count says. An
operator that is refused changes nothing, and no expression that ends with it begins on the stack,
as long as the tokens can be counted; one with which an expression ends is pushed.
-/
theorem push_check_refuses_incomplete (e : Engine) (h : e.Reachable) (arities : Arities)
    (hnatural : ∀ t ∈ e.stack.tokens, arities.Natural t) :
    (∀ count runs, Grouping.split arities (some count) e.stack.tokens = .ok runs →
      count ≤ e.stack.count) ∧
    (∀ o error, e.push (.op o) = .error error →
      error = .shortage (.pushed o) ∧ e.pushToken (.op o) = ⟨.error error, e⟩ ∧
      (e.stack.toList.length < Index.bound →
        Grouping.start arities (e.stack.toList ++ [.op o]) (e.stack.toList.length + 1) =
          .error (.shortage .incomplete))) ∧
    ∀ o first,
      Grouping.start arities (e.stack.toList ++ [.op o]) (e.stack.toList.length + 1) = .ok first →
      e.push (.op o) = .ok { e with stack := e.stack.push (.op o) } := by
  have hs := h.sound
  refine ⟨fun count runs => count_le_of_split hs hnatural, fun o error hpush => ?_,
    fun o first hstart => push_op_eq_ok (arity_le_count_of_start hs hnatural hstart)⟩
  obtain ⟨herror, hlt⟩ := push_op_eq_error hpush
  refine ⟨herror, by simp only [pushToken, hpush], fun hbound => ?_⟩
  rw [← Stack.length_toList_append _ (.op o)]
  refine Grouping.start_length_eq_error (by simp) ?_ ?_
  · rw [Stack.length_toList_append]
    exact hbound
  · rw [Stack.reverse_toList_append]
    exact topRun_of_count_lt hs hnatural hlt

def nullary : Arities
  | "debt" => some (-1)
  | _ => some 0

/-- Two expressions suffice for a sum, and not for a selection, if the name takes nothing. -/
theorem adding_push_check_refuses_incomplete :
    (adding.Reachable ∧ ∀ t ∈ adding.stack.tokens, nullary.Natural t) ∧
    (Grouping.split nullary (some 2) adding.stack.tokens =
        .ok [[.number 1, .name "x", .op (.binary .add)], [.number 7]] ∧ 2 ≤ adding.stack.count) ∧
    (adding.push (.op .select) = .error (.shortage (.pushed .select)) ∧
      Grouping.start nullary (adding.stack.toList ++ [.op .select]) 5 =
        .error (.shortage .incomplete)) ∧
    adding.push (.op (.binary .add)) =
      .ok { adding with stack := adding.stack.push (.op (.binary .add)) } := by
  have hnatural : ∀ t ∈ adding.stack.tokens, nullary.Natural t := by
    rintro t ht n a rfl ha
    obtain rfl : n = "x" := by simpa [adding, Stack.ofTokens] using ht
    cases ha
    decide
  obtain ⟨hsplit, hrefused, hpushed⟩ :=
    push_check_refuses_incomplete adding adding_reachable nullary hnatural
  have htwo : Grouping.split nullary (some 2) adding.stack.tokens =
      .ok [[.number 1, .name "x", .op (.binary .add)], [.number 7]] := by decide
  have hstart : Grouping.start nullary (adding.stack.toList ++ [.op (.binary .add)]) 5 = .ok 0 := by
    decide
  exact ⟨⟨adding_reachable, hnatural⟩, ⟨htwo, hsplit 2 _ htwo⟩,
    ⟨rfl, (hrefused .select _ rfl).2.2 (by decide)⟩, hpushed _ _ hstart⟩

/--
A name that takes less than no arguments makes up for an operand. Then more expressions are split
off than the count says, and a sum is refused that would have been found complete.
-/
theorem push_check_misled_by_negative_arity :
    (∃ e : Engine, e.Reachable ∧
      e.stack.tokens = [.op (.binary .add), .name "debt", .name "debt"] ∧ e.stack.count = 1 ∧
      Grouping.split nullary (some 2) e.stack.tokens =
        .ok [[.name "debt", .op (.binary .add)], [.name "debt"]]) ∧
    ∃ e : Engine, e.Reachable ∧ e.stack.toList = [.name "debt"] ∧
      e.push (.op (.binary .add)) = .error (.shortage (.pushed (.binary .add))) ∧
      Grouping.start nullary [.name "debt", .op (.binary .add)] 2 = .ok 0 := by
  have hone : Reachable _ := (Reachable.start .standard .empty).push (t := .name "debt") rfl
  have hthree : Reachable _ :=
    (hone.push (t := .name "debt") rfl).push (t := .op (.binary .add)) rfl
  exact ⟨⟨_, hthree, rfl, rfl, by decide⟩, _, hone, rfl, rfl, by decide⟩

end Engine

end ReversePolish
