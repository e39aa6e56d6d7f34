import Mathlib.Data.Set.Defs
import ReversePolish.Proofs.Closed
import ReversePolish.Proofs.History
import ReversePolish.Proofs.Redeclaration

/-!
Evaluation depends only on what it can reach.

An expression reaches the variables and functions that it refers to, and through each function what
the parts of this function refer to. Names are looked up while the evaluation goes on, so what is
not reached is never looked up. Two scopes that agree on all that is reached give the same outcome,
or neither ends.
-/

namespace ReversePolish

inductive Reference
  | value (name : String)
  | function (name : String) (arity : Nat)
  deriving DecidableEq

namespace Expr

mutual

/-- All that a tree refers to. A name may be a variable or a function without arguments. -/
def references : Expr → List Reference
  | .literal _ => []
  | .name n => [.value n, .function n 0]
  | .arg _ => []
  | .binary _ l r => l.references ++ r.references
  | .powMod b e m => b.references ++ (e.references ++ m.references)
  | .select t u p => t.references ++ (u.references ++ p.references)
  | .call n args => .function n args.length :: allReferences args

def allReferences : List Expr → List Reference
  | [] => []
  | e :: es => e.references ++ allReferences es

end

/-- A tree refers to nothing outside a set. -/
def Within (e : Expr) (reach : Set Reference) : Prop := ∀ r ∈ e.references, r ∈ reach

lemma mem_allReferences {x : Expr} {es : List Expr} {r : Reference} (hx : x ∈ es)
    (hr : r ∈ x.references) : r ∈ allReferences es := by
  induction es with
  | nil => cases hx
  | cons e es ih =>
    rw [allReferences, List.mem_append]
    rcases List.mem_cons.mp hx with rfl | hx
    · exact Or.inl hr
    · exact Or.inr (ih hx)

variable {e x : Expr} {reach : Set Reference}

lemma Within.name {n : String} (h : (Expr.name n).Within reach) :
    .value n ∈ reach ∧ .function n 0 ∈ reach :=
  ⟨h _ (by simp [references]), h _ (by simp [references])⟩

lemma Within.call {n : String} {args : List Expr} (h : (Expr.call n args).Within reach) :
    .function n args.length ∈ reach :=
  h _ (by simp [references])

lemma Within.child (h : e.Within reach) (hx : x ∈ e.children) : x.Within reach := by
  intro r hr
  refine h r ?_
  cases e with
  | binary op l r' =>
    rcases List.mem_pair.mp hx with rfl | rfl <;> simp [references, hr]
  | powMod b e m =>
    simp only [children, List.mem_cons, List.not_mem_nil, or_false] at hx
    rcases hx with rfl | rfl | rfl <;> simp [references, hr]
  | select t u p =>
    simp only [children, List.mem_cons, List.not_mem_nil, or_false] at hx
    rcases hx with rfl | rfl | rfl <;> simp [references, hr]
  | call n args =>
    rw [references, List.mem_cons]
    exact Or.inr (mem_allReferences hx hr)
  | literal v => cases hx
  | name n => cases hx
  | arg i => cases hx

end Expr

def Body.Within (body : Body) (reach : Set Reference) : Prop := ∀ x ∈ body.parts, x.Within reach

namespace Scope

/-- The functions in a set refer to nothing outside it. -/
def Closes (scope : Scope) (reach : Set Reference) : Prop :=
  ∀ n k body, .function n k ∈ reach → scope.body? n k = some body → body.Within reach

/-- Two scopes mean the same by all that is in a set. -/
structure Agree (reach : Set Reference) (scope scope' : Scope) : Prop where
  value (n : String) (h : .value n ∈ reach) : scope.valueOf? n = scope'.valueOf? n
  body (n : String) (k : Nat) (h : .function n k ∈ reach) : scope.body? n k = scope'.body? n k

variable {reach : Set Reference} {scope scope' : Scope}

lemma Agree.refl : Agree reach scope scope := ⟨fun _ _ => rfl, fun _ _ _ => rfl⟩

lemma Agree.trans {scope'' : Scope} (h : Agree reach scope scope')
    (h' : Agree reach scope' scope'') :
    Agree reach scope scope'' :=
  ⟨fun n hn => (h.value n hn).trans (h'.value n hn),
    fun n k hk => (h.body n k hk).trans (h'.body n k hk)⟩

lemma Agree.symm (h : Agree reach scope scope') : Agree reach scope' scope :=
  ⟨fun n hn => (h.value n hn).symm, fun n k hk => (h.body n k hk).symm⟩

lemma Agree.closes (h : Agree reach scope scope') (hc : scope.Closes reach) :
    scope'.Closes reach := by
  intro n k body hk hbody
  rw [← h.body n k hk] at hbody
  exact hc n k body hk hbody

end Scope

/-! ### Two evaluations -/

section Evaluation

variable {reach : Set Reference} {scope scope' : Scope} {limit : Int}

mutual

/-- What is derived under one scope is derived under the other, rule by rule. -/
lemma evaluates_of_agree (hc : scope.Closes reach) (ha : scope.Agree reach scope') {d : Nat}
    {e : Expr} {frame : Frame} {o : Outcome} :
    Evaluates scope limit d e frame o → e.Within reach → Evaluates scope' limit d e frame o
  | .literal, _ => .literal
  | .arg h, _ => .arg h
  | .value h, he => .value (ha.value _ he.name.1 ▸ h)
  | .name h hcall, he =>
    .name (ha.value _ he.name.1 ▸ h) (callEvaluates_of_agree hc ha hcall he.name.2)
  | .operand h, he =>
    .operand (evaluatesAll_of_agree hc ha h fun _ hx =>
      he.child (Expr.mem_children_of_mem_operands hx))
  | .binary h ho, he => .binary (evaluatesAll_of_agree hc ha h fun _ hx => he.child hx) ho
  | .powMod h ho, he => .powMod (evaluatesAll_of_agree hc ha h fun _ hx => he.child hx) ho
  | .taken hp hv ht, he =>
    .taken (evaluates_of_agree hc ha hp (he.child (by simp [Expr.children]))) hv
      (evaluates_of_agree hc ha ht (he.child (by simp [Expr.children])))
  | .untaken hp hu, he =>
    .untaken (evaluates_of_agree hc ha hp (he.child (by simp [Expr.children])))
      (evaluates_of_agree hc ha hu (he.child (by simp [Expr.children])))
  | .call h hcall, he =>
    -- the function is looked up by the number of values, which is the number of arguments
    .call (evaluatesAll_of_agree hc ha h fun _ hx => he.child hx)
      (callEvaluates_of_agree hc ha hcall (h.length_eq ▸ he.call))

lemma evaluatesAll_of_agree (hc : scope.Closes reach) (ha : scope.Agree reach scope') {d : Nat}
    {es : List Expr} {frame : Frame} {r : Except Error (List Number)} :
    EvaluatesAll scope limit d es frame r → (∀ x ∈ es, x.Within reach) →
      EvaluatesAll scope' limit d es frame r
  | .nil, _ => .nil
  | .cons h hs, hes =>
    .cons (evaluates_of_agree hc ha h (hes _ (by simp)))
      (evaluatesAll_of_agree hc ha hs fun x hx => hes x (List.mem_cons_of_mem _ hx))
  | .head h, hes => .head (evaluates_of_agree hc ha h (hes _ (by simp)))
  | .tail h hs, hes =>
    .tail (evaluates_of_agree hc ha h (hes _ (by simp)))
      (evaluatesAll_of_agree hc ha hs fun x hx => hes x (List.mem_cons_of_mem _ hx))

lemma callEvaluates_of_agree (hc : scope.Closes reach) (ha : scope.Agree reach scope') {d : Nat}
    {n : String} {vs : List Number} {o : Outcome} :
    CallEvaluates scope limit d n vs o → .function n vs.length ∈ reach →
      CallEvaluates scope' limit d n vs o
  | .unknown h, hn => .unknown (ha.body _ _ hn ▸ h)
  | .exhausted h hd, hn => .exhausted (ha.body _ _ hn ▸ h) hd
  | .recursive h hd hb, hn =>
    .recursive (ha.body _ _ hn ▸ h) hd
      (evaluates_of_agree hc ha hb (hc _ _ _ hn h _ (by simp [Body.parts])))
  | .iterative h hl, hn =>
    .iterative (ha.body _ _ hn ▸ h) (loopEvaluates_of_agree hc ha hl (hc _ _ _ hn h))

lemma loopEvaluates_of_agree (hc : scope.Closes reach) (ha : scope.Agree reach scope') {d : Nat}
    {loop : Loop} {frame : Frame} {o : Outcome} :
    LoopEvaluates scope limit d loop frame o → (Body.iterative loop).Within reach →
      LoopEvaluates scope' limit d loop frame o
  | .predicate h, hl => .predicate (evaluates_of_agree hc ha h (hl _ (by simp [Body.parts])))
  | .terminal hp hv ht, hl =>
    .terminal (evaluates_of_agree hc ha hp (hl _ (by simp [Body.parts]))) hv
      (evaluates_of_agree hc ha ht (hl _ (by simp [Body.parts])))
  | .steps hp hs, hl =>
    .steps (evaluates_of_agree hc ha hp (hl _ (by simp [Body.parts])))
      (evaluatesAll_of_agree hc ha hs fun x hx => hl x (by simp [Body.parts, hx]))
  | .again hp hs hnext, hl =>
    .again (evaluates_of_agree hc ha hp (hl _ (by simp [Body.parts])))
      (evaluatesAll_of_agree hc ha hs fun x hx => hl x (by simp [Body.parts, hx]))
      (loopEvaluates_of_agree hc ha hnext hl)

end

/-- An expression has the same outcome under two scopes, or it ends under neither of them. -/
def Expr.SameUnder (e : Expr) (scope scope' : Scope) : Prop :=
  ∀ limit frame depth o, Machine.Halts scope limit (Machine.start e frame depth) o ↔
    Machine.Halts scope' limit (Machine.start e frame depth) o

lemma Scope.Agree.sameUnder {e : Expr} (ha : scope.Agree reach scope') (hc : scope.Closes reach)
    (he : e.Within reach) : e.SameUnder scope scope' := by
  intro limit frame depth o
  constructor
  · intro h
    have hderived := evaluates_of_agree hc ha (Machine.evaluates_of_halts h) he
    exact Machine.halts_of_evaluates hderived
  · intro h
    have hderived := evaluates_of_agree (ha.closes hc) ha.symm (Machine.evaluates_of_halts h) he
    exact Machine.halts_of_evaluates hderived

end Evaluation

/-! ### Writes to what is not reached -/

/--
A write to a table changes nothing in a set: what it writes is not in the set, and what it makes the
table forget is not in the set either, or is not there.
-/
def Write.Spares (reach : Set Reference) (t : Table) : Write → Prop
  | .bind n _ => .value n ∉ reach ∧ ∀ k : Nat, .function n k ∈ reach → t.body? n k = none
  | .define d => (∀ k : Nat, d.arity = k → .function d.name k ∉ reach) ∧
    (.value d.name ∈ reach → t.valueOf? d.name = none)

namespace Table

variable {reach : Set Reference} {t t' : Table}

/-- Each of several writes changes nothing in a set. -/
def Spares (reach : Set Reference) (t : Table) : List Write → Prop
  | [] => True
  | w :: ws => w.Spares reach t ∧ (t.write w).Spares reach ws

lemma agree_write {w : Write} (h : w.Spares reach t) : t.scope.Agree reach (t.write w).scope := by
  cases w with
  | bind m v =>
    obtain ⟨hvalue, hforgets⟩ := h
    constructor
    · intro n hn
      have hne : n ≠ m := fun heq => hvalue (heq ▸ hn)
      exact ((valueOf?_bind t n m v).trans (if_neg hne)).symm
    · -- a binding also erases functions, none of which is in the set
      intro n k hk
      refine Eq.trans ?_ (body?_bind t n k m v).symm
      by_cases hn : n = m
      · subst hn
        rw [if_pos rfl]
        exact hforgets k hk
      · rw [if_neg hn]
        rfl
  | define d =>
    obtain ⟨hbody, hforgets⟩ := h
    constructor
    · -- a declaration also erases a variable, which is not in the set
      intro n hn
      refine Eq.trans ?_ (valueOf?_define t d n).symm
      by_cases heq : n = d.name
      · subst heq
        rw [if_pos rfl]
        exact hforgets hn
      · rw [if_neg heq]
        rfl
    · intro n k hk
      have hkey : ¬(n = d.name ∧ (k : Int) = d.arity) := by
        rintro ⟨rfl, hk'⟩
        exact hbody k hk'.symm hk
      exact ((body?_define t d n k).trans (if_neg hkey)).symm

lemma agree_writeAll {ws : List Write} (h : t.Spares reach ws) :
    t.scope.Agree reach (t.writeAll ws).scope := by
  induction ws generalizing t with
  | nil => exact .refl
  | cons w ws ih => exact (agree_write h.1).trans (ih h.2)

/-- Tables with the same variables and the same functions in a set agree on it. -/
lemma agree_of_lookups (hv : ∀ n, .value n ∈ reach → t'.valueOf? n = t.valueOf? n)
    (hd : ∀ n (k : Nat), .function n k ∈ reach → t'.definition? n k = t.definition? n k) :
    t.scope.Agree reach t'.scope := by
  refine ⟨fun n hn => (hv n hn).symm, fun n k hk => ?_⟩
  exact congrArg (Option.map Definition.body) (hd n k hk).symm

end Table

/--
**Evaluation depends only on what it can reach.** Take a set of variables and functions that holds
all that an expression refers to, and with each function that is defined all that the parts of the
function refer to. Under any other scope that means the same by what is in the set, the expression
has the same outcome, or it ends under neither. So it does not matter what else a table holds, how
often it was written to and which arities its names have when tokens are grouped, and writes that
change nothing in the set have no effect.
-/
theorem evaluation_depends_on_reach (reach : Set Reference) (e : Expr)
    (he : ∀ r ∈ e.references, r ∈ reach) :
    (∀ scope scope' : Scope,
      (∀ n k body, .function n k ∈ reach → scope.body? n k = some body →
        ∀ x ∈ body.parts, ∀ r ∈ x.references, r ∈ reach) →
      (∀ n, .value n ∈ reach → scope'.valueOf? n = scope.valueOf? n) →
      (∀ n k, .function n k ∈ reach → scope'.body? n k = scope.body? n k) →
      e.SameUnder scope scope') ∧
    ∀ t : Table,
      (∀ n (k : Nat) d, .function n k ∈ reach → t.definition? n k = some d →
        ∀ x ∈ d.body.parts, ∀ r ∈ x.references, r ∈ reach) →
      (∀ t' : Table, (∀ n, .value n ∈ reach → t'.valueOf? n = t.valueOf? n) →
        (∀ n (k : Nat), .function n k ∈ reach → t'.definition? n k = t.definition? n k) →
        e.SameUnder t.scope t'.scope) ∧
      ∀ ws, t.Spares reach ws → e.SameUnder t.scope (t.writeAll ws).scope := by
  constructor
  · intro scope scope' hclosed hvalue hbody
    have hagree : scope.Agree reach scope' :=
      ⟨fun n hn => (hvalue n hn).symm, fun n k hk => (hbody n k hk).symm⟩
    exact hagree.sameUnder hclosed he
  · intro t hclosed
    have hcloses : t.scope.Closes reach := by
      intro n k body hk hbody
      obtain ⟨d, hd, rfl⟩ := Option.map_eq_some_iff.mp hbody
      exact hclosed n k d hk hd
    exact ⟨fun t' hvalue hd => (Table.agree_of_lookups hvalue hd).sameUnder hcloses he,
      fun ws hws => (Table.agree_writeAll hws).sameUnder hcloses he⟩

def besideFactorial : List Write := [.bind "x" 5, .define (.constant "fact" 2 0)]

lemma factorial_closed (n : String) (k : Nat) (d : Definition)
    (hk : .function n k ∈ ({.function "fact" 1} : Set Reference))
    (hd : (Table.empty.define Engine.factorial).definition? n k = some d) :
    ∀ x ∈ d.body.parts, ∀ r ∈ x.references, r ∈ ({.function "fact" 1} : Set Reference) := by
  cases hk
  obtain rfl : Engine.factorial = d := Option.some.inj hd
  intro x hx r hr
  obtain rfl : x = Engine.factorialBody := List.mem_singleton.mp hx
  exact List.mem_singleton.mp hr

/-- The factorial of three is found though the name of the factorial now takes two arguments. -/
theorem factorial_evaluation_depends_on_reach :
    (Expr.call "fact" [.literal 3]).references = [.function "fact" 1] ∧
    (Table.empty.define Engine.factorial).Spares {.function "fact" 1} besideFactorial ∧
    ((Table.empty.define Engine.factorial).writeAll besideFactorial).arityOf "fact" = some 2 ∧
    Machine.Halts ((Table.empty.define Engine.factorial).writeAll besideFactorial).scope 10
      (Machine.start (.call "fact" [.literal 3]) [] 0) (.ok 6) := by
  have hspares : (Table.empty.define Engine.factorial).Spares {.function "fact" 1}
      besideFactorial := by
    simp only [Table.Spares, besideFactorial, Write.Spares, Definition.constant,
      Set.mem_singleton_iff, reduceCtorEq, Reference.function.injEq]
    refine ⟨⟨by simp, by simp⟩, ⟨?_, by simp⟩, trivial⟩
    rintro k hk ⟨-, rfl⟩
    cases hk
  have hwithin : ∀ r ∈ (Expr.call "fact" [.literal 3]).references,
      r ∈ ({.function "fact" 1} : Set Reference) := fun r hr => List.mem_singleton.mp hr
  have hsame := ((evaluation_depends_on_reach _ _ hwithin).2 _ factorial_closed).2 _ hspares
  have hsix : Machine.Halts (Table.empty.define Engine.factorial).scope 10
      (Machine.start (.call "fact" [.literal 3]) [] 0) (.ok 6) := ⟨100, by decide +kernel⟩
  have hlatest : ((Table.empty.define Engine.factorial).writeAll besideFactorial).arityOf "fact" =
      some 2 := Table.arityOf_define_apply _ _ "fact"
  exact ⟨rfl, hspares, hlatest, (hsame 10 [] 0 _).mp hsix⟩

end ReversePolish
