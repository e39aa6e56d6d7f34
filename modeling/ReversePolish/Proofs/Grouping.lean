import Mathlib.Data.List.Basic
import Mathlib.Order.Nat
import ReversePolish.Grouping

/-!
What grouping takes off a stack of tokens, and that it can be folded into trees.

A backward scan that needs so many expressions stops at a run of tokens which the forward fold makes
so many trees of, on top of any trees that are there already, provided that no arity which the scan
meets is below zero.
-/

namespace ReversePolish

lemma bind_eq_ok {ε α β : Type} {x : Except ε α} {f : α → Except ε β} {b : β}
    (h : x >>= f = .ok b) : ∃ a, x = .ok a ∧ f a = .ok b := by
  cases x with
  | error error => cases h
  | ok a => exact ⟨a, rfl, h⟩

lemma bind_eq_error {ε α β : Type} {x : Except ε α} {f : α → Except ε β} {error : ε}
    (h : x >>= f = .error error) : x = .error error ∨ ∃ a, x = .ok a ∧ f a = .error error := by
  cases x with
  | error error' => exact .inl (by simpa [bind, Except.bind] using h)
  | ok a => exact .inr ⟨a, rfl, h⟩

/-- A token that is not a name whose arity is below zero. -/
def Arities.Natural (arities : Arities) (t : Token) : Prop :=
  ∀ n a, t = .name n → arities n = some a → 0 ≤ a

namespace Grouping

variable {arities : Arities} {arity : Int} {need count : Nat} {run stack below rest : List Token}
  {runs : List (List Token)} {trees : List Expr}

/-! ### Backward scans -/

lemma takeRun_succ_eq_ok {t : Token} {acc : List Token} {result : List Token × List Token}
    (h : takeRun arities (need + 1) acc (t :: stack) = .ok result) :
    ∃ k, operands arities t = .ok k ∧
      takeRun arities (need + k).toNat (t :: acc) stack = .ok result :=
  bind_eq_ok h

/-- A scan takes tokens off the top and turns them round. -/
lemma takeRun_eq_ok {acc : List Token} (h : takeRun arities need acc stack = .ok (run, below)) :
    ∃ taken, run = taken.reverse ++ acc ∧ stack = taken ++ below := by
  induction stack generalizing need acc with
  | nil =>
    cases need with
    | zero => cases h; exact ⟨[], rfl, rfl⟩
    | succ need => cases h
  | cons t stack ih =>
    cases need with
    | zero => cases h; exact ⟨[], rfl, rfl⟩
    | succ need =>
      obtain ⟨k, -, hrest⟩ := takeRun_succ_eq_ok h
      obtain ⟨taken, rfl, rfl⟩ := ih hrest
      exact ⟨t :: taken, by simp, rfl⟩

/-- What lies below what a scan takes has no effect on it. -/
lemma takeRun_append {acc : List Token} (h : takeRun arities need acc stack = .ok (run, below))
    (base : List Token) :
    takeRun arities need acc (stack ++ base) = .ok (run, below ++ base) := by
  induction stack generalizing need acc with
  | nil =>
    cases need with
    | zero => cases h; cases base <;> rfl
    | succ need => cases h
  | cons t stack ih =>
    cases need with
    | zero => cases h; rfl
    | succ need =>
      obtain ⟨k, hk, hrest⟩ := takeRun_succ_eq_ok h
      simp only [List.cons_append, takeRun, hk, bind, Except.bind]
      exact ih hrest

lemma topRun_eq_ok (h : topRun arities stack = .ok (run, below)) :
    stack = run.reverse ++ below := by
  obtain ⟨taken, rfl, rfl⟩ := takeRun_eq_ok h
  simp

lemma topRun_ne_nil (h : topRun arities stack = .ok (run, below)) : run ≠ [] := by
  cases stack with
  | nil => cases h
  | cons t stack =>
    obtain ⟨k, -, hrest⟩ := takeRun_succ_eq_ok h
    obtain ⟨taken, rfl, -⟩ := takeRun_eq_ok hrest
    simp

lemma topRun_append (h : topRun arities stack = .ok (run, below)) (base : List Token) :
    topRun arities (stack ++ base) = .ok (run, below ++ base) :=
  takeRun_append h base

lemma length_below_lt (h : topRun arities stack = .ok (run, below)) :
    below.length < stack.length := by
  have hpos := List.length_pos_of_ne_nil (topRun_ne_nil h)
  rw [topRun_eq_ok h, List.length_append, List.length_reverse]
  omega

lemma mem_of_topRun {t : Token} (h : topRun arities stack = .ok (run, below)) (ht : t ∈ run) :
    t ∈ stack := by
  rw [topRun_eq_ok h]
  exact List.mem_append_left _ (List.mem_reverse.mpr ht)

lemma mem_of_below {t : Token} (h : topRun arities stack = .ok (run, below)) (ht : t ∈ below) :
    t ∈ stack := by
  rw [topRun_eq_ok h]
  exact List.mem_append_right _ ht

lemma takeRuns_succ_eq_ok {t : Token}
    (h : takeRuns arities (count + 1) (t :: stack) = .ok (runs, rest)) :
    ∃ run below runs', topRun arities (t :: stack) = .ok (run, below) ∧
      takeRuns arities count below = .ok (runs', rest) ∧ runs = run :: runs' := by
  obtain ⟨⟨run, below⟩, htop, h⟩ := bind_eq_ok h
  obtain ⟨⟨runs', rest'⟩, hrest, h⟩ := bind_eq_ok h
  cases h
  exact ⟨run, below, runs', htop, hrest, rfl⟩

/-- The expressions that are taken are what stood on top, and none of them is empty. -/
lemma takeRuns_eq_ok (h : takeRuns arities count stack = .ok (runs, rest)) :
    stack = (runs.map List.reverse).flatten ++ rest ∧ ∀ run ∈ runs, run ≠ [] := by
  induction count generalizing stack runs with
  | zero => cases h; exact ⟨rfl, by simp⟩
  | succ count ih =>
    cases stack with
    | nil => cases h; exact ⟨rfl, by simp⟩
    | cons t stack =>
      obtain ⟨run, below, runs', hrun, hrest, rfl⟩ := takeRuns_succ_eq_ok h
      have hstack := topRun_eq_ok hrun
      obtain ⟨rfl, hnes⟩ := ih hrest
      exact ⟨by simp [hstack], by simpa using ⟨topRun_ne_nil hrun, hnes⟩⟩

lemma tokens_of_takeRuns {tokens : List Token}
    (h : takeRuns arities count tokens.reverse = .ok (runs, rest)) :
    tokens = rest.reverse ++ runs.reverse.flatten := by
  rw [← List.reverse_reverse tokens, (takeRuns_eq_ok h).1, List.reverse_append,
    List.reverse_flatten]
  simp

lemma mem_of_takeRuns {t : Token} (h : takeRuns arities count stack = .ok (runs, rest))
    (hrun : run ∈ runs) (ht : t ∈ run) : t ∈ stack := by
  rw [(takeRuns_eq_ok h).1]
  refine List.mem_append_left _ (List.mem_flatten.mpr ⟨run.reverse, ?_, List.mem_reverse.mpr ht⟩)
  exact List.mem_map_of_mem hrun

/-- A stack that is taken apart with enough turns leaves nothing. -/
lemma takeRuns_rest_eq_nil (h : takeRuns arities count stack = .ok (runs, rest))
    (hle : stack.length ≤ count) : rest = [] := by
  induction count generalizing stack runs with
  | zero =>
    cases h
    exact List.length_eq_zero_iff.mp (Nat.le_zero.mp hle)
  | succ count ih =>
    cases stack with
    | nil => cases h; rfl
    | cons t stack =>
      obtain ⟨run, below, runs', hrun, hrest, rfl⟩ := takeRuns_succ_eq_ok h
      have hlt := length_below_lt hrun
      exact ih hrest (by omega)

lemma splitAll_eq_ok (h : splitAll arities stack = .ok runs) :
    takeRuns arities stack.length stack = .ok (runs, []) := by
  obtain ⟨⟨runs', rest⟩, ht, h⟩ := bind_eq_ok h
  cases h
  rw [ht, takeRuns_rest_eq_nil ht le_rfl]

lemma takeRuns_length_le (h : takeRuns arities count stack = .ok (runs, rest)) :
    runs.length ≤ count := by
  induction count generalizing stack runs with
  | zero => cases h; exact Nat.le_refl 0
  | succ count ih =>
    cases stack with
    | nil => cases h; exact Nat.zero_le _
    | cons t stack =>
      obtain ⟨run, below, runs', -, hrest, rfl⟩ := takeRuns_succ_eq_ok h
      exact Nat.succ_le_succ (ih hrest)

lemma splitTop_eq_ok_iff : splitTop arities count stack = .ok (runs, rest) ↔
    takeRuns arities count stack = .ok (runs, rest) ∧ runs.length = count := by
  constructor
  · intro h
    obtain ⟨⟨runs', rest'⟩, ht, h⟩ := bind_eq_ok h
    dsimp only at h
    split at h
    · cases h
    · next hlen =>
      cases h
      exact ⟨ht, Nat.le_antisymm (takeRuns_length_le ht) (Nat.not_lt.mp hlen)⟩
  · rintro ⟨ht, hlen⟩
    simp [splitTop, ht, hlen, bind, Except.bind]

/-- What is taken off some tokens is taken off first if there are others below. -/
lemma takeRuns_append {m n : Nat} {left : List Token} {found more : List (List Token)}
    (h : takeRuns arities m stack = .ok (found, left)) (hlen : found.length = m)
    (hmore : takeRuns arities n (left ++ below) = .ok (more, rest)) :
    takeRuns arities (m + n) (stack ++ below) = .ok (found ++ more, rest) := by
  induction m generalizing stack found with
  | zero =>
    cases h
    rw [Nat.zero_add]
    exact hmore
  | succ m ih =>
    cases stack with
    | nil =>
      cases h
      cases hlen
    | cons t stack =>
      obtain ⟨run, lower, found', htop, hrest, rfl⟩ := takeRuns_succ_eq_ok h
      have hbelow := ih hrest (Nat.succ.inj hlen)
      have htop' := topRun_append htop below
      rw [List.cons_append] at htop' ⊢
      simp only [Nat.succ_add, takeRuns, htop', hbelow, bind, Except.bind, List.cons_append]

lemma splitTop_one_iff :
    splitTop arities 1 stack = .ok ([run], rest) ↔ topRun arities stack = .ok (run, rest) := by
  rw [splitTop_eq_ok_iff]
  cases stack with
  | nil => simp [takeRuns, topRun, takeRun]
  | cons t stack =>
    constructor
    · rintro ⟨h, -⟩
      obtain ⟨run', below', runs', htop, hrest, hruns⟩ := takeRuns_succ_eq_ok h
      cases hruns
      cases hrest
      exact htop
    · intro h
      exact ⟨by simp only [takeRuns, h, bind, Except.bind], rfl⟩

lemma splitTop_append {n : Nat} {left : List Token} {found : List (List Token)}
    (h : splitTop arities n stack = .ok (found, left)) (base : List Token) :
    splitTop arities n (stack ++ base) = .ok (found, left ++ base) := by
  obtain ⟨hfound, hlen⟩ := splitTop_eq_ok_iff.mp h
  have hnone : takeRuns arities 0 (left ++ base) = .ok ([], left ++ base) := rfl
  have happend := takeRuns_append hfound hlen hnone
  rw [List.append_nil] at happend
  exact splitTop_eq_ok_iff.mpr ⟨happend, hlen⟩

lemma tokens_of_splitTop {tokens : List Token}
    (h : splitTop arities count tokens.reverse = .ok (runs, [])) :
    tokens = runs.reverse.flatten :=
  tokens_of_takeRuns (splitTop_eq_ok_iff.mp h).1

/-! ### Forward folds -/

/-- A token that is not a command takes so many operands from the fold. -/
lemma addToken_eq_ok {t : Token} {k : Int} (hk : operands arities t = .ok k)
    (harg : ∀ i, t = .arg i → i < arity) (hlen : k ≤ trees.length) :
    ∃ tree, addToken arities arity trees t = .ok (tree :: trees.drop k.toNat) := by
  cases t with
  | number v => cases hk; exact ⟨.literal v, rfl⟩
  | arg i =>
    cases hk
    exact ⟨.arg i, by simp [addToken, harg i rfl]⟩
  | op o =>
    -- a stack with fewer trees than operands is ruled out by its length
    cases hk
    cases o with
    | binary op =>
      rcases trees with _ | ⟨r, _ | ⟨l, rest⟩⟩ <;> simp [Operator.arity] at hlen
      exact ⟨.binary op l r, rfl⟩
    | powMod =>
      rcases trees with _ | ⟨m, _ | ⟨e, _ | ⟨b, rest⟩⟩⟩ <;> simp [Operator.arity] at hlen
      exact ⟨.powMod b e m, rfl⟩
    | select =>
      rcases trees with _ | ⟨p, _ | ⟨u, _ | ⟨t, rest⟩⟩⟩ <;> simp [Operator.arity] at hlen
      exact ⟨.select t u p, rfl⟩
  | name n =>
    cases hk
    rcases hn : arities n with _ | k
    · exact ⟨.name n, by simp [addToken, hn]⟩
    · rw [hn, Option.getD_some] at hlen
      exact ⟨.call n (trees.take k.toNat).reverse, by simp [addToken, hn, Int.not_lt.mpr hlen]⟩
  | command c => cases hk

lemma fold_append (tokens more : List Token) :
    fold arities arity trees (tokens ++ more) =
      (fold arities arity trees tokens).bind fun trees => fold arities arity trees more := by
  induction tokens generalizing trees with
  | nil => rfl
  | cons t tokens ih =>
    rcases ha : addToken arities arity trees t with error | trees'
    · simp [fold, ha, bind, Except.bind]
    · simp only [List.cons_append, fold, ha, bind, Except.bind]
      exact ih

lemma operands_nonneg {t : Token} {k : Int} (ht : arities.Natural t)
    (hk : operands arities t = .ok k) : 0 ≤ k := by
  cases t with
  | number v => cases hk; exact Int.le_refl 0
  | arg i => cases hk; exact Int.le_refl 0
  | op o => cases hk; exact Int.natCast_nonneg _
  | name n =>
    cases hk
    rcases hn : arities n with _ | a
    · exact Int.le_refl 0
    · exact ht n a rfl hn
  | command c => cases hk

/-- The tokens that a scan takes make as many trees as it needs. -/
lemma fold_takeRun {acc : List Token} (h : takeRun arities need acc stack = .ok (run, below))
    (hrun : ∀ t ∈ run, arities.Natural t) (harg : ∀ i, .arg i ∈ run → i < arity) :
    ∃ taken, run = taken ++ acc ∧ ∀ trees, ∃ new : List Expr, new.length = need ∧
      fold arities arity trees taken = .ok (new ++ trees) := by
  induction stack generalizing need acc with
  | nil =>
    cases need with
    | zero => cases h; exact ⟨[], rfl, fun _ => ⟨[], rfl, rfl⟩⟩
    | succ need => cases h
  | cons t stack ih =>
    cases need with
    | zero => cases h; exact ⟨[], rfl, fun _ => ⟨[], rfl, rfl⟩⟩
    | succ need =>
      obtain ⟨k, hk, hrest⟩ := takeRun_succ_eq_ok h
      obtain ⟨taken, rfl, hfold⟩ := ih hrest
      have hpos := operands_nonneg (hrun t (by simp)) hk
      refine ⟨taken ++ [t], by simp, fun trees => ?_⟩
      -- the scan has gone on for the operands of the token, so their trees are on top
      obtain ⟨new, hnew, hf⟩ := hfold trees
      have hlen : k ≤ (new ++ trees).length := by
        rw [List.length_append]
        omega
      obtain ⟨tree, ht⟩ := addToken_eq_ok hk (fun i hi => harg i (by simp [hi])) hlen
      rw [List.drop_append_of_le_length (by omega)] at ht
      refine ⟨tree :: new.drop k.toNat, by simp; omega, ?_⟩
      rw [fold_append, hf]
      simp [Except.bind, fold, ht, bind]

lemma build_topRun (h : topRun arities stack = .ok (run, below))
    (hrun : ∀ t ∈ run, arities.Natural t) (harg : ∀ i, .arg i ∈ run → i < arity) :
    ∃ e, build arities arity run = .ok e := by
  obtain ⟨taken, rfl, hfold⟩ := fold_takeRun h hrun harg
  obtain ⟨new, hnew, hf⟩ := hfold []
  obtain ⟨e, rfl⟩ := List.length_eq_one_iff.mp hnew
  exact ⟨e, by simp [build, hf, bind, Except.bind]⟩

lemma buildAll_cons_eq_ok {es : List Expr} (h : buildAll arities arity (run :: runs) = .ok es) :
    ∃ e es', build arities arity run = .ok e ∧ buildAll arities arity runs = .ok es' ∧
      es = e :: es' := by
  obtain ⟨e, hb, h⟩ := bind_eq_ok h
  obtain ⟨es', hbs, h⟩ := bind_eq_ok h
  cases h
  exact ⟨e, es', hb, hbs, rfl⟩

lemma exists_build_of_buildAll {es : List Expr} (h : buildAll arities arity runs = .ok es)
    (hrun : run ∈ runs) : ∃ e, build arities arity run = .ok e := by
  induction runs generalizing es with
  | nil => cases hrun
  | cons first runs ih =>
    obtain ⟨e, es', he, hes, -⟩ := buildAll_cons_eq_ok h
    rcases List.mem_cons.mp hrun with rfl | hrun
    · exact ⟨e, he⟩
    · exact ih hes hrun

lemma buildAll_takeRuns (h : takeRuns arities count stack = .ok (runs, rest))
    (hnatural : ∀ t ∈ stack, arities.Natural t) (harg : ∀ i, .arg i ∈ stack → i < arity) :
    ∃ es, buildAll arities arity runs = .ok es ∧ es.length = runs.length := by
  induction count generalizing stack runs with
  | zero =>
    cases h
    exact ⟨[], rfl, rfl⟩
  | succ count ih =>
    cases stack with
    | nil =>
      cases h
      exact ⟨[], rfl, rfl⟩
    | cons t stack =>
      obtain ⟨run, below, runs', htop, hrest, rfl⟩ := takeRuns_succ_eq_ok h
      obtain ⟨e, he⟩ := build_topRun htop (fun u hu => hnatural u (mem_of_topRun htop hu))
        fun i hi => harg i (mem_of_topRun htop hi)
      obtain ⟨es, hes, hlen⟩ := ih hrest (fun u hu => hnatural u (mem_of_below htop hu))
        fun i hi => harg i (mem_of_below htop hi)
      exact ⟨e :: es, by simp [buildAll, he, hes, bind, Except.bind], by simp [hlen]⟩

end Grouping

end ReversePolish
