import Mathlib.Data.List.Induction
import ReversePolish.Proofs.Grouping

/-!
Trees and the tokens they are written with.

A tree is written as its children, from left to right, and one token that closes it; the loop that
writes it goes through the same tokens. Folding these tokens gives the tree back if its names take
as many arguments as the arities say, and nothing else can be folded. The fold takes an arity below
zero for zero. A backward scan that meets the closing token of a tree whose arities are natural
takes all of its tokens and no more.
-/

namespace ReversePolish

namespace Expr

/-- The trees that are written before the closing token, in this order. -/
def children : Expr → List Expr
  | .binary _ l r => [l, r]
  | .powMod b e m => [b, e, m]
  | .select t u p => [t, u, p]
  | .call _ args => args
  | _ => []

def last : Expr → Token
  | .literal v => .number v
  | .name n => .name n
  | .arg i => .arg i
  | .binary op _ _ => .op (.binary op)
  | .powMod _ _ _ => .op .powMod
  | .select _ _ _ => .op .select
  | .call n _ => .name n

lemma children_length {e : Expr} {o : Operator} (h : e.last = .op o) :
    e.children.length = o.arity := by
  cases e <;> cases h <;> rfl

lemma sizeOf_child {e x : Expr} (h : x ∈ e.children) : sizeOf x < sizeOf e := by
  cases e with
  | call n args =>
    have hx : sizeOf x < sizeOf args := List.sizeOf_lt_of_mem h
    simp only [Expr.call.sizeOf_spec]
    omega
  | binary op l r =>
    rcases List.mem_pair.mp h with rfl | rfl <;> simp +arith
  | powMod b e m =>
    simp only [children, List.mem_cons, List.not_mem_nil, or_false] at h
    rcases h with rfl | rfl | rfl <;> simp +arith
  | select t u p =>
    simp only [children, List.mem_cons, List.not_mem_nil, or_false] at h
    rcases h with rfl | rfl | rfl <;> simp +arith
  | literal v => cases h
  | name n => cases h
  | arg i => cases h

/-- Induction over trees: the claim may be assumed for all children. -/
@[elab_as_elim]
lemma induct {motive : Expr → Prop} (node : ∀ e, (∀ x ∈ e.children, motive x) → motive e)
    (e : Expr) : motive e :=
  node e fun x _ => induct node x
termination_by sizeOf e
decreasing_by exact sizeOf_child ‹_›

inductive Every (p : Expr → Prop) : Expr → Prop
  | node {e : Expr} (h : p e) (hs : ∀ x ∈ e.children, Every p x) : Every p e

section Every

variable {p q : Expr → Prop} {e : Expr}

lemma Every.imp (h : e.Every p) (hpq : ∀ x, p x → q x) : e.Every q := by
  induction h with
  | node h _ ih => exact .node (hpq _ h) ih

lemma every_of_forall (h : ∀ x, p x) (e : Expr) : e.Every p := by
  induction e using induct with
  | node e ih => exact .node (h e) ih

lemma Every.and (hp : e.Every p) (hq : e.Every q) : e.Every fun x => p x ∧ q x := by
  induction hp with
  | node hp _ ih =>
    cases hq with
    | node hq hqs => exact .node ⟨hp, hq⟩ fun x hx => ih x hx (hqs x hx)

end Every

/-! ### Tokens -/

mutual

lemma tokensOnto_append : ∀ (e : Expr) (ts us : List Token),
    e.tokensOnto (ts ++ us) = e.tokensOnto ts ++ us
  | .literal _, _, _ => rfl
  | .name _, _, _ => rfl
  | .arg _, _, _ => rfl
  | .binary op l r, ts, us => by
    simp only [tokensOnto, ← tokensOnto_append l, ← tokensOnto_append r, List.cons_append]
  | .powMod b e m, ts, us => by
    simp only [tokensOnto, ← tokensOnto_append b, ← tokensOnto_append e, ← tokensOnto_append m,
      List.cons_append]
  | .select t u p, ts, us => by
    simp only [tokensOnto, ← tokensOnto_append t, ← tokensOnto_append u, ← tokensOnto_append p,
      List.cons_append]
  | .call n args, ts, us => by
    simp only [tokensOnto, ← allTokensOnto_append args, List.cons_append]

lemma allTokensOnto_append : ∀ (es : List Expr) (ts us : List Token),
    allTokensOnto es (ts ++ us) = allTokensOnto es ts ++ us
  | [], _, _ => rfl
  | e :: es, ts, us => by
    simp only [allTokensOnto, ← tokensOnto_append e, ← allTokensOnto_append es]

end

lemma tokensOnto_eq (e : Expr) (ts : List Token) : e.tokensOnto ts = e.tokens ++ ts :=
  tokensOnto_append e [] ts

lemma allTokensOnto_eq (es : List Expr) (ts : List Token) :
    allTokensOnto es ts = es.flatMap tokens ++ ts := by
  induction es with
  | nil => rfl
  | cons e es ih => rw [allTokensOnto, ih, tokensOnto_eq, List.flatMap_cons, List.append_assoc]

lemma tokens_eq (e : Expr) : e.tokens = e.children.flatMap tokens ++ [e.last] := by
  rw [tokens]
  cases e <;> simp [tokensOnto, tokensOnto_eq, allTokensOnto_eq, children, last]

lemma tokens_ne_nil (e : Expr) : e.tokens ≠ [] := by
  rw [tokens_eq]
  simp

/-- The tokens of a tree are those that close its nodes. -/
lemma every_last_iff (q : Token → Prop) {e : Expr} :
    e.Every (fun x => q x.last) ↔ ∀ t ∈ e.tokens, q t := by
  induction e using induct with
  | node e ih =>
    rw [tokens_eq]
    simp only [List.mem_append, List.mem_flatMap, List.mem_singleton]
    constructor
    · rintro ⟨h, hs⟩ t (⟨x, hx, ht⟩ | rfl)
      · exact (ih x hx).mp (hs x hx) t ht
      · exact h
    · intro h
      refine .node (h _ (.inr rfl)) fun x hx => (ih x hx).mpr fun t ht => ?_
      exact h t (.inl ⟨x, hx, ht⟩)

/-! ### Text -/

/-- The texts that a piece is written as; one that is too long to write is missing. -/
def Piece.texts : Piece → List (Option String)
  | .tree e => e.tokens.map Token.display?
  | .closing text => [some text]

lemma Piece.texts_of_text {p : Piece} {text : Option String} (h : p.opened = .text text) :
    p.texts = [text] := by
  cases p with
  | closing t =>
    obtain rfl := Opened.text.inj h
    rfl
  | tree e =>
    cases e <;> simp only [opened, Opened.text.injEq, reduceCtorEq] at h
    all_goals simp [texts, tokens, tokensOnto, Token.display?, h]

lemma Piece.texts_of_pieces {p : Piece} {pieces : List Piece} (h : p.opened = .pieces pieces) :
    p.texts = pieces.flatMap texts := by
  cases p with
  | closing t => cases h
  | tree e =>
    rw [texts, tokens_eq]
    cases e <;> cases h
    · simp [children, last, texts, operator, Token.display?]
    · simp [children, last, texts, operator, Token.display?]
    · simp [children, last, texts, operator, Token.display?]
    · simp [children, last, texts, Token.display?, List.flatMap_map, List.map_flatMap]

/-- The loop writes all pieces behind what is written already, unless one of them is too long. -/
lemma write_eq (out : List String) (pieces : List Piece) : write out pieces =
    ((pieces.flatMap Piece.texts).mapM id).map fun texts =>
      String.intercalate " " (out.reverse ++ texts) := by
  fun_induction write out pieces with
  | case1 out => simp
  | case2 out p rest text h ih =>
    rw [ih, List.flatMap_cons, Piece.texts_of_text h]
    cases hrest : (rest.flatMap Piece.texts).mapM id with
    | none => simp [hrest]
    | some texts => simp [hrest]
  | case3 out p rest h =>
    rw [List.flatMap_cons, Piece.texts_of_text h]
    simp
  | case4 out p rest pieces h ih =>
    rw [ih, List.flatMap_cons, Piece.texts_of_pieces h, List.flatMap_append]

/-- A tree is written as its tokens are displayed, with a space between each two. -/
lemma text?_eq (e : Expr) : e.text? = Token.join? e.tokens := by
  rw [text?, write_eq]
  simp [Token.join?, Piece.texts]

/-! ### What a tree asks of its surroundings -/

/-- A call has as many arguments as its name takes, and no name without arguments takes any. -/
def GroupedBy (arities : Arities) : Expr → Prop
  | .name n => arities n = none
  | .call n args => arities n = some (args.length : Int)
  | _ => True

/-- A reference to an argument has an index below the arity. -/
def IndexBelow (arity : Int) : Expr → Prop
  | .arg i => i < arity
  | _ => True

end Expr

/-- The lookup with zero for every arity below it. -/
def Arities.clamped (arities : Arities) : Arities :=
  fun n => (arities n).map fun k => (k.toNat : Int)

namespace Expr

variable {e : Expr} {arities : Arities}

lemma GroupedBy.clamped (h : e.GroupedBy arities) : e.GroupedBy arities.clamped := by
  cases e with
  | name n =>
    have hn : arities n = none := h
    simp [GroupedBy, Arities.clamped, hn]
  | call n args =>
    have hn : arities n = some (args.length : Int) := h
    simp [GroupedBy, Arities.clamped, hn]
  | _ => trivial

/-- Where the arity of a name is not negative, the lookup without negative arities gives it. -/
lemma groupedBy_of_clamped (h : e.GroupedBy arities.clamped) (hn : arities.Natural e.last) :
    e.GroupedBy arities := by
  cases e with
  | name n => simpa [GroupedBy, Arities.clamped] using h
  | call n args =>
    simp only [GroupedBy, Arities.clamped, Option.map_eq_some_iff] at h
    obtain ⟨k, hk, hlen⟩ := h
    have hk0 := hn n k rfl hk
    have hcast : k = args.length := by omega
    rw [GroupedBy, hk, hcast]
  | _ => trivial

lemma every_groupedBy_of_clamped (h : e.Every (GroupedBy arities.clamped))
    (hn : ∀ t ∈ e.tokens, arities.Natural t) : e.Every (GroupedBy arities) :=
  (h.and ((every_last_iff arities.Natural).mpr hn)).imp fun _ hx => groupedBy_of_clamped hx.1 hx.2

end Expr

namespace Grouping

open ReversePolish.Expr (GroupedBy IndexBelow)

variable {arities : Arities} {arity : Int} {need : Nat} {stack : List Token} {trees : List Expr}
  {e : Expr} {es : List Expr} {runs : List (List Token)}

/-! ### Folding the tokens of a tree -/

lemma addToken_last (hg : e.GroupedBy arities) (hi : e.IndexBelow arity) (trees : List Expr) :
    addToken arities arity (e.children.reverse ++ trees) e.last = .ok (e :: trees) := by
  cases e with
  | arg i =>
    have hi : i < arity := hi
    simp [addToken, Expr.last, Expr.children, hi]
  | name n =>
    have hg : arities n = none := hg
    simp [addToken, Expr.last, Expr.children, hg]
  | call n args =>
    have hg : arities n = some (args.length : Int) := hg
    have hlen : ¬((args.reverse ++ trees).length : Int) < args.length := by
      rw [List.length_append, List.length_reverse]
      omega
    change addToken arities arity (args.reverse ++ trees) (.name n) = .ok (.call n args :: trees)
    simp only [addToken, hg]
    rw [if_neg hlen]
    simp
  | literal v => rfl
  | binary op l r => rfl
  | powMod b e m => rfl
  | select t u p => rfl

/-- Whatever a token makes of trees, it closes one node whose children were on top. -/
lemma eq_last_of_addToken {t : Token} {trees' : List Expr}
    (h : addToken arities arity trees t = .ok trees') :
    ∃ e rest, t = e.last ∧ trees = e.children.reverse ++ rest ∧ trees' = e :: rest ∧
      e.GroupedBy arities.clamped ∧ e.IndexBelow arity := by
  cases t with
  | number v =>
    cases h
    exact ⟨.literal v, trees, rfl, rfl, rfl, trivial, trivial⟩
  | arg i =>
    simp only [addToken] at h
    split at h <;> cases h
    next hi => exact ⟨.arg i, trees, rfl, rfl, rfl, trivial, hi⟩
  | op o =>
    simp only [addToken] at h
    split at h <;> cases h
    · exact ⟨.binary _ _ _, _, rfl, rfl, rfl, trivial, trivial⟩
    · exact ⟨.powMod _ _ _, _, rfl, rfl, rfl, trivial, trivial⟩
    · exact ⟨.select _ _ _, _, rfl, rfl, rfl, trivial, trivial⟩
  | name n =>
    simp only [addToken] at h
    split at h
    · next hn =>
      cases h
      exact ⟨.name n, trees, rfl, rfl, rfl, by simp [GroupedBy, Arities.clamped, hn], trivial⟩
    · next k hn =>
      split at h <;> cases h
      next hk =>
      refine ⟨.call n (trees.take k.toNat).reverse, trees.drop k.toNat, rfl,
        by simp [Expr.children], rfl, ?_, trivial⟩
      -- an arity below zero takes nothing, as if it were zero
      have hlen : (trees.take k.toNat).reverse.length = k.toNat := by simp; omega
      simp [GroupedBy, Arities.clamped, hn, hlen]
  | command c => cases h

/-- The fold takes an arity below zero for zero. -/
lemma addToken_clamped (t : Token) :
    addToken arities.clamped arity trees t = addToken arities arity trees t := by
  cases t with
  | name n =>
    rcases hn : arities n with _ | k
    · simp [addToken, Arities.clamped, hn]
    · by_cases hk : (trees.length : Int) < k
      · have hpos : (k.toNat : Int) = k := by omega
        simp only [addToken, Arities.clamped, hn, Option.map_some, hpos]
      · have hk' : ¬(trees.length : Int) < k.toNat := by omega
        simp only [addToken, Arities.clamped, hn, Option.map_some, if_neg hk, if_neg hk',
          Int.toNat_natCast]
  | _ => rfl

lemma fold_clamped (ts : List Token) :
    fold arities.clamped arity trees ts = fold arities arity trees ts := by
  induction ts generalizing trees with
  | nil => rfl
  | cons t ts ih => simp only [fold, addToken_clamped, ih]

lemma build_clamped (ts : List Token) :
    build arities.clamped arity ts = build arities arity ts := by
  simp only [build, fold_clamped]

lemma fold_flatMap_tokens
    (h : ∀ x ∈ es, ∀ trees more, fold arities arity trees (x.tokens ++ more) =
      fold arities arity (x :: trees) more) (trees : List Expr) (more : List Token) :
    fold arities arity trees (es.flatMap Expr.tokens ++ more) =
      fold arities arity (es.reverse ++ trees) more := by
  induction es generalizing trees with
  | nil => rfl
  | cons x es ih =>
    rw [List.flatMap_cons, List.append_assoc, h x (by simp),
      ih fun y hy => h y (List.mem_cons_of_mem _ hy)]
    simp

/-- The tokens of a tree put it on top of the trees that are there. -/
lemma fold_tokens (h : e.Every fun x => x.GroupedBy arities ∧ x.IndexBelow arity)
    (trees : List Expr) (more : List Token) :
    fold arities arity trees (e.tokens ++ more) = fold arities arity (e :: trees) more := by
  induction h generalizing trees more with
  | @node e h _ ih =>
    rw [Expr.tokens_eq, List.append_assoc, fold_flatMap_tokens ih]
    simp only [List.singleton_append, fold, addToken_last h.1 h.2, bind, Except.bind]

/-- The trees that a fold gives are written with the tokens that it was given. -/
lemma tokens_of_fold {ts : List Token} {trees' : List Expr}
    (h : fold arities arity trees ts = .ok trees')
    (ht : ∀ x ∈ trees, x.Every fun x => x.GroupedBy arities.clamped ∧ x.IndexBelow arity) :
    trees'.reverse.flatMap Expr.tokens = trees.reverse.flatMap Expr.tokens ++ ts ∧
      ∀ x ∈ trees', x.Every fun x => x.GroupedBy arities.clamped ∧ x.IndexBelow arity := by
  induction ts generalizing trees with
  | nil =>
    cases h
    exact ⟨by simp, ht⟩
  | cons t ts ih =>
    obtain ⟨trees₁, hadd, h⟩ := bind_eq_ok h
    obtain ⟨e, rest, rfl, rfl, rfl, hg, hi⟩ := eq_last_of_addToken hadd
    simp only [List.mem_append, List.mem_reverse] at ht
    have hnode : e.Every fun x => x.GroupedBy arities.clamped ∧ x.IndexBelow arity :=
      .node ⟨hg, hi⟩ fun x hx => ht x (.inl hx)
    obtain ⟨htokens, hall⟩ := ih h fun x hx => by
      rcases List.mem_cons.mp hx with rfl | hx
      · exact hnode
      · exact ht x (.inr hx)
    refine ⟨?_, hall⟩
    rw [htokens]
    simp [Expr.tokens_eq e]

/--
**Building is undone by writing**: tokens build a tree iff they are the tree's tokens and the tree
agrees with the arities.
-/
theorem build_eq_ok_iff {run : List Token} : build arities arity run = .ok e ↔
    e.tokens = run ∧ e.Every (GroupedBy arities.clamped) ∧ e.Every (IndexBelow arity) := by
  constructor
  · intro h
    obtain ⟨trees, hf, h⟩ := bind_eq_ok h
    split at h <;> cases h
    obtain ⟨htokens, hall⟩ := tokens_of_fold hf (by simp)
    have he := hall e (by simp)
    exact ⟨by simpa using htokens, he.imp fun _ h => h.1, he.imp fun _ h => h.2⟩
  · rintro ⟨rfl, hg, hi⟩
    have hf := fold_tokens (hg.and hi) [] []
    rw [List.append_nil] at hf
    rw [← build_clamped]
    simp [build, hf, fold, bind, Except.bind]

lemma buildAll_tokens
    (h : ∀ x ∈ es, x.Every (GroupedBy arities.clamped) ∧ x.Every (IndexBelow arity)) :
    buildAll arities arity (es.map Expr.tokens) = .ok es := by
  induction es with
  | nil => rfl
  | cons x es ih =>
    have hx := build_eq_ok_iff.mpr ⟨rfl, h x (by simp)⟩
    have hes := ih fun y hy => h y (List.mem_cons_of_mem _ hy)
    simp [buildAll, hx, hes, bind, Except.bind]

/-! ### Scanning the tokens of a tree -/

lemma operands_last (hg : e.GroupedBy arities) :
    operands arities e.last = .ok (e.children.length : Int) := by
  cases e with
  | name n =>
    have hg : arities n = none := hg
    simp [operands, Expr.last, Expr.children, hg]
  | call n args =>
    have hg : arities n = some (args.length : Int) := hg
    simp [operands, Expr.last, Expr.children, hg]
  | literal v => rfl
  | arg i => rfl
  | binary op l r => rfl
  | powMod b e m => rfl
  | select t u p => rfl

lemma takeRun_flatMap_tokens
    (h : ∀ x ∈ es, ∀ need acc stack, takeRun arities (need + 1) acc (x.tokens.reverse ++ stack) =
      takeRun arities need (x.tokens ++ acc) stack) (need : Nat) (acc stack : List Token) :
    takeRun arities (need + es.length) acc ((es.flatMap Expr.tokens).reverse ++ stack) =
      takeRun arities need (es.flatMap Expr.tokens ++ acc) stack := by
  induction es generalizing need acc stack with
  | nil => rfl
  | cons x es ih =>
    have hes := ih (fun y hy => h y (List.mem_cons_of_mem _ hy)) (need + 1)
    have hneed : need + (x :: es).length = need + 1 + es.length := by simp; omega
    rw [hneed, List.flatMap_cons, List.reverse_append, List.append_assoc, hes, h x (by simp),
      List.append_assoc]

/-- A scan goes through the tokens of a tree as through one expression. -/
lemma takeRun_tokens (h : e.Every (GroupedBy arities)) (need : Nat) (acc stack : List Token) :
    takeRun arities (need + 1) acc (e.tokens.reverse ++ stack) =
      takeRun arities need (e.tokens ++ acc) stack := by
  induction h generalizing need acc stack with
  | @node e h _ ih =>
    rw [Expr.tokens_eq]
    simp only [List.reverse_append, List.reverse_singleton, List.cons_append, List.nil_append,
      takeRun, operands_last h, bind, Except.bind]
    have hneed : ((need : Int) + e.children.length).toNat = need + e.children.length := by omega
    rw [hneed, takeRun_flatMap_tokens ih]
    simp

lemma topRun_tokens (h : e.Every (GroupedBy arities)) (stack : List Token) :
    topRun arities (e.tokens.reverse ++ stack) = .ok (e.tokens, stack) := by
  rw [topRun, takeRun_tokens h, List.append_nil]
  cases stack <;> rfl

lemma takeRuns_tokens (h : ∀ x ∈ es, x.Every (GroupedBy arities)) (stack : List Token) :
    takeRuns arities es.length ((es.flatMap Expr.tokens).reverse ++ stack) =
      .ok ((es.map Expr.tokens).reverse, stack) := by
  induction es using List.reverseRecOn with
  | nil => rfl
  | append_singleton es x ih =>
    have htop := topRun_tokens (h x (by simp)) ((es.flatMap Expr.tokens).reverse ++ stack)
    obtain ⟨t, ts, ht⟩ := List.exists_cons_of_ne_nil
      (List.reverse_ne_nil_iff.mpr x.tokens_ne_nil)
    have hes := ih fun y hy => h y (List.mem_append_left _ hy)
    simp only [List.flatMap_append, List.flatMap_singleton, List.reverse_append, List.length_append,
      List.length_singleton, List.append_assoc, List.map_append, List.map_singleton]
    rw [ht] at htop ⊢
    simp only [List.cons_append, takeRuns, bind, Except.bind] at htop ⊢
    simp [htop, hes]

/-! ### Complete expressions -/

/-- Tokens that form one complete expression. -/
def Complete (arities : Arities) (run : List Token) : Prop :=
  ∃ x : Expr, x.tokens = run ∧ x.Every (GroupedBy arities)

lemma Complete.topRun {run : List Token} (h : Complete arities run) (base : List Token) :
    topRun arities (run.reverse ++ base) = .ok (run, base) := by
  obtain ⟨x, rfl, hx⟩ := h
  exact topRun_tokens hx base

lemma exists_trees_of_complete (h : ∀ part ∈ runs, Complete arities part) :
    ∃ es : List Expr, es.map Expr.tokens = runs ∧ ∀ x ∈ es, x.Every (GroupedBy arities) := by
  induction runs with
  | nil => exact ⟨[], rfl, by simp⟩
  | cons part runs ih =>
    obtain ⟨x, hx, hgrouped⟩ := h part (by simp)
    obtain ⟨es, rfl, hes⟩ := ih fun y hy => h y (List.mem_cons_of_mem _ hy)
    exact ⟨x :: es, by simp [hx], by simpa using ⟨hgrouped, hes⟩⟩

lemma splitTop_complete (h : ∀ part ∈ runs, Complete arities part) (base : List Token) :
    splitTop arities runs.length (runs.flatten.reverse ++ base) = .ok (runs.reverse, base) := by
  obtain ⟨es, rfl, hgrouped⟩ := exists_trees_of_complete h
  have hruns := takeRuns_tokens hgrouped base
  rw [List.flatMap_def] at hruns
  simp [splitTop, hruns, bind, Except.bind]

end Grouping

end ReversePolish
