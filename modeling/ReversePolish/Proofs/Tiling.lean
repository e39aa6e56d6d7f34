import ReversePolish.Proofs.Extent
import ReversePolish.Proofs.Halting

/-!
How a stack falls into expressions.

Splitting scans for one expression after the other, from the top down. The fold goes through all
tokens once, from the bottom up. Both see the same expressions: the tokens split if the fold never
runs short of operands, and then the spans lie side by side, from the first token to the last, and
the tree of each is the tree that the fold leaves in its place. To split off a given number is to
stop early.

Arities below zero spoil this in one direction only. The scan may then stop too early, so that it
finds more expressions than the fold leaves, and some that are none.
-/

namespace ReversePolish

open ReversePolish.Expr (GroupedBy IndexBelow)

namespace Grouping

variable {arities : Arities} {arity : Int} {need count more : Nat}
  {acc stack run below rest rest' tokens : List Token} {runs longer : List (List Token)}
  {trees : List Expr} {error : Error}

/-! ### Taking fewer and more -/

lemma takeRuns_eq_take (h : takeRuns arities count stack = .ok (runs, rest))
    (h' : takeRuns arities more stack = .ok (longer, rest')) (hle : count ≤ more) :
    runs = longer.take count := by
  induction count generalizing stack more runs longer with
  | zero =>
    cases h
    simp
  | succ count ih =>
    obtain ⟨more, rfl⟩ : ∃ m, more = m + 1 := ⟨more - 1, by omega⟩
    cases stack with
    | nil =>
      cases h
      cases h'
      simp
    | cons t stack =>
      obtain ⟨run, below, runs, htop, hrest, rfl⟩ := takeRuns_succ_eq_ok h
      obtain ⟨run', below', longer, htop', hrest', rfl⟩ := takeRuns_succ_eq_ok h'
      rw [htop] at htop'
      cases htop'
      rw [List.take_succ_cons, ih hrest hrest' (by omega)]

/-- When nothing is left there is nothing more to take. -/
lemma takeRuns_of_le (h : takeRuns arities count stack = .ok (runs, [])) (hle : count ≤ more) :
    takeRuns arities more stack = .ok (runs, []) := by
  induction count generalizing stack more runs with
  | zero =>
    cases h
    cases more <;> rfl
  | succ count ih =>
    obtain ⟨more, rfl⟩ : ∃ m, more = m + 1 := ⟨more - 1, by omega⟩
    cases stack with
    | nil =>
      cases h
      rfl
    | cons t stack =>
      obtain ⟨run, below, runs, htop, hrest, rfl⟩ := takeRuns_succ_eq_ok h
      have hmore := ih hrest (show count ≤ more by omega)
      simp only [takeRuns, htop, hmore, bind, Except.bind]

/-- If a stack cannot be taken apart, then somewhere down it an expression cannot be taken. -/
lemma takeRuns_eq_error (h : takeRuns arities count stack = .error error) :
    ∃ below, (∀ t ∈ below, t ∈ stack) ∧ topRun arities below = .error error := by
  induction count generalizing stack with
  | zero => cases h
  | succ count ih =>
    cases stack with
    | nil => cases h
    | cons t stack =>
      rcases bind_eq_error h with htop | ⟨⟨run, below⟩, htop, h⟩
      · exact ⟨t :: stack, fun _ hu => hu, htop⟩
      · rcases bind_eq_error h with hrest | ⟨_, -, h⟩
        · obtain ⟨lower, hlower, herror⟩ := ih hrest
          exact ⟨lower, fun u hu => mem_of_below htop (hlower u hu), herror⟩
        · cases h

/-! ### Arities below zero -/

/-- On a stack without arities below zero the scan finds what it finds with natural arities. -/
lemma topRun_eq_ok_iff (hnatural : ∀ t ∈ stack, arities.Natural t) :
    topRun arities stack = .ok (run, below) ↔ topRun arities.clamped stack = .ok (run, below) := by
  have hclamped : ∀ run below, topRun arities stack = .ok (run, below) →
      topRun arities.clamped stack = .ok (run, below) := fun run below h =>
    takeRun_clamped h fun t ht => hnatural t (mem_of_topRun h ht)
  refine ⟨hclamped run below, fun h => ?_⟩
  obtain ⟨⟨run', below'⟩, h'⟩ : ∃ result, topRun arities stack = .ok result :=
    takeRun_of_clamped h le_rfl []
  rw [hclamped run' below' h'] at h
  rw [h', h]

lemma takeRuns_eq_ok_iff (hnatural : ∀ t ∈ stack, arities.Natural t) :
    takeRuns arities count stack = .ok (runs, rest) ↔
      takeRuns arities.clamped count stack = .ok (runs, rest) := by
  induction count generalizing stack runs with
  | zero => exact Iff.rfl
  | succ count ih =>
    cases stack with
    | nil => exact Iff.rfl
    | cons t stack =>
      constructor
      · intro h
        obtain ⟨run, below, runs, htop, hrest, rfl⟩ := takeRuns_succ_eq_ok h
        have hrest' := (ih fun u hu => hnatural u (mem_of_below htop hu)).mp hrest
        simp only [takeRuns, (topRun_eq_ok_iff hnatural).mp htop, hrest', bind, Except.bind]
      · intro h
        obtain ⟨run, below, runs, htop, hrest, rfl⟩ := takeRuns_succ_eq_ok h
        have hrest' := (ih fun u hu => hnatural u (mem_of_below htop hu)).mpr hrest
        simp only [takeRuns, (topRun_eq_ok_iff hnatural).mpr htop, hrest', bind, Except.bind]

lemma complete_of_takeRuns (h : takeRuns arities count stack = .ok (runs, rest))
    (hnatural : ∀ t ∈ stack, arities.Natural t) : ∀ run ∈ runs, Complete arities.clamped run := by
  induction count generalizing stack runs with
  | zero =>
    cases h
    simp
  | succ count ih =>
    cases stack with
    | nil =>
      cases h
      simp
    | cons t stack =>
      obtain ⟨run, below, runs, htop, hrest, rfl⟩ := takeRuns_succ_eq_ok h
      have hrun := complete_of_topRun htop fun u hu => hnatural u (mem_of_topRun htop hu)
      have hruns := ih hrest fun u hu => hnatural u (mem_of_below htop hu)
      simpa using ⟨hrun, hruns⟩

/-! ### Spans -/

/--
Spans that cover the places from `first` up to `stop` without gap or overlap; none of them is empty.
-/
inductive Tiles : (first stop : Nat) → List (Nat × Nat) → Prop
  | nil {i : Nat} : Tiles i i []
  | cons {i j k : Nat} {spans : List (Nat × Nat)} (h : i < j) (hs : Tiles j k spans) :
    Tiles i k ((i, j) :: spans)

lemma Tiles.append {i j k : Nat} {spans more : List (Nat × Nat)} (h : Tiles i j spans)
    (h' : Tiles j k more) : Tiles i k (spans ++ more) := by
  induction h with
  | nil => exact h'
  | cons hlt _ ih => exact .cons hlt (ih h')

lemma tiles_spans {stop : Nat} (hne : ∀ run ∈ runs, run ≠ []) (hle : runs.flatten.length ≤ stop) :
    Tiles (stop - runs.flatten.length) stop (spans stop runs).reverse := by
  induction runs generalizing stop with
  | nil => exact .nil
  | cons run runs ih =>
    have hpos : 0 < run.length := List.length_pos_of_ne_nil (hne run (by simp))
    simp only [List.flatten_cons, List.length_append] at hle ⊢
    have hbelow := ih (fun r hr => hne r (List.mem_cons_of_mem _ hr))
      (show runs.flatten.length ≤ stop - run.length by omega)
    have hfirst : stop - (run.length + runs.flatten.length) =
        stop - run.length - runs.flatten.length := by omega
    rw [spans, List.reverse_cons, hfirst]
    exact hbelow.append (.cons (by omega) .nil)

lemma spans_take (stop n : Nat) (runs : List (List Token)) :
    spans stop (runs.take n) = (spans stop runs).take n := by
  induction runs generalizing stop n with
  | nil => simp [spans]
  | cons run runs ih =>
    cases n with
    | zero => rfl
    | succ n => simp only [List.take_succ_cons, spans, ih]

/-- The tokens of a span are those of its run, also if there are others below and above. -/
lemma slice_spans (base above : List Token) (runs : List (List Token)) :
    (spans (base ++ runs.reverse.flatten).length runs).map
      (fun s => Index.slice (base ++ runs.reverse.flatten ++ above) s.1 s.2) = runs := by
  induction runs generalizing above with
  | nil => rfl
  | cons run runs ih =>
    have htokens : base ++ (run :: runs).reverse.flatten = base ++ runs.reverse.flatten ++ run := by
      simp
    have hfirst : (base ++ runs.reverse.flatten ++ run).length - run.length =
        (base ++ runs.reverse.flatten).length := by
      rw [List.length_append]
      omega
    have hrun := Index.slice_append (base ++ runs.reverse.flatten) run above
    rw [htokens, spans, hfirst, List.map_cons, List.append_assoc _ run above, ih (run ++ above)]
    exact congrArg (· :: runs) hrun

/-! ### The fold -/

/-- Tokens run short of operands; an arity that is too long to write is not reported. -/
def Short (arities : Arities) (tokens : List Token) (error : Error) : Prop :=
  (∃ s, error = .shortage s) ∨ error = .unwritable ∧
    ∃ n k, .name n ∈ tokens ∧ arities n = some k ∧ Decimal.fits k.natAbs = false

/-- All that can be wrong with tokens other than commands and missing arguments is a shortage. -/
lemma short_of_addToken {t : Token} (hc : ∀ c, t ≠ .command c) (harg : ∀ i, t = .arg i → i < arity)
    (h : addToken arities arity trees t = .error error) : Short arities [t] error := by
  cases t with
  | number v => cases h
  | arg i =>
    simp only [addToken, if_pos (harg i rfl)] at h
    cases h
  | op o =>
    simp only [addToken] at h
    split at h <;> cases h
    exact .inl ⟨_, rfl⟩
  | name n =>
    simp only [addToken] at h
    split at h
    · cases h
    · next k hk =>
      split at h
      · -- the message names the arity, which may be too long to write
        have herror := (Except.error.inj h).symm
        rcases hfits : Decimal.fits k.natAbs with _ | _
        · rw [Machine.naming_of_not_fits hfits] at herror
          exact .inr ⟨herror, n, k, by simp, hk, hfits⟩
        · rw [Machine.naming_of_fits hfits] at herror
          exact .inl ⟨_, herror⟩
      · cases h
  | command c => exact absurd rfl (hc c)

lemma Short.mono {more : List Token} (h : Short arities tokens error)
    (hle : ∀ t ∈ tokens, t ∈ more) : Short arities more error := by
  rcases h with h | ⟨herror, n, k, hn, hk, hfits⟩
  · exact .inl h
  · exact .inr ⟨herror, n, k, hle _ hn, hk, hfits⟩

lemma short_of_fold (hc : ∀ c, .command c ∉ tokens) (harg : ∀ i, .arg i ∈ tokens → i < arity)
    (h : fold arities arity trees tokens = .error error) : Short arities tokens error := by
  induction tokens generalizing trees with
  | nil => cases h
  | cons t tokens ih =>
    rcases bind_eq_error h with hadd | ⟨trees', -, h⟩
    · have hshort := short_of_addToken (fun c hct => hc c (by simp [hct]))
        (fun i hi => harg i (by simp [hi])) hadd
      exact hshort.mono (by simp)
    · have hshort := ih (fun c hct => hc c (List.mem_cons_of_mem _ hct))
        (fun i hi => harg i (List.mem_cons_of_mem _ hi)) h
      exact hshort.mono fun u hu => List.mem_cons_of_mem _ hu

/-- Tokens that the fold gets through end in a complete expression. -/
lemma exists_topRun_of_fold (h : fold arities arity [] stack.reverse = .ok trees)
    (hne : stack ≠ []) : ∃ run below, topRun arities.clamped stack = .ok (run, below) := by
  obtain ⟨htokens, hall⟩ := tokens_of_fold h (by simp)
  cases trees with
  | nil => exact absurd (by simpa using htokens) hne
  | cons e trees =>
    have hstack : stack = e.tokens.reverse ++ (trees.reverse.flatMap Expr.tokens).reverse := by
      rw [← List.reverse_append, ← List.reverse_eq_iff, ← htokens.trans (List.nil_append _)]
      simp
    rw [hstack]
    exact ⟨_, _, topRun_tokens ((hall e (by simp)).imp fun _ hx => hx.1) _⟩

/-- Complete expressions side by side are folded to their trees, and each is built to its own. -/
lemma exists_fold_flatten (hcomplete : ∀ run ∈ runs, Complete arities.clamped run)
    (harg : ∀ i, .arg i ∈ runs.flatten → i < arity) : ∃ es,
      fold arities arity [] runs.flatten = .ok es.reverse ∧
        buildAll arities arity runs = .ok es := by
  obtain ⟨es, rfl, hgrouped⟩ := exists_trees_of_complete hcomplete
  have hindex : ∀ x ∈ es, x.Every (IndexBelow arity) := by
    intro x hx
    refine every_indexBelow_iff.mpr fun i hi => harg i ?_
    exact List.mem_flatten.mpr ⟨x.tokens, List.mem_map_of_mem hx, hi⟩
  refine ⟨es, ?_, buildAll_tokens fun x hx => ⟨hgrouped x hx, hindex x hx⟩⟩
  have hfold := fold_flatMap_tokens
    (fun x hx => fold_tokens ((hgrouped x hx).and (hindex x hx))) [] []
  rw [List.append_nil, List.append_nil, List.flatMap_def] at hfold
  rw [← fold_clamped, hfold]
  rfl

/-! ### Splitting -/

/-- A scan that meets no command fails only if it runs out of tokens. -/
lemma takeRun_eq_error (hc : ∀ c, .command c ∉ stack)
    (h : takeRun arities need acc stack = .error error) : error = .shortage .incomplete := by
  induction stack generalizing need acc with
  | nil =>
    cases need with
    | zero => cases h
    | succ need =>
      cases h
      rfl
  | cons t stack ih =>
    cases need with
    | zero => cases h
    | succ need =>
      rcases operands_cases arities t with ⟨c, rfl⟩ | ⟨j, k, hj, -, -, -⟩
      · exact absurd (by simp) (hc c)
      · rcases bind_eq_error h with hj' | ⟨j', -, h⟩
        · rw [hj] at hj'
          cases hj'
        · exact ih (fun c hct => hc c (List.mem_cons_of_mem _ hct)) h

/--
Tokens that the fold gets through are taken apart, whatever the arities: after each expression that
is taken, the fold still gets through what is left.
-/
lemma exists_takeRuns_of_fold (h : fold arities arity [] stack.reverse = .ok trees) (count : Nat) :
    ∃ result, takeRuns arities count stack = .ok result := by
  induction count generalizing stack trees with
  | zero => exact ⟨_, rfl⟩
  | succ count ih =>
    cases stack with
    | nil => exact ⟨_, rfl⟩
    | cons t stack =>
      obtain ⟨run', below', hclamped⟩ := exists_topRun_of_fold h (by simp)
      obtain ⟨⟨run, below⟩, htop⟩ : ∃ result, topRun arities (t :: stack) = .ok result :=
        takeRun_of_clamped hclamped le_rfl []
      rw [topRun_eq_ok htop, List.reverse_append, fold_append] at h
      obtain ⟨trees', hbelow, -⟩ := bind_eq_ok h
      obtain ⟨⟨runs, rest⟩, hrest⟩ := ih hbelow
      exact ⟨(run :: runs, rest), by simp only [takeRuns, htop, hrest, bind, Except.bind]⟩

lemma exists_split_of_fold (h : fold arities arity [] tokens = .ok trees) :
    ∃ runs, split arities none tokens.reverse = .ok runs := by
  rw [← List.reverse_reverse tokens] at h
  obtain ⟨⟨runs, rest⟩, hruns⟩ := exists_takeRuns_of_fold h tokens.reverse.length
  exact ⟨runs, by simp only [split, splitAll, hruns, bind, Except.bind]⟩

lemma split_some_eq_ok_iff {count : Int} : split arities (some count) stack = .ok runs ↔
    runs.length = count.toNat ∧
      ∃ rest, takeRuns arities count.toNat stack = .ok (runs, rest) := by
  constructor
  · intro h
    obtain ⟨⟨runs', rest⟩, hsplit, h⟩ := bind_eq_ok h
    cases h
    obtain ⟨hruns, hlen⟩ := splitTop_eq_ok_iff.mp hsplit
    exact ⟨hlen, rest, hruns⟩
  · rintro ⟨hlen, rest, hruns⟩
    have hsplit := splitTop_eq_ok_iff.mpr ⟨hruns, hlen⟩
    simp only [split, hsplit, bind, Except.bind]

/-- Splitting off some expressions gives the first of those that a longer split gives. -/
lemma split_some_eq_take {count : Int} {more : Option Int}
    (h : split arities (some count) stack = .ok runs) (hmore : ∀ n ∈ more, count ≤ n)
    (h' : split arities more stack = .ok longer) : runs = longer.take count.toNat := by
  obtain ⟨-, rest, hruns⟩ := split_some_eq_ok_iff.mp h
  cases more with
  | none =>
    have hall := takeRuns_of_le (splitAll_eq_ok h') (Nat.le_max_right count.toNat stack.length)
    exact takeRuns_eq_take hruns hall (Nat.le_max_left _ _)
  | some n =>
    obtain ⟨-, rest', hlonger⟩ := split_some_eq_ok_iff.mp h'
    have hle : count ≤ n := hmore n rfl
    exact takeRuns_eq_take hruns hlonger (by omega)

lemma split_some_eq_error {count : Int} (hc : ∀ c, .command c ∉ stack)
    (h : split arities (some count) stack = .error error) :
    (∃ s, error = .shortage s) ∨ error = .unwritable ∧ Decimal.fits count.toNat = false := by
  rcases bind_eq_error h with hsplit | ⟨_, -, h⟩
  · rcases bind_eq_error hsplit with hruns | ⟨⟨runs, rest⟩, -, hshort⟩
    · obtain ⟨below, hbelow, htop⟩ := takeRuns_eq_error hruns
      exact .inl ⟨.incomplete, takeRun_eq_error (fun c hct => hc c (hbelow _ hct)) htop⟩
    · dsimp only at hshort
      split at hshort
      · have herror := (Except.error.inj hshort).symm
        rcases hfits : Decimal.fits count.toNat with _ | _
        · rw [Machine.naming_of_not_fits (by rwa [Int.natAbs_natCast])] at herror
          exact .inr ⟨herror, rfl⟩
        · rw [Machine.naming_of_fits (by rwa [Int.natAbs_natCast])] at herror
          exact .inl ⟨_, herror⟩
      · cases hshort
  · cases h

lemma tiles_of_split (h : split arities none tokens.reverse = .ok runs) :
    Tiles 0 tokens.length (spans tokens.length runs).reverse := by
  have hall := splitAll_eq_ok h
  have hlength : runs.flatten.length = tokens.length := by
    rw [tokens_of_takeRuns hall]
    simp
  have htiles := tiles_spans (takeRuns_eq_ok hall).2 (le_of_eq hlength)
  rwa [hlength, Nat.sub_self] at htiles

/-- The trees of a whole split are those that the fold leaves, from the bottom to the top. -/
lemma exists_fold_of_split (hnatural : ∀ t ∈ tokens, arities.Natural t)
    (harg : ∀ i, .arg i ∈ tokens → i < arity) (h : split arities none tokens.reverse = .ok runs) :
    ∃ es, fold arities arity [] tokens = .ok es.reverse ∧
      buildAll arities arity ((spans tokens.length runs).reverse.map
        fun s => Index.slice tokens s.1 s.2) = .ok es := by
  have hall := splitAll_eq_ok h
  have hcomplete := complete_of_takeRuns hall fun t ht => hnatural t (List.mem_reverse.mp ht)
  obtain rfl : tokens = runs.reverse.flatten := tokens_of_takeRuns hall
  obtain ⟨es, hfold, hbuild⟩ := exists_fold_flatten
    (fun run hrun => hcomplete run (List.mem_reverse.mp hrun)) harg
  have hslices := slice_spans [] [] runs
  rw [List.nil_append, List.append_nil] at hslices
  exact ⟨es, hfold, by rw [List.map_reverse, hslices, hbuild]⟩

lemma split_some_eq_ok_iff_build (hnatural : ∀ t ∈ tokens, arities.Natural t)
    (harg : ∀ i, .arg i ∈ tokens → i < arity) (count : Int) (runs : List (List Token)) :
    split arities (some count) tokens.reverse = .ok runs ↔
      runs.length = count.toNat ∧ (∃ base, tokens = base ++ runs.reverse.flatten) ∧
        ∀ run ∈ runs, ∃ e, build arities arity run = .ok e := by
  have hstack : ∀ t ∈ tokens.reverse, arities.Natural t := fun t ht =>
    hnatural t (List.mem_reverse.mp ht)
  rw [split_some_eq_ok_iff]
  constructor
  · rintro ⟨hlen, rest, hruns⟩
    have hcomplete := complete_of_takeRuns hruns hstack
    have htokens := tokens_of_takeRuns hruns
    refine ⟨hlen, ⟨rest.reverse, htokens⟩, fun run hrun => ?_⟩
    refine (hcomplete run hrun).build_eq_ok_iff.mpr fun i hi => harg i ?_
    rw [htokens]
    exact List.mem_append_right _ (List.mem_flatten.mpr ⟨run, List.mem_reverse.mpr hrun, hi⟩)
  · -- what can be built is complete, and complete runs are what is split off
    rintro ⟨hlen, ⟨base, rfl⟩, hbuild⟩
    have hcomplete : ∀ run ∈ runs.reverse, Complete arities.clamped run := by
      intro run hrun
      obtain ⟨e, he⟩ := hbuild run (List.mem_reverse.mp hrun)
      exact complete_of_build he
    have hruns := (splitTop_eq_ok_iff.mp (splitTop_complete hcomplete base.reverse)).1
    rw [← List.reverse_append, List.length_reverse, hlen, List.reverse_reverse] at hruns
    exact ⟨hlen, base.reverse, (takeRuns_eq_ok_iff hstack).mpr hruns⟩

/-- What splitting does whatever the arities. -/
structure Splitting (arities : Arities) (arity : Int) (tokens : List Token) : Prop where
  /-- Tokens that the fold gets through split. -/
  splits : (∃ trees, fold arities arity [] tokens = .ok trees) →
    ∃ runs, split arities none tokens.reverse = .ok runs
  /-- The fold fails for want of operands only. -/
  short : ∀ error, fold arities arity [] tokens = .error error → Short arities tokens error
  /-- The spans lie side by side from the first token to the last. -/
  tiles : ∀ runs, split arities none tokens.reverse = .ok runs →
    Tiles 0 tokens.length (spans tokens.length runs).reverse
  /-- A split of a given length is the beginning of every longer one. -/
  first : ∀ count runs, split arities (some count) tokens.reverse = .ok runs →
    runs.length = count.toNat ∧
    ∀ more longer, (∀ n ∈ more, count ≤ n) → split arities more tokens.reverse = .ok longer →
      spans tokens.length runs = (spans tokens.length longer).take count.toNat
  /-- It fails only for a shortage, unless the number that was asked for is too long to write. -/
  fails : ∀ count error, split arities (some count) tokens.reverse = .error error →
    (∃ s, error = .shortage s) ∨ error = .unwritable ∧ Decimal.fits count.toNat = false

/-- What splitting does if no arity is below zero. -/
structure NaturalSplitting (arities : Arities) (arity : Int) (tokens : List Token) : Prop where
  /-- Tokens split iff the fold gets through them. -/
  splits_iff : (∃ runs, split arities none tokens.reverse = .ok runs) ↔
    ∃ trees, fold arities arity [] tokens = .ok trees
  /-- The trees of the spans are those that the fold leaves. -/
  trees : ∀ runs, split arities none tokens.reverse = .ok runs →
    ∃ es, fold arities arity [] tokens = .ok es.reverse ∧
      buildAll arities arity ((spans tokens.length runs).reverse.map
        fun s => Index.slice tokens s.1 s.2) = .ok es
  /-- A given number of runs is split off iff they stand on top and each can be built. -/
  count_iff : ∀ count runs, split arities (some count) tokens.reverse = .ok runs ↔
    runs.length = count.toNat ∧ (∃ base, tokens = base ++ runs.reverse.flatten) ∧
      ∀ run ∈ runs, ∃ e, build arities arity run = .ok e

/--
**Splitting agrees with the fold.** Tokens that the fold gets through split, and if no arity is
below zero then only such tokens do, and the expressions are the trees that the fold leaves.
-/
theorem split_agrees_with_fold (arities : Arities) (arity : Int) (tokens : List Token)
    (hcommand : ∀ c, .command c ∉ tokens) (harg : ∀ i, .arg i ∈ tokens → i < arity) :
    Splitting arities arity tokens ∧
      ((∀ t ∈ tokens, arities.Natural t) → NaturalSplitting arities arity tokens) := by
  constructor
  · refine ⟨fun ⟨trees, hf⟩ => exists_split_of_fold hf, fun error => short_of_fold hcommand harg,
      fun runs => tiles_of_split, fun count runs h => ?_, fun count error h => ?_⟩
    · refine ⟨(split_some_eq_ok_iff.mp h).1, fun more longer hmore h' => ?_⟩
      rw [split_some_eq_take h hmore h', spans_take]
    · exact split_some_eq_error (fun c hct => hcommand c (List.mem_reverse.mp hct)) h
  · intro hnatural
    refine ⟨⟨fun ⟨runs, h⟩ => ?_, fun ⟨trees, hf⟩ => exists_split_of_fold hf⟩,
      fun runs => exists_fold_of_split hnatural harg, split_some_eq_ok_iff_build hnatural harg⟩
    obtain ⟨es, hfold, -⟩ := exists_fold_of_split hnatural harg h
    exact ⟨_, hfold⟩

def sideBySide : List Token := [.arg 7, .arg 3, .arg 5, .name "pair", .number 1]

/-- Three spans, three trees in the same order, of which two are split off the top. -/
theorem sideBySide_split_agrees_with_fold :
    ((∀ c, .command c ∉ sideBySide) ∧ (∀ i, .arg i ∈ sideBySide → i < 8) ∧
      ∀ t ∈ sideBySide, pairing.Natural t) ∧
    (split pairing none sideBySide.reverse =
        .ok [[.number 1], [.arg 3, .arg 5, .name "pair"], [.arg 7]] ∧
      Tiles 0 5 [(0, 1), (1, 4), (4, 5)] ∧
      ∃ es, fold pairing 8 [] sideBySide = .ok es.reverse ∧
        buildAll pairing 8 ([((0 : Nat), (1 : Nat)), (1, 4), (4, 5)].map
          fun s => Index.slice sideBySide s.1 s.2) = .ok es) ∧
    ∃ runs, split pairing (some 2) sideBySide.reverse = .ok runs ∧
      spans 5 runs = [(4, 5), (1, 4)] ∧ ∀ run ∈ runs, ∃ e, build pairing 8 run = .ok e := by
  have hcommand : ∀ c, .command c ∉ sideBySide := by simp [sideBySide]
  have harg : ∀ i, .arg i ∈ sideBySide → i < 8 := by
    intro i hi
    simp only [sideBySide, List.mem_cons, Token.arg.injEq, reduceCtorEq, List.not_mem_nil,
      or_false] at hi
    omega
  have hnatural : ∀ t ∈ sideBySide, pairing.Natural t := by
    rintro t ht n a rfl ha
    obtain rfl : n = "pair" := by simpa [sideBySide] using ht
    cases ha
    decide
  obtain ⟨hany, hnat⟩ := split_agrees_with_fold pairing 8 sideBySide hcommand harg
  have hsplit : split pairing none sideBySide.reverse =
      .ok [[.number 1], [.arg 3, .arg 5, .name "pair"], [.arg 7]] := by decide
  have htwo : split pairing (some 2) sideBySide.reverse =
      .ok [[.number 1], [.arg 3, .arg 5, .name "pair"]] := by decide
  exact ⟨⟨hcommand, harg, hnatural⟩,
    ⟨hsplit, hany.tiles _ hsplit, (hnat hnatural).trees _ hsplit⟩, _, htwo,
    (hany.first 2 _ htwo).2 none _ (by simp) hsplit, (((hnat hnatural).count_iff 2 _).mp htwo).2.2⟩

lemma split_some_nil (hpos : 0 < count) (hfits : Decimal.fits count = false) :
    split arities (some count) [] = .error .unwritable := by
  obtain ⟨n, rfl⟩ : ∃ n, count = n + 1 := ⟨count - 1, by omega⟩
  have hruns : takeRuns arities (n + 1) [] = .ok ([], []) := rfl
  have herror : ∀ error, Error.naming ((n + 1 : Nat) : Int) error = .unwritable := fun error =>
    Machine.naming_of_not_fits ((congrArg Decimal.fits (Int.natAbs_natCast _)).trans hfits)
  simp only [split, splitTop, Int.toNat_natCast, hruns, bind, Except.bind, List.length_nil,
    if_pos hpos, herror]

/--
Where a name takes less than no arguments, more spans are found than the fold leaves trees, and one
of them has no tree. A number of expressions that is too long to write is not reported as missing.
-/
theorem split_misled_by_negative_arity :
    Token.ofSource "1 debt +" = .ok [.number 1, .name "debt", .op (.binary .add)] ∧
    split pairing none [.op (.binary .add), .name "debt", .number 1] =
      .ok [[.name "debt", .op (.binary .add)], [.number 1]] ∧
    fold pairing 0 [] [.number 1, .name "debt", .op (.binary .add)] =
      .ok [.binary .add (.literal 1) (.call "debt" [])] ∧
    build pairing 0 [.name "debt", .op (.binary .add)] =
      .error (.shortage (.operands (.binary .add) 1)) ∧
    split pairing (some Decimal.bound) [] = .error .unwritable := by
  have hpos : 0 < Decimal.bound := by decide +kernel
  have hfits : Decimal.fits Decimal.bound = false := decide_eq_false (Nat.lt_irrefl _)
  exact ⟨by decide +kernel, by decide, rfl, rfl, split_some_nil hpos hfits⟩

end Grouping

end ReversePolish
