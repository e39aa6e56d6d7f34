import ReversePolish.Grouping
import ReversePolish.Lexeme
import ReversePolish.Proofs.Postfix

/-!
Where an expression begins.

The scan from the end of tokens counts the expressions that are still missing, and the fold from
the front keeps the trees that are there. They agree on what one expression is: where the scan
stops, the fold makes one tree, and it makes one of no other tokens with the same end. The only
thing that the scan does not see is whether the arguments exist.

Arities below zero are different. The scan lets them make up for an expression that is missing, and
the fold takes them for zero, so the scan may stop too early, but never too late.
-/

namespace ReversePolish

open ReversePolish.Expr (GroupedBy IndexBelow)

/-! ### Parts of lists -/

namespace Index

/-- The place at which an index cuts a list; a negative one counts from the end. -/
def cut (length : Nat) (i : Int) : Nat := if i < 0 then (i + length).toNat else i.toNat

def slice {α : Type} (xs : List α) (first stop : Int) : List α :=
  (xs.take (cut xs.length stop)).drop (cut xs.length first)

variable {length last : Nat} {stop : Int}

lemma cut_natCast (length i : Nat) : cut length i = i := by
  rw [cut, if_neg (by omega), Int.toNat_natCast]

lemma slice_append {α : Type} (below run above : List α) :
    slice (below ++ (run ++ above)) below.length (below ++ run).length = run := by
  rw [slice, cut_natCast, cut_natCast, ← List.append_assoc, List.take_left, List.drop_left]

lemma position_of_lt {i : Int} (hi : 0 ≤ i) (hlt : i < length)
    (hle : (length : Int) ≤ bound) : position length i = .ok i.toNat := by
  have hnarrow : ¬(i < -bound ∨ bound ≤ i) := by
    have hbound : 0 ≤ bound := by decide
    omega
  simp [position, hnarrow, Int.not_lt.mpr hi, hi, hlt]

lemma cut_of_position (h : position length (stop - 1) = .ok last) (hs : stop ≠ 0) :
    cut length stop = last + 1 ∧ last < length := by
  unfold position at h
  dsimp only at h
  generalize hplace : (if stop - 1 < 0 then stop - 1 + length else stop - 1) = place at h
  by_cases hbound : (decide (stop - 1 < -bound) || decide (bound ≤ stop - 1)) = true
  · rw [if_pos hbound] at h
    cases h
  · rw [if_neg hbound] at h
    by_cases hin : (decide (0 ≤ place) && decide (place < length)) = true
    · rw [if_pos hin] at h
      cases h
      simp only [Bool.and_eq_true, decide_eq_true_eq] at hin
      unfold cut
      split at hplace <;> split <;> omega
    · rw [if_neg hin] at h
      cases h

end Index

namespace Grouping

variable {arities : Arities} {arity arity' : Int} {run stack below : List Token}
  {trees : List Expr}

/-! ### Arguments -/

lemma every_indexBelow_iff {e : Expr} :
    e.Every (IndexBelow arity) ↔ ∀ i, .arg i ∈ e.tokens → i < arity := by
  have hlast : ∀ x : Expr, x.IndexBelow arity ↔ ∀ i, x.last = .arg i → i < arity := by
    intro x
    cases x <;> simp [IndexBelow, Expr.last]
  have htokens := Expr.every_last_iff (e := e) fun t => ∀ i, t = .arg i → i < arity
  constructor
  · intro h i hi
    exact htokens.mp (h.imp fun x hx => (hlast x).mp hx) _ hi i rfl
  · intro h
    refine (htokens.mpr fun t ht i hti => h i (hti ▸ ht)).imp fun x hx => (hlast x).mpr hx

lemma exists_above (ts : List Token) : ∃ arity : Int, ∀ i, .arg i ∈ ts → i < arity := by
  induction ts with
  | nil => exact ⟨0, by simp⟩
  | cons t ts ih =>
    obtain ⟨arity, h⟩ := ih
    cases t with
    | arg j =>
      refine ⟨max arity (j + 1), fun i hi => ?_⟩
      rcases List.mem_cons.mp hi with hij | hi
      · cases hij
        omega
      · have := h i hi
        omega
    | _ => exact ⟨arity, fun i hi => h i (by simpa using hi)⟩

/-- The arity matters only for the arguments that tokens refer to. -/
lemma fold_congr (h : ∀ i, .arg i ∈ run → i < arity) (h' : ∀ i, .arg i ∈ run → i < arity') :
    fold arities arity trees run = fold arities arity' trees run := by
  induction run generalizing trees with
  | nil => rfl
  | cons t run ih =>
    have hadd : addToken arities arity trees t = addToken arities arity' trees t := by
      cases t with
      | arg i => simp [addToken, h i (by simp), h' i (by simp)]
      | _ => rfl
    have hrun : ∀ trees, fold arities arity trees run = fold arities arity' trees run := fun _ =>
      ih (fun i hi => h i (List.mem_cons_of_mem _ hi)) fun i hi => h' i (List.mem_cons_of_mem _ hi)
    simp only [fold, hadd, hrun]

/-! ### Building a complete expression -/

lemma complete_of_build {e : Expr} (h : build arities arity run = .ok e) :
    Complete arities.clamped run := by
  obtain ⟨htokens, hgrouped, -⟩ := build_eq_ok_iff.mp h
  exact ⟨e, htokens, hgrouped⟩

lemma Complete.build_eq_ok_iff (h : Complete arities.clamped run) :
    (∃ e, build arities arity run = .ok e) ↔ ∀ i, .arg i ∈ run → i < arity := by
  obtain ⟨x, rfl, hx⟩ := h
  constructor
  · rintro ⟨e, he⟩
    obtain ⟨htokens, -, hbelow⟩ := Grouping.build_eq_ok_iff.mp he
    rw [← htokens]
    exact every_indexBelow_iff.mp hbelow
  · intro h
    exact ⟨x, Grouping.build_eq_ok_iff.mpr ⟨rfl, hx, every_indexBelow_iff.mpr h⟩⟩

lemma complete_of_topRun (h : topRun arities stack = .ok (run, below))
    (hrun : ∀ t ∈ run, arities.Natural t) : Complete arities.clamped run := by
  obtain ⟨arity, harity⟩ := exists_above run
  obtain ⟨e, he⟩ := build_topRun h hrun harity
  exact complete_of_build he

/-- An argument that does not exist, and none before it. -/
def FirstAbove (arity : Int) (run : List Token) (i : Int) : Prop :=
  ∃ before after, run = before ++ .arg i :: after ∧ arity ≤ i ∧ ∀ j, .arg j ∈ before → j < arity

lemma Complete.build_eq_error {i : Int} (h : Complete arities.clamped run)
    (hi : FirstAbove arity run i) : build arities arity run = .error (.outOfRange i arity) := by
  obtain ⟨before, after, rfl, hle, hbefore⟩ := hi
  obtain ⟨above, habove⟩ := exists_above (before ++ .arg i :: after)
  obtain ⟨e, he⟩ := h.build_eq_ok_iff.mpr habove
  -- with enough arguments the fold gets past what comes before, and so it does with these
  obtain ⟨trees, hf, -⟩ := bind_eq_ok he
  rw [fold_append] at hf
  obtain ⟨trees', hf', -⟩ := bind_eq_ok hf
  rw [fold_congr (fun j hj => habove j (List.mem_append_left _ hj)) hbefore] at hf'
  have hstop : fold arities arity [] (before ++ .arg i :: after) =
      .error (.outOfRange i arity) := by
    rw [fold_append, hf']
    simp only [Except.bind, fold, addToken, if_neg (Int.not_lt.mpr hle), bind]
  simp only [build, hstop, bind, Except.bind]

lemma exists_firstAbove (h : ¬∀ i, .arg i ∈ run → i < arity) : ∃ i, FirstAbove arity run i := by
  induction run with
  | nil => simp at h
  | cons t run ih =>
    by_cases ht : ∃ i, t = .arg i ∧ arity ≤ i
    · obtain ⟨i, rfl, hi⟩ := ht
      exact ⟨i, [], run, rfl, hi, by simp⟩
    · have hrun : ¬∀ i, .arg i ∈ run → i < arity := by
        intro hall
        refine h fun i hi => ?_
        rcases List.mem_cons.mp hi with hit | hi
        · by_contra hlt
          exact ht ⟨i, hit.symm, Int.not_lt.mp hlt⟩
        · exact hall i hi
      obtain ⟨i, before, after, rfl, hi, hbefore⟩ := ih hrun
      refine ⟨i, t :: before, after, rfl, hi, fun j hj => ?_⟩
      rcases List.mem_cons.mp hj with hjt | hj
      · by_contra hlt
        exact ht ⟨j, hjt.symm, Int.not_lt.mp hlt⟩
      · exact hbefore j hj

/-! ### Arities below zero -/

variable {need : Nat} {acc tokens : List Token} {t : Token} {stop : Int}

/-- A token takes no more operands from the scan than from the fold. -/
lemma operands_cases (arities : Arities) (t : Token) :
    (∃ c, t = .command c) ∨ ∃ (j : Int) (k : Nat), operands arities t = .ok j ∧
      operands arities.clamped t = .ok (k : Int) ∧ j ≤ k ∧ (arities.Natural t → j = k) := by
  cases t with
  | name n =>
    rcases ha : arities n with _ | a
    · exact .inr ⟨0, 0, by simp [operands, ha], by simp [operands, Arities.clamped, ha],
        Int.le_refl 0, fun _ => rfl⟩
    · have hn : arities.Natural (.name n) → 0 ≤ a := fun hn => hn n a rfl ha
      refine .inr ⟨a, a.toNat, by simp [operands, ha], ?_, by omega, fun h => ?_⟩
      · simp only [operands, Arities.clamped, ha, Option.map_some, Option.getD_some]
      · have := hn h
        omega
  | number v => exact .inr ⟨0, 0, rfl, rfl, by simp, fun _ => rfl⟩
  | arg i => exact .inr ⟨0, 0, rfl, rfl, by simp, fun _ => rfl⟩
  | op o => exact .inr ⟨o.arity, o.arity, rfl, rfl, by simp, fun _ => rfl⟩
  | command c => exact .inl ⟨c, rfl⟩

/-- A scan that needs no more than the fold does not run out of tokens before it. -/
lemma takeRun_of_clamped {need' : Nat} {acc' : List Token} {result : List Token × List Token}
    (h : takeRun arities.clamped need' acc' stack = .ok result) (hle : need ≤ need')
    (acc : List Token) : ∃ result', takeRun arities need acc stack = .ok result' := by
  induction stack generalizing need need' acc acc' with
  | nil =>
    cases need with
    | zero => exact ⟨_, rfl⟩
    | succ need =>
      obtain ⟨need', rfl⟩ := Nat.exists_eq_add_of_lt hle
      cases h
  | cons t stack ih =>
    cases need with
    | zero => exact ⟨_, rfl⟩
    | succ need =>
      obtain ⟨need', rfl⟩ : ∃ n, need' = n + 1 := ⟨need' - 1, by omega⟩
      obtain ⟨k, hk, hrest⟩ := takeRun_succ_eq_ok h
      rcases operands_cases arities t with ⟨c, rfl⟩ | ⟨j, k', hj, hk', hjk, -⟩
      · cases hk
      · obtain rfl : k = k' := by simpa [hk'] using hk.symm
        have hneed : ((need : Int) + j).toNat ≤ ((need' : Int) + k').toNat := by omega
        obtain ⟨result', h'⟩ := ih hrest hneed (t :: acc)
        exact ⟨result', by simp [takeRun, hj, h', bind, Except.bind]⟩

/-- A scan that meets no arity below zero is a scan with natural arities. -/
lemma takeRun_clamped (h : takeRun arities need acc stack = .ok (run, below))
    (hrun : ∀ t ∈ run, arities.Natural t) :
    takeRun arities.clamped need acc stack = .ok (run, below) := by
  induction stack generalizing need acc with
  | nil =>
    cases need with
    | zero => exact h
    | succ need => cases h
  | cons t stack ih =>
    cases need with
    | zero => exact h
    | succ need =>
      obtain ⟨j', hj', hrest⟩ := takeRun_succ_eq_ok h
      obtain ⟨taken, rfl, -⟩ := takeRun_eq_ok hrest
      rcases operands_cases arities t with ⟨c, rfl⟩ | ⟨j, k, hj, hk, -, hjk⟩
      · cases hj'
      · obtain rfl : j' = k := by
          rw [hj] at hj'
          cases hj'
          exact hjk (hrun t (by simp))
        simpa [takeRun, hk, bind, Except.bind] using ih hrest

/-! ### The two ends of an expression -/

/-- What begins where the scan stops is what the scan has taken. -/
lemma start_eq_ok {s : Int} (h : start arities tokens stop = .ok s) :
    ∃ run below,
      topRun arities (tokens.take (Index.cut tokens.length stop)).reverse = .ok (run, below) ∧
      Index.slice tokens s stop = run ∧ Index.cut tokens.length s = below.length := by
  unfold start at h
  by_cases hstop : stop = 0
  · rw [if_pos hstop] at h
    cases h
  rw [if_neg hstop] at h
  rcases hp : Index.position tokens.length (stop - 1) with fault | last
  · rw [hp] at h
    cases h
  obtain ⟨hcut, hlast⟩ := Index.cut_of_position hp hstop
  simp only [hp, ← hcut] at h
  rcases htop : topRun arities (tokens.take (Index.cut tokens.length stop)).reverse with
    error | ⟨run, below⟩
  · rw [htop] at h
    cases error with
    | shortage shortage => cases shortage <;> cases h
    | _ => cases h
  · rw [htop] at h
    cases h
    obtain ⟨taken, hrun, hstack⟩ := takeRun_eq_ok htop
    rw [List.append_nil] at hrun
    subst hrun
    have htake : tokens.take (Index.cut tokens.length stop) = below.reverse ++ taken.reverse := by
      rw [← List.reverse_append, ← hstack, List.reverse_reverse]
    have hlength : Index.cut tokens.length stop = below.length + taken.length := by
      have := congrArg List.length htake
      simp only [List.length_take, List.length_append, List.length_reverse] at this
      omega
    -- the start is counted from the stop, so it is negative where the stop is
    have hbelow : Index.cut tokens.length (stop - taken.reverse.length) = below.length := by
      rw [hcut] at hlength
      rw [List.length_reverse]
      unfold Index.cut at hcut ⊢
      split <;> split at hcut <;> omega
    refine ⟨taken.reverse, below, rfl, ?_, hbelow⟩
    rw [Index.slice, hbelow, htake]
    simp

/--
A scan that begins above some tokens and runs out of them is reported as such, if the indices can be
written.
-/
lemma start_append_eq_error {above : List Token} (hne : tokens ≠ [])
    (hle : ((tokens ++ above).length : Int) ≤ Index.bound)
    (h : topRun arities tokens.reverse = .error (.shortage .incomplete)) :
    start arities (tokens ++ above) tokens.length = .error (.shortage .incomplete) := by
  have hpos : 0 < tokens.length := List.length_pos_iff.mpr hne
  have hlength : (tokens ++ above).length = tokens.length + above.length := List.length_append
  have hlast : ((tokens.length : Int) - 1).toNat + 1 = tokens.length := by omega
  have hposition := Index.position_of_lt (i := (tokens.length : Int) - 1) (by omega) (by omega) hle
  have hstop : ¬(tokens.length : Int) = 0 := by omega
  have hforward : ¬(tokens.length : Int) < 0 := by omega
  simp only [start, hposition, hlast, List.take_left, h, if_neg hstop, if_neg hforward]

lemma start_length_eq_error (hne : tokens ≠ []) (hle : (tokens.length : Int) ≤ Index.bound)
    (h : topRun arities tokens.reverse = .error (.shortage .incomplete)) :
    start arities tokens tokens.length = .error (.shortage .incomplete) := by
  rw [← List.append_nil tokens] at hle
  have hstart := start_append_eq_error hne hle h
  rwa [List.append_nil] at hstart

/-- A scan that meets only natural arities stops at the first token of an expression. -/
lemma topRun_of_complete {first : Int}
    (h : Complete arities.clamped (Index.slice tokens first stop)) :
    topRun arities.clamped (tokens.take (Index.cut tokens.length stop)).reverse =
      .ok (Index.slice tokens first stop, ((tokens.take (Index.cut tokens.length stop)).take
        (Index.cut tokens.length first)).reverse) := by
  have htop := h.topRun
    ((tokens.take (Index.cut tokens.length stop)).take (Index.cut tokens.length first)).reverse
  rwa [← List.reverse_append, Index.slice, List.take_append_drop] at htop

/-- Tokens with the same end form an expression in one way only. -/
lemma cut_unique {first : Int}
    (h : Complete arities.clamped (Index.slice tokens first stop))
    (htop : topRun arities.clamped (tokens.take (Index.cut tokens.length stop)).reverse =
      .ok (run, below)) : Index.cut tokens.length first = below.length := by
  have hlt := length_below_lt htop
  rw [topRun_of_complete h] at htop
  cases htop
  simp only [List.length_reverse, List.length_take] at hlt ⊢
  omega

/-- If some tokens with the given end form an expression, the scan does not run out of tokens. -/
lemma start_ne_shortage {first : Int}
    (h : Complete arities.clamped (Index.slice tokens first stop)) (shortage : Shortage) :
    start arities tokens stop ≠ .error (.shortage shortage) := by
  have hclamped := topRun_of_complete h
  have hstop : stop ≠ 0 := by
    rintro rfl
    cases hclamped
  obtain ⟨result, hresult⟩ : ∃ result,
      topRun arities (tokens.take (Index.cut tokens.length stop)).reverse = .ok result :=
    takeRun_of_clamped hclamped le_rfl []
  unfold start
  rw [if_neg hstop]
  rcases hp : Index.position tokens.length (stop - 1) with fault | last
  · simp
  · rw [(Index.cut_of_position hp hstop).1] at hresult
    simp [hresult]

/--
**The scan finds the expression**: tokens that end at an index form an expression iff they begin
where the scan from this index stops, and then all that can be wrong with them is an argument that
does not exist. The first such argument is reported together with the arity, if both can be written.
If the scan runs out of tokens, then no tokens with this end form an expression.
-/
theorem start_finds_expression (arities : Arities) (tokens : List Token) (stop : Int) :
    (∀ s, start arities tokens stop = .ok s →
      (∀ t ∈ Index.slice tokens s stop, arities.Natural t) →
      (∀ first, (∃ arity e, build arities arity (Index.slice tokens first stop) = .ok e) ↔
        Index.cut tokens.length first = Index.cut tokens.length s) ∧
      ∀ arity,
        (∃ e, build arities arity (Index.slice tokens s stop) = .ok e) ∧
          (∀ i, .arg i ∈ Index.slice tokens s stop → i < arity) ∨
        ∃ i, build arities arity (Index.slice tokens s stop) = .error (.outOfRange i arity) ∧
          FirstAbove arity (Index.slice tokens s stop) i) ∧
    ∀ shortage, start arities tokens stop = .error (.shortage shortage) → ∀ first arity,
      ∃ error, build arities arity (Index.slice tokens first stop) = .error error := by
  refine ⟨fun s hs hnatural => ?_, fun shortage hs first arity => ?_⟩
  · obtain ⟨run, below, htop, rfl, hcut⟩ := start_eq_ok hs
    have hclamped := takeRun_clamped htop hnatural
    have hcomplete := complete_of_topRun htop hnatural
    refine ⟨fun first => ⟨?_, fun hfirst => ?_⟩, fun arity => ?_⟩
    · rintro ⟨arity, e, he⟩
      exact (cut_unique (complete_of_build he) hclamped).trans hcut.symm
    · obtain ⟨arity, harity⟩ := exists_above (Index.slice tokens s stop)
      refine ⟨arity, ?_⟩
      rw [Index.slice, hfirst]
      exact hcomplete.build_eq_ok_iff.mpr harity
    -- the fold fails at an argument only, and there it has not seen any other that is too far
    · by_cases hall : ∀ i, .arg i ∈ Index.slice tokens s stop → i < arity
      · exact .inl ⟨hcomplete.build_eq_ok_iff.mpr hall, hall⟩
      · obtain ⟨i, hi⟩ := exists_firstAbove hall
        exact .inr ⟨i, hcomplete.build_eq_error hi, hi⟩
  · rcases hb : build arities arity (Index.slice tokens first stop) with error | e
    · exact ⟨error, rfl⟩
    · exact absurd hs (start_ne_shortage (complete_of_build hb) shortage)

def pairing : Arities
  | "pair" => some 2
  | "debt" => some (-1)
  | _ => none

/-- A call with one argument too far and one much too far, between an expression and an operator. -/
def nested : List Token := [.arg 7, .arg 3, .arg 5, .name "pair", .op (.binary .add)]

theorem nested_start_finds_expression :
    (start pairing nested (-1) = .ok (-4) ∧
      (∀ t ∈ Index.slice nested (-4) (-1), pairing.Natural t) ∧
      (∀ first, (∃ arity e, build pairing arity (Index.slice nested first (-1)) = .ok e) ↔
        Index.cut 5 first = 1) ∧
      build pairing 3 (Index.slice nested (-4) (-1)) = .error (.argumentOutOfRange 3 3)) ∧
    start pairing nested 0 = .error (.shortage .incomplete) ∧
      ∀ first arity, ∃ error, build pairing arity (Index.slice nested first 0) = .error error := by
  have hstart : start pairing nested (-1) = .ok (-4) := by decide
  have hslice : Index.slice nested (-4) (-1) = [.arg 3, .arg 5, .name "pair"] := by decide
  have hnatural : ∀ t ∈ Index.slice nested (-4) (-1), pairing.Natural t := by
    rw [hslice]
    rintro t ht n a rfl ha
    obtain rfl : n = "pair" := by simpa using ht
    cases ha
    decide
  obtain ⟨hunique, -⟩ := (start_finds_expression pairing nested (-1)).1 (-4) hstart hnatural
  have hbuild : build pairing 3 [.arg 3, .arg 5, .name "pair"] = .error (.outOfRange 3 3) := rfl
  have hwritten : Error.outOfRange 3 3 = .argumentOutOfRange 3 3 := by decide +kernel
  refine ⟨⟨hstart, hnatural, hunique, by rw [hslice, hbuild, hwritten]⟩, rfl, ?_⟩
  exact (start_finds_expression pairing nested 0).2 _ rfl

lemma build_arg_eq_error {i : Int} (h : arity ≤ i) :
    build arities arity [.arg i] = .error (.outOfRange i arity) := by
  simp only [build, fold, addToken, if_neg (Int.not_lt.mpr h), bind, Except.bind]

/--
Where a name takes less than no arguments, the scan counts it for more than one expression. It stops
before the operator has its operands, and the expression begins elsewhere. An index or an arity that
is too long to write is not reported.
-/
theorem start_misled_by_negative_arity :
    Token.ofSource "1 debt +" = .ok [.number 1, .name "debt", .op (.binary .add)] ∧
    start pairing [.number 1, .name "debt", .op (.binary .add)] 3 = .ok 1 ∧
    build pairing 0 [.name "debt", .op (.binary .add)] =
      .error (.shortage (.operands (.binary .add) 1)) ∧
    build pairing 0 [.number 1, .name "debt", .op (.binary .add)] =
      .ok (.binary .add (.literal 1) (.call "debt" [])) ∧
    build pairing 0 [.arg Decimal.bound] = .error .unwritable ∧
    build pairing (-Decimal.bound) [.arg 0] = .error .unwritable := by
  have hindex : Error.outOfRange Decimal.bound 0 = .unwritable := by decide +kernel
  have harity : Error.outOfRange 0 (-Decimal.bound) = .unwritable := by decide +kernel
  refine ⟨by decide +kernel, rfl, rfl, rfl, ?_, ?_⟩
  · rw [build_arg_eq_error (by decide +kernel), hindex]
  · rw [build_arg_eq_error (by decide +kernel), harity]

end Grouping

end ReversePolish
