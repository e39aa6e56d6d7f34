import ReversePolish.Proofs.Coverage

/-!
The text of a number stands for it, and for no other.

A number has one text, in lowest terms and without leading zeros, if that text is not too long. Many
more texts are read: with a plus, with leading zeros, not in lowest terms, or with a line feed at
the end. Each of them is taken apart in one way only, and what it stands for is the quotient of the
two numbers that it is made of.
-/

namespace ReversePolish.Number

namespace Literal

/-! ### The grammar -/

/-- A sign, which may be left out if it is a plus. -/
inductive SignText : (negative : Bool) → List Char → Prop
  | bare : SignText false []
  | plus : SignText false ['+']
  | minus : SignText true ['-']

/-- A denominator behind a slash, or nothing. -/
inductive DenText : Option (List Char) → List Char → Prop
  | bare : DenText none []
  | slash {ds : List Char} (h : IsDigits ds) : DenText (some ds) ('/' :: ds)

/--
The characters are a text of the literal: its sign, its digits, its denominator, and perhaps a line
feed.
-/
inductive Spelt (l : Literal) : List Char → Prop
  | parts (sign den last : List Char) (hsign : SignText l.negative sign) (hnum : IsDigits l.num)
      (hden : DenText l.den den) (hlast : last = [] ∨ last = ['\n']) :
    Spelt l (sign ++ (l.num ++ (den ++ last)))

def numerator (l : Literal) : Int :=
  if l.negative then -(Decimal.value l.num : Int) else Decimal.value l.num

/-- The number behind the slash, and one if there is none. -/
def denominator (l : Literal) : Nat :=
  match l.den with
  | none => 1
  | some ds => Decimal.value ds

variable {l : Literal} {cs den last : List Char} {negative : Bool}

/-! ### Texts are taken apart along the grammar -/

lemma atEnd_iff : atEnd last = true ↔ last = [] ∨ last = ['\n'] := by
  unfold atEnd
  split
  · simp
  · simp
  · next hnil hnewline =>
    simp only [Bool.false_eq_true, false_iff, not_or]
    exact ⟨hnil, hnewline⟩

lemma noDigit_of_end (h : last = [] ∨ last = ['\n']) : NoDigit last := by
  rcases h with rfl | rfl
  · exact .nil
  · intro d hd
    cases hd
    rfl

lemma takeWhile_digits {ds after : List Char} (hds : ∀ d ∈ ds, d.isDigit = true)
    (hafter : NoDigit after) :
    (ds ++ after).takeWhile Char.isDigit = ds ∧ (ds ++ after).dropWhile Char.isDigit = after := by
  have hrun : (ds ++ after).takeWhile Char.isDigit = ds := Token.digitRun_append hds hafter
  have hsplit : (ds ++ after).takeWhile Char.isDigit ++ (ds ++ after).dropWhile Char.isDigit =
      ds ++ after :=
    List.takeWhile_append_dropWhile
  rw [hrun] at hsplit
  exact ⟨hrun, List.append_cancel_left hsplit⟩

lemma ofUnsigned?_of_text (hnum : IsDigits l.num) (hden : DenText l.den den)
    (hlast : last = [] ∨ last = ['\n']) :
    ofUnsigned? l.negative (l.num ++ (den ++ last)) = some l := by
  have hnoDigit := noDigit_of_end hlast
  have hend := atEnd_iff.mpr hlast
  have hne : l.num.isEmpty = false := by simpa using hnum.1
  obtain ⟨negative, num, den?⟩ := l
  cases hden with
  | bare =>
    obtain ⟨htake, hdrop⟩ := takeWhile_digits hnum.2 hnoDigit
    simp only [ofUnsigned?, List.nil_append, htake, hdrop, hne, hend]
    rfl
  | @slash ds hds =>
    have hslash : NoDigit ('/' :: (ds ++ last)) := by
      intro d hd
      cases hd
      rfl
    obtain ⟨htake, hdrop⟩ := takeWhile_digits hnum.2 hslash
    obtain ⟨htake', hdrop'⟩ := takeWhile_digits hds.2 hnoDigit
    have hne' : ds.isEmpty = false := by simpa using hds.1
    simp only [ofUnsigned?, List.cons_append, htake, hdrop, htake', hdrop', hne, hne', hend]
    rfl

/-- The digits at the beginning are the numerator, and what is left is a denominator or the end. -/
lemma ofUnsigned?_eq_some (h : ofUnsigned? negative cs = some l) :
    l.negative = negative ∧ IsDigits l.num ∧
    ∃ den last, cs = l.num ++ (den ++ last) ∧ DenText l.den den ∧ (last = [] ∨ last = ['\n']) := by
  have hdigits : ∀ ds : List Char, ∀ d ∈ ds.takeWhile Char.isDigit, d.isDigit = true :=
    fun ds d hd => List.mem_takeWhile_imp hd
  have hsplit : cs.takeWhile Char.isDigit ++ cs.dropWhile Char.isDigit = cs :=
    List.takeWhile_append_dropWhile
  unfold ofUnsigned? at h
  dsimp only at h
  generalize hnum : cs.takeWhile Char.isDigit = num at h hsplit
  generalize cs.dropWhile Char.isDigit = rest at h hsplit
  have hall : ∀ d ∈ num, d.isDigit = true := hnum ▸ hdigits cs
  split at h
  · cases h
  next hempty =>
  have hne : num ≠ [] := by simpa using hempty
  split at h
  · next hend =>
    cases h
    exact ⟨rfl, ⟨hne, hall⟩, [], rest, hsplit.symm, .bare, atEnd_iff.mp hend⟩
  · -- what does not end here has to go on with a slash, digits and the end
    split at h
    · next after hrest =>
      split at h
      · next hden =>
        cases h
        rw [Bool.and_eq_true] at hden
        refine ⟨rfl, ⟨hne, hall⟩, _, _, ?_, .slash ⟨by simpa using hden.1, hdigits after⟩,
          atEnd_iff.mp hden.2⟩
        rw [List.cons_append, List.takeWhile_append_dropWhile, hsplit]
      · cases h
    · cases h

lemma ofChars?_eq_some_iff : ofChars? cs = some l ↔ l.Spelt cs := by
  constructor
  · intro h
    unfold ofChars? at h
    split at h
    all_goals obtain ⟨hsign, hnum, den, last, rfl, hden, hlast⟩ := ofUnsigned?_eq_some h
    · exact .parts ['+'] den last (hsign ▸ .plus) hnum hden hlast
    · exact .parts ['-'] den last (hsign ▸ .minus) hnum hden hlast
    · exact .parts [] den last (hsign ▸ .bare) hnum hden hlast
  · rintro ⟨sign, den, last, hsign, hnum, hden, hlast⟩
    have hunsigned := ofUnsigned?_of_text hnum hden hlast
    generalize hnegative : l.negative = negative at hsign hunsigned
    cases hsign with
    | plus => exact hunsigned
    | minus => exact hunsigned
    | bare =>
      -- the first character is a digit, hence no sign
      obtain ⟨d, ds, hd⟩ := List.exists_cons_of_ne_nil hnum.1
      have hdigit : d.isDigit = true := hnum.2 d (by rw [hd]; exact List.mem_cons_self)
      rw [hd] at hunsigned ⊢
      unfold ofChars?
      split
      · next heq =>
        cases heq
        cases hdigit
      · next heq =>
        cases heq
        cases hdigit
      · exact hunsigned

end Literal

/-! ### What the parts stand for -/

variable {text : String} {l : Literal} {pos : Option Int} {a b : Number} {s t : String}

def Literal.ShortDen (l : Literal) : Prop := ∀ ds ∈ l.den, ds.length ≤ Decimal.maxDigits

lemma readDigits_of_le {ds : List Char} (h : ds.length ≤ Decimal.maxDigits) :
    readDigits ds = .ok (Decimal.value ds) := by
  rw [readDigits, if_neg (Nat.not_lt.mpr h)]

lemma readDigits_of_lt {ds : List Char} (h : Decimal.maxDigits < ds.length) :
    readDigits ds = .error (.unreadable ds.length) := by
  rw [readDigits, if_pos h]

lemma parse_of_zeroDen (h : l.Spelt text.toList) (hden : l.ShortDen) (hzero : l.denominator = 0) :
    parse text pos = .error (.source (.zeroDenominator text) pos) := by
  rw [parse, Literal.ofChars?_eq_some_iff.mpr h]
  obtain ⟨negative, num, _ | ds⟩ := l
  · cases hzero
  · have hvalue : Decimal.value ds = 0 := hzero
    simp only [readDigits_of_le (hden ds rfl), bind, Except.bind, if_pos hvalue]

/-- Once its denominator is found to be good, all hangs on the numerator of a literal. -/
lemma parse_of_goodDen (h : l.Spelt text.toList) (hden : l.ShortDen) (hne : l.denominator ≠ 0) :
    parse text pos = (readDigits l.num).map fun num : Nat =>
      mkRat (if l.negative then -(num : Int) else num) l.denominator := by
  rw [parse, Literal.ofChars?_eq_some_iff.mpr h]
  obtain ⟨negative, num, _ | ds⟩ := l
  · simp only [Literal.denominator, bind, Except.bind, if_neg Nat.one_ne_zero]
    cases readDigits num <;> rfl
  · have hvalue : Decimal.value ds ≠ 0 := hne
    simp only [readDigits_of_le (hden ds rfl), Literal.denominator, bind, Except.bind,
      if_neg hvalue]
    cases readDigits num <;> rfl

lemma parse_of_longNum (h : l.Spelt text.toList) (hden : l.ShortDen) (hne : l.denominator ≠ 0)
    (hlong : Decimal.maxDigits < l.num.length) :
    parse text pos = .error (.unreadable l.num.length) := by
  rw [parse_of_goodDen h hden hne, readDigits_of_lt hlong]
  rfl

lemma parse_of_short (h : l.Spelt text.toList) (hden : l.ShortDen) (hne : l.denominator ≠ 0)
    (hnum : l.num.length ≤ Decimal.maxDigits) :
    parse text pos = .ok ((l.numerator : Number) / (l.denominator : Number)) := by
  rw [parse_of_goodDen h hden hne, readDigits_of_le hnum]
  exact congrArg Except.ok (Rat.mkRat_eq_div ..)

lemma parse_of_longDen {ds : List Char} (h : l.Spelt text.toList) (hds : ds ∈ l.den)
    (hlong : Decimal.maxDigits < ds.length) : parse text pos = .error (.unreadable ds.length) := by
  rw [parse, Literal.ofChars?_eq_some_iff.mpr h]
  obtain ⟨negative, num, _ | ds'⟩ := l
  · cases hds
  · cases hds
    simp only [readDigits_of_lt hlong, bind, Except.bind]

lemma parse_of_not_spelt (h : ∀ l : Literal, ¬l.Spelt text.toList) :
    parse text pos = .error (.source (.invalidNumber text) pos) := by
  have hnone : Literal.ofChars? text.toList = none :=
    Option.eq_none_iff_forall_ne_some.mpr fun l hl => h l (Literal.ofChars?_eq_some_iff.mp hl)
  rw [parse, hnone]

lemma parse_eq_ok_iff : parse text pos = .ok a ↔ ∃ l : Literal, l.Spelt text.toList ∧
    l.num.length ≤ Decimal.maxDigits ∧ l.ShortDen ∧ l.denominator ≠ 0 ∧
    a = (l.numerator : Number) / (l.denominator : Number) := by
  constructor
  · -- each way in which a literal can be bad gives an error
    intro h
    by_cases hspelt : ∃ l : Literal, l.Spelt text.toList
    · obtain ⟨l, hl⟩ := hspelt
      by_cases hshort : l.ShortDen
      · by_cases hne : l.denominator = 0
        · rw [parse_of_zeroDen hl hshort hne] at h
          cases h
        by_cases hnum : l.num.length ≤ Decimal.maxDigits
        · rw [parse_of_short hl hshort hne hnum] at h
          exact ⟨l, hl, hnum, hshort, hne, (Except.ok.inj h).symm⟩
        · rw [parse_of_longNum hl hshort hne (Nat.lt_of_not_le hnum)] at h
          cases h
      · simp only [Literal.ShortDen, not_forall, Nat.not_le] at hshort
        obtain ⟨ds, hds, hlong⟩ := hshort
        rw [parse_of_longDen hl hds hlong] at h
        cases h
    · rw [parse_of_not_spelt (not_exists.mp hspelt)] at h
      cases h
  · rintro ⟨l, hl, hnum, hshort, hne, rfl⟩
    exact parse_of_short hl hshort hne hnum

/-! ### Texts of numbers -/

lemma text_eq_ok_iff : a.text = .ok s ↔ a.fits = true ∧ s = a.written := by
  unfold text text?
  by_cases hfits : a.fits = true
  · rw [if_pos hfits]
    simp [hfits, eq_comm]
  · rw [if_neg hfits]
    simp [hfits]

lemma fits_iff : a.fits = true ↔ (Nat.toDigits 10 a.num.natAbs).length ≤ Decimal.maxDigits ∧
    (Nat.toDigits 10 a.den).length ≤ Decimal.maxDigits := by
  rw [fits, Bool.and_eq_true, Decimal.fits_iff, Decimal.fits_iff]
  rfl

lemma parse_of_text (h : a.text = .ok s) (pos : Option Int) : parse s pos = .ok a := by
  obtain ⟨hfits, rfl⟩ := text_eq_ok_iff.mp h
  exact parse_written hfits pos

/--
**The text of a number is canonical and is read back.** A number has a text iff neither its
numerator nor its denominator has more than 4300 digits. Its text is read as the number itself, so
that numbers with texts are equal iff their texts are. A text is read as a number iff it has the
form of one (an optional sign, digits, and perhaps a slash and digits; a line feed may come last),
has no more than 4300 digits on either side of the slash, and no denominator of zero; the number is
the quotient of the two that are written. A text without that form is reported as an invalid
literal. Of the others, the denominator is looked at first: it may be too long, or zero, which is an
invalid literal as well; then the numerator may be too long.
-/
theorem text_canonical_and_read_back :
    (∀ a : Number, (∃ s, a.text = .ok s) ↔
      (Nat.toDigits 10 a.num.natAbs).length ≤ 4300 ∧ (Nat.toDigits 10 a.den).length ≤ 4300) ∧
    (∀ (a : Number) (s : String) (pos : Option Int), a.text = .ok s → parse s pos = .ok a) ∧
    (∀ (a b : Number) (s t : String), a.text = .ok s → b.text = .ok t → (a = b ↔ s = t)) ∧
    ∀ (text : String) (pos : Option Int),
      (∀ a, parse text pos = .ok a ↔ ∃ l : Literal, l.Spelt text.toList ∧ l.num.length ≤ 4300 ∧
        (∀ ds ∈ l.den, ds.length ≤ 4300) ∧ l.denominator ≠ 0 ∧
        a = (l.numerator : Number) / (l.denominator : Number)) ∧
      ((∀ l : Literal, ¬l.Spelt text.toList) →
        parse text pos = .error (.source (.invalidNumber text) pos)) ∧
      ∀ l : Literal, l.Spelt text.toList →
        (∀ ds ∈ l.den, 4300 < ds.length → parse text pos = .error (.unreadable ds.length)) ∧
        ((∀ ds ∈ l.den, ds.length ≤ 4300) → l.denominator = 0 →
          parse text pos = .error (.source (.zeroDenominator text) pos)) ∧
        ((∀ ds ∈ l.den, ds.length ≤ 4300) → l.denominator ≠ 0 → 4300 < l.num.length →
          parse text pos = .error (.unreadable l.num.length)) := by
  refine ⟨fun a => ?_, fun a s pos h => parse_of_text h pos, fun a b s t hs ht => ?_,
    fun text pos =>
    ⟨fun a => parse_eq_ok_iff, parse_of_not_spelt, fun l hl =>
      ⟨fun ds => parse_of_longDen hl, parse_of_zeroDen hl, parse_of_longNum hl⟩⟩⟩
  · simp only [text_eq_ok_iff, exists_and_left, exists_eq, and_true]
    exact fits_iff
  · constructor
    · rintro rfl
      exact Except.ok.inj (hs.symm.trans ht)
    · rintro rfl
      exact Except.ok.inj ((parse_of_text hs none).symm.trans (parse_of_text ht none))

def sixQuarters : Literal := ⟨false, ['0', '6'], some ['0', '4']⟩

lemma sixQuarters_spelt : sixQuarters.Spelt "+06/04\n".toList :=
  .parts ['+'] ['/', '0', '4'] ['\n'] .plus ⟨by decide, List.all_eq_true.mp rfl⟩
    (.slash ⟨by decide, List.all_eq_true.mp rfl⟩) (.inr rfl)

def overNothing : Literal := ⟨true, ['1'], some ['0', '0']⟩

lemma overNothing_spelt : overNothing.Spelt "-1/00".toList :=
  .parts ['-'] ['/', '0', '0'] [] .minus ⟨by decide, List.all_eq_true.mp rfl⟩
    (.slash ⟨by decide, List.all_eq_true.mp rfl⟩) (.inl rfl)

def ones (count : Nat) : Literal := ⟨false, List.replicate count '1', none⟩

lemma ones_spelt {count : Nat} (h : count ≠ 0) :
    (ones count).Spelt (String.ofList (List.replicate count '1')).toList := by
  have hdigits : IsDigits (ones count).num := by
    refine ⟨by simpa [ones] using h, fun d hd => ?_⟩
    rw [List.eq_of_mem_replicate hd]
    rfl
  have hspelt : (ones count).Spelt ([] ++ ((ones count).num ++ ([] ++ []))) :=
    .parts [] [] [] .bare hdigits .bare (.inl rfl)
  simp only [List.nil_append, List.append_nil] at hspelt
  rw [String.toList_ofList]
  exact hspelt

lemma not_spelt_slash (l : Literal) : ¬l.Spelt "1/".toList := by
  intro h
  have hread := Literal.ofChars?_eq_some_iff.mpr h
  have hnone : Literal.ofChars? "1/".toList = none := by decide +kernel
  rw [hnone] at hread
  cases hread

/--
Two texts of one number, a text without the form of a number, and two texts that have it and are not
read.
-/
theorem sixQuarters_text_canonical_and_read_back :
    (Number.text (3 / 2) = .ok "3/2" ∧ parse "3/2" none = .ok (3 / 2)) ∧
    (sixQuarters.Spelt "+06/04\n".toList ∧ parse "+06/04\n" none = .ok (3 / 2)) ∧
    ((∀ l : Literal, ¬l.Spelt "1/".toList) ∧
      parse "1/" none = .error (.source (.invalidNumber "1/") none)) ∧
    (overNothing.Spelt "-1/00".toList ∧
      parse "-1/00" (some 7) = .error (.source (.zeroDenominator "-1/00") (some 7))) ∧
    parse (String.ofList (List.replicate 4301 '1')) none = .error (.unreadable 4301) := by
  obtain ⟨-, hback, -, hparse⟩ := text_canonical_and_read_back
  have htext : Number.text (3 / 2) = .ok "3/2" := by decide +kernel
  have hquotient : (3 / 2 : Number) =
      (sixQuarters.numerator : Number) / (sixQuarters.denominator : Number) := by decide +kernel
  have hread : parse "+06/04\n" none = .ok (3 / 2) :=
    ((hparse _ _).1 _).mpr
      ⟨sixQuarters, sixQuarters_spelt, by decide, by decide, by decide, hquotient⟩
  have hzero :=
    (((hparse "-1/00" (some 7)).2.2 overNothing overNothing_spelt).2.1 (by decide)) (by decide)
  have hlong : ∀ count, 4300 < count →
      parse (String.ofList (List.replicate count '1')) none = .error (.unreadable count) := by
    intro count hcount
    have hlength : (ones count).num.length = count := List.length_replicate
    have hread :=
      ((hparse _ none).2.2 (ones count) (ones_spelt (by omega))).2.2 nofun Nat.one_ne_zero
    rw [hlength] at hread
    exact hread hcount
  exact ⟨⟨htext, hback _ _ _ htext⟩, ⟨sixQuarters_spelt, hread⟩,
    ⟨not_spelt_slash, (hparse _ _).2.1 not_spelt_slash⟩, ⟨overNothing_spelt, hzero⟩,
    hlong 4301 (by decide)⟩

end ReversePolish.Number
