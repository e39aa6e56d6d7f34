import Mathlib.Data.List.TakeWhile
import ReversePolish.Lexeme
import ReversePolish.Proofs.Grouping

/-!
Written tokens are read back.

A token is written so that, where a blank or nothing follows, it is read as itself: a name ends
where its grammar does, a number at its last digit, and a sign belongs to a number only if a digit
follows. So texts with a space between each two of them are read one after the other.
-/

namespace ReversePolish

/-! ### Names -/

/--
What may follow the first letter of a name: letters and digits, each of which may have one dash or
underscore before it.
-/
inductive IsNameTail : List Char → Prop
  | nil : IsNameTail []
  | char {c : Char} {cs : List Char} (hc : c.isAlphanum = true) (h : IsNameTail cs) :
    IsNameTail (c :: cs)
  | joined {c d : Char} {cs : List Char} (hc : c = '-' ∨ c = '_') (hd : d.isAlphanum = true)
      (h : IsNameTail cs) :
    IsNameTail (c :: d :: cs)

def IsName (s : String) : Prop :=
  ∃ c cs, s = String.ofList (c :: cs) ∧ c.isAlpha = true ∧ IsNameTail cs

namespace Token

lemma isNameTail_nameTail (cs : List Char) : IsNameTail (nameTail cs) := by
  fun_induction nameTail cs with
  | case1 => exact .nil
  | case2 c cs hc ih => exact .char hc ih
  | case3 c hc hj d ds hd ih => exact .joined (by simpa using hj) hd ih
  | case4 => exact .nil
  | case5 => exact .nil
  | case6 => exact .nil

/-- A name is read up to a character that cannot go on with it. -/
lemma nameTail_append {cs rest : List Char} (h : IsNameTail cs)
    (hrest : ∀ c ∈ rest.head?, c.isAlphanum = false ∧ c ≠ '-' ∧ c ≠ '_') :
    nameTail (cs ++ rest) = cs := by
  induction h with
  | nil =>
    cases rest with
    | nil => rfl
    | cons c rest =>
      have hc := hrest c rfl
      rw [List.nil_append, nameTail.eq_def]
      simp [hc]
  | char hc _ ih =>
    rw [List.cons_append, nameTail.eq_def]
    simp [hc, ih]
  | joined hc hd _ ih => rcases hc with rfl | rfl <;> simp [nameTail, hd, ih]

/-! ### Digits -/

lemma digitRun_append {ds rest : List Char} (hds : ∀ c ∈ ds, c.isDigit = true)
    (hrest : ∀ c ∈ rest.head?, c.isDigit = false) : digitRun (ds ++ rest) = ds := by
  rw [digitRun, List.takeWhile_append_of_pos hds]
  cases rest with
  | nil => simp
  | cons c rest => simp [hrest c rfl]

end Token

namespace Decimal

lemma isDigit_of_mem_digits {n : Nat} {c : Char} (h : c ∈ digits n) : c.isDigit = true :=
  Nat.isDigit_of_mem_toDigits (by decide) (by decide) h

lemma fits_iff {n : Nat} : fits n = true ↔ (digits n).length ≤ maxDigits := by
  unfold fits
  -- the bound is a power that must not be worked out
  unfold bound
  generalize hk : maxDigits = k
  have hpos : 0 < k := by
    rw [← hk]
    decide
  rw [decide_eq_true_iff]
  exact (Nat.length_toDigits_le_iff (by decide) hpos).symm

lemma readDigits_digits {n : Nat} (h : fits n = true) : Number.readDigits (digits n) = .ok n := by
  rw [Number.readDigits, if_neg (Nat.not_lt.mpr (fits_iff.mp h)), value, digits,
    Nat.ofDigitChars_ten_toDigits]

lemma ofInt?_natCast {n : Nat} {s : String} (h : ofInt? n = some s) :
    fits n = true ∧ s.toList = digits n := by
  simp only [ofInt?, Int.natAbs_natCast, Option.ite_none_right_eq_some, Option.some.injEq] at h
  obtain ⟨hfits, rfl⟩ := h
  have hsign : ¬(n : Int) < 0 := by omega
  rw [ofInt, if_neg hsign, ofNat, Int.natAbs_natCast, String.toList_ofList]
  exact ⟨hfits, rfl⟩

end Decimal

/-! ### Numbers -/

namespace Number

/-- The part of a number's text that begins with the slash. -/
def writtenDen (v : Number) : List Char :=
  if v.isInteger then [] else '/' :: Decimal.digits v.den

lemma toList_written (v : Number) : v.written.toList =
    (if v.num < 0 then ['-'] else []) ++ (Decimal.digits v.num.natAbs ++ v.writtenDen) := by
  unfold written writtenDen Decimal.ofInt Decimal.ofNat
  split <;> split <;> simp

/-- The digits of a denominator are read up to the end of the text. -/
lemma ofUnsigned?_written (v : Number) (negative : Bool) :
    Literal.ofUnsigned? negative (Decimal.digits v.num.natAbs ++ v.writtenDen) =
      some ⟨negative, Decimal.digits v.num.natAbs,
        if v.isInteger then none else some (Decimal.digits v.den)⟩ := by
  have hnum : ∀ c ∈ Decimal.digits v.num.natAbs, c.isDigit = true :=
    fun c hc => Decimal.isDigit_of_mem_digits hc
  have hden : ∀ c ∈ Decimal.digits v.den, c.isDigit = true :=
    fun c hc => Decimal.isDigit_of_mem_digits hc
  have hnumNil : Decimal.digits v.num.natAbs ≠ [] := Nat.toDigits_ne_nil
  have hdenNil : Decimal.digits v.den ≠ [] := Nat.toDigits_ne_nil
  unfold Literal.ofUnsigned? writtenDen
  rw [List.takeWhile_append_of_pos hnum, List.dropWhile_append_of_pos hnum]
  split
  · simp [hnumNil, Literal.atEnd]
  · simp [hnumNil, hdenNil, Literal.atEnd, List.takeWhile_eq_self_iff.mpr hden,
      List.dropWhile_eq_nil_iff.mpr hden]

lemma ofChars?_written (v : Number) : Literal.ofChars? v.written.toList =
    some ⟨v.num < 0, Decimal.digits v.num.natAbs,
      if v.isInteger then none else some (Decimal.digits v.den)⟩ := by
  rw [toList_written]
  split
  · next hneg => simp [Literal.ofChars?, ofUnsigned?_written, hneg]
  · next hneg =>
    obtain ⟨d, ds, hd⟩ : ∃ d ds, Decimal.digits v.num.natAbs = d :: ds :=
      List.exists_cons_of_ne_nil Nat.toDigits_ne_nil
    have hdigit : d.isDigit = true := Decimal.isDigit_of_mem_digits (hd ▸ List.mem_cons_self)
    have hun := ofUnsigned?_written v false
    rw [hd] at hun ⊢
    unfold Literal.ofChars?
    split
    · next heq =>
      cases heq
      cases hdigit
    · next heq =>
      cases heq
      cases hdigit
    · simpa [hneg] using hun

lemma parse_written {v : Number} (h : v.fits = true) (pos : Option Int) :
    parse v.written pos = .ok v := by
  have hfits : Decimal.fits v.num.natAbs = true ∧ Decimal.fits v.den = true := by
    simpa [fits] using h
  have hnum : (if v.num < 0 then -((v.num.natAbs : Nat) : Int) else v.num.natAbs) = v.num := by
    split <;> omega
  unfold parse
  rw [ofChars?_written]
  simp only [Decimal.readDigits_digits hfits.1, bind, Except.bind, decide_eq_true_eq, hnum]
  by_cases hint : v.isInteger = true
  · have hden : v.den = 1 := by simpa [isInteger] using hint
    have hv := Rat.mkRat_self v
    rw [hden] at hv
    simp [hint, hv]
  · simp [hint, Decimal.readDigits_digits hfits.2, v.den_nz, Rat.mkRat_self]

end Number

/-! ### Texts that are read as tokens -/

namespace Lexeme

@[simp] lemma scan_nil (pos : Nat) : scan pos [] = .ok [] := by rw [scan, scanBy]

lemma scan_cons (pos : Nat) (c : Char) (rest : List Char) : scan pos (c :: rest) = (do
    match ← Token.next pos c rest with
    | .skip more => scan (pos + more + 1) (rest.drop more)
    | .token t more =>
      let lexemes ← scan (pos + more + 1) (rest.drop more)
      .ok (⟨t, String.ofList (c :: rest.take more), pos, pos + more + 1⟩ :: lexemes)) := by
  rw [scan, scanBy]
  rcases Token.next pos c rest with error | more | ⟨t, more⟩
  · rfl
  · rfl
  · exact congrArg (fun text => (scan (pos + more + 1) (rest.drop more)).bind fun lexemes =>
      .ok (⟨t, String.ofList text, pos, pos + more + 1⟩ :: lexemes)) (List.map_id _)

end Lexeme

/-- A text is read as tokens, wherever in a source text it stands. -/
def Reads (cs : List Char) (ts : List Token) : Prop :=
  ∀ pos, ∃ lexemes, Lexeme.scan pos cs = .ok lexemes ∧ lexemes.map Lexeme.token = ts

def Ends (rest : List Char) : Prop := ∀ c ∈ rest.head?, c = ' '

/-- A text is read as tokens, whatever comes after a space behind it. -/
def Spells (cs : List Char) (ts : List Token) : Prop :=
  ∀ rest us, Ends rest → Reads rest us → Reads (cs ++ rest) (ts ++ us)

variable {c : Char} {cs ds rest tail : List Char} {t : Token} {ts us : List Token} {s : String}

lemma Reads.nil : Reads [] [] := fun pos => ⟨[], Lexeme.scan_nil pos, rfl⟩

lemma Reads.space (h : Reads cs ts) : Reads (' ' :: cs) ts := by
  intro pos
  obtain ⟨lexemes, hscan, hts⟩ := h (pos + 1)
  refine ⟨lexemes, ?_, hts⟩
  rw [Lexeme.scan_cons]
  simpa [Token.next, Token.isBlank, bind, Except.bind] using hscan

lemma Reads.token (hnext : ∀ pos, Token.next pos c (tail ++ rest) = .ok (.token t tail.length))
    (h : Reads rest ts) : Reads (c :: (tail ++ rest)) (t :: ts) := by
  intro pos
  obtain ⟨lexemes, hscan, rfl⟩ := h (pos + tail.length + 1)
  refine ⟨⟨t, String.ofList (c :: tail), pos, pos + tail.length + 1⟩ :: lexemes, ?_, rfl⟩
  rw [Lexeme.scan_cons]
  simp [hnext, hscan, bind, Except.bind]

lemma Reads.ofSource (h : Reads s.toList ts) : Token.ofSource s = .ok ts := by
  obtain ⟨lexemes, hscan, rfl⟩ := h 0
  simp [Token.ofSource, Lexeme.ofSource, hscan, bind, Except.bind]

lemma Ends.nil : Ends [] := by simp [Ends]

lemma Ends.space (rest : List Char) : Ends (' ' :: rest) := by simp [Ends]

lemma Ends.isDigit (h : Ends rest) : ∀ c ∈ rest.head?, c.isDigit = false := by
  intro c hc
  rw [h c hc]
  rfl

lemma Spells.reads (h : Spells cs ts) : Reads cs ts := by
  simpa using h [] [] .nil .nil

lemma Spells.append (h : Spells cs ts) (h' : Spells ds us) :
    Spells (cs ++ ' ' :: ds) (ts ++ us) := by
  intro rest vs hrest hreads
  have htail := (h' rest vs hrest hreads).space
  simpa using h (' ' :: (ds ++ rest)) (us ++ vs) (.space _) htail

lemma Spells.one
    (h : ∀ pos rest, Ends rest → Token.next pos c (tail ++ rest) = .ok (.token t tail.length)) :
    Spells (c :: tail) [t] :=
  fun rest _ hrest hreads => hreads.token fun pos => h pos rest hrest

/-- Texts with a space between each two are read one after the other. -/
lemma Spells.intercalate {α : Type} {write : α → Option String} {tokens : α → List Token}
    {as : List α} {texts : List String}
    (h : ∀ a ∈ as, ∀ s, write a = some s → Spells s.toList (tokens a))
    (hw : as.mapM write = some texts) (hne : as ≠ []) :
    Spells (String.intercalate " " texts).toList (as.flatMap tokens) := by
  induction as generalizing texts with
  | nil => exact absurd rfl hne
  | cons a as ih =>
    simp only [List.mapM_cons, Option.bind_eq_bind, Option.bind_eq_some_iff, Option.pure_def,
      Option.some.injEq] at hw
    obtain ⟨s, hs, texts', htexts, rfl⟩ := hw
    have ha := h a (by simp) s hs
    cases as with
    | nil =>
      cases htexts
      simpa using ha
    | cons b as =>
      have hrest := ih (fun b hb => h b (List.mem_cons_of_mem _ hb)) htexts (by simp)
      have htexts' : texts' ≠ [] := by
        rintro rfl
        simp [List.mapM_cons, Option.bind_eq_some_iff] at htexts
      rw [String.intercalate_cons_of_ne_nil htexts', List.flatMap_cons]
      simpa using ha.append hrest

/-! ### Each token is read from its text -/

namespace Token

lemma next_of_isDigit (hc : c.isDigit = true) (pos : Nat) (rest : List Char) :
    next pos c rest = nextNumber pos c rest := by
  have hne : ∀ d : Char, d.isDigit = false → c ≠ d := by
    rintro d hd rfl
    simp [hc] at hd
  simp [next, isBlank, hc, hne]

lemma isDigit_of_isAlpha (hc : c.isAlpha = true) : c.isDigit = false := by
  change (decide ('A'.val ≤ c.val ∧ c.val ≤ 'Z'.val) ||
    (decide ('a'.val ≤ c.val) && decide (c.val ≤ 'z'.val))) = true at hc
  change (decide ('0'.val ≤ c.val) && decide (c.val ≤ '9'.val)) = false
  grind

lemma next_of_isAlpha (hc : c.isAlpha = true) (pos : Nat) (rest : List Char) :
    next pos c rest = nextName c rest := by
  have hne : ∀ d : Char, d.isAlpha = false → c ≠ d := by
    rintro d hd rfl
    simp [hc] at hd
  simp [next, isBlank, hc, isDigit_of_isAlpha hc, hne]

lemma headIsDigit_append (hds : ∀ c ∈ ds, c.isDigit = true) (hne : ds ≠ []) (rest : List Char) :
    headIsDigit (ds ++ rest) = true := by
  obtain ⟨d, ds, rfl⟩ := List.exists_cons_of_ne_nil hne
  exact hds d (by simp)

/-- The lexer takes all digits of a number, and the slash with the digits behind it. -/
lemma nextNumber_written {v : Number} (hds : ∀ c ∈ ds, c.isDigit = true) (hrest : Ends rest)
    (hv : String.ofList (c :: (ds ++ v.writtenDen)) = v.written) (hfits : v.fits = true)
    (pos : Nat) : nextNumber pos c (ds ++ v.writtenDen ++ rest) =
      .ok (.token (.number v) (ds ++ v.writtenDen).length) := by
  have hparse := Number.parse_written hfits (some (pos : Int))
  rw [← hv] at hparse
  unfold Number.writtenDen at hparse ⊢
  split
  · -- behind an integer there is nothing or a space, hence no slash
    next hint =>
    rw [if_pos hint, List.append_nil] at hparse
    simp only [nextNumber, List.append_nil, digitRun_append hds hrest.isDigit, List.drop_left]
    cases rest with
    | nil => simp only [hparse, bind, Except.bind]
    | cons d rest =>
      have hd : d = ' ' := hrest d rfl
      subst hd
      simp only [hparse, bind, Except.bind]
      rfl
  · next hint =>
    rw [if_neg hint] at hparse
    have hden : ∀ c ∈ Decimal.digits v.den, c.isDigit = true :=
      fun c hc => Decimal.isDigit_of_mem_digits hc
    have hslash : ∀ c ∈ ('/' :: (Decimal.digits v.den ++ rest)).head?, c.isDigit = false := by
      simp
    simp only [nextNumber, List.append_assoc, List.cons_append, digitRun_append hds hslash,
      List.drop_left, headIsDigit_append hden Nat.toDigits_ne_nil,
      digitRun_append hden hrest.isDigit, if_true, hparse, bind, Except.bind]

lemma spells_number {v : Number} (hfits : v.fits = true) :
    Spells v.written.toList [.number v] := by
  have hdigits : ∀ c ∈ Decimal.digits v.num.natAbs, c.isDigit = true :=
    fun c hc => Decimal.isDigit_of_mem_digits hc
  have hne : Decimal.digits v.num.natAbs ≠ [] := Nat.toDigits_ne_nil
  have hv := Number.toList_written v
  split at hv
  · -- the sign is followed by a digit
    have hv : v.written.toList = '-' :: (Decimal.digits v.num.natAbs ++ v.writtenDen) := hv
    rw [hv]
    refine .one fun pos rest hrest => ?_
    have htext := congrArg String.ofList hv.symm
    rw [String.ofList_toList] at htext
    have hhead := headIsDigit_append hdigits hne (v.writtenDen ++ rest)
    rw [← nextNumber_written hdigits hrest htext hfits pos]
    simp [next, isBlank, hhead]
  · obtain ⟨d, ds, hd⟩ := List.exists_cons_of_ne_nil hne
    rw [hd] at hv hdigits
    have hv : v.written.toList = d :: (ds ++ v.writtenDen) := hv
    rw [hv]
    refine .one fun pos rest hrest => ?_
    have htext := congrArg String.ofList hv.symm
    rw [String.ofList_toList] at htext
    rw [next_of_isDigit (hdigits d (by simp))]
    exact nextNumber_written (fun c hc => hdigits c (List.mem_cons_of_mem _ hc)) hrest htext hfits
      pos

lemma spells_name (h : IsName s) : Spells s.toList [.name s] := by
  obtain ⟨c, cs, rfl, hc, hcs⟩ := h
  rw [String.toList_ofList]
  refine .one fun pos rest hrest => ?_
  have hstop : ∀ c ∈ rest.head?, c.isAlphanum = false ∧ c ≠ '-' ∧ c ≠ '_' := by
    intro c hc
    rw [hrest c hc]
    decide
  rw [next_of_isAlpha hc, nextName, nameTail_append hcs hstop, List.drop_left]
  cases rest with
  | nil => rfl
  | cons d rest =>
    have hd : d = ' ' := hrest d rfl
    subst hd
    rfl

lemma spells_arg {n : Nat} (hfits : Decimal.fits n = true) :
    Spells ('$' :: Decimal.digits n) [.arg n] := by
  have hdigits : ∀ c ∈ Decimal.digits n, c.isDigit = true :=
    fun c hc => Decimal.isDigit_of_mem_digits hc
  refine .one fun pos rest hrest => ?_
  have hnext : next pos '$' (Decimal.digits n ++ rest) =
      nextArgument pos (Decimal.digits n ++ rest) := by
    simp [next, isBlank]
  rw [hnext, nextArgument, headIsDigit_append hdigits Nat.toDigits_ne_nil,
    digitRun_append hdigits hrest.isDigit, Decimal.readDigits_digits hfits]
  rfl

/-- An operator is read as itself: no digit follows that would make it a sign. -/
lemma spells_op (o : Operator) : Spells [o.symbol] [.op o] := by
  refine .one fun pos rest hrest => ?_
  have hdigit : headIsDigit rest = false := by
    cases rest with
    | nil => rfl
    | cons d rest => exact hrest.isDigit d rfl
  have hsymbol : next pos o.symbol rest = nextSymbol pos o.symbol := by
    rcases o with op | _ | _
    · cases op <;> cases rest <;> simp [next, isBlank, hdigit, Operator.symbol]
    · cases rest <;> simp [next, isBlank, Operator.symbol]
    · cases rest <;> simp [next, isBlank, Operator.symbol]
  rw [List.nil_append, hsymbol]
  rcases o with op | _ | _
  · cases op <;> rfl
  · rfl
  · rfl

/-- No name goes on with the mark of a declaration. -/
lemma declaration?_stops {mark : Char} {declaration : String → Nat → Command}
    (h : declaration? mark = some declaration) :
    mark.isAlphanum = false ∧ mark ≠ '-' ∧ mark ≠ '_' := by
  unfold declaration? at h
  split at h
  · decide
  · decide
  · cases h

lemma spells_declaration {mark : Char} {declaration : String → Nat → Command} {n : Nat}
    (hmark : declaration? mark = some declaration) (h : IsName s) (hfits : Decimal.fits n = true) :
    Spells (s.toList ++ mark :: Decimal.digits n) [.command (declaration s n)] := by
  obtain ⟨c, cs, rfl, hc, hcs⟩ := h
  have hdigits : ∀ c ∈ Decimal.digits n, c.isDigit = true :=
    fun c hc => Decimal.isDigit_of_mem_digits hc
  rw [String.toList_ofList, List.cons_append]
  refine .one fun pos rest hrest => ?_
  have hstop : ∀ c ∈ (mark :: (Decimal.digits n ++ rest)).head?,
      c.isAlphanum = false ∧ c ≠ '-' ∧ c ≠ '_' := by
    intro c hc
    cases hc
    exact declaration?_stops hmark
  rw [next_of_isAlpha hc, nextName, List.append_assoc, List.cons_append, nameTail_append hcs hstop,
    List.drop_left]
  simp [hmark, headIsDigit_append hdigits Nat.toDigits_ne_nil,
    digitRun_append hdigits hrest.isDigit, Decimal.readDigits_digits hfits, bind, Except.bind]
  omega

end Token

/-! ### What the lexer can give -/

def Command.Readable : Command → Prop
  | .bind n => IsName n
  | .declare n _ => IsName n
  | .declareLoop n _ => IsName n
  | .unknown _ => False
  | _ => True

namespace Token

/-- The names of a token follow the grammar, and its index is not negative. -/
def Readable : Token → Prop
  | .name n => IsName n
  | .arg i => 0 ≤ i
  | .command c => c.Readable
  | _ => True

def Lexed (t : Token) : Prop := ∃ source ts, ofSource source = .ok ts ∧ t ∈ ts

variable {pos more : Nat}

lemma isName_nameTail (hc : c.isAlpha = true) (rest : List Char) :
    IsName (String.ofList (c :: nameTail rest)) :=
  ⟨c, nameTail rest, rfl, hc, isNameTail_nameTail rest⟩

lemma readable_of_nextString (h : nextString .char pos rest = .ok (.token t more)) :
    t.Readable := by
  obtain ⟨⟨bytes, size⟩, -, h⟩ := bind_eq_ok h
  cases h
  trivial

lemma readable_of_nextNumber (h : nextNumber pos c rest = .ok (.token t more)) : t.Readable := by
  simp only [nextNumber] at h
  split at h
  · split at h
    · obtain ⟨v, -, h⟩ := bind_eq_ok h
      cases h
      trivial
    · cases h
  · obtain ⟨v, -, h⟩ := bind_eq_ok h
    cases h
    trivial

lemma readable_of_nextArgument (h : nextArgument pos rest = .ok (.token t more)) :
    t.Readable := by
  unfold nextArgument at h
  split at h
  · obtain ⟨index, -, h⟩ := bind_eq_ok h
    cases h
    exact Int.natCast_nonneg index
  · cases h

lemma readable_of_nextName (hc : c.isAlpha = true) (h : nextName c rest = .ok (.token t more)) :
    t.Readable := by
  have hname := isName_nameTail hc rest
  simp only [nextName] at h
  split at h
  · split at h
    · next declaration hmark =>
      split at h
      · obtain ⟨arity, -, h⟩ := bind_eq_ok h
        cases h
        unfold declaration? at hmark
        split at hmark <;> cases hmark
        · exact hname
        · exact hname
      · cases h
        exact hname
    · cases h
      exact hname
  · cases h
    exact hname

lemma readable_of_nextSymbol (h : nextSymbol pos c = .ok (.token t more)) : t.Readable := by
  unfold nextSymbol at h
  split at h
  · cases h
    trivial
  · next k _ hk =>
    cases h
    unfold Command.ofChar? at hk
    split at hk <;> cases hk <;> trivial
  · cases h

lemma readable_of_next (h : next pos c rest = .ok (.token t more)) : t.Readable := by
  unfold next at h
  split at h
  · cases h
  split at h
  · cases h
  split at h
  · exact readable_of_nextString h
  split at h
  · exact readable_of_nextNumber h
  split at h
  · exact readable_of_nextArgument h
  split at h
  · next hc => exact readable_of_nextName hc h
  split at h
  · split at h
    · next hd =>
      cases h
      simp only [Bool.and_eq_true] at hd
      exact isName_nameTail hd.2 _
    · exact readable_of_nextSymbol h
  · exact readable_of_nextSymbol h

/-- What a text that can be read begins with, and that the rest can be read. -/
lemma scan_cons_eq_ok {lexemes : List Lexeme} (h : Lexeme.scan pos (c :: rest) = .ok lexemes) :
    (∃ more, next pos c rest = .ok (.skip more) ∧
      Lexeme.scan (pos + more + 1) (rest.drop more) = .ok lexemes) ∨
    ∃ t more lexemes', next pos c rest = .ok (.token t more) ∧
      Lexeme.scan (pos + more + 1) (rest.drop more) = .ok lexemes' ∧
      lexemes = ⟨t, String.ofList (c :: rest.take more), pos, pos + more + 1⟩ :: lexemes' := by
  rw [Lexeme.scan_cons] at h
  obtain ⟨found, hn, h⟩ := bind_eq_ok h
  cases found with
  | skip more => exact .inl ⟨more, hn, h⟩
  | token t more =>
    obtain ⟨lexemes', hs, h⟩ := bind_eq_ok h
    cases h
    exact .inr ⟨t, more, lexemes', hn, hs, rfl⟩

lemma readable_of_scan {lexemes : List Lexeme} (h : Lexeme.scan pos cs = .ok lexemes) :
    ∀ l ∈ lexemes, l.token.Readable := by
  induction pos, cs using Lexeme.scanBy.induct generalizing lexemes with
  | case1 pos =>
    rw [Lexeme.scan_nil] at h
    cases h
    simp
  | case2 pos c rest ih =>
    rcases scan_cons_eq_ok h with ⟨more, -, hs⟩ | ⟨t, more, lexemes', hn, hs, rfl⟩
    · exact ih more hs
    · intro l hl
      rcases List.mem_cons.mp hl with rfl | hl
      · exact readable_of_next hn
      · exact ih more hs l hl

lemma Lexed.readable (h : t.Lexed) : t.Readable := by
  obtain ⟨source, ts, hts, ht⟩ := h
  obtain ⟨lexemes, hs, hts⟩ := bind_eq_ok hts
  cases hts
  obtain ⟨l, hl, rfl⟩ := List.mem_map.mp ht
  exact readable_of_scan hs l hl

/-! ### Reading what was displayed -/

lemma spells_display (ht : t.Readable) (hc : ∀ c, t ≠ .command c) (h : t.display? = some s) :
    Spells s.toList [t] := by
  cases t with
  | number v =>
    simp only [display?, Number.text?, Option.ite_none_right_eq_some, Option.some.injEq] at h
    rw [← h.2]
    exact spells_number h.1
  | name n =>
    cases h
    exact spells_name ht
  | arg i =>
    obtain ⟨n, rfl⟩ := Int.eq_ofNat_of_zero_le ht
    simp only [display?, Option.map_eq_some_iff] at h
    obtain ⟨numeral, hn, rfl⟩ := h
    obtain ⟨hfits, hdigits⟩ := Decimal.ofInt?_natCast hn
    simpa [hdigits] using spells_arg hfits
  | op o =>
    cases h
    simpa using spells_op o
  | command c => exact absurd rfl (hc c)

lemma spells_join (hts : ∀ t ∈ ts, t.Readable) (hc : ∀ c, .command c ∉ ts) (hne : ts ≠ [])
    (h : join? ts = some s) : Spells s.toList ts := by
  simp only [join?, Option.map_eq_some_iff] at h
  obtain ⟨texts, htexts, rfl⟩ := h
  have hspells : ∀ t ∈ ts, ∀ s, t.display? = some s → Spells s.toList [t] :=
    fun t ht s hs => spells_display (hts t ht) (fun c hct => hc c (hct ▸ ht)) hs
  simpa using Spells.intercalate hspells htexts hne

end Token

end ReversePolish
