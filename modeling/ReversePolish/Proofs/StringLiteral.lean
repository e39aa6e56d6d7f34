import ReversePolish.Proofs.LineEnds
import ReversePolish.Proofs.Packing
import ReversePolish.Proofs.Redeclaration

/-!
String literals: their grammar, their value, and how their bytes are shown again.

A string literal is a sequence of items between two quotes. Here the items are data, each with its
text and its bytes. What follows an opening quote is such a sequence and something that no item
begins with; only if this is a quote is there a literal.

A surrogate has no bytes, so it is no item. It is not reported as the fault of a literal either.
-/

namespace ReversePolish

/-! ### The grammar -/

/-- A character that has a meaning of its own behind a backslash. -/
inductive Escape
  | lineFeed | carriageReturn | tab | backslash | quote

def Escape.char : Escape → Char
  | .lineFeed => 'n'
  | .carriageReturn => 'r'
  | .tab => 't'
  | .backslash => '\\'
  | .quote => '"'

def Escape.byte : Escape → UInt8
  | .lineFeed => 10
  | .carriageReturn => 13
  | .tab => 9
  | .backslash => 92
  | .quote => 34

/-- A hexadecimal digit; above nine it may be a small or a capital letter. -/
structure HexDigit where
  value : Fin 16
  capital : Bool

def HexDigit.char (d : HexDigit) : Char :=
  if d.capital then (Nat.digitChar d.value).toUpper else Nat.digitChar d.value

inductive StringItem
  | plain (c : Char) (hquote : c ≠ '"') (hbackslash : c ≠ '\\')
  | escape (e : Escape)
  | hex (high low : HexDigit)

namespace StringItem

def text : StringItem → List Char
  | .plain c _ _ => [c]
  | .escape e => ['\\', e.char]
  | .hex high low => ['\\', high.char, low.char]

/-- A plain character stands for its bytes in UTF-8, and any other item for one byte. -/
def bytes : StringItem → List UInt8
  | .plain c _ _ => String.utf8EncodeChar c
  | .escape e => [e.byte]
  | .hex high low => [UInt8.ofNat (16 * high.value + low.value)]

def texts (items : List StringItem) : List Char := items.flatMap text

/-- The same as code points. -/
def points (items : List StringItem) : List CodePoint := (texts items).map .char

def allBytes (items : List StringItem) : List UInt8 := items.flatMap bytes

def literal (items : List StringItem) : String := String.ofList ('"' :: (texts items ++ ['"']))

end StringItem

/-! ### Items are read one by one -/

namespace Token

open StringItem (texts points allBytes)

variable {start pos : Nat} {c : Char} {cs : List CodePoint}

lemma hexDigit?_char (d : HexDigit) : hexDigit? d.char = some d.value.val := by
  obtain ⟨value, capital⟩ := d
  revert value capital
  decide

lemma exists_hexDigit {k : Nat} (h : hexDigit? c = some k) :
    ∃ d : HexDigit, d.char = c ∧ d.value.val = k := by
  have hc : Char.ofNat c.toNat = c := Char.ofNat_toNat c
  have hnumeral : ∀ i < 10, Nat.digitChar i = Char.ofNat (48 + i) := by decide
  have hsmall : ∀ i < 6, Nat.digitChar (i + 10) = Char.ofNat (97 + i) := by decide
  have hcapital : ∀ i < 6, (Nat.digitChar (i + 10)).toUpper = Char.ofNat (65 + i) := by decide
  simp only [hexDigit?, Bool.and_eq_true, decide_eq_true_eq, Char.le_def, UInt32.le_iff_toNat_le,
    Char.toNat_val] at h
  -- a numeral, a small letter or a capital letter
  split at h
  · next hrange =>
    cases h
    have hlow : 48 ≤ c.toNat := hrange.1
    have hhigh : c.toNat ≤ 57 := hrange.2
    refine ⟨⟨⟨c.toNat - 48, by omega⟩, false⟩, ?_, rfl⟩
    change Nat.digitChar (c.toNat - 48) = c
    rw [hnumeral _ (by omega), Nat.add_sub_of_le hlow, hc]
  split at h
  · next hrange =>
    cases h
    have hlow : 97 ≤ c.toNat := hrange.1
    have hhigh : c.toNat ≤ 102 := hrange.2
    refine ⟨⟨⟨c.toNat - 97 + 10, by omega⟩, false⟩, ?_, rfl⟩
    change Nat.digitChar (c.toNat - 97 + 10) = c
    rw [hsmall _ (by omega), Nat.add_sub_of_le hlow, hc]
  split at h
  · next hrange =>
    cases h
    have hlow : 65 ≤ c.toNat := hrange.1
    have hhigh : c.toNat ≤ 70 := hrange.2
    refine ⟨⟨⟨c.toNat - 65 + 10, by omega⟩, true⟩, ?_, rfl⟩
    change (Nat.digitChar (c.toNat - 65 + 10)).toUpper = c
    rw [hcapital _ (by omega), Nat.add_sub_of_le hlow, hc]
  · cases h

lemma isItem (item : StringItem) : IsItem id (item.text.map .char) item.bytes := by
  cases item with
  | plain c hquote hbackslash => exact .plain rfl hquote hbackslash
  | escape e => exact .escape rfl (by cases e <;> rfl)
  | hex high low => exact .hex rfl (by simp only [id, CodePoint.toChar, hexByte?, hexDigit?_char])

lemma exists_escape {p : CodePoint} {b : UInt8} (h : escape? p.toChar = some b) :
    ∃ e : Escape, .char e.char = p ∧ e.byte = b := by
  cases p with
  | surrogate i => cases h
  | char c =>
    simp only [CodePoint.toChar] at h
    unfold escape? at h
    split at h <;> cases h
    · exact ⟨.lineFeed, rfl, rfl⟩
    · exact ⟨.carriageReturn, rfl, rfl⟩
    · exact ⟨.tab, rfl, rfl⟩
    · exact ⟨.backslash, rfl, rfl⟩
    · exact ⟨.quote, rfl, rfl⟩

/-- A surrogate is no hexadecimal digit. -/
lemma exists_hexDigit_point {p : CodePoint} {k : Nat} (h : hexDigit? p.toChar = some k) :
    ∃ d : HexDigit, .char d.char = p ∧ d.value.val = k := by
  cases p with
  | surrogate i => cases h
  | char c =>
    obtain ⟨d, rfl, hk⟩ := exists_hexDigit h
    exact ⟨d, rfl, hk⟩

lemma exists_item {bytes : List UInt8} (h : IsItem id cs bytes) :
    ∃ item : StringItem, item.text.map .char = cs ∧ item.bytes = bytes := by
  cases h with
  | plain ha hquote hbackslash =>
    obtain rfl := ha
    exact ⟨.plain _ hquote hbackslash, rfl, rfl⟩
  | escape ha h =>
    obtain rfl := ha
    obtain ⟨e, rfl, rfl⟩ := exists_escape h
    exact ⟨.escape e, rfl, rfl⟩
  | @hex a high low b ha h =>
    obtain rfl := ha
    unfold hexByte? at h
    rcases hhigh : hexDigit? high.toChar with _ | x
    · simp [hhigh] at h
    rcases hlow : hexDigit? low.toChar with _ | y
    · simp [hlow] at h
    simp only [id, hhigh, hlow] at h
    obtain ⟨d, rfl, rfl⟩ := exists_hexDigit_point hhigh
    obtain ⟨d', rfl, rfl⟩ := exists_hexDigit_point hlow
    cases h
    exact ⟨.hex d d', rfl, rfl⟩

lemma points_cons (item : StringItem) (items : List StringItem) :
    points (item :: items) = item.text.map .char ++ points items :=
  List.map_append

lemma stringTail_points (items : List StringItem) (rest : List CodePoint) :
    stringTail id start pos (points items ++ rest) =
      (stringTail id start (pos + (texts items).length) rest).map
        fun found => (allBytes items ++ found.1, found.2 + (texts items).length) := by
  induction items generalizing pos with
  | nil =>
    change stringTail id start pos rest =
      (stringTail id start pos rest).map fun found => (found.1, found.2)
    cases stringTail id start pos rest <;> rfl
  | cons item items ih =>
    have htexts : texts (item :: items) = item.text ++ texts items := rfl
    have hbytes : allBytes (item :: items) = item.bytes ++ allBytes items := rfl
    rw [points_cons, htexts, hbytes, List.append_assoc, stringTail_item (isItem item), ih,
      List.length_append, List.length_map, Nat.add_assoc]
    rcases stringTail id start (pos + (item.text.length + (texts items).length)) rest with
      error | found
    · rfl
    · simp only [Except.map, List.append_assoc, Except.ok.injEq, Prod.mk.injEq, true_and]
      omega

/-- Where a sequence of items cannot go on. -/
inductive Stops : List CodePoint → Prop
  | ends : Stops []
  | dangling : Stops [.char '\\']
  | closed (rest : List CodePoint) : Stops (.char '"' :: rest)
  | surrogate (i : Fin 2048) (rest : List CodePoint) : Stops (.surrogate i :: rest)
  | bad {e : CodePoint} {rest : List CodePoint} (he : escape? e.toChar = none)
      (hrest : ∀ d ∈ rest.head?, hexByte? e.toChar d.toChar = none) :
    Stops (.char '\\' :: e :: rest)

/-- Any text is a sequence of items as far as it goes. -/
lemma exists_points (cs : List CodePoint) :
    ∃ items rest, cs = points items ++ rest ∧ Stops rest := by
  induction Token.items id cs with
  | ends => exact ⟨[], [], rfl, .ends⟩
  | dangling ha =>
    obtain rfl := ha
    exact ⟨[], _, rfl, .dangling⟩
  | closed ha rest =>
    obtain rfl := ha
    exact ⟨[], _, rfl, .closed rest⟩
  | @surrogate a i ha rest =>
    obtain rfl := ha
    exact ⟨[], _, rfl, .surrogate i rest⟩
  | bad ha he hrest =>
    obtain rfl := ha
    exact ⟨[], _, rfl, .bad he hrest⟩
  | item h _ ih =>
    obtain ⟨item, rfl, -⟩ := exists_item h
    obtain ⟨items, rest, rfl, hstops⟩ := ih
    exact ⟨item :: items, rest, by rw [points_cons, List.append_assoc], hstops⟩

lemma stringTail_of_closed (items : List StringItem) (after : List CodePoint) :
    stringTail id start pos (points items ++ .char '"' :: after) =
      .ok (allBytes items, (texts items).length + 1) := by
  have hquote : id (CodePoint.char '"') = .char '"' := rfl
  rw [stringTail_points, stringTail_closed hquote]
  simp only [Except.map, List.append_nil, Nat.add_comm]

lemma stringTail_of_surrogate (items : List StringItem) (i : Fin 2048) (after : List CodePoint) :
    stringTail id start pos (points items ++ .surrogate i :: after) = .error (.unencodable i) := by
  have hview : id (CodePoint.surrogate i) = .surrogate i := rfl
  rw [stringTail_points, stringTail_surrogate hview]
  rfl

def packed (items : List StringItem) : Number := (Bytes.pack (allBytes items) : Int)

lemma nextString_of_closed (items : List StringItem) (after : List CodePoint) :
    nextString id pos (points items ++ .char '"' :: after) =
      .ok (.token (.number (packed items)) ((texts items).length + 1)) := by
  rw [nextString, stringTail_of_closed]
  rfl

lemma nextString_of_surrogate (items : List StringItem) (i : Fin 2048) (after : List CodePoint) :
    nextString id pos (points items ++ .surrogate i :: after) = .error (.unencodable i) := by
  rw [nextString, stringTail_of_surrogate]
  rfl

/--
A sequence of items is closed by a quote, or it comes to a surrogate, or it is an invalid literal.
-/
lemma nextString_cases (pos : Nat) (cs : List CodePoint) :
    (∃ items after, cs = points items ++ .char '"' :: after) ∨
    (∃ items i after, cs = points items ++ .surrogate i :: after) ∨
    ∃ fault index, nextString id pos cs = .error (.source fault (some index)) ∧
      fault.inLiteral = true := by
  obtain ⟨items, rest, rfl, hstops⟩ := exists_points cs
  have hinvalid : ∀ {fault : Fault} {index : Int}, fault.inLiteral = true →
      stringTail id pos (pos + 1 + (texts items).length) rest =
        .error (.source fault (some index)) →
      ∃ fault index, nextString id pos (points items ++ rest) =
        .error (.source fault (some index)) ∧ fault.inLiteral = true := by
    intro fault index hliteral hrest
    exact ⟨fault, index, by rw [nextString, stringTail_points, hrest]; rfl, hliteral⟩
  cases hstops with
  | ends => exact .inr (.inr (hinvalid rfl stringTail_nil))
  | dangling => exact .inr (.inr (hinvalid rfl (stringTail_dangling rfl)))
  | closed after => exact .inl ⟨items, after, rfl⟩
  | surrogate i after => exact .inr (.inl ⟨items, i, after, rfl⟩)
  | bad he hrest => exact .inr (.inr (hinvalid rfl (stringTail_bad rfl he hrest)))

lemma nextString_eq_ok_iff {found : Found} : nextString id pos cs = .ok found ↔ ∃ items after,
    cs = points items ++ .char '"' :: after ∧
    found = .token (.number (packed items)) ((texts items).length + 1) := by
  constructor
  · intro h
    rcases nextString_cases pos cs with ⟨items, after, rfl⟩ | ⟨items, i, after, rfl⟩ |
      ⟨fault, index, herror, -⟩
    · rw [nextString_of_closed] at h
      exact ⟨items, after, rfl, (Except.ok.inj h).symm⟩
    · rw [nextString_of_surrogate] at h
      cases h
    · rw [herror] at h
      cases h
  · rintro ⟨items, after, rfl, rfl⟩
    exact nextString_of_closed items after

lemma nextString_eq_unencodable_iff {i : Fin 2048} :
    nextString id pos cs = .error (.unencodable i) ↔ ∃ items after,
      cs = points items ++ .surrogate i :: after := by
  constructor
  · intro h
    rcases nextString_cases pos cs with ⟨items, after, rfl⟩ | ⟨items, j, after, rfl⟩ |
      ⟨fault, index, herror, -⟩
    · rw [nextString_of_closed] at h
      cases h
    · rw [nextString_of_surrogate] at h
      cases h
      exact ⟨items, after, rfl⟩
    · rw [herror] at h
      cases h
  · rintro ⟨items, after, rfl⟩
    exact nextString_of_surrogate items i after

lemma nextString_char (pos : Nat) (cs : List Char) :
    nextString .char pos cs = nextString id pos (cs.map .char) := by
  simp only [nextString, stringTail_map cs]

/-! ### The bytes are shown -/

lemma spells_literal (items : List StringItem) :
    Spells (StringItem.literal items).toList [.number (packed items)] := by
  rw [StringItem.literal, String.toList_ofList]
  refine .one fun pos rest _ => ?_
  have hpoints : (texts items ++ '"' :: rest).map CodePoint.char =
      points items ++ .char '"' :: rest.map .char := List.map_append
  rw [next_quote, List.append_assoc, List.singleton_append, nextString_char, hpoints,
    nextString_of_closed, List.length_append]
  rfl

lemma spells_bytes : Spells ['&'] [.command .bytes] := by
  refine .one fun pos rest _ => ?_
  cases rest <;> rfl

lemma ofSource_literal (items : List StringItem) :
    ofSource (StringItem.literal items ++ " &") =
      .ok [.number (packed items), .command .bytes] := by
  refine Reads.ofSource ?_
  simpa [String.toList_append] using ((spells_literal items).append spells_bytes).reads

end Token

namespace Engine

open StringItem (allBytes)

/-- The bytes of a number on top of the stack are put out, and nothing else is changed. -/
lemma run_bytes_pushed (e : Engine) (fuel : Nat) (v : Number) :
    (e.pushed [.number v]).run (fuel + 2) .bytes = some ⟨.ok [.unpacked v], e⟩ := by
  have hpop : (e.pushed [.number v]).pop e.table.arityOf 0 = (.ok (.literal v), e) :=
    pop_pushed rfl rfl e
  have htable : (e.pushed [.number v]).table = e.table := rfl
  simp only [run, runBy, withTop, htable, hpop]
  rfl

lemma feed_literal (e : Engine) (fuel : Nat) (items : List StringItem) :
    e.feed (fuel + 2) (StringItem.literal items ++ " &") =
      some ⟨.ok [.bytes ((allBytes items).rdropWhile (· = 0))], e⟩ := by
  have hpush : accept (fun e c => e.run (fuel + 2) c) e (.number (Token.packed items)) =
      some ⟨.ok [], e.pushed [.number (Token.packed items)]⟩ := accept_of_push (by simp) (by simp)
  rw [feed_of_ofSource (Token.ofSource_literal items), forEach_cons_of_silent hpush]
  simp only [forEach, accept, run_bytes_pushed, List.append_nil, Token.packed, Output.unpacked_pack]

end Engine

open StringItem (texts points allBytes literal)

/--
**String literals are read along their grammar, and their bytes are shown.** What follows an opening
quote is read iff it is a sequence of items and a quote, whatever comes after that. The literal then
ends with this quote, and its value is the number whose digits in base 256, the lowest first, are
the bytes of the items in order. If the items come to a surrogate before a quote, it is reported
that this has no bytes, and any other text is reported as an invalid literal. A text of characters
is read in the same way. If a literal is fed with the command to show bytes behind it, then the
engine puts out just the bytes of the items without the zeros at their end, and is left as it was.
-/
theorem string_literals_read_and_shown :
    (∀ (pos : Nat) (rest : List CodePoint),
      (∀ found, Token.nextString id pos rest = .ok found ↔ ∃ items after,
        rest = points items ++ .char '"' :: after ∧
        found = .token (.number ((Nat.ofDigits 256 ((allBytes items).map UInt8.toNat) : Nat) : Int))
          ((texts items).length + 1)) ∧
      (∀ i, Token.nextString id pos rest = .error (.unencodable i) ↔ ∃ items after,
        rest = points items ++ .surrogate i :: after) ∧
      ((∀ items after, rest ≠ points items ++ .char '"' :: after) →
        (∀ items i after, rest ≠ points items ++ .surrogate i :: after) →
        ∃ fault index, Token.nextString id pos rest = .error (.source fault (some index)) ∧
          fault.inLiteral = true)) ∧
    (∀ (pos : Nat) (cs : List Char),
      Token.nextString .char pos cs = Token.nextString id pos (cs.map .char)) ∧
    ∀ (e : Engine) (fuel : Nat) (items : List StringItem),
      e.feed (fuel + 2) (literal items ++ " &") =
        some ⟨.ok [.bytes ((allBytes items).rdropWhile (· = 0))], e⟩ := by
  refine ⟨fun pos rest => ⟨fun found => ?_, fun i => Token.nextString_eq_unencodable_iff,
    fun hquote hsurrogate => ?_⟩, Token.nextString_char, Engine.feed_literal⟩
  · simp only [Token.nextString_eq_ok_iff, Token.packed, Bytes.pack_eq_ofDigits]
  · rcases Token.nextString_cases pos rest with ⟨items, after, h⟩ | ⟨items, i, after, h⟩ | h
    · exact absurd h (hquote items after)
    · exact absurd h (hsurrogate items i after)
    · exact h

/-- `é`, a tab, and the bytes 2f and 0 as hexadecimal digits. -/
def mixedItems : List StringItem :=
  [.plain 'é' (by decide) (by decide), .escape .tab, .hex ⟨2, false⟩ ⟨15, true⟩,
    .hex ⟨0, false⟩ ⟨0, false⟩]

def cutShort : List CodePoint := [.char '\\', .char 'a', .char '"']

/-- A literal of all kinds of items, and one that is cut short. -/
theorem mixed_string_literals_read_and_shown :
    (literal mixedItems = "\"é\\t\\2F\\00\"" ∧
      (Engine.new .standard).feed 2 "\"é\\t\\2F\\00\" &" =
        some ⟨.ok [.bytes [0xc3, 0xa9, 9, 0x2f]], Engine.new .standard⟩) ∧
    ((∀ items after, cutShort ≠ points items ++ .char '"' :: after) ∧
      ∀ items i after, cutShort ≠ points items ++ .surrogate i :: after) ∧
    ∃ fault index, Token.nextString id 0 cutShort = .error (.source fault (some index)) ∧
      fault.inLiteral = true := by
  obtain ⟨hread, -, hshown⟩ := string_literals_read_and_shown
  have hliteral : literal mixedItems = "\"é\\t\\2F\\00\"" := by decide +kernel
  have hbytes : (allBytes mixedItems).rdropWhile (· = 0) = [0xc3, 0xa9, 9, 0x2f] := by
    decide +kernel
  have hfeed := hshown (Engine.new .standard) 0 mixedItems
  rw [hliteral, hbytes] at hfeed
  obtain ⟨hok, hunencodable, hinvalid⟩ := hread 0 cutShort
  have herror : Token.nextString id 0 cutShort =
      .error (.source (.invalidEscape (.char 'a')) (some 1)) := rfl
  have hquote : ∀ items after, cutShort ≠ points items ++ .char '"' :: after := by
    intro items after hcs
    have hfound := (hok _).mpr ⟨items, after, hcs, rfl⟩
    rw [herror] at hfound
    cases hfound
  have hsurrogate : ∀ items i after, cutShort ≠ points items ++ .surrogate i :: after := by
    intro items i after hcs
    have hfound := (hunencodable i).mpr ⟨items, after, hcs⟩
    rw [herror] at hfound
    cases hfound
  exact ⟨⟨hliteral, hfeed⟩, ⟨hquote, hsurrogate⟩, hinvalid hquote hsurrogate⟩

/--
A quote, a surrogate and a quote are neither read nor reported as an invalid literal, also if a text
begins with them.
-/
theorem surrogate_not_read_in_literal :
    Token.nextString id 0 [.surrogate 0x4ff, .char '"'] = .error (.unencodable 0x4ff) ∧
    Lexeme.ofPoints [.char '"', .surrogate 0x4ff, .char '"'] = .error (.unencodable 0x4ff) ∧
    (Error.unencodable 0x4ff).message =
      "'utf-8' codec can't encode character '\\udcff' in position 0: surrogates not allowed" ∧
    ∀ (fault : Fault) (pos : Option Int), Error.unencodable 0x4ff ≠ .source fault pos :=
  ⟨rfl, by decide +kernel, by decide +kernel, fun _ _ => by simp⟩

end ReversePolish
