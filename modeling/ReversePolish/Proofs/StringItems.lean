import ReversePolish.Proofs.Reading

/-!
The items of a string literal.

What follows an opening quote is a sequence of items, each of which stands for some bytes: a plain
character, a character behind a backslash, or two hexadecimal digits behind one. The sequence goes
on up to a closing quote, to a surrogate, to a backslash with which no item begins, or to the end of
the text. All that is said of the reading of string literals is proved along this sequence, for
texts of characters and of code points alike.
-/

namespace ReversePolish.Token

section

variable {α : Type} (view : α → CodePoint)

/-- What stands for bytes in a string literal. -/
inductive IsItem : List α → List UInt8 → Prop
  | plain {a : α} {c : Char} (ha : view a = .char c) (hq : c ≠ '"') (hb : c ≠ '\\') :
    IsItem [a] (String.utf8EncodeChar c)
  | escape {a e : α} {b : UInt8} (ha : view a = .char '\\')
      (h : escape? (view e).toChar = some b) : IsItem [a, e] [b]
  | hex {a high low : α} {b : UInt8} (ha : view a = .char '\\')
      (h : hexByte? (view high).toChar (view low).toChar = some b) : IsItem [a, high, low] [b]

inductive Items : List α → Prop
  | ends : Items []
  /-- A backslash is the last character of the text. -/
  | dangling {a : α} (ha : view a = .char '\\') : Items [a]
  | closed {a : α} (ha : view a = .char '"') (rest : List α) : Items (a :: rest)
  | surrogate {a : α} {i : Fin 2048} (ha : view a = .surrogate i) (rest : List α) :
    Items (a :: rest)
  | bad {a e : α} {rest : List α} (ha : view a = .char '\\')
      (he : escape? (view e).toChar = none)
      (hrest : ∀ d ∈ rest.head?, hexByte? (view e).toChar (view d).toChar = none) :
    Items (a :: e :: rest)
  | item {item rest : List α} {bytes : List UInt8} (h : IsItem view item bytes)
      (hrest : Items rest) : Items (item ++ rest)

end

variable {α : Type} {view : α → CodePoint} {start pos : Nat} {as item rest : List α} {a e : α}
  {bytes : List UInt8} {found : List UInt8 × Nat}

/-- No hexadecimal digit has a meaning of its own behind a backslash. -/
lemma escape?_of_hexByte? {high low : Char} {b : UInt8} (h : hexByte? high low = some b) :
    escape? high = none := by
  unfold escape?
  split
  · simp [hexByte?, hexDigit?] at h
  · simp [hexByte?, hexDigit?] at h
  · simp [hexByte?, hexDigit?] at h
  · simp [hexByte?, hexDigit?] at h
  · simp [hexByte?, hexDigit?] at h
  · rfl

/-! ### One step -/

lemma stringTail_nil :
    stringTail view start pos [] = .error (.source .unterminatedString (some start)) := by
  rw [stringTail.eq_def]

lemma stringTail_dangling (ha : view a = .char '\\') :
    stringTail view start pos [a] = .error (.source .unterminatedString (some start)) := by
  rw [stringTail.eq_def]
  simp [ha]

lemma stringTail_closed (ha : view a = .char '"') (rest : List α) :
    stringTail view start pos (a :: rest) = .ok ([], 1) := by
  rw [stringTail.eq_def]
  simp [ha]

lemma stringTail_surrogate {i : Fin 2048} (ha : view a = .surrogate i) (rest : List α) :
    stringTail view start pos (a :: rest) = .error (.unencodable i) := by
  rw [stringTail.eq_def]
  simp [ha]

lemma stringTail_bad (ha : view a = .char '\\') (he : escape? (view e).toChar = none)
    (hrest : ∀ d ∈ rest.head?, hexByte? (view e).toChar (view d).toChar = none) :
    stringTail view start pos (a :: e :: rest) =
      .error (.source (.invalidEscape (view e)) (some pos)) := by
  rw [stringTail.eq_def]
  cases rest with
  | nil => simp [ha, he]
  | cons d rest => simp [ha, he, hrest d rfl]

lemma stringTail_item (h : IsItem view item bytes) (rest : List α) :
    stringTail view start pos (item ++ rest) =
      (stringTail view start (pos + item.length) rest).map
        fun found => (bytes ++ found.1, found.2 + item.length) := by
  cases h with
  | plain ha hq hb =>
    rw [List.singleton_append, stringTail.eq_def]
    simp only [ha, hq, hb, if_false, List.length_singleton]
    rcases stringTail view start (pos + 1) rest with error | ⟨bytes, size⟩ <;> rfl
  | escape ha h =>
    rw [stringTail.eq_def]
    simp only [List.cons_append, List.nil_append, ha, h]
    rcases stringTail view start (pos + 2) rest with error | ⟨bytes, size⟩ <;> rfl
  | hex ha h =>
    rw [stringTail.eq_def]
    simp only [List.cons_append, List.nil_append, ha, escape?_of_hexByte? h, h]
    rcases stringTail view start (pos + 3) rest with error | ⟨bytes, size⟩ <;> rfl

/-! ### All steps -/

/-- Whatever follows an opening quote, it is such a sequence. -/
lemma items (view : α → CodePoint) (as : List α) : Items view as := by
  fun_induction stringTail view 0 0 as with
  | case1 => exact .ends
  | case2 pos a rest i ha => exact .surrogate ha rest
  | case3 pos a rest ha => exact .closed ha rest
  | case4 pos a ha => exact .dangling ha
  | case5 pos a e rest b hb ha _ ih => exact .item (.escape ha hb) ih
  | case6 pos a e he ha => exact .bad ha he (by simp)
  | case7 pos a high _ low rest b hb ha _ ih => exact .item (.hex ha hb) ih
  | case8 pos a e he d rest hd ha => exact .bad ha he (by simpa using hd)
  | case9 pos a rest c ha hq hb ih => exact .item (.plain ha hq hb) ih

/-- A string literal is closed by the last of the characters that it covers, whatever follows. -/
lemma exists_stringTail (h : stringTail view start pos as = .ok found) :
    ∃ tail after, as = tail ++ after ∧ tail.length = found.2 ∧
      ∀ rest, stringTail view start pos (tail ++ rest) = .ok found := by
  -- of the four ways in which a sequence of items can stop only the quote is no error
  induction items view as generalizing pos found with
  | ends =>
    rw [stringTail_nil] at h
    cases h
  | dangling ha =>
    rw [stringTail_dangling ha] at h
    cases h
  | @closed a ha rest =>
    rw [stringTail_closed ha] at h
    cases h
    exact ⟨[a], rest, rfl, rfl, stringTail_closed ha⟩
  | surrogate ha rest =>
    rw [stringTail_surrogate ha] at h
    cases h
  | bad ha he hrest =>
    rw [stringTail_bad ha he hrest] at h
    cases h
  | @item item rest bytes hitem _ ih =>
    rw [stringTail_item hitem] at h
    rcases hs : stringTail view start (pos + item.length) rest with error | found'
    · rw [hs] at h
      cases h
    · rw [hs] at h
      cases h
      obtain ⟨tail, after, rfl, hlength, htail⟩ := ih hs
      refine ⟨item ++ tail, after, (List.append_assoc _ _ _).symm, ?_, fun rest => ?_⟩
      · rw [List.length_append, hlength, Nat.add_comm]
      · rw [List.append_assoc, stringTail_item hitem, htail]
        rfl

/-- A literal that is closed is read alike whatever comes after it, and covers nothing of that. -/
lemma stringTail_append (h : stringTail view start pos as = .ok found) (after : List α) :
    stringTail view start pos (as ++ after) = .ok found ∧ found.2 ≤ as.length := by
  obtain ⟨tail, rest, rfl, hlength, htail⟩ := exists_stringTail h
  rw [List.append_assoc, List.length_append, ← hlength]
  exact ⟨htail _, Nat.le_add_right _ _⟩

lemma IsItem.map (h : IsItem view item bytes) : IsItem id (item.map view) bytes := by
  cases h with
  | plain ha hq hb => exact .plain ha hq hb
  | escape ha h => exact .escape ha h
  | hex ha h => exact .hex ha h

lemma stringTail_map (as : List α) :
    stringTail view start pos as = stringTail id start pos (as.map view) := by
  induction items view as generalizing pos with
  | ends => rw [List.map_nil, stringTail_nil, stringTail_nil]
  | @dangling a ha =>
    have hid : id (view a) = .char '\\' := ha
    rw [stringTail_dangling ha, List.map_singleton, stringTail_dangling hid]
  | @closed a ha rest =>
    have hid : id (view a) = .char '"' := ha
    rw [stringTail_closed ha, List.map_cons, stringTail_closed hid]
  | @surrogate a i ha rest =>
    have hid : id (view a) = .surrogate i := ha
    rw [stringTail_surrogate ha, List.map_cons, stringTail_surrogate hid]
  | @bad a e rest ha he hrest =>
    have hid : id (view a) = .char '\\' := ha
    have hhead : ∀ d ∈ (rest.map view).head?,
        hexByte? (id (view e)).toChar (id d).toChar = none := by
      intro d hd
      rw [List.head?_map] at hd
      obtain ⟨d', hd', rfl⟩ := Option.map_eq_some_iff.mp hd
      exact hrest d' hd'
    rw [stringTail_bad ha he hrest, List.map_cons, List.map_cons, stringTail_bad hid he hhead, id]
  | @item item rest bytes hitem _ ih =>
    rw [List.map_append, stringTail_item hitem, stringTail_item hitem.map, ih, List.length_map]

end ReversePolish.Token
