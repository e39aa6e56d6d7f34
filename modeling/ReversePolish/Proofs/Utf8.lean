import Mathlib.Tactic.Lemma
import ReversePolish.Text.Utf8

/-!
Text that was turned into bytes can be read back.

The first byte of a character says how many bytes follow and what the second may be, which rules out
the characters that are written with fewer bytes and those that do not exist. So the bytes of a
character are one piece, and the next piece begins where the next character does.
-/

namespace ReversePolish.Utf8

variable {n : Nat}

/-! ### The first byte -/

lemma lead?_one (h : n ≤ 0x7f) : lead? n = some ⟨n, 0x80, 0xbf, 0⟩ := by
  rw [lead?, if_pos (by omega)]

lemma lead?_two (hlow : 0x7f < n) (hhigh : n ≤ 0x7ff) :
    lead? (n / 64 % 32 + 192) = some ⟨n / 64, 0x80, 0xbf, 1⟩ := by
  have hbits : n / 64 % 32 + 192 - 0xc0 = n / 64 := by omega
  rw [lead?, if_neg (by omega), if_neg (by omega), if_pos (by omega), hbits]

/--
The second of three bytes is within the bounds, since there are no characters from d800 to dfff.
-/
lemma exists_lead_three (hlow : 0x7ff < n) (hhigh : n ≤ 0xffff) (hgap : n < 0xd800 ∨ 0xdfff < n) :
    ∃ low high, lead? (n / 4096 % 16 + 224) = some ⟨n / 4096, low, high, 2⟩ ∧
      low ≤ n / 64 % 64 + 128 ∧ n / 64 % 64 + 128 ≤ high := by
  by_cases hzero : n / 4096 = 0
  · refine ⟨0xa0, 0xbf, ?_, by omega, by omega⟩
    rw [lead?, if_neg (by omega), if_neg (by omega), if_neg (by omega), if_pos (by omega), hzero]
  by_cases hgap' : n / 4096 = 0xd
  · refine ⟨0x80, 0x9f, ?_, by omega, by omega⟩
    rw [lead?, if_neg (by omega), if_neg (by omega), if_neg (by omega), if_neg (by omega),
      if_pos (by omega), hgap']
  · have hbits : n / 4096 % 16 + 224 - 0xe0 = n / 4096 := by omega
    refine ⟨0x80, 0xbf, ?_, by omega, by omega⟩
    rw [lead?, if_neg (by omega), if_neg (by omega), if_neg (by omega), if_neg (by omega),
      if_neg (by omega), if_pos (by omega), hbits]

/-- The second of four bytes is within the bounds, since there are no characters from 110000 on. -/
lemma exists_lead_four (hlow : 0xffff < n) (hhigh : n < 0x110000) :
    ∃ low high, lead? (n / 262144 % 8 + 240) = some ⟨n / 262144, low, high, 3⟩ ∧
      low ≤ n / 4096 % 64 + 128 ∧ n / 4096 % 64 + 128 ≤ high := by
  by_cases hzero : n / 262144 = 0
  · refine ⟨0x90, 0xbf, ?_, by omega, by omega⟩
    rw [lead?, if_neg (by omega), if_neg (by omega), if_neg (by omega), if_neg (by omega),
      if_neg (by omega), if_neg (by omega), if_pos (by omega), hzero]
  by_cases hfour : n / 262144 = 4
  · refine ⟨0x80, 0x8f, ?_, by omega, by omega⟩
    rw [lead?, if_neg (by omega), if_neg (by omega), if_neg (by omega), if_neg (by omega),
      if_neg (by omega), if_neg (by omega), if_neg (by omega), if_neg (by omega), if_pos (by omega),
      hfour]
  · have hbits : n / 262144 % 8 + 240 - 0xf0 = n / 262144 := by omega
    refine ⟨0x80, 0xbf, ?_, by omega, by omega⟩
    rw [lead?, if_neg (by omega), if_neg (by omega), if_neg (by omega), if_neg (by omega),
      if_neg (by omega), if_neg (by omega), if_neg (by omega), if_pos (by omega), hbits]

/-! ### The bytes that follow -/

lemma takePiece_good {bits low high follow size x : Nat} (hlow : low ≤ x + 128)
    (hhigh : x + 128 ≤ high) (hx : x < 64) (bs : List UInt8) :
    takePiece bits low high (follow + 1) size (UInt8.ofNat (x + 128) :: bs) =
      takePiece (64 * bits + x) 0x80 0xbf follow (size + 1) bs := by
  have hbyte : (UInt8.ofNat (x + 128)).toNat = x + 128 := by
    rw [UInt8.toNat_ofNat']
    omega
  rw [takePiece, hbyte]
  simp [hlow, hhigh]

lemma takePiece_next {bits follow size x : Nat} (hx : x < 64) (bs : List UInt8) :
    takePiece bits 0x80 0xbf (follow + 1) size (UInt8.ofNat (x + 128) :: bs) =
      takePiece (64 * bits + x) 0x80 0xbf follow (size + 1) bs :=
  takePiece_good (by omega) (by omega) hx bs

/-- The first piece of what begins with the bytes of a character is this character. -/
lemma exists_firstPiece (c : Char) (rest : List UInt8) : ∃ b bs, String.utf8EncodeChar c = b :: bs ∧
    firstPiece b (bs ++ rest) = .char c (bs.length + 1) := by
  have hchar : Char.ofNat c.val.toNat = c := Char.ofNat_toNat c
  have hvalid : c.val.toNat < 0xd800 ∨ 0xdfff < c.val.toNat ∧ c.val.toNat < 0x110000 := c.valid
  unfold String.utf8EncodeChar
  generalize c.val.toNat = n at hchar hvalid
  have hbyte : ∀ x < 256, (UInt8.ofNat x).toNat = x := by
    intro x hx
    rw [UInt8.toNat_ofNat']
    omega
  dsimp only
  -- by the number of bytes; the first of three or four also bounds the second
  split
  · next h =>
    refine ⟨_, _, rfl, ?_⟩
    rw [firstPiece, hbyte _ (by omega), lead?_one h]
    simp [takePiece, hchar]
  split
  · next hlow hhigh =>
    have hbits : 64 * (n / 64) + n % 64 = n := by omega
    refine ⟨_, _, rfl, ?_⟩
    rw [firstPiece, hbyte _ (by omega), lead?_two (by omega) hhigh]
    simp only [List.cons_append, List.nil_append]
    rw [takePiece_next (by omega), hbits, takePiece, hchar]
    rfl
  split
  · next hlow hhigh =>
    have hbits : 64 * (64 * (n / 4096) + n / 64 % 64) + n % 64 = n := by omega
    obtain ⟨low, high, hlead, hl, hh⟩ := exists_lead_three (n := n) (by omega) hhigh (by omega)
    refine ⟨_, _, rfl, ?_⟩
    rw [firstPiece, hbyte _ (by omega), hlead]
    simp only [List.cons_append, List.nil_append]
    rw [takePiece_good hl hh (by omega), takePiece_next (by omega), hbits, takePiece, hchar]
    rfl
  · next hlow =>
    have hbits : 64 * (64 * (64 * (n / 262144) + n / 4096 % 64) + n / 64 % 64) + n % 64 = n := by
      omega
    obtain ⟨low, high, hlead, hl, hh⟩ := exists_lead_four (n := n) (by omega) (by omega)
    refine ⟨_, _, rfl, ?_⟩
    rw [firstPiece, hbyte _ (by omega), hlead]
    simp only [List.cons_append, List.nil_append]
    rw [takePiece_good hl hh (by omega), takePiece_next (by omega), takePiece_next (by omega),
      hbits, takePiece, hchar]
    rfl

/-! ### Whole texts -/

lemma pieces_encode (c : Char) (rest : List UInt8) :
    ∃ size, pieces (String.utf8EncodeChar c ++ rest) = .char c size :: pieces rest := by
  obtain ⟨b, bs, hbytes, hpiece⟩ := exists_firstPiece c rest
  refine ⟨bs.length + 1, ?_⟩
  rw [hbytes, List.cons_append, pieces, hpiece]
  simp [Piece.size]

lemma characters_pieces (bytes : List UInt8) (pos : Nat) (cs : List Char) :
    characters bytes pos (pieces (cs.flatMap String.utf8EncodeChar)) = .ok cs := by
  induction cs generalizing pos with
  | nil => simp [pieces, characters]
  | cons c cs ih =>
    obtain ⟨size, hpieces⟩ := pieces_encode c (cs.flatMap String.utf8EncodeChar)
    rw [List.flatMap_cons, hpieces, characters, ih]
    rfl

lemma decode_encode (s : String) : decode (encode s) = .ok s.toList :=
  characters_pieces _ 0 s.toList

/-- Whatever stands for the pieces that are no characters, sound bytes have none of them. -/
lemma map_of_characters {shown : Piece → Char} (hshown : ∀ c size, shown (.char c size) = c)
    {bytes : List UInt8} {pos : Nat} {ps : List Piece} {cs : List Char}
    (h : characters bytes pos ps = .ok cs) : ps.map shown = cs := by
  induction ps generalizing pos cs with
  | nil =>
    cases h
    rfl
  | cons p ps ih =>
    cases p with
    | bad reason size => cases h
    | char c size =>
      rw [characters] at h
      rcases hps : characters bytes (pos + size) ps with fault | cs'
      · rw [hps] at h
        cases h
      · rw [hps] at h
        cases h
        rw [List.map_cons, hshown, ih hps]

lemma decodeLossy_of_decode {bytes : List UInt8} {cs : List Char} (h : decode bytes = .ok cs) :
    decodeLossy bytes = String.ofList cs := by
  rw [decodeLossy, map_of_characters (fun _ _ => rfl) h]

lemma decodeLossy_encode (s : String) : decodeLossy (encode s) = s := by
  rw [decodeLossy_of_decode (decode_encode s), String.ofList_toList]

/-! ### The last byte -/

/-- The last byte of a character is zero only if the character is. -/
lemma getLast?_encodeChar {c : Char} (h : c ≠ '\x00') :
    (String.utf8EncodeChar c).getLast? ≠ some 0 := by
  have hc : Char.ofNat c.val.toNat = c := Char.ofNat_toNat c
  have hvalid : c.val.toNat < 0xd800 ∨ 0xdfff < c.val.toNat ∧ c.val.toNat < 0x110000 := c.valid
  have hbyte : ∀ x < 256, x ≠ 0 → UInt8.ofNat x ≠ 0 := by
    intro x hx hne hzero
    have hnat := congrArg UInt8.toNat hzero
    rw [UInt8.toNat_ofNat', UInt8.toNat_zero] at hnat
    omega
  have hne : c.val.toNat ≠ 0 := by
    intro hzero
    rw [hzero] at hc
    exact h hc.symm
  unfold String.utf8EncodeChar
  generalize c.val.toNat = n at hne hvalid
  dsimp only
  intro hlast
  -- a character of one byte is that byte, and the last of several bytes is at least 128
  split at hlast
  · exact hbyte n (by omega) hne (Option.some.inj hlast)
  split at hlast
  · exact hbyte _ (by omega) (by omega) (Option.some.inj hlast)
  split at hlast
  · exact hbyte _ (by omega) (by omega) (Option.some.inj hlast)
  · exact hbyte _ (by omega) (by omega) (Option.some.inj hlast)

lemma getLast?_encode {s : String} (h : s.toList.getLast? ≠ some '\x00') :
    (encode s).getLast? ≠ some 0 := by
  unfold encode
  rcases List.eq_nil_or_concat s.toList with hnil | ⟨init, c, hs⟩
  · rw [hnil]
    simp
  · rw [List.concat_eq_append] at hs
    rw [hs, List.getLast?_concat] at h
    have hc := getLast?_encodeChar fun hc => h (congrArg some hc)
    have hbytes : (init ++ [c]).flatMap String.utf8EncodeChar =
        init.flatMap String.utf8EncodeChar ++ String.utf8EncodeChar c := by simp
    obtain ⟨b, bs, hb, -⟩ := exists_firstPiece c []
    have hsome : (String.utf8EncodeChar c).getLast?.isSome = true := by simp [hb]
    rw [hs, hbytes, List.getLast?_append, Option.or_of_isSome hsome]
    exact hc

end ReversePolish.Utf8
