import Mathlib.Algebra.Order.Ring.Unbundled.Rat
import Mathlib.Data.List.DropRight
import Mathlib.Data.Nat.Digits.Lemmas
import Mathlib.Data.Nat.Size
import ReversePolish.Engine

/-!
Bytes pack into a number, and the number unpacks into bytes.

The bytes are the digits of the number in base 256. A number does not tell how many zeros its last
digit is followed by, and unpacking writes none of them. So packing and unpacking undo each other
but for zeros at the end of the bytes, and for the sign of the number.
-/

namespace ReversePolish

namespace Bytes

variable (bytes more : List UInt8) (level n : Nat)

/-! ### Packing -/

lemma pack_eq_ofDigits : pack bytes = Nat.ofDigits 256 (bytes.map UInt8.toNat) := by
  induction bytes with
  | nil => rfl
  | cons b bytes ih => rw [pack, List.map_cons, Nat.ofDigits_cons, ih]

lemma pack_append : pack (bytes ++ more) = pack bytes + 256 ^ bytes.length * pack more := by
  rw [pack_eq_ofDigits, List.map_append, Nat.ofDigits_append, List.length_map, ← pack_eq_ofDigits,
    ← pack_eq_ofDigits]

lemma pack_eq_zero (h : ∀ b ∈ bytes, b = 0) : pack bytes = 0 := by
  induction bytes with
  | nil => rfl
  | cons b bytes ih =>
    have hb : b = 0 := h b (by simp)
    have hbytes := ih fun c hc => h c (List.mem_cons_of_mem _ hc)
    rw [pack, hb, hbytes]
    rfl

/-! ### Zeros at the end -/

lemma trim_eq_rdropWhile : trim bytes = bytes.rdropWhile (· = 0) := rfl

lemma getLast?_trim : (trim bytes).getLast? ≠ some 0 := by
  intro h
  have hne : trim bytes ≠ [] := by
    intro hnil
    rw [hnil] at h
    cases h
  have hlast := List.rdropWhile_last_not (fun b => decide (b = 0)) bytes hne
  rw [List.getLast?_eq_some_getLast hne, Option.some.injEq] at h
  exact hlast (decide_eq_true h)

lemma pack_trim : pack (trim bytes) = pack bytes := by
  have hzero : pack (bytes.rtakeWhile (· = 0)) = 0 :=
    pack_eq_zero _ fun b hb => by simpa using List.mem_rtakeWhile_imp hb
  have hsplit : trim bytes ++ bytes.rtakeWhile (· = 0) = bytes :=
    List.rdropWhile_append_rtakeWhile ..
  have hpack := pack_append (trim bytes) (bytes.rtakeWhile (· = 0))
  rw [hsplit, hzero] at hpack
  omega

/-! ### Unpacking -/

lemma length_lowest : (lowest level n).length = 2 ^ level := by
  induction level generalizing n with
  | zero => rfl
  | succ level ih =>
    rw [lowest, List.length_append, ih, ih]
    omega

lemma pack_lowest : pack (lowest level n) = n % 256 ^ 2 ^ level := by
  induction level generalizing n with
  | zero => simp [lowest, pack, UInt8.toNat_ofNat']
  | succ level ih =>
    have hhalf : Nat.pow 256 (Nat.pow 2 level) = 256 ^ 2 ^ level := rfl
    have hwhole : 256 ^ 2 ^ (level + 1) = 256 ^ 2 ^ level * 256 ^ 2 ^ level := by
      rw [← pow_add, pow_succ, mul_two]
    rw [lowest, hhalf, pack_append, length_lowest, ih, ih, Nat.mod_mod, hwhole, Nat.mod_mul]

/-- The number has no more bytes than unpacking looks at. -/
lemma lt_pow_level : n < 256 ^ 2 ^ (Nat.log2 (Nat.log2 n / 8) + 1) := by
  have hn : n < 2 ^ (Nat.log2 n + 1) := Nat.lt_log2_self
  have hlog : Nat.log2 n / 8 < 2 ^ (Nat.log2 (Nat.log2 n / 8) + 1) := Nat.lt_log2_self
  generalize 2 ^ (Nat.log2 (Nat.log2 n / 8) + 1) = count at hlog
  calc
    n < 2 ^ (Nat.log2 n + 1) := hn
    _ ≤ 2 ^ (8 * count) := Nat.pow_le_pow_right (by omega) (by omega)
    _ = 256 ^ count := pow_mul 2 8 count

lemma pack_unpack : pack (unpack n) = n := by
  rw [unpack, pack_trim, pack_lowest, Nat.mod_eq_of_lt (lt_pow_level n)]

lemma getLast?_unpack : (unpack n).getLast? ≠ some 0 := getLast?_trim _

/-- Bytes without a zero at the end are all digits of the number that they pack into. -/
lemma digits_pack {bytes : List UInt8} (h : bytes.getLast? ≠ some 0) :
    Nat.digits 256 (pack bytes) = bytes.map UInt8.toNat := by
  rw [pack_eq_ofDigits]
  refine Nat.digits_ofDigits 256 (by decide) _ ?_ ?_
  · intro d hd
    obtain ⟨b, -, rfl⟩ := List.mem_map.mp hd
    exact b.toNat_lt
  · intro hne hlast
    have hne' : bytes ≠ [] := by simpa using hne
    rw [List.getLast_map] at hlast
    have hzero : bytes.getLast hne' = 0 := UInt8.toNat_inj.mp hlast
    exact h (by rw [List.getLast?_eq_some_getLast hne', hzero])

lemma digits_eq_map_unpack : Nat.digits 256 n = (unpack n).map UInt8.toNat := by
  rw [← digits_pack (getLast?_unpack n), pack_unpack]

lemma unpack_pack : unpack (pack bytes) = trim bytes := by
  have hdigits : (unpack (pack bytes)).map UInt8.toNat = (trim bytes).map UInt8.toNat := by
    rw [← digits_eq_map_unpack, ← digits_pack (getLast?_trim bytes), pack_trim]
  exact List.map_injective_iff.mpr (fun _ _ => UInt8.toNat_inj.mp) hdigits

lemma unpack_inj {m n : Nat} : unpack m = unpack n ↔ m = n := by
  constructor
  · intro h
    rw [← pack_unpack m, h, pack_unpack]
  · rintro rfl
    rfl

lemma length_unpack : (unpack n).length = (n.size + 7) / 8 := by
  -- both sides are at most the same numbers
  refine eq_of_forall_ge_iff fun count => ?_
  calc
    (unpack n).length ≤ count ↔ (Nat.digits 256 n).length ≤ count := by
      rw [digits_eq_map_unpack, List.length_map]
    _ ↔ n < 256 ^ count := Nat.digits_length_le_iff (by decide) n
    _ ↔ n < 2 ^ (8 * count) := by rw [pow_mul 2 8 count]; rfl
    _ ↔ n.size ≤ 8 * count := Nat.size_le.symm
    _ ↔ (n.size + 7) / 8 ≤ count := by omega

end Bytes

/-! ### Bytes as outputs -/

namespace Output

open Bytes (pack unpack)

variable {v w : Number}

lemma unpacked_of_isInteger (h : v.isInteger = true) :
    unpacked v = .bytes (unpack v.num.natAbs) := by
  rw [unpacked, Bytes.ofNumber?, if_pos h]

lemma unpacked_pack (bytes : List UInt8) :
    unpacked (pack bytes : Int) = .bytes (bytes.rdropWhile (· = 0)) := by
  have hinteger : Number.isInteger (pack bytes : Int) = true := rfl
  rw [unpacked_of_isInteger hinteger, Rat.num_intCast, Int.natAbs_natCast, Bytes.unpack_pack,
    Bytes.trim_eq_rdropWhile]

lemma natAbs_num_eq_abs (h : v.isInteger = true) : ((v.num.natAbs : Int) : Number) = |v| := by
  have hden : v.den = 1 := by simpa [Number.isInteger] using h
  rw [Rat.abs_def, hden, Nat.cast_one, Rat.divInt_one]

/--
**Packing and unpacking undo each other** but for zeros at the end and for the sign. The number that
bytes pack into is put out as these bytes without the zeros at their end, hence as the bytes
themselves iff there are none or the last is not zero. An integer is put out as bytes, as many as
its bits fill, of which the last is not zero, and these pack into its absolute value. So two
integers are put out alike iff they have the same absolute value. A number that is no integer is put
out as it is.
-/
theorem pack_and_unpack_undo_each_other :
    (∀ bytes : List UInt8, unpacked (pack bytes : Int) = .bytes (bytes.rdropWhile (· = 0)) ∧
      (unpacked (pack bytes : Int) = .bytes bytes ↔
        bytes = [] ∨ ∃ b, bytes.getLast? = some b ∧ b ≠ 0)) ∧
    (∀ v : Number, v.isInteger = true → ∃ bytes, unpacked v = .bytes bytes ∧
      bytes.length = (v.num.natAbs.size + 7) / 8 ∧ bytes.getLast? ≠ some 0 ∧
      ((pack bytes : Int) : Number) = |v|) ∧
    (∀ v w : Number, v.isInteger = true → w.isInteger = true →
      (unpacked v = unpacked w ↔ |v| = |w|)) ∧
    ∀ v : Number, v.isInteger = false → unpacked v = .value v := by
  refine ⟨fun bytes => ⟨unpacked_pack bytes, ?_⟩, fun v hv => ?_, fun v w hv hw => ?_,
    fun v hv => ?_⟩
  · rw [unpacked_pack, Output.bytes.injEq, List.rdropWhile_eq_self_iff]
    rcases List.eq_nil_or_concat bytes with rfl | ⟨init, b, rfl⟩ <;> simp
  · refine ⟨unpack v.num.natAbs, unpacked_of_isInteger hv, Bytes.length_unpack _,
      Bytes.getLast?_unpack _, ?_⟩
    rw [Bytes.pack_unpack, natAbs_num_eq_abs hv]
  · rw [unpacked_of_isInteger hv, unpacked_of_isInteger hw, Output.bytes.injEq, Bytes.unpack_inj,
      ← natAbs_num_eq_abs hv, ← natAbs_num_eq_abs hw]
    exact_mod_cast Iff.rfl
  · rw [unpacked, Bytes.ofNumber?, hv]
    rfl

/-- A zero within the bytes stays, one at the end goes, and so does the sign. -/
theorem zeros_pack_and_unpack_undo_each_other :
    unpacked (pack [0, 7, 0] : Int) = .bytes [0, 7] ∧
    (Number.isInteger (-256) = true ∧ Number.isInteger 256 = true ∧ unpacked (-256) = unpacked 256 ∧
      ∃ bytes, unpacked (-256) = .bytes bytes ∧ bytes.length = 2 ∧
        ((pack bytes : Int) : Number) = 256) ∧
    Number.isInteger (1 / 2) = false ∧ unpacked (1 / 2) = .value (1 / 2) := by
  obtain ⟨hbytes, hintegers, habs, hothers⟩ := pack_and_unpack_undo_each_other
  have hneg : Number.isInteger (-256) = true := rfl
  have hpos : Number.isInteger 256 = true := rfl
  have hhalf : Number.isInteger (1 / 2) = false := by decide +kernel
  obtain ⟨bytes, hout, hlength, -, hpack⟩ := hintegers (-256) hneg
  refine ⟨(hbytes [0, 7, 0]).1,
    ⟨hneg, hpos, (habs _ _ hneg hpos).mpr (by decide), bytes, hout, ?_, ?_⟩, hhalf,
    hothers _ hhalf⟩
  · rw [hlength]
    decide
  · rw [hpack]
    decide

end Output

end ReversePolish
