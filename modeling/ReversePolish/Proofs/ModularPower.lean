import Mathlib.Data.Rat.Floor
import Mathlib.Data.Int.ModEq
import ReversePolish.Proofs.Packing

/-!
The modular power is the remainder of the power.

The remainder is squared for each bit of the exponent, and multiplied by the base where the bit is
set; what it comes to after some of the bits is the remainder of the power that these bits alone
would give. The bits are those of the bytes that the exponent unpacks into.
-/

namespace ReversePolish

namespace Bytes

/-! ### The bits of a number -/

lemma ofDigits_testBit (n count : Nat) :
    Nat.ofDigits 2 (((List.range count).map n.testBit).map Bool.toNat) = n % 2 ^ count := by
  induction count with
  | zero => simp [Nat.mod_one]
  | succ count ih =>
    rw [List.range_succ, List.map_append, List.map_append, Nat.ofDigits_append, ih,
      Nat.mod_pow_succ]
    simp [Nat.toNat_testBit]

/-- The bits of bytes stand for the number that the bytes pack into. -/
lemma ofDigits_flatMap_testBit (bytes : List UInt8) :
    Nat.ofDigits 2 ((bytes.flatMap fun b => (List.range 8).map b.toNat.testBit).map Bool.toNat) =
      pack bytes := by
  induction bytes with
  | nil => rfl
  | cons b bytes ih =>
    have hb : b.toNat % 2 ^ 8 = b.toNat := Nat.mod_eq_of_lt b.toNat_lt
    rw [List.flatMap_cons, List.map_append, Nat.ofDigits_append, ofDigits_testBit, hb, ih, pack]
    simp

lemma ofDigits_bits (n : Nat) : Nat.ofDigits 2 ((bits n).map Bool.toNat) = n := by
  rw [bits, ofDigits_flatMap_testBit, pack_unpack]

end Bytes

namespace Number

/-! ### Powers and their remainders -/

/-- With one more bit at its lower end an exponent is doubled, and one more if the bit is set. -/
lemma residue_step (b m k : Nat) (bit : Bool) :
    (if bit then b * (b ^ k % m * (b ^ k % m) % m) % m else b ^ k % m * (b ^ k % m) % m) =
      b ^ (bit.toNat + 2 * k) % m := by
  have hsquare : b ^ k % m * (b ^ k % m) % m = b ^ (2 * k) % m := by
    rw [← Nat.mul_mod, ← pow_add, two_mul]
  cases bit with
  | false =>
    rw [Bool.toNat_false, Nat.zero_add, ← hsquare]
    rfl
  | true =>
    rw [Bool.toNat_true, pow_add, pow_one, if_pos rfl, hsquare, Nat.mul_mod_mod]

lemma foldr_residue (b m : Nat) (bits : List Bool) :
    bits.foldr (fun bit r => if bit then b * (r * r % m) % m else r * r % m) (1 % m) =
      b ^ Nat.ofDigits 2 (bits.map Bool.toNat) % m := by
  induction bits with
  | nil => simp
  | cons bit bits ih => rw [List.foldr_cons, ih, residue_step, List.map_cons, Nat.ofDigits_cons]

lemma residuePower_eq (b e m : Nat) : residuePower b e m = b ^ e % m := by
  rw [residuePower, foldr_residue, Bytes.ofDigits_bits]

lemma eq_of_natAbs_le_one {a : Number} (hint : a.isInteger = true) (h : a.num.natAbs ≤ 1) :
    a = 0 ∨ a = 1 ∨ a = -1 := by
  have hden : a.den = 1 := by simpa [isInteger] using hint
  have ha : ((a.num : ℤ) : ℚ) = a := Rat.coe_int_num_of_den_eq_one hden
  have hnum : a.num = 0 ∨ a.num = 1 ∨ a.num = -1 := by omega
  rcases hnum with hnum | hnum | hnum <;> rw [← ha, hnum] <;> simp

/-- The short ways for 0, 1 and -1 lead to the power too. -/
lemma power_eq_pow (a : Number) (n : Nat) : a.power n = a ^ n := by
  unfold power
  split
  · next h =>
    rw [Bool.and_eq_true, decide_eq_true_eq] at h
    have hsmall := eq_of_natAbs_le_one h.1 h.2
    split
    · next hn => rw [hn, pow_zero]
    split
    · next hn heven =>
      have hn' : Even n := Nat.even_iff.mpr heven
      rcases hsmall with rfl | rfl | rfl
      · rw [zero_pow hn, zero_mul]
      · rw [one_pow, one_mul]
      · rw [hn'.neg_one_pow, neg_mul_neg, one_mul]
    · next hn hodd =>
      have hn' : Odd n := Nat.not_even_iff_odd.mp fun heven => hodd (Nat.even_iff.mp heven)
      rcases hsmall with rfl | rfl | rfl
      · rw [zero_pow hn]
      · rw [one_pow]
      · rw [hn'.neg_one_pow]
  · rfl

lemma floorAbs_eq_floor_abs (a : Number) : (a.floorAbs : ℤ) = ⌊|a|⌋ := by
  rw [Rat.floor_def', Rat.num_abs_eq_abs_num, Rat.den_abs_eq_den, floorAbs, Int.abs_eq_natAbs]
  rfl

/-- The remainder that is found is that of the power of the base before it was reduced. -/
lemma modularPower_eq_ok {a e m : Number} (hm : m.floorAbs ≠ 0) :
    a.modularPower e m = .ok ((⌊a⌋ ^ e.floorAbs % m.floorAbs : ℤ) : ℚ) := by
  have hpos : (0 : ℤ) < m.floorAbs := by omega
  have hbase : (((⌊a⌋ % m.floorAbs).toNat : ℕ) : ℤ) = ⌊a⌋ % m.floorAbs :=
    Int.toNat_of_nonneg (Int.emod_nonneg _ hpos.ne')
  have hfloor : a.floor = ⌊a⌋ := rfl
  have hpower : (((⌊a⌋ % m.floorAbs).toNat ^ e.floorAbs % m.floorAbs : ℕ) : ℤ) =
      ⌊a⌋ ^ e.floorAbs % m.floorAbs := by
    rw [Int.natCast_mod, Nat.cast_pow, hbase]
    exact (Int.mod_modEq _ _).pow _
  simp only [modularPower, if_neg hm, residuePower_eq, hfloor, hpower]

lemma floorQuotient_eq_ok {a b : Number} (hb : b ≠ 0) : a.floorQuotient b = .ok (⌊a / b⌋ : ℤ) := by
  rw [floorQuotient, if_neg hb]
  rfl

lemma modularPower_eq_error_showing {a e m : Number} (hm : m.floorAbs = 0) :
    a.modularPower e m = .error (if a.fits = true then .modulusZero a else .unwritable) := by
  simp only [modularPower, if_pos hm, Error.showing]

/--
**The modular power agrees with the power and the quotient rounded down.** Let `M` be the whole part
of the modulus without its sign. The modular power fails iff `M` is zero; the error then names the
base if the base can be written. Else let `P` be the power of the rounded base, which the operator
`^` gives, and `Q` the quotient of `P` and `M` rounded down, which the operator `\` gives. The
result is the integer `P - M * Q`, which is at least zero and less than `M`, and it is the same for
every base that is congruent modulo `M` once it is rounded.
-/
theorem modularPower_agrees_with_power (a e m : Number) :
    ((∃ error, a.modularPower e m = .error error) ↔ ⌊|m|⌋ = 0) ∧
    (⌊|m|⌋ = 0 →
      a.modularPower e m = .error (if a.fits = true then .modulusZero a else .unwritable)) ∧
    (⌊|m|⌋ ≠ 0 → ∃ (P Q : Number) (r : ℤ),
      Binary.apply .pow ⌊a⌋ e = .ok P ∧ P = (⌊a⌋ : ℚ) ^ ⌊|e|⌋.toNat ∧
      Binary.apply .floorDiv P ⌊|m|⌋ = .ok Q ∧ Q = ⌊P / ⌊|m|⌋⌋ ∧
      a.modularPower e m = .ok r ∧ (r : ℚ) = P - ⌊|m|⌋ * Q ∧ 0 ≤ r ∧ r < ⌊|m|⌋ ∧
      ∀ b : Number, ⌊b⌋ ≡ ⌊a⌋ [ZMOD ⌊|m|⌋] → b.modularPower e m = .ok r) := by
  rw [← floorAbs_eq_floor_abs m, ← floorAbs_eq_floor_abs e]
  by_cases hm : m.floorAbs = 0
  · simp [hm, modularPower_eq_error_showing hm]
  have hok := modularPower_eq_ok (a := a) (e := e) hm
  have hpos : (0 : ℤ) < m.floorAbs := by omega
  have hne : ((m.floorAbs : ℤ) : ℚ) ≠ 0 := by exact_mod_cast hpos.ne'
  refine ⟨by simp [hok, hm], by simp [hm], fun _ => ?_⟩
  -- the power is an integer, so that its quotient rounded down is the quotient of integers
  have hquotient : ⌊(⌊a⌋ : ℚ) ^ e.floorAbs / (m.floorAbs : ℤ)⌋ = ⌊a⌋ ^ e.floorAbs / m.floorAbs := by
    have hfloor := Rat.floor_intCast_div_natCast (⌊a⌋ ^ e.floorAbs) m.floorAbs
    rwa [Int.cast_pow, ← Int.cast_natCast] at hfloor
  refine ⟨(⌊a⌋ : ℚ) ^ e.floorAbs, _, _, ?_, ?_, floorQuotient_eq_ok hne, rfl, hok, ?_,
    Int.emod_nonneg _ hpos.ne', Int.emod_lt_of_pos _ hpos, fun b hb => ?_⟩
  · rw [Binary.apply, power_eq_pow]
  · rw [Int.toNat_natCast]
  · rw [hquotient, Int.emod_def]
    push_cast
    rfl
  · rw [modularPower_eq_ok hm, hb.pow e.floorAbs]

/--
A modulus of one half counts as zero, and one of -7 as 7. The base -7/2 is rounded to -4, for which
3 would do as well, and the exponent -5/2 counts as 2.
-/
theorem negative_modularPower_agrees_with_power :
    (⌊|(1 / 2 : Number)|⌋ = 0 ∧ modularPower 2 3 (1 / 2) = .error (.modulusZero 2)) ∧
    ⌊|(-7 : Number)|⌋ = 7 ∧ ⌊(3 : Number)⌋ ≡ ⌊(-7 / 2 : Number)⌋ [ZMOD 7] ∧
    ∃ (P Q : Number) (r : ℤ), P = 16 ∧ (r : ℚ) = P - 7 * Q ∧ 0 ≤ r ∧ r < 7 ∧
      modularPower (-7 / 2) (-5 / 2) (-7) = .ok r ∧ modularPower 3 (-5 / 2) (-7) = .ok r := by
  have hhalf : ⌊|(1 / 2 : Number)|⌋ = 0 := by decide +kernel
  have hseven : ⌊|(-7 : Number)|⌋ = 7 := by decide +kernel
  have hcongr : ⌊(3 : Number)⌋ ≡ ⌊(-7 / 2 : Number)⌋ [ZMOD 7] := by decide +kernel
  have hfits : Number.fits 2 = true := by decide +kernel
  have hfails := (modularPower_agrees_with_power 2 3 (1 / 2)).2.1 hhalf
  rw [if_pos hfits] at hfails
  obtain ⟨P, Q, r, -, hP, -, -, hr, heq, hlow, hhigh, hsame⟩ :=
    (modularPower_agrees_with_power (-7 / 2) (-5 / 2) (-7)).2.2 (by rw [hseven]; decide)
  rw [hseven] at heq hhigh hsame
  have hpower : ((⌊(-7 / 2 : Number)⌋ : ℤ) : ℚ) ^ ⌊|(-5 / 2 : Number)|⌋.toNat = 16 := by
    decide +kernel
  exact ⟨⟨hhalf, hfails⟩, hseven, hcongr, P, Q, r, hP.trans hpower, heq, hlow, hhigh, hr,
    hsame 3 hcongr⟩

end Number

end ReversePolish
