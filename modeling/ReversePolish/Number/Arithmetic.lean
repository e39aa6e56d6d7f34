import ReversePolish.Error
import ReversePolish.Number.Bytes

/-!
The operations of the language on numbers.

Exponents and moduli are whole numbers: any other number stands for the whole part of its
absolute value. Only division by zero and a modulus of zero fail.
-/

namespace ReversePolish

namespace Number

def ofQuotient (num den : Int) : Except Error Number :=
  if den = 0 then .error .zeroQuotient else .ok (Rat.divInt num den)

def quotient (a b : Number) : Except Error Number :=
  if b = 0 then .error (.showing a (.divisionByZero a)) else .ok (a / b)

def floorQuotient (a b : Number) : Except Error Number :=
  if b = 0 then .error (.showing a (.divisionByZero a)) else .ok ((a / b).floor : Int)

/-- The difference, but never less than zero. -/
def monus (a b : Number) : Number := if b < a then a - b else 0

/--
Powers with a whole exponent. Those of 0, 1 and -1 hang on the exponent's parity only, and are found
for exponents of any size.
-/
def power (a : Number) (n : Nat) : Number :=
  if a.isInteger && a.num.natAbs ≤ 1 then
    if n = 0 then 1 else if n % 2 = 0 then a * a else a
  else Rat.pow a n

/--
The remainder of a power. For each bit of the exponent, from the highest down, the remainder is
squared, and multiplied by the base if the bit is set.
-/
def residuePower (b e m : Nat) : Nat :=
  (Bytes.bits e).foldr (fun bit r => if bit then b * (r * r % m) % m else r * r % m) (1 % m)

/-- The power of the rounded base, as a remainder between zero and the modulus. -/
def modularPower (a e m : Number) : Except Error Number :=
  let modulus := m.floorAbs
  if modulus = 0 then .error (.showing a (.modulusZero a))
  else
    let base := (a.floor % (modulus : Int)).toNat
    .ok (residuePower base e.floorAbs modulus : Int)

end Number

def Binary.apply : Binary → Number → Number → Except Error Number
  | .add, a, b => .ok (a + b)
  | .sub, a, b => .ok (a - b)
  | .mul, a, b => .ok (a * b)
  | .div, a, b => a.quotient b
  | .monus, a, b => .ok (a.monus b)
  | .floorDiv, a, b => a.floorQuotient b
  | .pow, a, b => .ok (a.power b.floorAbs)

end ReversePolish
