import ReversePolish.Number.Basic

/-!
Byte strings as numbers: the digits of a natural number in base 256, least significant first.

Packing forgets trailing zero bytes, and unpacking writes none.
-/

namespace ReversePolish.Bytes

def pack : List UInt8 → Nat
  | [] => 0
  | b :: bs => b.toNat + 256 * pack bs

/-- The lowest bytes of a number, as many as two to the power `level`; each half by itself. -/
def lowest : (level : Nat) → Nat → List UInt8
  | 0, n => [UInt8.ofNat n]
  | level + 1, n =>
    let half := Nat.pow 256 (Nat.pow 2 level)
    lowest level (n % half) ++ lowest level (n / half)

/-- The list without the zeros at its end. -/
def trim (bytes : List UInt8) : List UInt8 := (bytes.reverse.dropWhile (· = 0)).reverse

def unpack (n : Nat) : List UInt8 := trim (lowest (Nat.log2 (Nat.log2 n / 8) + 1) n)

/-- The bits of a number, the lowest first; some at the end may be zero. -/
def bits (n : Nat) : List Bool :=
  (unpack n).flatMap fun byte => (List.range 8).map byte.toNat.testBit

/-- The bytes of an integer's absolute value; any other number has none to show. -/
def ofNumber? (a : Number) : Option (List UInt8) :=
  if a.isInteger then some (unpack a.num.natAbs) else none

end ReversePolish.Bytes
