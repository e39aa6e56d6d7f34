/-!
Decimal numerals and their greatest length.

A numeral of more than `maxDigits` digits is neither read nor written. Leading zeros count when
one is read; a sign never does.
-/

namespace ReversePolish.Decimal

/-- The length of the longest numeral that is read or written. -/
def maxDigits : Nat := 4300

/-- The least number whose numeral is too long. -/
def bound : Nat := Nat.pow 10 maxDigits

/-- The number that a run of digits stands for. -/
def value (ds : List Char) : Nat := Nat.ofDigitChars 10 ds 0

def digits (n : Nat) : List Char := Nat.toDigits 10 n

def ofNat (n : Nat) : String := String.ofList (digits n)

def ofInt (i : Int) : String :=
  if i < 0 then "-" ++ ofNat i.natAbs else ofNat i.natAbs

/-- Whether the numeral of a number is short enough. -/
def fits (n : Nat) : Bool := n < bound

def ofNat? (n : Nat) : Option String := if fits n then some (ofNat n) else none

def ofInt? (i : Int) : Option String := if fits i.natAbs then some (ofInt i) else none

end ReversePolish.Decimal
