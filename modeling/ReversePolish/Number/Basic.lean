import ReversePolish.Number.Decimal

/-!
The numbers of the language: exact rationals, and how they are written.

An integer is written as its numeral, any other number as numerator and denominator in lowest
terms with a slash between them.
-/

namespace ReversePolish

abbrev Number := Rat

namespace Number

def isInteger (a : Number) : Bool := a.den == 1

/-- The whole part of the absolute value. -/
def floorAbs (a : Number) : Nat := a.num.natAbs / a.den

/-- The text of a number, however long. -/
def written (a : Number) : String :=
  if isInteger a then Decimal.ofInt a.num else Decimal.ofInt a.num ++ "/" ++ Decimal.ofNat a.den

/-- Whether both numerals of a number are short enough. -/
def fits (a : Number) : Bool := Decimal.fits a.num.natAbs && Decimal.fits a.den

def text? (a : Number) : Option String := if fits a then some (written a) else none

end Number

end ReversePolish
