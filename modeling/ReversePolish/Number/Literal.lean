import ReversePolish.Error

/-!
Numbers as they are written in source text: an optional sign, digits, and optionally a slash and
more digits.
-/

namespace ReversePolish.Number

structure Literal where
  negative : Bool
  num : List Char
  den : Option (List Char)

namespace Literal

/-- Whether nothing is left of a literal, a final line feed apart. -/
def atEnd : List Char → Bool
  | [] => true
  | ['\n'] => true
  | _ => false

/-- Digits with an optional denominator, after the sign. -/
def ofUnsigned? (negative : Bool) (cs : List Char) : Option Literal :=
  let num := cs.takeWhile Char.isDigit
  let rest := cs.dropWhile Char.isDigit
  if num.isEmpty then none
  else if atEnd rest then some ⟨negative, num, none⟩
  else
    match rest with
    | '/' :: cs =>
      let den := cs.takeWhile Char.isDigit
      if !den.isEmpty && atEnd (cs.dropWhile Char.isDigit) then some ⟨negative, num, some den⟩
      else none
    | _ => none

/-- The parts of a text that has the form of a number. -/
def ofChars? : List Char → Option Literal
  | '+' :: cs => ofUnsigned? false cs
  | '-' :: cs => ofUnsigned? true cs
  | cs => ofUnsigned? false cs

end Literal

def readDigits (ds : List Char) : Except Error Nat :=
  if Decimal.maxDigits < ds.length then .error (.unreadable ds.length)
  else .ok (Decimal.value ds)

/--
Reads a number; `pos` is the index that errors report. The denominator is read before the numerator.
-/
def parse (text : String) (pos : Option Int) : Except Error Number :=
  match Literal.ofChars? text.toList with
  | none => .error (.source (.invalidNumber text) pos)
  | some literal => do
    let den ← match literal.den with
      | none => .ok 1
      | some ds => readDigits ds
    if den = 0 then .error (.source (.zeroDenominator text) pos)
    else
      let num ← readDigits literal.num
      .ok (mkRat (if literal.negative then -(num : Int) else num) den)

end ReversePolish.Number
