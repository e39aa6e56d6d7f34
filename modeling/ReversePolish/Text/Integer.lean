import ReversePolish.Error

/-!
Integers written by hand: blanks around them, a sign, digits of any script, and single
underscores between digits are accepted.
-/

namespace ReversePolish.Text

/-- The zeros of the scripts; each is followed by the digits one to nine. -/
def zeros : List Nat := [
  0x30, 0x660, 0x6f0, 0x7c0, 0x966, 0x9e6, 0xa66, 0xae6, 0xb66, 0xbe6, 0xc66, 0xce6, 0xd66,
  0xde6, 0xe50, 0xed0, 0xf20, 0x1040, 0x1090, 0x17e0, 0x1810, 0x1946, 0x19d0, 0x1a80, 0x1a90,
  0x1b50, 0x1bb0, 0x1c40, 0x1c50, 0xa620, 0xa8d0, 0xa900, 0xa9d0, 0xa9f0, 0xaa50, 0xabf0, 0xff10,
  0x104a0, 0x10d30, 0x11066, 0x110f0, 0x11136, 0x111d0, 0x112f0, 0x11450, 0x114d0, 0x11650,
  0x116c0, 0x11730, 0x118e0, 0x11950, 0x11c50, 0x11d50, 0x11da0, 0x16a60, 0x16ac0, 0x16b50,
  0x1d7ce, 0x1d7d8, 0x1d7e2, 0x1d7ec, 0x1d7f6, 0x1e140, 0x1e2f0, 0x1e950, 0x1fbf0]

def decimalDigit? (c : Char) : Option Nat :=
  (zeros.find? fun z => z ≤ c.toNat && c.toNat ≤ z + 9).map (c.toNat - ·)

def isBlank (c : Char) : Bool :=
  let n := c.toNat
  (0x9 ≤ n && n ≤ 0xd) || n = 0x20 || n = 0x85 || n = 0xa0 || n = 0x1680 ||
    (0x2000 ≤ n && n ≤ 0x200a) || n = 0x2028 || n = 0x2029 || n = 0x202f || n = 0x205f || n = 0x3000

inductive IntegerFault
  | notInteger (text : String)
  | tooLong (digits : Nat)
  deriving DecidableEq

/-- The longest quotation of a text that is no integer. -/
def maxQuotation : Nat := 200

def IntegerFault.message : IntegerFault → String
  | .notInteger text =>
    "invalid literal for int() with base 10: " ++
      String.ofList ((quoted text).toList.take maxQuotation)
  | .tooLong digits => (Error.unreadable digits).message

def isDigitOrUnderscore (c : Char) : Bool := (decimalDigit? c).isSome || c = '_'

/-- Whether underscores stand only between digits; `after` says whether one stands just before. -/
def underscoresSeparate (after : Bool) : List Char → Bool
  | [] => !after
  | c :: cs =>
    if c = '_' then !after && underscoresSeparate true cs else underscoresSeparate false cs

/-- The sign of an integer and what follows it. -/
def takeSign : List Char → Bool × List Char
  | '-' :: cs => (true, cs)
  | '+' :: cs => (false, cs)
  | cs => (false, cs)

/-- Reads an integer. Its length is looked at before what follows the digits. -/
def readInteger (text : String) : Except IntegerFault Int :=
  let (negative, cs) := takeSign (text.toList.dropWhile isBlank)
  let run := cs.takeWhile isDigitOrUnderscore
  let digits := run.filterMap decimalDigit?
  -- a run that begins with an underscore counts as one after another
  if !underscoresSeparate true run then .error (.notInteger text)
  else if Decimal.maxDigits < digits.length then .error (.tooLong digits.length)
  else if !(cs.dropWhile isDigitOrUnderscore).all isBlank then .error (.notInteger text)
  else
    let n : Nat := digits.foldl (fun n d => 10 * n + d) 0
    .ok (if negative then -(n : Int) else n)

end ReversePolish.Text
