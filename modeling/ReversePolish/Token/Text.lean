import ReversePolish.Number.Bytes
import ReversePolish.Number.Literal

/-!
The tokens that stand at the beginning of a text.

`Token.next` looks at a non-empty text and says whether it begins with something to skip or with
a token, and how many characters that covers. Names and numbers are as long as they can be.
Blanks and comments are skipped; a comment goes from a semicolon to the end of the line.
-/

namespace ReversePolish.Token

def isBlank (c : Char) : Bool :=
  c = ' ' || c = '\t' || c = '\n' || c = '\r' || c = '\x0c' || c = '\x0b'

def endsLine (c : Char) : Bool := c = '\n' || c = '\r'

def digitRun (cs : List Char) : List Char := cs.takeWhile Char.isDigit

/--
The rest of a name after its first letter. Dashes and underscores stand only between letters and
digits.
-/
def nameTail : List Char → List Char
  | [] => []
  | c :: cs =>
    if c.isAlphanum then c :: nameTail cs
    else if c = '-' || c = '_' then
      match cs with
      | d :: ds => if d.isAlphanum then c :: d :: nameTail ds else []
      | [] => []
    else []

/-! ### String literals -/

def hexDigit? (c : Char) : Option Nat :=
  if '0' ≤ c && c ≤ '9' then some (c.toNat - '0'.toNat)
  else if 'a' ≤ c && c ≤ 'f' then some (c.toNat - 'a'.toNat + 10)
  else if 'A' ≤ c && c ≤ 'F' then some (c.toNat - 'A'.toNat + 10)
  else none

def hexByte? (high low : Char) : Option UInt8 :=
  match hexDigit? high, hexDigit? low with
  | some h, some l => some (UInt8.ofNat (16 * h + l))
  | _, _ => none

/-- The byte that a single character after a backslash stands for. -/
def escape? : Char → Option UInt8
  | 'n' => some 10
  | 'r' => some 13
  | 't' => some 9
  | '\\' => some 92
  | '"' => some 34
  | _ => none

/--
The bytes of a string literal and the number of its code points, both after the opening quote. That
quote is at index `start` and the text at index `pos`; `view` says which code points the text has.
-/
def stringTail {α : Type} (view : α → CodePoint) (start pos : Nat) :
    List α → Except Error (List UInt8 × Nat)
  | [] => .error (.source .unterminatedString (some start))
  | a :: rest =>
    match view a with
    -- the bytes are put together from the left, so nothing after a surrogate is looked at
    | .surrogate i => .error (.unencodable i)
    | .char c =>
      if c = '"' then .ok ([], 1)
      else if c = '\\' then
        match rest with
        | [] => .error (.source .unterminatedString (some start))
        | e :: es =>
          match escape? (view e).toChar with
          | some b => do
            let (bytes, size) ← stringTail view start (pos + 2) es
            .ok (b :: bytes, size + 2)
          | none =>
            match es with
            | [] => .error (.source (.invalidEscape (view e)) (some pos))
            | d :: ds =>
              match hexByte? (view e).toChar (view d).toChar with
              | some b => do
                let (bytes, size) ← stringTail view start (pos + 3) ds
                .ok (b :: bytes, size + 3)
              | none => .error (.source (.invalidEscape (view e)) (some pos))
      else do
        let (bytes, size) ← stringTail view start (pos + 1) rest
        .ok (String.utf8EncodeChar c ++ bytes, size + 1)

/-! ### The next token -/

/-- What a text begins with; `more` counts the characters after the first. -/
inductive Found
  | skip (more : Nat)
  | token (token : Token) (more : Nat)

def headIsDigit : List Char → Bool
  | c :: _ => c.isDigit
  | [] => false

/-- A string literal; its value is the number that its bytes pack into. -/
def nextString {α : Type} (view : α → CodePoint) (pos : Nat) (rest : List α) :
    Except Error Found := do
  let (bytes, size) ← stringTail view pos (pos + 1) rest
  .ok (.token (.number (Bytes.pack bytes : Int)) size)

/-- A number that begins with `c`, a sign or a digit. -/
def nextNumber (pos : Nat) (c : Char) (rest : List Char) : Except Error Found :=
  let read (tail : List Char) : Except Error Found := do
    let v ← Number.parse (String.ofList (c :: tail)) (some pos)
    .ok (.token (.number v) tail.length)
  let num := digitRun rest
  match rest.drop num.length with
  | '/' :: after =>
    if headIsDigit after then read (num ++ '/' :: digitRun after)
    else .error (.source (.missingDenominator (String.ofList (c :: num ++ ['/']))) (some pos))
  | _ => read num

def nextArgument (pos : Nat) (rest : List Char) : Except Error Found :=
  if headIsDigit rest then do
    let index ← Number.readDigits (digitRun rest)
    .ok (.token (.arg index) (digitRun rest).length)
  else .error (.source .argumentWithoutIndex (some pos))

/-- The declaration that a mark after a name stands for. -/
def declaration? : Char → Option (String → Nat → Command)
  | '|' => some .declare
  | '@' => some .declareLoop
  | _ => none

/-- A name that begins with `c`, or the declaration that it heads. -/
def nextName (c : Char) (rest : List Char) : Except Error Found :=
  let tail := nameTail rest
  let name := String.ofList (c :: tail)
  let plain : Except Error Found := .ok (.token (.name name) tail.length)
  match rest.drop tail.length with
  | mark :: after =>
    match declaration? mark with
    | some declaration =>
      if headIsDigit after then do
        let arity ← Number.readDigits (digitRun after)
        .ok (.token (.command (declaration name arity)) (tail.length + 1 + (digitRun after).length))
      else plain
    | none => plain
  | [] => plain

/-- An operator or a command of one character. -/
def nextSymbol (pos : Nat) (c : Char) : Except Error Found :=
  match Operator.ofChar? c, Command.ofChar? c with
  | some o, _ => .ok (.token (.op o) 0)
  | none, some k => .ok (.token (.command k) 0)
  | none, none => .error (.source (.unexpectedCharacter (.char c)) (some pos))

/-- What the text `c :: rest`, which is at index `pos`, begins with. -/
def next (pos : Nat) (c : Char) (rest : List Char) : Except Error Found :=
  if isBlank c then .ok (.skip 0)
  else if c = ';' then .ok (.skip (rest.takeWhile fun d => !endsLine d).length)
  else if c = '"' then nextString .char pos rest
  else if c.isDigit || ((c = '+' || c = '-') && headIsDigit rest) then nextNumber pos c rest
  else if c = '$' then nextArgument pos rest
  else if c.isAlpha then nextName c rest
  else
    match rest with
    | d :: ds =>
      if c = '=' && d.isAlpha then
        let tail := nameTail ds
        .ok (.token (.command (.bind (String.ofList (d :: tail)))) (tail.length + 1))
      else nextSymbol pos c
    | [] => nextSymbol pos c

/-- The same for a text with surrogates. Only a string literal looks at those. -/
def nextPoint (pos : Nat) (p : CodePoint) (rest : List CodePoint) : Except Error Found :=
  match p with
  | .surrogate _ => .error (.source (.unexpectedCharacter p) (some pos))
  | .char c =>
    if c = '"' then nextString id pos rest else next pos c (rest.map CodePoint.toChar)

end ReversePolish.Token
