import ReversePolish.Index
import ReversePolish.Text.CodePoint
import ReversePolish.Token

/-!
What can go wrong, and how it is reported.

An error names its cause; `Error.message` is the only place that knows the wording. A message
that shows a number exists only if the number can be written. An error that shows one is raised
through `Error.showing` or `Error.naming`, which otherwise give `Error.unwritable` in its place.
-/

namespace ReversePolish

inductive Fault
  | invalidNumber (text : String)
  | zeroDenominator (text : String)
  | missingDenominator (text : String)
  | invalidEscape (point : CodePoint)
  | unterminatedString
  | argumentWithoutIndex
  | unexpectedCharacter (point : CodePoint)
  deriving DecidableEq

namespace Fault

/-- Whether the fault is in a literal, and not in the choice of characters. -/
def inLiteral : Fault → Bool
  | .argumentWithoutIndex => false
  | .unexpectedCharacter _ => false
  | _ => true

def message : Fault → String
  | .invalidNumber text => "Invalid numeric literal " ++ Text.quoted text
  | .zeroDenominator text => "Zero denominator in literal " ++ Text.quoted text
  | .missingDenominator text => "Missing denominator in literal " ++ Text.quoted text
  | .invalidEscape p => "Invalid escape sequence \\" ++ p.shown
  | .unterminatedString => "Unterminated string literal"
  | .argumentWithoutIndex => "Argument reference without index"
  | .unexpectedCharacter p => "Unexpected character " ++ p.quoted

end Fault

inductive Shortage
  /-- The tokens end before an expression is complete. -/
  | incomplete
  | expressions (wanted found : Nat)
  | operands (op : Operator) (found : Nat)
  | arguments (name : String) (wanted found : Nat)
  /-- The tokens form some other number of expressions than one. -/
  | notSingle (found : Nat)
  /-- An operator is pushed onto too few expressions. -/
  | pushed (op : Operator)
  deriving DecidableEq

namespace Shortage

def needs (op : Operator) : String :=
  "Operator " ++ Text.quoted (String.singleton op.symbol) ++ " needs " ++
    Decimal.ofNat op.arity ++ " operands"

def message : Shortage → String
  | .incomplete => "Incomplete expression"
  | .expressions wanted found =>
    "Expected " ++ Decimal.ofNat wanted ++ " expressions, found " ++ Decimal.ofNat found
  | .operands op found => needs op ++ ", found " ++ Decimal.ofNat found
  | .arguments name wanted found =>
    "Function " ++ Text.quoted name ++ " needs " ++ Decimal.ofNat wanted ++ " arguments, found " ++
      Decimal.ofNat found
  | .notSingle found =>
    "Token run forms " ++ Decimal.ofNat found ++ " expressions, expected exactly one"
  | .pushed op => needs op

end Shortage

inductive Error
  /-- Source text that cannot be read, and the index where it is wrong. -/
  | source (fault : Fault) (pos : Option Int)
  | shortage (shortage : Shortage)
  | unknownFunction (name : String) (arity : Nat)
  | commandInExpression (command : Command)
  | commandPushed (command : Command)
  /-- A quotient is written with the denominator zero. -/
  | zeroQuotient
  | divisionByZero (dividend : Number)
  | modulusZero (base : Number)
  | argumentOutOfRange (index arity : Int)
  | depthExceeded (limit : Int)
  /-- A numeral to be read is too long. -/
  | unreadable (digits : Nat)
  /-- A numeral to be written is too long. -/
  | unwritable
  /-- A surrogate has no bytes. -/
  | unencodable (index : Fin 2048)
  | notCommand (display : String)
  | unknownCommand (symbol : String)
  /-- A declaration without the name and arity it declares. -/
  | headlessDeclaration
  | stepCount (name : String) (arity : Int) (found : Nat)
  /-- There is no argument at a negative index. -/
  | noArgument (fault : Index.Fault)
  /-- A list of tokens has nothing at an index. -/
  | noToken (fault : Index.Fault)
  deriving DecidableEq

namespace Error

/-- The error itself if the number its message shows can be written. -/
def showing (a : Number) (e : Error) : Error := if a.fits then e else .unwritable

/-- The error itself if the integer its message shows can be written. -/
def naming (i : Int) (e : Error) : Error := if Decimal.fits i.natAbs then e else .unwritable

def outOfRange (index arity : Int) : Error :=
  .naming index (.naming arity (.argumentOutOfRange index arity))

def tooDeep (limit : Int) : Error := .naming limit (.depthExceeded limit)

def isFatal : Error → Bool
  | .depthExceeded _ => true
  | _ => false

/-- Whether the error belongs to the language: a command that fails with one has no effect. -/
def isLanguage : Error → Bool
  | .unreadable _ => false
  | .unwritable => false
  | .unencodable _ => false
  | .notCommand _ => false
  | .unknownCommand _ => false
  | .headlessDeclaration => false
  | .stepCount _ _ _ => false
  | .noArgument _ => false
  | .noToken _ => false
  | _ => true

def digitLimit : String :=
  "Exceeds the limit (" ++ Decimal.ofNat Decimal.maxDigits ++
    " digits) for integer string conversion"

def digitLimitAdvice : String := "use sys.set_int_max_str_digits() to increase the limit"

def message : Error → String
  | .source fault none => fault.message
  | .source fault (some pos) => fault.message ++ " at index " ++ Decimal.ofInt pos
  | .shortage s => s.message
  | .unknownFunction name arity =>
    "Undefined name " ++ Text.quoted name ++ " with arity " ++ Decimal.ofNat arity
  | .commandInExpression c =>
    "Command " ++ Text.quoted c.symbol ++ " cannot be part of an expression"
  | .commandPushed c => "Command " ++ Text.quoted c.symbol ++ " cannot be pushed as an expression"
  | .zeroQuotient => "Division by zero"
  | .divisionByZero a => "Division of " ++ a.written ++ " by zero"
  | .modulusZero a => "Modular exponentiation of " ++ a.written ++ " with modulus zero"
  | .argumentOutOfRange index arity =>
    "Argument $" ++ Decimal.ofInt index ++
      if arity = 0 then " is only allowed inside a function body"
      else " out of range for arity " ++ Decimal.ofInt arity
  | .depthExceeded limit => "Recursion depth limit of " ++ Decimal.ofInt limit ++ " exceeded"
  | .unreadable digits =>
    digitLimit ++ ": value has " ++ Decimal.ofNat digits ++ " digits; " ++ digitLimitAdvice
  | .unwritable => digitLimit ++ "; " ++ digitLimitAdvice
  | .unencodable i => "'utf-8' codec can't encode character " ++ CodePoint.quoted (.surrogate i) ++
      " in position 0: surrogates not allowed"
  | .notCommand display => Text.quoted display ++ " is not a command"
  | .unknownCommand symbol => "Unknown command " ++ Text.quoted symbol
  | .headlessDeclaration => "Value after * must be an iterable, not NoneType"
  | .stepCount name arity found =>
    "iterative " ++ Text.quoted name ++ " needs " ++ Decimal.ofInt arity ++
      " step expressions, got " ++ Decimal.ofNat found
  | .noArgument fault => fault.message "tuple"
  | .noToken fault => fault.message "list"

end Error

namespace Number

def text (a : Number) : Except Error String :=
  match a.text? with
  | some s => .ok s
  | none => .error .unwritable

/-- The text of a number in a form that names its type. -/
def inspect (a : Number) : Except Error String := do
  let s ← a.text
  .ok ("Rational(" ++ Text.quoted s ++ ")")

end Number

end ReversePolish
