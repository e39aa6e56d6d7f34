import ReversePolish.Number.Basic

/-!
The tokens of the language.

Expressions are made of numbers, names, argument references and operators. Everything else is a
command, which acts on the expressions written before it.
-/

namespace ReversePolish

inductive Binary
  | add | sub | mul | div | monus | floorDiv | pow
  deriving DecidableEq

inductive Operator
  | binary (op : Binary)
  /-- Power of the first operand to the second, modulo the third. -/
  | powMod
  /-- The first operand if the third is not zero, else the second. -/
  | select
  deriving DecidableEq

namespace Operator

def symbol : Operator → Char
  | .binary .add => '+'
  | .binary .sub => '-'
  | .binary .mul => '*'
  | .binary .div => '/'
  | .binary .monus => '~'
  | .binary .floorDiv => '\\'
  | .binary .pow => '^'
  | .powMod => '_'
  | .select => '?'

def ofChar? : Char → Option Operator
  | '+' => some (.binary .add)
  | '-' => some (.binary .sub)
  | '*' => some (.binary .mul)
  | '/' => some (.binary .div)
  | '~' => some (.binary .monus)
  | '\\' => some (.binary .floorDiv)
  | '^' => some (.binary .pow)
  | '_' => some .powMod
  | '?' => some .select
  | _ => none

def arity : Operator → Nat
  | .binary _ => 2
  | .powMod => 3
  | .select => 3

end Operator

inductive Command
  /-- Evaluate the top expression and output its value. -/
  | emit
  /-- Evaluate the top expression and bind a variable to its value. -/
  | bind (name : String)
  /-- Replace the top expression by its value and output the value. -/
  | settle
  /-- Replace the top expression by two copies of its value. -/
  | double
  /-- Evaluate the top expression and output its value as bytes. -/
  | bytes
  /-- Evaluate all expressions and output their values, top first. -/
  | flush
  /-- Show the expressions without evaluating them. -/
  | list
  /-- Remove the top expression. -/
  | drop
  /-- Remove everything. -/
  | clear
  /-- Declare a function whose body is the top expression. -/
  | declare (name : String) (arity : Nat)
  /-- Declare a function that loops. -/
  | declareLoop (name : String) (arity : Nat)
  /-- A symbol that stands for no complete command. -/
  | unknown (symbol : String)
  deriving DecidableEq

namespace Command

def symbol : Command → String
  | .emit => "="
  | .bind _ => "="
  | .settle => "#"
  | .double => "<"
  | .bytes => "&"
  | .flush => ">"
  | .list => ":"
  | .drop => "!"
  | .clear => "%"
  | .declare _ _ => "|"
  | .declareLoop _ _ => "@"
  | .unknown s => s

/-- The command written as a single character. -/
def ofChar? : Char → Option Command
  | '=' => some .emit
  | '#' => some .settle
  | '<' => some .double
  | '&' => some .bytes
  | '>' => some .flush
  | ':' => some .list
  | '!' => some .drop
  | '%' => some .clear
  | _ => none

/-- The command that a symbol stands for by itself. -/
def ofSymbol (s : String) : Command :=
  match s.toList with
  | [c] => (ofChar? c).getD (.unknown s)
  | _ => .unknown s

end Command

inductive Token
  | number (value : Number)
  | name (name : String)
  /--
  The argument of the enclosing function at an index, which starts at zero. Source text has no
  negative indices; they count from the last argument.
  -/
  | arg (index : Int)
  | op (op : Operator)
  | command (command : Command)
  deriving DecidableEq

namespace Token

/-- The token of a number, unless the number is too long to write. -/
def literal? (v : Number) : Option Token := if v.fits then some (.number v) else none

/-- A token as listings show it, unless it holds a number that is too long to write. -/
def display? : Token → Option String
  | .number v => v.text?
  | .name n => some n
  | .arg i => (Decimal.ofInt? i).map ("$" ++ ·)
  | .op o => some (String.singleton o.symbol)
  | .command c => some c.symbol

end Token

end ReversePolish
