import ReversePolish.Lexeme
import ReversePolish.Limits
import ReversePolish.Machine
import ReversePolish.Number.Bytes
import ReversePolish.Stack

/-!
The engine: a stack of tokens, a table of names, and the commands that act on them.

A command that fails with an error of the language leaves the engine as it was. If instead a
number cannot be written, what the command had taken off the stack is gone.

Evaluation may go on for ever, so everything that evaluates takes a number of steps, and gives
`none` if they do not suffice. What a command does is said first for any way to evaluate
expressions.
-/

namespace ReversePolish

inductive Output
  | value (value : Number)
  | bytes (bytes : List UInt8)
  | text (text : String)
  deriving DecidableEq

/-- The bytes that pack into the absolute value of an integer; any other number as it is. -/
def Output.unpacked (v : Number) : Output :=
  match Bytes.ofNumber? v with
  | some digits => .bytes digits
  | none => .value v

structure Engine where
  limits : Limits
  stack : Stack
  table : Table

structure Reply where
  result : Except Error (List Output)
  engine : Engine

namespace Engine

def new (limits : Limits) : Engine := ⟨limits, .empty, .empty⟩

/-- Pushes a token that is not a command; an operator only onto enough expressions. -/
def push (e : Engine) (t : Token) : Except Error Engine :=
  match t with
  | .command c => .error (.commandPushed c)
  | .op o =>
    if e.stack.count < o.arity then .error (.shortage (.pushed o))
    else .ok { e with stack := e.stack.push t }
  | _ => .ok { e with stack := e.stack.push t }

/--
The reply to a command that failed after it had turned `e` into `after`. An error of the language
puts the tokens back that were on the stack.
-/
def fail (e after : Engine) (error : Error) : Reply :=
  ⟨.error error,
    if error.isLanguage then { after with stack := .ofTokens e.stack.tokens } else after⟩

/-- Takes the top expression off the stack, which is gone also if it cannot be made a tree. -/
def pop (e : Engine) (arities : Arities) (arity : Int) : Except Error Expr × Engine :=
  match Grouping.topRun arities e.stack.tokens with
  | .error error => (.error error, e)
  | .ok (run, below) =>
    (Grouping.build arities arity run, { e with stack := e.stack.remove run below })

/-- Takes the top expression off the stack, evaluates it, and goes on with its value. -/
def withTop (e : Engine) (eval : Expr → Option Outcome) (next : Number → Engine → Reply) :
    Option Reply :=
  match e.pop e.table.arityOf 0 with
  | (.error error, popped) => some (e.fail popped error)
  | (.ok expr, popped) =>
    match eval expr with
    | none => none
    | some (.ok v) => some (next v popped)
    | some (.error error) => some (e.fail popped error)

def pushValue (e : Engine) (v : Number) : Engine := { e with stack := e.stack.push (.number v) }

/-- The reply `r`, if the value that it pushes can be written. -/
def ifWritable (e : Engine) (v : Number) (r : Reply) : Reply :=
  match Token.literal? v with
  | some _ => r
  | none => ⟨.error .unwritable, e⟩

/-- All expressions of the stack as trees, top first. -/
def entries (e : Engine) : Except Error (List Expr) := do
  let runs ← Grouping.splitAll e.table.arityOf e.stack.tokens
  Grouping.buildAll e.table.arityOf 0 runs

/-- Evaluates all expressions of the stack and empties it. -/
def flush (e : Engine) (eval : Expr → Option Outcome) : Option Reply :=
  match e.entries with
  | .error error => some (e.fail e error)
  | .ok exprs =>
    let cleared := { e with stack := .empty }
    match gatherAll eval exprs with
    | none => none
    | some (.ok values) => some ⟨.ok (values.map .value), cleared⟩
    | some (.error error) => some (e.fail cleared error)

def declare (e : Engine) (name : String) (arity : Nat) : Reply :=
  match e.pop (e.table.arityOf.declare name arity) arity with
  | (.error error, popped) => e.fail popped error
  | (.ok body, popped) =>
    ⟨.ok [], { popped with table := e.table.define ⟨name, arity, .recursive body⟩ }⟩

/-- The loop whose steps, terminal expression and predicate are given in this order. -/
def loopOfParts? (parts : List Expr) : Option Loop :=
  match parts.reverse with
  | predicate :: terminal :: steps => some ⟨steps.reverse, terminal, predicate⟩
  | _ => none

/-- Takes the parts of a loop off the stack, once they could all be made trees. -/
def popParts (e : Engine) (arities : Arities) (arity : Nat) :
    Except Error (List Expr × Engine) := do
  let (runs, below) ← Grouping.splitTop arities (arity + 2) e.stack.tokens
  let parts ← Grouping.buildAll arities arity runs.reverse
  .ok (parts, { e with stack := e.stack.remove runs.flatten below })

def declareLoop (e : Engine) (name : String) (arity : Nat) : Reply :=
  match e.popParts (e.table.arityOf.declare name arity) arity with
  | .error error => e.fail e error
  | .ok (parts, popped) =>
    match loopOfParts? parts with
    | some loop => ⟨.ok [], { popped with table := e.table.define ⟨name, arity, .iterative loop⟩ }⟩
    | none => e.fail e (.shortage .incomplete)

/-- Runs a command, and evaluates expressions in a given way. -/
def runBy (e : Engine) (eval : Expr → Option Outcome) : Command → Option Reply
  | .emit => e.withTop eval fun v e => ⟨.ok [.value v], e⟩
  | .bind name => e.withTop eval fun v e => ⟨.ok [], { e with table := e.table.bind name v }⟩
  | .settle => e.withTop eval fun v e => e.ifWritable v ⟨.ok [.value v], e.pushValue v⟩
  | .double => e.withTop eval fun v e => e.ifWritable v ⟨.ok [], (e.pushValue v).pushValue v⟩
  | .bytes => e.withTop eval fun v e => ⟨.ok [.unpacked v], e⟩
  | .flush => e.flush eval
  | .list =>
    match e.stack.listing e.table.arityOf with
    | .ok lines => some ⟨.ok (lines.map .text), e⟩
    | .error error => some (e.fail e error)
  | .drop =>
    match Grouping.topRun e.table.arityOf e.stack.tokens with
    | .ok (run, below) => some ⟨.ok [], { e with stack := e.stack.remove run below }⟩
    | .error error => some (e.fail e error)
  | .clear => some ⟨.ok [], { e with stack := .empty }⟩
  | .declare name arity => some (e.declare name arity)
  | .declareLoop name arity => some (e.declareLoop name arity)
  | .unknown symbol =>
    if symbol = "|" || symbol = "@" then some (e.fail e .headlessDeclaration)
    else some (e.fail e (.unknownCommand symbol))

def outcome (e : Engine) (fuel : Nat) (expr : Expr) : Option Outcome :=
  evaluate e.table.scope e.limits.depth fuel expr []

def run (e : Engine) (fuel : Nat) (c : Command) : Option Reply := e.runBy (e.outcome fuel) c

def runToken (run : Engine → Command → Option Reply) (e : Engine) : Token → Option Reply
  | .command c => run e c
  | t =>
    match t.display? with
    | some display => some ⟨.error (.notCommand display), e⟩
    | none => some ⟨.error .unwritable, e⟩

def pushToken (e : Engine) (t : Token) : Reply :=
  match e.push t with
  | .ok e => ⟨.ok [], e⟩
  | .error error => ⟨.error error, e⟩

/-- Runs a command, and pushes any other token. -/
def accept (run : Engine → Command → Option Reply) (e : Engine) : Token → Option Reply
  | .command c => run e c
  | t => some (e.pushToken t)

/--
Deals with tokens one after the other, up to the first that fails; outputs before it are lost.
-/
def forEach (act : Engine → Token → Option Reply) (e : Engine) : List Token → Option Reply
  | [] => some ⟨.ok [], e⟩
  | t :: ts =>
    match act e t with
    | none => none
    | some ⟨.error error, after⟩ => some ⟨.error error, after⟩
    | some ⟨.ok outputs, after⟩ =>
      match forEach act after ts with
      | none => none
      | some ⟨.error error, last⟩ => some ⟨.error error, last⟩
      | some ⟨.ok more, last⟩ => some ⟨.ok (outputs ++ more), last⟩

/-- Deals with the tokens of a source text; none of them if it cannot be read. -/
def forSource (act : Engine → Token → Option Reply) (e : Engine) (source : String) : Option Reply :=
  match Token.ofSource source with
  | .error error => some ⟨.error error, e⟩
  | .ok ts => e.forEach act ts

def feed (e : Engine) (fuel : Nat) (source : String) : Option Reply :=
  e.forSource (accept fun e c => e.run fuel c) source

def pushSource (e : Engine) (source : String) : Option Reply :=
  e.forSource (fun e t => some (e.pushToken t)) source

end Engine

end ReversePolish
