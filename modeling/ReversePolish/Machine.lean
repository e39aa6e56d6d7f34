import ReversePolish.Number.Arithmetic
import ReversePolish.Table

/-!
Evaluation on a machine with a list of tasks and a stack of values.

Operands are evaluated from left to right. Of a selection only the predicate and the branch it
selects are evaluated. A recursive call is counted as long as its body is being evaluated, and it
fails when as many calls as the limit allows are already active; a loop is not counted.

`Machine.step` does one task. `Machine.run` does at most so many steps and gives `none` if the
machine has not halted by then, which is distinct from every outcome.
-/

namespace ReversePolish

/-- What names mean while an expression is evaluated. -/
structure Scope where
  valueOf? : String → Option Number
  body? : String → Nat → Option Body

def Table.scope (t : Table) : Scope := ⟨t.valueOf?, fun name count => t.body? name count⟩

/-- The arguments of the function that is being evaluated. -/
abbrev Frame := List Number

abbrev Outcome := Except Error Number

/-- The argument at an index; negative indices count from the last. -/
def Frame.argument (frame : Frame) (i : Int) : Outcome :=
  if frame.length ≤ i then .error (.outOfRange i frame.length)
  else
    match Index.position frame.length i with
    | .error fault => .error (.noArgument fault)
    | .ok place => .ok (frame.getD place 0)

inductive Task
  | eval (e : Expr) (frame : Frame)
  | apply (op : Binary)
  | applyPowMod
  /-- Go on with one of two branches. -/
  | select (taken untaken : Expr) (frame : Frame)
  /-- Call a function with so many of the last values. -/
  | call (name : String) (count : Nat)
  /-- A counted call has ended. -/
  | leave
  /-- Begin a round of a loop. -/
  | test (loop : Loop) (frame : Frame)
  /-- Go on with the terminal expression or with the steps of a loop. -/
  | check (loop : Loop) (frame : Frame)
  /-- Begin the next round with the values of the steps. -/
  | again (loop : Loop)

namespace Machine

/--
The tasks still to do, the values computed, the last one first, and the number of active calls.
-/
structure State where
  tasks : List Task
  values : List Number
  depth : Nat

inductive Step
  | continue (s : State)
  | halt (outcome : Outcome)
  /-- The values that a task needs are not there. -/
  | stuck

def start (e : Expr) (frame : Frame) (depth : Nat) : State := ⟨[.eval e frame], [], depth⟩

/-- Tasks that evaluate expressions in order. -/
def evalAll (es : List Expr) (frame : Frame) : List Task := es.map (.eval · frame)

variable (scope : Scope) (limit : Int)

def expand (e : Expr) (frame : Frame) (tasks : List Task) (values : List Number) (depth : Nat) :
    Step :=
  match e with
  | .literal v => .continue ⟨tasks, v :: values, depth⟩
  | .arg i =>
    match frame.argument i with
    | .ok v => .continue ⟨tasks, v :: values, depth⟩
    | .error error => .halt (.error error)
  | .name n =>
    match scope.valueOf? n with
    | some v => .continue ⟨tasks, v :: values, depth⟩
    | none => .continue ⟨.call n 0 :: tasks, values, depth⟩
  | .binary op l r =>
    .continue ⟨.eval l frame :: .eval r frame :: .apply op :: tasks, values, depth⟩
  | .powMod b e m =>
    .continue ⟨.eval b frame :: .eval e frame :: .eval m frame :: .applyPowMod :: tasks, values,
      depth⟩
  | .select t u p => .continue ⟨.eval p frame :: .select t u frame :: tasks, values, depth⟩
  | .call n args => .continue ⟨evalAll args frame ++ .call n args.length :: tasks, values, depth⟩

def enter (name : String) (frame : Frame) (tasks : List Task) (values : List Number) (depth : Nat) :
    Step :=
  match scope.body? name frame.length with
  | none => .halt (.error (.unknownFunction name frame.length))
  | some (.iterative loop) => .continue ⟨.test loop frame :: tasks, values, depth⟩
  | some (.recursive body) =>
    if limit ≤ depth then .halt (.error (.tooDeep limit))
    else .continue ⟨.eval body frame :: .leave :: tasks, values, depth + 1⟩

/-- Puts the value of an operator on the stack, or halts with its error. -/
def put (outcome : Outcome) (tasks : List Task) (values : List Number) (depth : Nat) : Step :=
  match outcome with
  | .ok v => .continue ⟨tasks, v :: values, depth⟩
  | .error e => .halt (.error e)

def step (s : State) : Step :=
  match s with
  | ⟨[], [v], _⟩ => .halt (.ok v)
  | ⟨.eval e frame :: tasks, values, depth⟩ => expand scope e frame tasks values depth
  | ⟨.apply op :: tasks, b :: a :: values, depth⟩ => put (op.apply a b) tasks values depth
  | ⟨.applyPowMod :: tasks, m :: e :: b :: values, depth⟩ =>
    put (b.modularPower e m) tasks values depth
  | ⟨.select t u frame :: tasks, v :: values, depth⟩ =>
    .continue ⟨.eval (if v = 0 then u else t) frame :: tasks, values, depth⟩
  | ⟨.call n count :: tasks, values, depth⟩ =>
    enter scope limit n (values.take count).reverse tasks (values.drop count) depth
  | ⟨.leave :: tasks, values, depth⟩ => .continue ⟨tasks, values, depth - 1⟩
  | ⟨.test loop frame :: tasks, values, depth⟩ =>
    .continue ⟨.eval loop.predicate frame :: .check loop frame :: tasks, values, depth⟩
  | ⟨.check loop frame :: tasks, v :: values, depth⟩ =>
    if v = 0 then .continue ⟨evalAll loop.steps frame ++ .again loop :: tasks, values, depth⟩
    else .continue ⟨.eval loop.terminal frame :: tasks, values, depth⟩
  | ⟨.again loop :: tasks, values, depth⟩ =>
    let count := loop.steps.length
    .continue ⟨.test loop (values.take count).reverse :: tasks, values.drop count, depth⟩
  | _ => .stuck

/-- The outcome, if the machine halts within so many steps. -/
def run : Nat → State → Option Outcome
  | 0, _ => none
  | fuel + 1, s =>
    match step scope limit s with
    | .continue s => run fuel s
    | .halt outcome => some outcome
    | .stuck => none

end Machine

/-- The outcome of an expression, if it is found within so many steps. -/
def evaluate (scope : Scope) (limit : Int) (fuel : Nat) (e : Expr) (frame : Frame) :
    Option Outcome :=
  Machine.run scope limit fuel (Machine.start e frame 0)

def call (scope : Scope) (limit : Int) (fuel : Nat) (name : String) (args : List Number) :
    Option Outcome :=
  evaluate scope limit fuel (.call name (args.map .literal)) []

def failures : List Outcome → List Error
  | [] => []
  | .ok _ :: rest => failures rest
  | .error e :: rest => e :: failures rest

def successes : List Outcome → List Number
  | [] => []
  | .ok v :: rest => v :: successes rest
  | .error _ :: rest => successes rest

/-- All values; else the first fatal error, or the first error if none is fatal. -/
def gather (outcomes : List Outcome) : Except Error (List Number) :=
  match (failures outcomes).find? Error.isFatal, failures outcomes with
  | some e, _ => .error e
  | none, e :: _ => .error e
  | none, [] => .ok (successes outcomes)

/--
Evaluates independent expressions in a given way. With one alone there is nothing to gather.
-/
def gatherAll (eval : Expr → Option Outcome) (es : List Expr) :
    Option (Except Error (List Number)) :=
  match es with
  | [] => some (.ok [])
  | [e] => (eval e).map fun outcome => outcome.map ([·])
  | es => (es.mapM eval).map gather

/-- Evaluates independent expressions, each within so many steps. -/
def evaluateAll (scope : Scope) (limit : Int) (fuel : Nat) (es : List Expr) :
    Option (Except Error (List Number)) :=
  gatherAll (fun e => evaluate scope limit fuel e []) es

end ReversePolish
