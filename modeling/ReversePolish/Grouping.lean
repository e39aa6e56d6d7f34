import ReversePolish.Expr

/-!
Grouping of tokens into expressions.

How many operands a name takes hangs on the functions that are declared when the grouping is
done, so it is given by an arity lookup. From the top of a stack of tokens, `topRun` finds where
one complete expression begins and `splitAll` cuts the stack into complete expressions; `build`
folds the tokens of one expression into a tree.

An arity may be negative. A name that has one takes no operands when a tree is built. When an
expression is sought from the top of a stack, each unit below zero makes up for one expression
that is still wanted.
-/

namespace ReversePolish

/-- The number of arguments of each name that is a function. -/
abbrev Arities := String → Option Int

/-- The lookup with one more declaration, so that a body can refer to itself. -/
def Arities.declare (arities : Arities) (name : String) (arity : Int) : Arities :=
  fun n => if n = name then some arity else arities n

namespace Grouping

def operands (arities : Arities) : Token → Except Error Int
  | .number _ => .ok 0
  | .arg _ => .ok 0
  | .op o => .ok o.arity
  | .name n => .ok ((arities n).getD 0)
  | .command c => .error (.commandInExpression c)

/--
Takes tokens off a stack, top first, until `need` expressions are complete. The tokens taken are put
in front of `run`, so that they come out bottom first, together with what is left of the stack.
-/
def takeRun (arities : Arities) :
    (need : Nat) → (run stack : List Token) → Except Error (List Token × List Token)
  | 0, run, stack => .ok (run, stack)
  | _ + 1, _, [] => .error (.shortage .incomplete)
  | need + 1, run, t :: stack => do
    let k ← operands arities t
    -- a scan that has more than it wants stops as if it had just enough
    takeRun arities (need + k).toNat (t :: run) stack

/-- The top expression of a stack, bottom first, and the stack below it. -/
def topRun (arities : Arities) (stack : List Token) : Except Error (List Token × List Token) :=
  takeRun arities 1 [] stack

/-- The top expressions of a stack, top first and at most so many, and the stack below them. -/
def takeRuns (arities : Arities) :
    Nat → List Token → Except Error (List (List Token) × List Token)
  | 0, stack => .ok ([], stack)
  | _ + 1, [] => .ok ([], [])
  | count + 1, t :: stack => do
    let (run, below) ← topRun arities (t :: stack)
    let (runs, rest) ← takeRuns arities count below
    .ok (run :: runs, rest)

def splitAll (arities : Arities) (stack : List Token) : Except Error (List (List Token)) := do
  -- an expression has at least one token, so no more than this can be there
  let (runs, _) ← takeRuns arities stack.length stack
  .ok runs

/-- Exactly so many expressions from the top of a stack, top first, and the stack below them. -/
def splitTop (arities : Arities) (count : Nat) (stack : List Token) :
    Except Error (List (List Token) × List Token) := do
  let (runs, rest) ← takeRuns arities count stack
  if runs.length < count then
    .error (.naming count (.shortage (.expressions count runs.length)))
  else .ok (runs, rest)

/-- So many expressions from the top of a stack, top first, or all of them. -/
def split (arities : Arities) (count : Option Int) (stack : List Token) :
    Except Error (List (List Token)) :=
  match count with
  | none => splitAll arities stack
  | some count => do
    let (runs, _) ← splitTop arities count.toNat stack
    .ok runs

/--
The index in a list of tokens where the expression that ends before the index `stop` begins.
Negative indices count from the end, and do not stop at the first token.
-/
def start (arities : Arities) (tokens : List Token) (stop : Int) : Except Error Int :=
  if stop = 0 then .error (.shortage .incomplete)
  else
    match Index.position tokens.length (stop - 1) with
    | .error fault => .error (.noToken fault)
    | .ok last =>
      match topRun arities (tokens.take (last + 1)).reverse with
      | .ok (run, _) => .ok (stop - run.length)
      | .error (.shortage .incomplete) =>
        .error (if stop < 0 then .noToken .outOfRange else .shortage .incomplete)
      | .error error => .error error

/-- Where runs begin and end that lie one below the other, the first of them ending at `stop`. -/
def spans (stop : Nat) : List (List Token) → List (Nat × Nat)
  | [] => []
  | run :: runs => (stop - run.length, stop) :: spans (stop - run.length) runs

/-! ### Trees -/

/-- What one more token makes of a stack of trees. Arguments below `arity` may be referred to. -/
def addToken (arities : Arities) (arity : Int) (trees : List Expr) :
    Token → Except Error (List Expr)
  | .number v => .ok (.literal v :: trees)
  | .arg i => if i < arity then .ok (.arg i :: trees) else .error (.outOfRange i arity)
  | .op o =>
    match o, trees with
    | .binary op, r :: l :: rest => .ok (.binary op l r :: rest)
    | .powMod, m :: e :: b :: rest => .ok (.powMod b e m :: rest)
    | .select, p :: u :: t :: rest => .ok (.select t u p :: rest)
    | _, _ => .error (.shortage (.operands o trees.length))
  | .name n =>
    match arities n with
    | none => .ok (.name n :: trees)
    | some k =>
      if trees.length < k then
        .error (.naming k (.shortage (.arguments n k.toNat trees.length)))
      else .ok (.call n (trees.take k.toNat).reverse :: trees.drop k.toNat)
  | .command c => .error (.commandInExpression c)

/-- The stack of trees that tokens make, top first. -/
def fold (arities : Arities) (arity : Int) : List Expr → List Token → Except Error (List Expr)
  | trees, [] => .ok trees
  | trees, t :: ts => do
    let trees ← addToken arities arity trees t
    fold arities arity trees ts

/-- The tree of tokens that form one expression. -/
def build (arities : Arities) (arity : Int) (tokens : List Token) : Except Error Expr := do
  let trees ← fold arities arity [] tokens
  match trees with
  | [e] => .ok e
  | _ => .error (.shortage (.notSingle trees.length))

def buildAll (arities : Arities) (arity : Int) : List (List Token) → Except Error (List Expr)
  | [] => .ok []
  | run :: runs => do
    let e ← build arities arity run
    let es ← buildAll arities arity runs
    .ok (e :: es)

end Grouping

end ReversePolish
