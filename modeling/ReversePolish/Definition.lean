import ReversePolish.Expr

/-!
Functions and the source text that declares them.

A recursive function has one expression as its body. A loop replaces its arguments by the values
of its steps until its predicate is not zero, and then gives the value of its terminal
expression.
-/

namespace ReversePolish

structure Loop where
  /-- The next value of each argument. -/
  steps : List Expr
  terminal : Expr
  predicate : Expr

inductive Body
  | recursive (body : Expr)
  | iterative (loop : Loop)

structure Definition where
  name : String
  /-- The number of arguments. A function that has less than none is never called. -/
  arity : Int
  body : Body

namespace Body

def isIterative : Body → Bool
  | .recursive _ => false
  | .iterative _ => true

def mode (b : Body) : String := if b.isIterative then "iterative" else "recursive"

/-- The mark between name and arity in a declaration. -/
def mark (b : Body) : String := if b.isIterative then "@" else "|"

/-- The expressions of a declaration, in the order in which they are written. -/
def parts : Body → List Expr
  | .recursive e => [e]
  | .iterative l => l.steps ++ [l.terminal, l.predicate]

end Body

namespace Definition

def key (d : Definition) : String × Int := (d.name, d.arity)

/-- A loop has one step for each argument. -/
def loop? (name : String) (arity : Int) (loop : Loop) : Except Error Definition :=
  if loop.steps.length = arity then .ok ⟨name, arity, .iterative loop⟩
  else .error (.naming arity (.stepCount name arity loop.steps.length))

/-- The source text that declares a function, unless it holds a number that is too long to write. -/
def source? (d : Definition) : Option String := do
  let parts ← d.body.parts.mapM Expr.text?
  let arity ← Decimal.ofInt? d.arity
  some (String.intercalate " " parts ++ " " ++ d.name ++ d.body.mark ++ arity)

end Definition

end ReversePolish
