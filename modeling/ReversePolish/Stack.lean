import ReversePolish.Grouping

/-!
The stack of tokens that wait to be evaluated.

Beside the tokens it keeps a running count: the number of expressions that they form when every
name stands for itself. An operator is pushed only onto enough of them.
-/

namespace ReversePolish

/-- The number of expressions a token adds, if every name stands for itself. -/
def Token.weight : Token → Int
  | .op o => 1 - o.arity
  | _ => 1

def Token.weights : List Token → Int
  | [] => 0
  | t :: ts => t.weight + Token.weights ts

structure Stack where
  /-- The tokens, top first. -/
  tokens : List Token
  /-- The running count. -/
  count : Int

namespace Stack

def empty : Stack := ⟨[], 0⟩

def size (s : Stack) : Nat := s.tokens.length

/-- The tokens in the order in which they were pushed. -/
def toList (s : Stack) : List Token := s.tokens.reverse

def push (s : Stack) (t : Token) : Stack := ⟨t :: s.tokens, s.count + t.weight⟩

/-- The stack `below` that is left when `run` is taken off. -/
def remove (s : Stack) (run below : List Token) : Stack := ⟨below, s.count - Token.weights run⟩

/-- The stack of the tokens given, top first, which are counted anew. -/
def ofTokens (tokens : List Token) : Stack := ⟨tokens, Token.weights tokens⟩

/--
The runs of tokens that a listing shows: expressions, top first, and a fragment at the bottom.
-/
def listedRuns (arities : Arities) : Nat → List Token → Except Error (List (List Token))
  | 0, _ => .ok []
  | _ + 1, [] => .ok []
  | count + 1, t :: below =>
    match Grouping.topRun arities (t :: below) with
    | .ok (run, rest) => do
      let runs ← listedRuns arities count rest
      .ok (run :: runs)
    | .error (.shortage _) => .ok [(t :: below).reverse]
    | .error e => .error e

def lines : List (List Token) → Except Error (List String)
  | [] => .ok []
  | run :: runs =>
    match Token.join? run with
    | some line => do
      let rest ← lines runs
      .ok (line :: rest)
    | none => .error .unwritable

def listing (s : Stack) (arities : Arities) : Except Error (List String) := do
  let runs ← listedRuns arities s.size s.tokens
  lines runs

end Stack

end ReversePolish
