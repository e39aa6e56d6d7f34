import ReversePolish.Token.Text

/-!
Source text as a list of lexemes: the tokens, each with the text that it was read from.

Positions count characters from zero. Source text with an error in it has no lexemes at all.
-/

namespace ReversePolish

/-- A token, its source text, and the indices where that text starts and stops. -/
structure Lexeme where
  token : Token
  source : String
  start : Nat
  stop : Nat
  deriving DecidableEq

namespace Lexeme

/-- The text that identifies the lexeme: a command's symbol, and else all its source text. -/
def text (l : Lexeme) : String :=
  match l.token with
  | .command c => c.symbol
  | _ => l.source

/--
The lexemes of a text that is at index `pos`. What the text begins with is found in a given way, and
`toChar` gives the characters of a lexeme.
-/
def scanBy {α : Type} (next : Nat → α → List α → Except Error Token.Found) (toChar : α → Char)
    (pos : Nat) : List α → Except Error (List Lexeme)
  | [] => .ok []
  | a :: rest => do
    match ← next pos a rest with
    | .skip more => scanBy next toChar (pos + more + 1) (rest.drop more)
    | .token token more =>
      let lexemes ← scanBy next toChar (pos + more + 1) (rest.drop more)
      let source := String.ofList ((a :: rest.take more).map toChar)
      .ok (⟨token, source, pos, pos + more + 1⟩ :: lexemes)
termination_by as => as.length
decreasing_by all_goals simp only [List.length_drop, List.length_cons]; omega

def scan (pos : Nat) (cs : List Char) : Except Error (List Lexeme) := scanBy Token.next id pos cs

def ofSource (source : String) : Except Error (List Lexeme) := scan 0 source.toList

/-- The lexemes of a text that may hold surrogates. -/
def ofPoints (points : List CodePoint) : Except Error (List Lexeme) :=
  scanBy Token.nextPoint CodePoint.toChar 0 points

end Lexeme

def Token.ofSource (source : String) : Except Error (List Token) := do
  let lexemes ← Lexeme.ofSource source
  .ok (lexemes.map Lexeme.token)

end ReversePolish
