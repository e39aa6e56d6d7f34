import ReversePolish.Text.Quoted

/-!
Code points.

A text may hold surrogates. A surrogate is one half of a pair; alone it stands for no character and
has no bytes in UTF-8.
-/

namespace ReversePolish

inductive CodePoint
  | char (c : Char)
  /-- The surrogate that comes so many places after the first. -/
  | surrogate (index : Fin 2048)
  deriving DecidableEq

namespace CodePoint

/--
The character that a code point is taken for; a surrogate is taken for one that begins nothing.
-/
def toChar : CodePoint → Char
  | .char c => c
  | .surrogate _ => '\ufffd'

/-- The number of a surrogate, as messages show it. -/
def escaped (index : Fin 2048) : String := String.ofList (Text.escapedCodePoint (0xd800 + index))

def shown : CodePoint → String
  | .char c => String.singleton c
  | .surrogate i => escaped i

def quoted : CodePoint → String
  | .char c => Text.quoted (String.singleton c)
  | .surrogate i => "'" ++ escaped i ++ "'"

end CodePoint

end ReversePolish
