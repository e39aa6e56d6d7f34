/-!
Text as lines.

The lines of a script end at any character that ends a line in some script, and do not hold it.
The lines of an input end at line feeds only, and hold them.
-/

namespace ReversePolish.Text

/-- The lines of a text, cut after each character that `ends` a line, which is kept or left out. -/
def cutLines (ends : Char → Bool) (keep : Bool) : List Char → List (List Char)
  | [] => []
  | c :: cs =>
    if ends c then (if keep then [c] else []) :: cutLines ends keep cs
    else
      match cutLines ends keep cs with
      | [] => [[c]]
      | line :: lines => (c :: line) :: lines

/-- The text with a line feed for each carriage return and for each pair of the two. -/
def unifyLineEnds : List Char → List Char
  | [] => []
  | ['\r'] => ['\n']
  | '\r' :: '\n' :: cs => '\n' :: unifyLineEnds cs
  | c :: cs => (if c = '\r' then '\n' else c) :: unifyLineEnds cs

/--
Line feed, vertical tab, form feed, the separators of files, groups and records, and three more.
-/
def endsScriptLine (c : Char) : Bool :=
  [0xa, 0xb, 0xc, 0x1c, 0x1d, 0x1e, 0x85, 0x2028, 0x2029].contains c.toNat

def scriptLines (cs : List Char) : List String :=
  (cutLines endsScriptLine false (unifyLineEnds cs)).map String.ofList

def inputLines (s : String) : List String :=
  (cutLines (· = '\n') true s.toList).map String.ofList

/-- What follows the last line feed of a text. -/
def lastLine (s : String) : String :=
  String.ofList (s.toList.reverse.takeWhile (· ≠ '\n')).reverse

end ReversePolish.Text
