/-!
Paths of files in their plain form.
-/

namespace ReversePolish.Console

/--
The parts of a path between slashes, without empty ones and those that stand for the same place.
-/
def pathParts (cs : List Char) : List (List Char) :=
  match cs with
  | [] => []
  | '/' :: rest => pathParts rest
  | c :: rest =>
    let part := c :: rest.takeWhile (· ≠ '/')
    let parts := pathParts (rest.drop (rest.takeWhile (· ≠ '/')).length)
    if part = ['.'] then parts else part :: parts
termination_by cs.length
decreasing_by all_goals simp only [List.length_drop, List.length_cons]; omega

/-- What a path begins with: two slashes stay two, more count as one. -/
def pathRoot : List Char → List Char
  | '/' :: '/' :: '/' :: _ => ['/']
  | '/' :: '/' :: _ => ['/', '/']
  | '/' :: _ => ['/']
  | _ => []

/-- A path in its plain form; the empty path is the present directory. -/
def plainPath (path : String) : String :=
  let root := pathRoot path.toList
  let parts := pathParts path.toList
  if root = [] && parts = [] then "."
  else String.ofList (root ++ List.intercalate ['/'] parts)

end ReversePolish.Console
