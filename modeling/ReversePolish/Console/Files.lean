import ReversePolish.Console.Path
import ReversePolish.Text.Quoted

/-!
Files in a tree of directories.

A path is followed part by part from the present directory, in which the tree is rooted. Nothing
is known of the directories above it but that they are there.
-/

namespace ReversePolish.Console

inductive FileFault
  | missing
  | directory
  /-- A file stands in the place of a directory. -/
  | notDirectory
  | nameTooLong
  | nullCharacter
  deriving DecidableEq

def FileFault.message (path : String) : FileFault → String
  | .missing => "[Errno 2] No such file or directory: " ++ Text.quoted path
  | .notDirectory => "[Errno 20] Not a directory: " ++ Text.quoted path
  | .directory => "[Errno 21] Is a directory: " ++ Text.quoted path
  | .nameTooLong => "[Errno 36] File name too long: " ++ Text.quoted path
  | .nullCharacter => "embedded null byte"

/-- The files of a tree, with the parts of their paths. -/
structure Files where
  entries : List (List (List Char) × List UInt8)

namespace Files

/-- The tree of files written one after the other: at one place the last is found. -/
def ofList (files : List (String × List UInt8)) : Files :=
  ⟨files.reverse.map fun (path, bytes) => (pathParts path.toList, bytes)⟩

def isDirectory (fs : Files) (parts : List (List Char)) : Bool :=
  fs.entries.any fun (entry, _) => parts.isPrefixOf entry

/-- The greatest number of bytes in a part of a path. -/
def maxPart : Nat := 255

/-- The greatest number of bytes in a path. -/
def maxPath : Nat := 4095

/-- The directory above one; above the root of the tree it is not known. -/
def parent? : List (List Char) → Option (List (List Char))
  | [] => none
  | parts => some parts.dropLast

/-- Follows the rest of a path from a directory, which is not known if it is outside the tree. -/
def readFrom (fs : Files) (dir : Option (List (List Char))) :
    List (List Char) → Except FileFault (List UInt8)
  | [] => .error .directory
  | part :: rest =>
    if maxPart < (String.ofList part).utf8ByteSize then .error .nameTooLong
    else if part = ['.', '.'] then fs.readFrom (dir.bind parent?) rest
    else
      match dir with
      | none => .error .missing
      | some above =>
        let parts := above ++ [part]
        match fs.entries.lookup parts with
        | some bytes => if rest = [] then .ok bytes else .error .notDirectory
        | none =>
          if fs.isDirectory parts then fs.readFrom (some parts) rest else .error .missing

def read (fs : Files) (path : String) : Except FileFault (List UInt8) :=
  let cs := path.toList
  if cs.contains '\x00' then .error .nullCharacter
  else if maxPath < path.utf8ByteSize then .error .nameTooLong
  else fs.readFrom (if pathRoot cs = [] then some [] else none) (pathParts cs)

end Files

end ReversePolish.Console
