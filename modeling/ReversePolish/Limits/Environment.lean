import ReversePolish.Limits
import ReversePolish.Text.Integer

/-!
Limits that are taken from the environment.
-/

namespace ReversePolish.Limits

inductive EnvironmentFault
  /-- No variable can hold a null character. -/
  | nullCharacter
  | integer (fault : Text.IntegerFault)
  | limits (fault : Fault)

def EnvironmentFault.message : EnvironmentFault → String
  | .nullCharacter => "embedded null byte"
  | .integer fault => fault.message
  | .limits fault => fault.message

def readInteger (text : String) : Except EnvironmentFault Int :=
  match Text.readInteger text with
  | .ok i => .ok i
  | .error fault => .error (.integer fault)

def depthVariable : String := "RPN_LANG_MAX_DEPTH"

def workersVariable : String := "RPN_LANG_WORKERS"

/-- The number of workers that a variable asks for; when it is empty, none. -/
def readWorkers : Option String → Except EnvironmentFault (Option Int)
  | none => .ok none
  | some "" => .ok none
  | some text => do
    let workers ← readInteger text
    .ok (some workers)

def hasNull (text : String) : Bool := text.toList.contains '\x00'

/-- The limits that two variables ask for. A depth below one counts as one. -/
def ofEnvironment (depth workers : Option String) : Except EnvironmentFault Limits := do
  if depth.any hasNull || workers.any hasNull then .error .nullCharacter
  let depth ← readInteger (depth.getD (Decimal.ofInt standard.depth))
  let workers ← readWorkers workers
  match make (if depth < 1 then 1 else depth) workers with
  | .ok limits => .ok limits
  | .error fault => .error (.limits fault)

end ReversePolish.Limits
