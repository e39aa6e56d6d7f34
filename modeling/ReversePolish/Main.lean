import ReversePolish.Console.Program
import ReversePolish.Limits.Environment

/-!
The command line program.
-/

namespace ReversePolish.Console

/-- The number of steps that an evaluation may take: more than any run will see. -/
def stepBound : Nat := 4611686018427387904

def faultOf : IO.Error → FileFault
  | .inappropriateType _ 20 _ => .notDirectory
  | .inappropriateType _ _ _ => .directory
  | .invalidArgument _ 36 _ => .nameTooLong
  | _ => .missing

def readFiles (args : List String) : IO (List (String × Except FileFault (List UInt8))) :=
  match Options.ofArguments args with
  | .error _ => return []
  | .ok o =>
    o.files.mapM fun file => do
      let path := plainPath file
      try
        let bytes ← IO.FS.readBinFile path
        return (path, .ok bytes.toList)
      catch e => return (path, .error (faultOf e))

end ReversePolish.Console

open ReversePolish

def main (args : List String) : IO UInt32 := do
  let depth ← IO.getEnv Limits.depthVariable
  let workers ← IO.getEnv Limits.workersVariable
  match Limits.ofEnvironment depth workers with
  | .error fault =>
    IO.eprintln fault.message
    return 1
  | .ok defaults =>
    let files ← Console.readFiles args
    let input ← (← IO.getStdin).readToEnd
    let world : Console.World := {
      defaults
      contents := fun path => (files.lookup path).getD (.error .missing)
      input }
    match Console.run world Console.stepBound args with
    | .help =>
      IO.println ("usage: rpn-lang [-h] [--max-depth MAX_DEPTH] [--workers WORKERS] " ++
        "[--no-stdin] [--show-stack] [--log-level LOG_LEVEL] [files ...]")
      return 0
    | .usage message =>
      IO.eprintln message
      return 2
    | .ran t =>
      IO.eprint (t.log ++ t.reports)
      (← IO.getStdout).write ⟨t.outputBytes.toArray⟩
      match t.ending with
      | .ok code => return UInt32.ofNat code
      | .error failure =>
        IO.eprintln failure.message
        return 1
