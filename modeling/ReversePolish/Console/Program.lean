import ReversePolish.Console.Files
import ReversePolish.Console.Options
import ReversePolish.Console.Session
import ReversePolish.Text.Lines
import ReversePolish.Text.Upper

/-!
The whole program: a command line, the scripts it names, and an input, with all that is written
and how the run ends.
-/

namespace ReversePolish.Console

/-- An error that ends the program without a report of its own. -/
inductive Failure
  | error (error : Error)
  | unknownLevel (name : String)
  | blankLevel
  | blankLimit
  | file (path : String) (fault : FileFault)
  | undecodable (fault : Utf8.Fault)
  /-- An evaluation took more steps than allowed. -/
  | exhausted

def Failure.message : Failure → String
  | .error e => e.message
  | .unknownLevel name => "Unknown level: " ++ Text.quoted name
  | .blankLevel => "'list' object has no attribute 'upper'"
  | .blankLimit => "'<' not supported between instances of 'list' and 'int'"
  | .file path fault => fault.message path
  | .undecodable fault => fault.message
  | .exhausted => "out of steps"

/-- What a run has written, and its exit code unless it failed. -/
structure Transcript where
  ending : Except Failure Nat
  output : List Chunk
  reports : String
  log : String

namespace Transcript

def outputText (t : Transcript) : String := String.join (t.output.map Chunk.toText)

def outputBytes (t : Transcript) : List UInt8 := t.output.flatMap Chunk.toBytes

def ofSession (s : Session) (ending : Except Failure Nat) : Transcript :=
  ⟨ending, s.output.reverse, String.join s.reports.reverse,
    String.join (s.log.reverse.map (· ++ "\n"))⟩

end Transcript

/-- How the program is ended by what happened in a session. -/
def Session.ending (s : Session) : Except Failure Nat :=
  match s.halted with
  | none => .ok 0
  | some (.fatal _) => .ok 1
  | some (.failure error) => .error (.error error)
  | some .exhausted => .error .exhausted

/-- Everything outside the program that a run hangs on. -/
structure World where
  /-- The limits when none are given. -/
  defaults : Limits
  /-- The bytes of the file at a path. -/
  contents : String → Except FileFault (List UInt8)
  input : String

def World.script (w : World) (path : String) : Except Failure (List String) :=
  match w.contents path with
  | .error fault => .error (.file path fault)
  | .ok bytes =>
    match Utf8.decode bytes with
    | .error fault => .error (.undecodable fault)
    | .ok cs => .ok (Text.scriptLines cs)

/-- Runs scripts one after the other, then the input. -/
def runScripts (w : World) (fuel : Nat) (o : Options) (s : Session) : List String → Transcript
  | [] =>
    let s := if o.readInput then s.runLines fuel o.showStack (Text.inputLines w.input) else s
    .ofSession s s.ending
  | file :: files =>
    let path := plainPath file
    let s := s.note .info ("INFO rpn_lang.cli: running " ++ path)
    match w.script path with
    | .error failure => .ofSession s (.error failure)
    | .ok lines =>
      let s := s.runLines fuel o.showStack lines
      if s.halted.isSome then .ofSession s s.ending else runScripts w fuel o s files

/--
How the program ends: with a transcript, with help, or with a complaint about the command line.
-/
inductive Result
  | ran (transcript : Transcript)
  | help
  | usage (message : String)

def complaint (message : String) : Result := .usage ("rpn-lang: error: " ++ message)

def Options.findLevel (o : Options) : Except Failure Level :=
  match o.level with
  | .unset => .ok .warning
  | .blank => .error .blankLevel
  | .given name =>
    match Level.ofName? (Text.upper name) with
    | some level => .ok level
    | none => .error (.unknownLevel (Text.upper name))

inductive LimitsStop
  | blank
  | fault (fault : Limits.Fault)

def checkLimits (depth : Int) (workers : Option Int) : Except LimitsStop Limits :=
  match Limits.make depth workers with
  | .ok limits => .ok limits
  | .error fault => .error (.fault fault)

/-- The limits that a command line asks for; the depth is looked at first. -/
def Options.findLimits (o : Options) (defaults : Limits) : Except LimitsStop Limits :=
  match o.depth.value? defaults.depth with
  | none => .error .blank
  | some depth =>
    match o.workers with
    | .unset => checkLimits depth defaults.workers
    | .given workers => checkLimits depth (some workers)
    | .blank => do
      let _ ← checkLimits depth none
      .error .blank

/-- The result of a run that fails before anything is written. -/
def Failure.result (failure : Failure) : Result := .ran ⟨.error failure, [], "", ""⟩

/-- Runs the program. The level is looked at before the limits. -/
def run (w : World) (fuel : Nat) (args : List String) : Result :=
  match Options.ofArguments args with
  | .error .help => .help
  | .error (.fault fault) => complaint fault.message
  | .ok o =>
    match o.findLevel, o.findLimits w.defaults with
    | .error failure, _ => failure.result
    | .ok _, .error .blank => Failure.blankLimit.result
    | .ok _, .error (.fault fault) => complaint fault.message
    | .ok level, .ok limits => .ran (runScripts w fuel o (.new limits level) o.files)

end ReversePolish.Console
