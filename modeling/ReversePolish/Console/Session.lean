import ReversePolish.Engine.Journal
import ReversePolish.Text.Utf8

/-!
Lines run on an engine, with what they write.

An error of the language is reported and the line goes on; a line that cannot be read is reported
and passed over. An error that is fatal is reported and ends the session, and so does any error
outside the language, which is not reported.
-/

namespace ReversePolish.Console

/-- How much is logged; each level holds those after it. -/
inductive Level
  | all | debug | info | warning | error | critical
  deriving DecidableEq

namespace Level

def rank : Level → Nat
  | .all => 0
  | .debug => 10
  | .info => 20
  | .warning => 30
  | .error => 40
  | .critical => 50

def ofName? : String → Option Level
  | "CRITICAL" => some .critical
  | "FATAL" => some .critical
  | "ERROR" => some .error
  | "WARN" => some .warning
  | "WARNING" => some .warning
  | "INFO" => some .info
  | "DEBUG" => some .debug
  | "NOTSET" => some .all
  | _ => none

def logs (l m : Level) : Bool := l.rank ≤ m.rank

end Level

inductive Chunk
  | text (text : String)
  | bytes (bytes : List UInt8)

namespace Chunk

def toText : Chunk → String
  | .text s => s
  | .bytes b => Utf8.decodeLossy b

def toBytes : Chunk → List UInt8
  | .text s => Utf8.encode s
  | .bytes b => b

end Chunk

inductive Halt
  /-- A fatal error, which has been reported. -/
  | fatal (error : Error)
  /-- An error outside the language, which has not. -/
  | failure (error : Error)
  /-- An evaluation took more steps than allowed. -/
  | exhausted

/-- An engine, and what has been written so far, the last first. -/
structure Session where
  engine : Engine
  level : Level
  output : List Chunk
  reports : List String
  log : List String
  halted : Option Halt

namespace Session

def new (limits : Limits) (level : Level) : Session := ⟨.new limits, level, [], [], [], none⟩

def write (s : Session) (chunk : Chunk) : Session := { s with output := chunk :: s.output }

def report (s : Session) (line : String) : Session := { s with reports := line :: s.reports }

def halt (s : Session) (h : Halt) : Session := { s with halted := some h }

/-- Logs a line, if its level is logged. -/
def note (s : Session) (level : Level) (line : String) : Session :=
  if s.level.logs level then { s with log := line :: s.log } else s

def marker : Command → String
  | .emit => "> "
  | .bind _ => "> "
  | .flush => "> "
  | .settle => "< "
  | _ => ""

/-- Writes an output of a command on a line of its own, unless the session has ended. -/
def writeOutput (c : Command) (s : Session) (output : Output) : Session :=
  if s.halted.isSome then s
  else
    match output with
    | .value v =>
      match v.text? with
      | some text => s.write (.text (marker c ++ text ++ "\n"))
      | none => s.halt (.failure .unwritable)
    | .bytes b => (s.write (.bytes b)).write (.text "\n")
    | .text t => s.write (.text (marker c ++ t ++ "\n"))

def texts (outputs : List Output) : List String :=
  outputs.filterMap fun
    | .text t => some t
    | _ => none

/-- Writes the outputs of a command; a listing goes on one line. -/
def writeAll (s : Session) (c : Command) (outputs : List Output) : Session :=
  match c with
  | .list => s.write (.text (String.intercalate "  " (texts outputs) ++ "\n"))
  | _ => outputs.foldl (writeOutput c) s

def writeOutputs (s : Session) (t : Token) (outputs : List Output) : Session :=
  match t with
  | .command c => s.writeAll c outputs
  | _ => s

/-- Logs the records of a token after which the engine is `after`. -/
def journal (s : Session) (fuel : Nat) (t : Token) (after : Engine) : Session :=
  if s.level.logs .debug then
    let lines := (s.engine.tokenRecords after .lax fuel t).filterMap Record.line?
    { s with log := lines.reverse ++ s.log }
  else s

/-- What is done about an error of a token. -/
def recover (s : Session) (t : Token) (error : Error) : Session :=
  if error.isFatal then (s.report ("fatal: " ++ error.message ++ "\n")).halt (.fatal error)
  else if error.isLanguage then
    (s.note .debug
      ("DEBUG rpn_lang.cli: command " ++ Text.quoted (t.display?.getD "") ++ " failed")).report
        ("error: " ++ error.message ++ "\n")
  else s.halt (.failure error)

/-- Runs one token, unless the session has ended. -/
def runToken (fuel : Nat) (s : Session) (t : Token) : Session :=
  if s.halted.isSome then s
  else
    match s.engine.accept (·.run fuel ·) t with
    | none => s.halt .exhausted
    | some ⟨result, after⟩ =>
      let s := { s.journal fuel t after with engine := after }
      match result with
      | .ok outputs => s.writeOutputs t outputs
      | .error error => s.recover t error

def runLine (fuel : Nat) (s : Session) (line : String) : Session :=
  if s.halted.isSome then s
  else
    match Token.ofSource line with
    | .ok ts => ts.foldl (runToken fuel) s
    | .error error =>
      if error.isLanguage then s.report ("error: " ++ error.message ++ "\n")
      else s.halt (.failure error)

/-- Says how many tokens are on the stack, unless the session has ended. -/
def writeSize (s : Session) : Session :=
  if s.halted.isSome then s
  else s.write (.text (Decimal.ofNat s.engine.stack.size ++ " elements in stack\n"))

/-- Runs lines, and says after each how many tokens are on the stack if asked to. -/
def runLines (fuel : Nat) (showStack : Bool) (s : Session) (lines : List String) : Session :=
  lines.foldl (fun s line =>
    if showStack then (s.runLine fuel line).writeSize else s.runLine fuel line) s

end Session

end ReversePolish.Console
