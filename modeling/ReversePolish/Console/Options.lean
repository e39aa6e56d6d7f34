import ReversePolish.Text.Integer

/-!
The options of the command line.

An option may be shortened to any beginning that no other option shares, and its value may follow
an equals sign. A negative number is a value, and so is any text with a space in it. The first
run of arguments that are neither options nor their values names the files; a later one is
refused. After a separator `--` nothing is an option. A separator that stands after an equals sign
is no value: it leaves the option blank, and whoever asks for its value fails.
-/

namespace ReversePolish.Console

inductive Switch
  | help | depth | workers | noInput | showStack | level
  deriving DecidableEq

namespace Switch

def spellings : List (String × Switch) := [
  ("-h", .help), ("--help", .help), ("--max-depth", .depth), ("--workers", .workers),
  ("--no-stdin", .noInput), ("--show-stack", .showStack), ("--log-level", .level)]

def ofSpelling? (s : String) : Option Switch := spellings.lookup s

/-- All spellings of a switch, as messages name it. -/
def label (s : Switch) : String :=
  String.intercalate "/" ((spellings.filter fun p => p.2 = s).map Prod.fst)

def takesValue : Switch → Bool
  | .depth => true
  | .workers => true
  | .level => true
  | _ => false

end Switch

inductive Setting (α : Type)
  | unset
  /-- There is a separator in the place of the value. -/
  | blank
  | given (value : α)

/-- The value given, or else the default; none if it is blank. -/
def Setting.value? {α : Type} : Setting α → α → Option α
  | .unset, default => some default
  | .blank, _ => none
  | .given value, _ => some value

structure Options where
  files : List String
  depth : Setting Int
  workers : Setting Int
  readInput : Bool
  showStack : Bool
  level : Setting String

namespace Options

def standard : Options := ⟨[], .unset, .unset, true, false, .unset⟩

inductive Fault
  | ambiguous (text : String) (candidates : List String)
  | missingValue (switch : Switch)
  | notInteger (switch : Switch) (text : String)
  /-- A switch that takes no value is given one. -/
  | needlessValue (switch : Switch) (text : String)
  | unrecognized (texts : List String)
  deriving DecidableEq

def Fault.message : Fault → String
  | .ambiguous text candidates =>
    "ambiguous option: " ++ text ++ " could match " ++ String.intercalate ", " candidates
  | .missingValue s => "argument " ++ s.label ++ ": expected one argument"
  | .notInteger s text => "argument " ++ s.label ++ ": invalid int value: " ++ Text.quoted text
  | .needlessValue s text =>
    "argument " ++ s.label ++ ": ignored explicit argument " ++ Text.quoted text
  | .unrecognized texts => "unrecognized arguments: " ++ String.intercalate " " texts

inductive Stop
  | help
  | fault (fault : Fault)
  deriving DecidableEq

/-! ### Arguments one by one -/

inductive Argument
  | plain (text : String)
  | separator
  /-- A switch, and the value in the same argument. -/
  | switch (spelling : String) (switch : Switch) (attached : Option (List Char))
  | unknown (text : String)
  deriving DecidableEq

/-- The parts before and after the first equals sign. -/
def cutEquals (cs : List Char) : List Char × Option (List Char) :=
  match cs.dropWhile (· ≠ '=') with
  | _ :: value => (cs.takeWhile (· ≠ '='), some value)
  | [] => (cs, none)

/-- Whether a text is a negative number in decimal notation, a final line feed apart. -/
def isNegativeNumber (cs : List Char) : Bool :=
  let digit (c : Char) := (Text.decimalDigit? c).isSome
  let ends (cs : List Char) := cs = [] || cs = ['\n']
  match cs with
  | '-' :: cs =>
    match cs.dropWhile digit with
    | '.' :: fraction => fraction.head?.any digit && ends (fraction.dropWhile digit)
    | rest => cs.head?.any digit && ends rest
  | _ => false

/-- The switches that a text may stand for beside its exact spelling. -/
def candidates (cs : List Char) : List Argument :=
  let (stem, value) := cutEquals cs
  Switch.spellings.filterMap fun (spelling, s) =>
    if cs.take 2 = ['-', '-'] then
      if stem.isPrefixOf spelling.toList then some (.switch spelling s value) else none
    else if spelling.toList = cs.take 2 then some (.switch spelling s (some (cs.drop 2)))
    else if cs.isPrefixOf spelling.toList then some (.switch spelling s none)
    else none

/-- The switch that a text spells out, with or without a value after an equals sign. -/
def spelledOut? (cs : List Char) : Option Argument :=
  match Switch.ofSpelling? (String.ofList cs) with
  | some s => some (.switch (String.ofList cs) s none)
  | none =>
    match cutEquals cs with
    | (stem, some value) =>
      (Switch.ofSpelling? (String.ofList stem)).map fun s =>
        .switch (String.ofList stem) s (some value)
    | (_, none) => none

def Argument.spelling : Argument → String
  | .plain text => text
  | .separator => "--"
  | .switch spelling _ _ => spelling
  | .unknown text => text

def classify (text : String) : Except Fault Argument :=
  let cs := text.toList
  if cs.head? ≠ some '-' || cs = ['-'] then .ok (.plain text)
  else
    match spelledOut? cs, candidates cs with
    | some argument, _ => .ok argument
    | none, [argument] => .ok argument
    | none, [] =>
      .ok (if isNegativeNumber cs || cs.contains ' ' then .plain text else .unknown text)
    | none, several => .error (.ambiguous text (several.map Argument.spelling))

/-- Looks at all arguments, up to a separator. -/
def classifyAll : List String → Except Fault (List Argument)
  | [] => .ok []
  | text :: rest =>
    if text = "--" then .ok (.separator :: rest.map .plain)
    else do
      let argument ← classify text
      let arguments ← classifyAll rest
      .ok (argument :: arguments)

/-! ### The whole command line -/

structure Progress where
  options : Options
  /-- Whether the files have been named. -/
  named : Bool
  refused : List String

/-- Whether an argument is neither a switch nor taken for one. -/
def Argument.isPlain : Argument → Bool
  | .plain _ => true
  | .separator => true
  | _ => false

def Argument.file? : Argument → Option String
  | .plain text => some text
  | _ => none

/--
Why a short help switch stops when text follows it in the same argument: the letter may be repeated,
and nothing else may follow.
-/
def helpStop (cs : List Char) : Stop :=
  let rest := cs.dropWhile (· = 'h')
  if cs ≠ [] && rest = [] then .help else .fault (.needlessValue .help (String.ofList rest))

def integerSetting (s : Switch) (text : String) : Except Stop (Setting Int) :=
  if text = "--" then .ok .blank
  else
    match Text.readInteger text with
    | .ok i => .ok (.given i)
    | .error _ => .error (.fault (.notInteger s text))

def assign (o : Options) (s : Switch) (text : String) : Except Stop Options :=
  match s with
  | .depth => do
    let depth ← integerSetting s text
    .ok { o with depth }
  | .workers => do
    let workers ← integerSetting s text
    .ok { o with workers }
  | .level => .ok { o with level := if text = "--" then .blank else .given text }
  | _ => .ok o

def turnOn (o : Options) : Switch → Options
  | .noInput => { o with readInput := false }
  | .showStack => { o with showStack := true }
  | _ => o

/-- Reads arguments that have been looked at one by one. -/
def read (p : Progress) : List Argument → Except Stop Progress
  | [] => .ok p
  | .unknown text :: rest => read { p with refused := p.refused ++ [text] } rest
  | .switch spelling s attached :: rest =>
    match s, attached with
    | .help, none => .error .help
    | .help, some a =>
      if spelling = "-h" then .error (helpStop a)
      else .error (.fault (.needlessValue s (String.ofList a)))
    | _, some a =>
      if s.takesValue then do
        let o ← p.options.assign s (String.ofList a)
        read { p with options := o } rest
      else .error (.fault (.needlessValue s (String.ofList a)))
    | _, none =>
      if s.takesValue then
        match rest with
        | .plain text :: rest => do
          let o ← p.options.assign s text
          read { p with options := o } rest
        | _ => .error (.fault (.missingValue s))
      else read { p with options := p.options.turnOn s } rest
  | argument :: rest =>
    let run := argument :: rest.takeWhile Argument.isPlain
    let after := rest.drop (rest.takeWhile Argument.isPlain).length
    if p.named then read { p with refused := p.refused ++ run.map Argument.spelling } after
    else
      let o := { p.options with files := run.filterMap Argument.file? }
      read { p with options := o, named := true } after
termination_by arguments => arguments.length
decreasing_by all_goals simp only [List.length_drop, List.length_cons]; omega

def ofArguments (args : List String) : Except Stop Options :=
  match classifyAll args with
  | .error fault => .error (.fault fault)
  | .ok arguments => do
    let p ← read ⟨standard, false, []⟩ arguments
    if p.refused = [] then .ok p.options else .error (.fault (.unrecognized p.refused))

end Options

end ReversePolish.Console
