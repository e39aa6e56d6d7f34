import ReversePolish.Engine

/-!
The journal of an engine: a record of what commands do to the table, of passes over several
expressions, and of exponents and moduli that were not whole numbers.

A record may show a number that is too long to write. A lax journal leaves such a record out, and
then everything happens as without a journal. Under a strict journal what makes the record fails:
an evaluation ends there, and so does a command, which has already written to the table.

The records are found by following the commands once more, so that the engine itself knows
nothing of them.
-/

namespace ReversePolish

/-- What a number stands for that has to be whole. -/
inductive Role
  | exponent
  | modulus
  deriving DecidableEq

def Role.text : Role → String
  | .exponent => "exponent"
  | .modulus => "modulus"

inductive Record
  /-- A number is used in place of which the whole part of its absolute value is taken. -/
  | coerced (role : Role) (value : Number)
  | bound (name : String) (value : Number)
  | defined (again : Bool) (d : Definition)
  /-- Several expressions are evaluated in one pass. -/
  | pass (entries generation : Nat)

namespace Record

def origin : Record → String
  | .coerced _ _ => "rpn_lang.values"
  | .bound _ _ => "rpn_lang.table"
  | .defined _ _ => "rpn_lang.table"
  | .pass _ _ => "rpn_lang.dispatcher"

/-- The text of a record, unless it shows a number that is too long to write. -/
def text? : Record → Option String
  | .coerced role v => do
    let value ← v.text?
    let whole ← Decimal.ofNat? v.floorAbs
    some (role.text ++ " " ++ value ++ " coerced to " ++ whole)
  | .bound name v => do
    let value ← v.text?
    some ("bound variable " ++ name ++ " = " ++ value)
  | .defined again d => do
    let arity ← Decimal.ofInt? d.arity
    some ((if again then "redefined " else "defined ") ++ d.body.mode ++ " function " ++ d.name ++
      "|" ++ arity)
  | .pass entries generation =>
    some ("parallel pass over " ++ Decimal.ofNat entries ++ " entries (table generation " ++
      Decimal.ofNat generation ++ ")")

def line? (r : Record) : Option String :=
  r.text?.map fun text => "DEBUG " ++ r.origin ++ ": " ++ text

def isWritable (r : Record) : Bool := r.text?.isSome

end Record

/-- The record of a number that has to be whole, if it is negative or not whole. -/
def Number.coercion (a : Number) (role : Role) : List Record :=
  if a < 0 || !a.isInteger then [.coerced role a] else []

inductive Journal
  | lax
  | strict
  deriving DecidableEq

namespace Journal

/-- The records of those given that are written. -/
def kept (j : Journal) (rs : List Record) : List Record :=
  match j with
  | .lax => rs.filter Record.isWritable
  | .strict => rs.takeWhile Record.isWritable

/-- Whether things go on after the records given. -/
def admits (j : Journal) (rs : List Record) : Bool :=
  match j with
  | .lax => true
  | .strict => rs.all Record.isWritable

end Journal

namespace Machine

def State.records : State → List Record
  | ⟨.apply .pow :: _, e :: _, _⟩ => e.coercion .exponent
  | ⟨.applyPowMod :: _, m :: e :: _, _⟩ => e.coercion .exponent ++ m.coercion .modulus
  | _ => []

/--
The outcome, if the machine halts within so many steps, and the records made on the way, put
before those in `past`, the last one first.
-/
def trace (j : Journal) (scope : Scope) (limit : Int) (past : List Record) :
    Nat → State → Option (Outcome × List Record)
  | 0, _ => none
  | fuel + 1, s =>
    let past := (j.kept s.records).reverse ++ past
    if j.admits s.records then
      match step scope limit s with
      | .continue s => trace j scope limit past fuel s
      | .halt outcome => some (outcome, past)
      | .stuck => none
    else some (.error .unwritable, past)

end Machine

namespace Engine

/-- The outcome of an expression and the records of its evaluation. -/
def trace (e : Engine) (j : Journal) (fuel : Nat) (expr : Expr) :
    Option (Outcome × List Record) :=
  (Machine.trace j e.table.scope e.limits.depth [] fuel (Machine.start expr [] 0)).map
    fun (outcome, past) => (outcome, past.reverse)

def evaluationRecords (e : Engine) (j : Journal) (fuel : Nat) (expr : Expr) : List Record :=
  match e.trace j fuel expr with
  | some (_, records) => records
  | none => []

/-- The top expression, if it is complete. -/
def top (e : Engine) : List Expr :=
  match e.pop e.table.arityOf 0 with
  | (.ok expr, _) => [expr]
  | (.error _, _) => []

def evaluated (e : Engine) : Command → List Expr
  | .emit => e.top
  | .bind _ => e.top
  | .settle => e.top
  | .double => e.top
  | .bytes => e.top
  | .flush =>
    match e.entries with
    | .ok exprs => exprs
    | .error _ => []
  | _ => []

def readingRecords (e : Engine) (j : Journal) (fuel : Nat) (c : Command) : List Record :=
  let exprs := e.evaluated c
  (if 2 ≤ exprs.length then [.pass exprs.length e.table.generation] else []) ++
    exprs.flatMap (e.evaluationRecords j fuel)

/-- The record of what a command has written to the table, after which the engine is `after`. -/
def writingRecords (e after : Engine) (c : Command) : List Record :=
  let defined (name : String) (arity : Nat) : List Record :=
    ((after.table.definition? name arity).map fun d =>
      .defined (e.table.body? name arity).isSome d).toList
  if e.table.generation < after.table.generation then
    match c with
    | .bind name => ((after.table.valueOf? name).map (.bound name)).toList
    | .declare name arity => defined name arity
    | .declareLoop name arity => defined name arity
    | _ => []
  else []

def commandRecords (e after : Engine) (j : Journal) (fuel : Nat) (c : Command) : List Record :=
  e.readingRecords j fuel c ++ j.kept (e.writingRecords after c)

def runUnder (e : Engine) (j : Journal) (fuel : Nat) (c : Command) : Option Reply :=
  match e.runBy (fun expr => (e.trace j fuel expr).map Prod.fst) c with
  | none => none
  | some reply =>
    if j.admits (e.writingRecords reply.engine c) then some reply
    else some { reply with result := .error .unwritable }

def tokenRecords (e after : Engine) (j : Journal) (fuel : Nat) : Token → List Record
  | .command c => e.commandRecords after j fuel c
  | _ => []

/-- The records of tokens dealt with one after the other, up to the first that fails. -/
def forEachRecords (act : Engine → Token → Option Reply) (j : Journal) (fuel : Nat) (e : Engine) :
    List Token → List Record
  | [] => []
  | t :: ts =>
    match act e t with
    | none => []
    | some ⟨.error _, after⟩ => e.tokenRecords after j fuel t
    | some ⟨.ok _, after⟩ => e.tokenRecords after j fuel t ++ after.forEachRecords act j fuel ts

/-- The records of a source text whose tokens are dealt with in a given way. -/
def sourceRecords (act : Engine → Token → Option Reply) (j : Journal) (fuel : Nat) (e : Engine)
    (source : String) : List Record :=
  match Token.ofSource source with
  | .ok ts => e.forEachRecords act j fuel ts
  | .error _ => []

end Engine

end ReversePolish
