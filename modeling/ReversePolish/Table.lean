import Std.Data.ExtTreeMap
import ReversePolish.Definition
import ReversePolish.Grouping

/-!
The table of names.

It keeps the values of variables by name, the functions by name and arity, and the arity of the
function that was declared last by name. These three are kept in step by the writes: binding a name
forgets its functions of all arities, and defining a function forgets the variable of that name, but
none of the other functions. Tables are equal when they answer all questions alike.
-/

namespace ReversePolish

/-- The functions in the order of their names, and of their arities if they share a name. -/
abbrev Functions := Std.ExtTreeMap (String × Int) Definition (@compare (String × Int) lexOrd)

structure Table where
  values : Std.ExtTreeMap String Number
  functions : Functions
  latest : Std.ExtTreeMap String Int
  /-- The number of writes so far. -/
  generation : Nat

namespace Table

def empty : Table := ⟨∅, ∅, ∅, 0⟩

def valueOf? (t : Table) (name : String) : Option Number := t.values[name]?

def definition? (t : Table) (name : String) (arity : Int) : Option Definition :=
  t.functions[(name, arity)]?

def body? (t : Table) (name : String) (arity : Int) : Option Body :=
  (t.definition? name arity).map Definition.body

/-- The number of arguments that each name takes when tokens are grouped. -/
def arityOf (t : Table) : Arities := fun name => t.latest[name]?

/-- The arities with which a name is a function, in increasing order. -/
def arities (t : Table) (name : String) : List Int :=
  (t.functions.keys.filter fun key => key.1 = name).map Prod.snd

def bind (t : Table) (name : String) (value : Number) : Table where
  values := t.values.insert name value
  functions := t.functions.filter fun key _ => key.1 ≠ name
  latest := t.latest.filter fun key _ => key ≠ name
  generation := t.generation + 1

def define (t : Table) (d : Definition) : Table where
  values := t.values.filter fun key _ => key ≠ d.name
  functions := t.functions.insert d.key d
  latest := t.latest.insert d.name d.arity
  generation := t.generation + 1

def bindings (t : Table) : List (String × Number) := t.values.toList

def definitions (t : Table) : List Definition := t.functions.toList.map Prod.snd

end Table

end ReversePolish
