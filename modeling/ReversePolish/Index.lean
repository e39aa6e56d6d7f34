/-!
Indices into lists.

A negative index counts from the end of a list. An index is a signed number of 64 bits, and one
that is not is refused whatever the list.
-/

namespace ReversePolish.Index

inductive Fault
  | outOfRange
  | tooWide
  deriving DecidableEq

def Fault.message (kind : String) : Fault → String
  | .outOfRange => kind ++ " index out of range"
  | .tooWide => "cannot fit 'int' into an index-sized integer"

/-- The least number that is too great for an index. -/
def bound : Int := 9223372036854775808

def position (length : Nat) (i : Int) : Except Fault Nat :=
  if i < -bound || bound ≤ i then .error .tooWide
  else
    let place := if i < 0 then i + length else i
    if 0 ≤ place && place < length then .ok place.toNat else .error .outOfRange

end ReversePolish.Index
