/-!
The limits of an engine: how many recursive calls may be active at a time, and how many workers
may share a pass over the stack. Both are positive.
-/

namespace ReversePolish

structure Limits where
  depth : Int
  workers : Option Int
  depth_pos : 0 < depth
  workers_pos : ∀ w ∈ workers, 0 < w

namespace Limits

inductive Fault
  | depth
  | workers
  deriving DecidableEq

def Fault.message : Fault → String
  | .depth => "max_depth must be positive"
  | .workers => "workers must be positive"

/-- The limits given, if they are positive; the depth is looked at first. -/
def make (depth : Int) (workers : Option Int) : Except Fault Limits :=
  if hd : 0 < depth then
    match workers with
    | none => .ok ⟨depth, none, hd, by simp⟩
    | some w =>
      if hw : 0 < w then .ok ⟨depth, some w, hd, by simpa using hw⟩ else .error .workers
  else .error .depth

def standard : Limits := ⟨1000, none, by decide, by simp⟩

end Limits

end ReversePolish
