import ReversePolish.Machine

/-!
What expressions mean, as rules that know nothing of a machine.

`Evaluates scope limit d e frame o` says that `e` ends with the outcome `o` while `d` recursive
calls are active. An evaluation that goes on for ever has no derivation.
-/

namespace ReversePolish

/-- The operands that are evaluated before anything else, in this order. -/
def Expr.operands : Expr → List Expr
  | .binary _ l r => [l, r]
  | .powMod b e m => [b, e, m]
  | .select _ _ p => [p]
  | .call _ args => args
  | _ => []

mutual

inductive Evaluates (scope : Scope) (limit : Int) : Nat → Expr → Frame → Outcome → Prop
  | literal {d : Nat} {v : Number} {frame : Frame} :
    Evaluates scope limit d (.literal v) frame (.ok v)
  | arg {d : Nat} {i : Int} {frame : Frame} {o : Outcome} (h : frame.argument i = o) :
    Evaluates scope limit d (.arg i) frame o
  /-- A name is its variable. -/
  | value {d : Nat} {n : String} {frame : Frame} {v : Number} (h : scope.valueOf? n = some v) :
    Evaluates scope limit d (.name n) frame (.ok v)
  /-- Any other name is a call without arguments. -/
  | name {d : Nat} {n : String} {frame : Frame} {o : Outcome} (h : scope.valueOf? n = none)
      (hc : CallEvaluates scope limit d n [] o) :
    Evaluates scope limit d (.name n) frame o
  /-- The first operand that fails makes the expression fail. -/
  | operand {d : Nat} {e : Expr} {frame : Frame} {error : Error}
      (h : EvaluatesAll scope limit d e.operands frame (.error error)) :
    Evaluates scope limit d e frame (.error error)
  | binary {d : Nat} {op : Binary} {l r : Expr} {frame : Frame} {a b : Number} {o : Outcome}
      (h : EvaluatesAll scope limit d [l, r] frame (.ok [a, b])) (ho : op.apply a b = o) :
    Evaluates scope limit d (.binary op l r) frame o
  | powMod {d : Nat} {b e m : Expr} {frame : Frame} {x y z : Number} {o : Outcome}
      (h : EvaluatesAll scope limit d [b, e, m] frame (.ok [x, y, z]))
      (ho : x.modularPower y z = o) :
    Evaluates scope limit d (.powMod b e m) frame o
  /-- Of a selection only one branch is evaluated. -/
  | taken {d : Nat} {t u p : Expr} {frame : Frame} {v : Number} {o : Outcome}
      (hp : Evaluates scope limit d p frame (.ok v)) (hv : v ≠ 0)
      (ht : Evaluates scope limit d t frame o) :
    Evaluates scope limit d (.select t u p) frame o
  | untaken {d : Nat} {t u p : Expr} {frame : Frame} {o : Outcome}
      (hp : Evaluates scope limit d p frame (.ok 0)) (hu : Evaluates scope limit d u frame o) :
    Evaluates scope limit d (.select t u p) frame o
  | call {d : Nat} {n : String} {args : List Expr} {frame : Frame} {vs : List Number}
      {o : Outcome} (h : EvaluatesAll scope limit d args frame (.ok vs))
      (hc : CallEvaluates scope limit d n vs o) :
    Evaluates scope limit d (.call n args) frame o

/-- Expressions have values, found from left to right, or the first that has none fails. -/
inductive EvaluatesAll (scope : Scope) (limit : Int) :
    Nat → List Expr → Frame → Except Error (List Number) → Prop
  | nil {d : Nat} {frame : Frame} : EvaluatesAll scope limit d [] frame (.ok [])
  | cons {d : Nat} {e : Expr} {es : List Expr} {frame : Frame} {v : Number} {vs : List Number}
      (h : Evaluates scope limit d e frame (.ok v))
      (hs : EvaluatesAll scope limit d es frame (.ok vs)) :
    EvaluatesAll scope limit d (e :: es) frame (.ok (v :: vs))
  | head {d : Nat} {e : Expr} {es : List Expr} {frame : Frame} {error : Error}
      (h : Evaluates scope limit d e frame (.error error)) :
    EvaluatesAll scope limit d (e :: es) frame (.error error)
  | tail {d : Nat} {e : Expr} {es : List Expr} {frame : Frame} {v : Number} {error : Error}
      (h : Evaluates scope limit d e frame (.ok v))
      (hs : EvaluatesAll scope limit d es frame (.error error)) :
    EvaluatesAll scope limit d (e :: es) frame (.error error)

inductive CallEvaluates (scope : Scope) (limit : Int) :
    Nat → String → List Number → Outcome → Prop
  | unknown {d : Nat} {n : String} {vs : List Number} (h : scope.body? n vs.length = none) :
    CallEvaluates scope limit d n vs (.error (.unknownFunction n vs.length))
  | exhausted {d : Nat} {n : String} {vs : List Number} {body : Expr}
      (h : scope.body? n vs.length = some (.recursive body)) (hd : limit ≤ (d : Int)) :
    CallEvaluates scope limit d n vs (.error (.tooDeep limit))
  /-- A recursive call is active while its body is evaluated. -/
  | recursive {d : Nat} {n : String} {vs : List Number} {body : Expr} {o : Outcome}
      (h : scope.body? n vs.length = some (.recursive body)) (hd : (d : Int) < limit)
      (hb : Evaluates scope limit (d + 1) body vs o) :
    CallEvaluates scope limit d n vs o
  | iterative {d : Nat} {n : String} {vs : List Number} {loop : Loop} {o : Outcome}
      (h : scope.body? n vs.length = some (.iterative loop))
      (hl : LoopEvaluates scope limit d loop vs o) :
    CallEvaluates scope limit d n vs o

inductive LoopEvaluates (scope : Scope) (limit : Int) : Nat → Loop → Frame → Outcome → Prop
  | predicate {d : Nat} {loop : Loop} {frame : Frame} {error : Error}
      (h : Evaluates scope limit d loop.predicate frame (.error error)) :
    LoopEvaluates scope limit d loop frame (.error error)
  | terminal {d : Nat} {loop : Loop} {frame : Frame} {v : Number} {o : Outcome}
      (hp : Evaluates scope limit d loop.predicate frame (.ok v)) (hv : v ≠ 0)
      (ht : Evaluates scope limit d loop.terminal frame o) :
    LoopEvaluates scope limit d loop frame o
  | steps {d : Nat} {loop : Loop} {frame : Frame} {error : Error}
      (hp : Evaluates scope limit d loop.predicate frame (.ok 0))
      (hs : EvaluatesAll scope limit d loop.steps frame (.error error)) :
    LoopEvaluates scope limit d loop frame (.error error)
  /-- The values of the steps are the arguments of the next round. -/
  | again {d : Nat} {loop : Loop} {frame : Frame} {vs : List Number} {o : Outcome}
      (hp : Evaluates scope limit d loop.predicate frame (.ok 0))
      (hs : EvaluatesAll scope limit d loop.steps frame (.ok vs))
      (hl : LoopEvaluates scope limit d loop vs o) :
    LoopEvaluates scope limit d loop frame o

end

end ReversePolish
