import WhileLang.Tree.Basic

/-!
# Why a run stops early

`Fault` is an error of the program itself: a name without a value, or a value of the wrong type. `Halt`
adds what may stop any run from outside: a step or time limit, or a withdrawn run.
-/

namespace WhileLang

/-- What went wrong in a reduction. -/
inductive Fault.Cause
  | unbound (name : String)
  | operands (op : Op) (left right : String)
  | assigned (got name : String)
  | condition (got : String)
deriving DecidableEq

/-- An error of the program, with the position of the tree that raised it. -/
structure Fault where
  cause : Fault.Cause
  span : Span
deriving DecidableEq

/-- The wording of a fault. -/
def Fault.message (f : Fault) : String :=
  match f.cause with
  | .unbound name => s!"unbound variable '{name}'"
  | .operands op left right =>
    s!"operator '{op.symbol}' requires two numbers, got {left} and {right}"
  | .assigned got name => s!"cannot assign {got} to '{name}'"
  | .condition got => s!"if condition must be a boolean, got {got}"

/-- A fault is either an unbound name or a type mismatch. -/
def Fault.isUnbound (f : Fault) : Bool :=
  match f.cause with
  | .unbound _ => true
  | _ => false

/-- Why a run stops before it reaches a normal form. -/
inductive Halt
  | fault (f : Fault)
  | steps (max : Int)
  | time (ms : Int)
  | cancelled
  | deadline
deriving DecidableEq

/-- The wording of a halt. -/
def Halt.message : Halt → String
  | .fault f => f.message
  | .steps max => s!"step budget exceeded (max {max})"
  | .time ms => s!"time budget exceeded ({ms}ms)"
  | .cancelled => "context canceled"
  | .deadline => "context deadline exceeded"

/-- Whether a limit was used up. -/
def Halt.isBudget : Halt → Bool
  | .steps _ | .time _ => true
  | _ => false

end WhileLang
