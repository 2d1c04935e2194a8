import WhileLang.Engine.Reduce

/-!
# Events of a run

A traced run tells its story as a list of events: it starts, takes steps, assigns, and ends in one of
three ways. `Event.name`, `Event.span?` and `Event.data` say how each one is written down.
-/

namespace WhileLang

/-- Something that happens in a run. -/
inductive Event
  | runStart (program : Tree)
  | step (tree : Tree) (depth : Nat)
  | assign (name : String) (value : Value)
  | runEnd (result : Tree) (env : Env) (steps : Nat)
  | budgetExceeded (message : String)
  | error (message : String)

namespace Event

/-- The event's name in a trace. -/
def name : Event → String
  | .runStart _ => "run_start"
  | .step _ _ => "step"
  | .assign _ _ => "assign"
  | .runEnd _ _ _ => "run_end"
  | .budgetExceeded _ => "budget_exceeded"
  | .error _ => "error"

/-- Where it happened: only steps have a position, and only if their tree has one. -/
def span? : Event → Option Span
  | .step t _ => t.span.known?
  | _ => none

/-- The event's details, in increasing order of their keys. -/
def data : Event → List (String × String)
  | .runStart program => [("program", program.text)]
  | .step t depth => [("depth", toString depth), ("kind", t.kind), ("node", t.text)]
  | .assign name value => [("name", name), ("value", value.text)]
  | .runEnd result env steps =>
    [("env", env.text), ("result", result.text), ("steps", toString steps)]
  | .budgetExceeded message => [("message", message)]
  | .error message => [("message", message)]

end Event

/-- The event that closes a run which halted. -/
def Halt.event (h : Halt) : Event :=
  if h.isBudget then .budgetExceeded h.message else .error h.message

end WhileLang
