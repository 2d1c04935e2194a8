import WhileLang.Engine.Event

/-!
# Running a program

`eval` drives a tree to normal form by repeated reduction. Before each step it asks whether the run has
been withdrawn, whether the step limit is used up and whether the time is over, in this order; then it
counts the step. The step counter is shared by all nested evaluations, while the environment travels
with the evaluation itself: when a part halts, the environment that survives is the one that the
outermost evaluation held when it began its current step.

`eval` recurses on fuel. Every call takes a step before it recurses, so a run with a step limit of `m`
needs no more than `m + 1`; `Limits.fuel` hands out that much.
-/

namespace WhileLang

/-- Limits on a run; a limit that is missing does not bind. -/
structure Limits where
  maxSteps : Option Int := none
  timeMs : Option Int := none

/-- A limit as settings write it: zero or less means no limit. -/
def Limits.positive (n : Int) : Option Int := if n ≤ 0 then none else some n

/-- Whether somebody still waits for the run. -/
inductive Demand
  | live
  | cancelled
  | deadline
deriving DecidableEq

/-- A demand that stays the same throughout a run. -/
instance : Coe Demand (Nat → Demand) := ⟨fun d _ => d⟩

/-- All that steers a run besides its program. -/
structure Settings where
  limits : Limits := {}
  /-- The demand as found before the step with this number; a run may be withdrawn at any time. -/
  demand : Nat → Demand := Demand.live
  /-- Whole milliseconds since the start, as read before the step with this number. -/
  clock : Nat → Int := fun _ => 0
  traced : Bool := false

/-- What a run keeps besides the environment: the number of steps taken, and the events so far with
the latest first. -/
structure Progress where
  steps : Nat := 0
  events : List Event := []

namespace Progress

/-- Note an event, if the run is traced. -/
def note (p : Progress) (cfg : Settings) (e : Event) : Progress :=
  if cfg.traced then { p with events := e :: p.events } else p

/-- Count a step on a tree. -/
def step (p : Progress) (cfg : Settings) (t : Tree) (depth : Nat) : Progress :=
  { p with steps := p.steps + 1 }.note cfg (.step t depth)

end Progress

namespace Engine

/-- Why the next step must not be taken, if so. -/
def stopBefore? (cfg : Settings) (steps : Nat) : Option Halt :=
  match cfg.demand steps with
  | .cancelled => some .cancelled
  | .deadline => some .deadline
  | .live =>
    match cfg.limits.maxSteps with
    | some m => if m ≤ steps then some (.steps m) else overtime? steps
    | none => overtime? steps
where
  /-- Whether the time is over before the given step. -/
  overtime? (steps : Nat) : Option Halt :=
    match cfg.limits.timeMs with
    | some ms => if ms ≤ cfg.clock steps then some (.time ms) else none
    | none => none


/-- Drive a tree to normal form. `depth` is the nesting of evaluations, one for the outermost. -/
def eval (cfg : Settings) (fuel : Nat) (depth : Nat) (t : Tree) (env : Env) (p : Progress) :
    Reply × Progress :=
  match fuel with
  | 0 => (.unfinished, p)
  | fuel + 1 =>
    let t := t.orNothing
    match stopBefore? cfg p.steps with
    | some halt => (.halted halt env, p)
    | none =>
      let p := p.step cfg t depth
      if t.isReducible then
        let m : Machine Progress :=
          { eval := fun t env p => eval cfg fuel (depth + 1) t env p
            assigned := fun name v p => p.note cfg (.assign name v) }
        match t.reduce m env p with
        | (.done next env, p) => eval cfg fuel depth next env p
        | (.halted halt _, p) => (.halted halt env, p)
        | (.unfinished, p) => (.unfinished, p)
      else (.done t env, p)

end Engine

/-- Fuel that is never short of the step limit. -/
def Limits.fuel (l : Limits) (otherwise : Nat) : Nat :=
  match l.maxSteps with
  | some m => m.toNat + 1
  | none => otherwise

/-- The outcome of a whole run. -/
structure Outcome where
  reply : Reply
  steps : Nat
  /-- The events in the order in which they happened. -/
  events : List Event

namespace Outcome

/-- The environment that a run leaves behind. -/
def env (o : Outcome) : Env :=
  match o.reply with
  | .done _ env | .halted _ env => env
  | .unfinished => Env.empty

/-- The normal form that a run reaches. -/
def result (o : Outcome) : Tree :=
  match o.reply with
  | .done t _ => t
  | _ => .absent

/-- Why a run stopped early. -/
def halt? (o : Outcome) : Option Halt :=
  match o.reply with
  | .halted h _ => some h
  | _ => none

end Outcome

/-- Run a program: the events are closed by one that says how the run ended. An absent program does
nothing. -/
def Tree.execute (cfg : Settings) (fuel : Nat) (t : Tree) (env : Env) : Outcome :=
  let t := t.orNothing
  let start := ({} : Progress).note cfg (.runStart t)
  let (reply, p) := Engine.eval cfg (cfg.limits.fuel fuel) 1 t env start
  let p :=
    match reply with
    | .done v env => p.note cfg (.runEnd v env p.steps)
    | .halted h _ => p.note cfg h.event
    | .unfinished => p
  { reply := reply, steps := p.steps, events := p.events.reverse }

/-- Run a program without limits. -/
def Tree.run (fuel : Nat) (t : Tree) (env : Env) : Reply :=
  (Engine.eval {} fuel 1 t env {}).1

end WhileLang
