import WhileLang.Time.Instant
import WhileLang.Trace.Entry

/-!
# Summaries of traces

A summary counts the events of a trace and keeps what its last end says. `Summary.ofLines` reads a whole
trace; `Summary.text` and `Summary.toJson` show it.
-/

namespace WhileLang.Trace

/-- What a trace tells about its run. -/
structure Summary where
  runId : String := ""
  totalEvents : Nat := 0
  steps : Nat := 0
  /-- How many steps there are on each kind of tree, in increasing order of the kinds. -/
  stepsByKind : List (String × Nat) := []
  maxDepth : Int := 0
  assignments : Nat := 0
  errors : Nat := 0
  budgetExceeded : Nat := 0
  result : String := ""
  env : String := ""
  startTime : String := ""
  endTime : String := ""
  durationMs : Int := 0

namespace Summary

/-- Count one more of a kind. -/
def count (kind : String) : List (String × Nat) → List (String × Nat)
  | [] => [(kind, 1)]
  | (k, n) :: rest =>
    if kind < k then (kind, 1) :: (k, n) :: rest
    else if kind = k then (k, n + 1) :: rest
    else (k, n) :: count kind rest

/-- Take in a step. -/
def addStep (s : Summary) (e : Entry) : Summary :=
  { s with
    steps := s.steps + 1
    stepsByKind := match e.get? "kind" with
      | some kind => count kind s.stepsByKind
      | none => s.stepsByKind
    maxDepth := match Text.int64? ((e.get? "depth").getD "").toList with
      | some d => max s.maxDepth d
      | none => s.maxDepth }

/-- Take in an entry. The first run that has a name gives it to the summary. -/
def add (s : Summary) (e : Entry) : Summary :=
  let s :=
    { s with totalEvents := s.totalEvents + 1, runId := if s.runId = "" then e.runId else s.runId }
  match e.event with
  | "run_start" => { s with startTime := if s.startTime = "" then e.time else s.startTime }
  | "run_end" =>
    { s with
      endTime := e.time
      result := (e.get? "result").getD ""
      env := (e.get? "env").getD "" }
  | "step" => s.addStep e
  | "assign" => { s with assignments := s.assignments + 1 }
  | "error" => { s with errors := s.errors + 1, endTime := e.time }
  | "budget_exceeded" => { s with budgetExceeded := s.budgetExceeded + 1, endTime := e.time }
  | _ => s

/-- A number of nanoseconds that 64 bits can hold, as near as possible. -/
def saturate (n : Int) : Int := max (-9223372036854775808) (min 9223372036854775807 n)

/-- Work out the duration, if both ends are known. It is cut to whole milliseconds. -/
def timed (s : Summary) : Summary :=
  match Instant.read? true (.zoned 'T') s.startTime.toList,
      Instant.read? true (.zoned 'T') s.endTime.toList with
  | some a, some b => { s with durationMs := (saturate (b.toNanos - a.toNanos)).tdiv 1000000 }
  | _, _ => s

/-- Characters between line feeds; the lines so far have the latest first. -/
def splitLines : List Char → List Char → List (List Char) → List (List Char)
  | [], line, acc => (line.reverse :: acc).reverse
  | c :: rest, line, acc =>
    if c = '\n' then splitLines rest [] (line.reverse :: acc) else splitLines rest (c :: line) acc

/-- Take in the lines of a trace, without working out its duration. -/
def ofLines (text : List Char) : Summary :=
  ((splitLines text [] []).filterMap Entry.read?).foldl add {}

/-- A member that is left out when its text is empty. -/
def optional (key value : String) : List (String × Json) :=
  if value = "" then [] else [(key, .text value)]

/-- The summary as JSON. -/
def toJson (s : Summary) : Json :=
  .object ([("runId", .text s.runId), ("totalEvents", .int s.totalEvents), ("steps", .int s.steps),
      ("stepsByKind", .object (s.stepsByKind.map fun p => (p.1, .int p.2))),
      ("maxDepth", .int s.maxDepth), ("assignments", .int s.assignments),
      ("errors", .int s.errors), ("budgetExceeded", .int s.budgetExceeded)]
    ++ optional "result" s.result ++ optional "env" s.env ++ optional "startTime" s.startTime
    ++ optional "endTime" s.endTime ++ [("durationMs", .int s.durationMs)])

/-- The summary for a reader. -/
def text (s : Summary) : String :=
  String.join (
    [s!"Run: {s.runId}\n", s!"Events: {s.totalEvents}\n",
      s!"Steps: {s.steps} (max depth {s.maxDepth})\n"]
    ++ s.stepsByKind.map (fun p => s!"  {p.1}: {p.2}\n")
    ++ (if 0 < s.assignments then [s!"Assignments: {s.assignments}\n"] else [])
    ++ (if s.result = "" then [] else [s!"Result: {s.result}\n", s!"Env: {s.env}\n"])
    ++ (if 0 < s.errors ∨ 0 < s.budgetExceeded then
          [s!"Errors: {s.errors} (budget exceeded: {s.budgetExceeded})\n"] else [])
    ++ (if 0 < s.durationMs then [s!"Duration: {s.durationMs}ms\n"] else []))

end Summary

end WhileLang.Trace
