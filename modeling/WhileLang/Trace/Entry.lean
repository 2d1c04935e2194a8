import WhileLang.Diagnostic
import WhileLang.Engine.Event
import WhileLang.Json.Read
import WhileLang.Text.Printable

/-!
# Lines of a trace

A trace has one event on each line, as a JSON object. `Event.line` writes such a line. `Entry.read?` reads
one back as far as a summary needs it; anything else on a line is passed over, but what is there must have
the right type.
-/

namespace WhileLang

/-- An event as JSON, with the time it happened and the name of its run. -/
def Event.toJson (time runId : String) (e : Event) : Json :=
  .object ([("ts", .text time), ("runId", .text runId), ("event", .text e.name)]
    ++ (match e.span? with | some s => [("span", s.toJson)] | none => [])
    ++ (if e.data.isEmpty then [] else [("data", .object (e.data.map fun p => (p.1, .text p.2)))]))

/-- An event as a line of a trace. -/
def Event.line (time runId : String) (e : Event) : String := (e.toJson time runId).compact ++ "\n"

namespace Trace

/-- What a summary looks at in a line. -/
structure Entry where
  event : String := ""
  runId : String := ""
  time : String := ""
  /-- Details, the latest first. -/
  data : List (String × String) := []

namespace Entry

/-- A detail of an entry. -/
def get? (e : Entry) (key : String) : Option String := e.data.lookup key

/-- The members of an entry that are read. -/
inductive Member
  | event
  | runId
  | time
  | data

/-- Upper case of a letter in a member's name. Two letters beyond ASCII have an ASCII capital. -/
def capital (c : Char) : Char :=
  if c.toNat = 0x17f then 'S' else if c.toNat = 0x212a then 'K' else c.toUpper

/-- The member with a name in any case. -/
def Member.ofName? (name : String) : Option Member :=
  match String.ofList (name.toList.map capital) with
  | "EVENT" => some .event
  | "RUNID" => some .runId
  | "TS" => some .time
  | "DATA" => some .data
  | _ => none

/-- Replace a text; null leaves it. -/
def replaceText (old : String) : Json → Option String
  | .null => some old
  | .text s => some s
  | _ => none

/-- Add details; null makes an empty one. -/
def addDetails : List (String × String) → List (String × Json) → Option (List (String × String))
  | data, [] => some data
  | data, (key, value) :: rest => do addDetails ((key, ← replaceText "" value) :: data) rest

/-- Take in one member. Details add up over members of that name, unless one of them is null. -/
def setMember (e : Entry) (name : String) (value : Json) : Option Entry :=
  match Member.ofName? name with
  | none => some e
  | some .event => do return { e with event := ← replaceText e.event value }
  | some .runId => do return { e with runId := ← replaceText e.runId value }
  | some .time => do return { e with time := ← replaceText e.time value }
  | some .data =>
    match value with
    | .null => some { e with data := [] }
    | .object details => do return { e with data := ← addDetails e.data details }
    | _ => none

/-- An entry from JSON; null is an entry without content. -/
def ofJson? : Json → Option Entry
  | .null => some {}
  | .object members => members.foldlM (fun e m => e.setMember m.1 m.2) {}
  | _ => none

/-- Read a line. Blank lines and lines that are no entries count for nothing. -/
def read? (line : List Char) : Option Entry := (Json.read? (Text.trimList line)).bind ofJson?

end Entry

end Trace

end WhileLang
