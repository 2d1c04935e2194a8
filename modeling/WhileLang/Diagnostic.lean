import WhileLang.Json.Basic
import WhileLang.Fault

/-!
# Diagnostics

A `Diagnostic` is what a user is told about a document or a run: a code, a message, and where known a
position and a hint. `Failure` is any way in which an operation can fail; it always has a code and a
message, so that it can be shown as a diagnostic and mapped to an exit status.
-/

namespace WhileLang

/-- The kind of a diagnostic. -/
inductive Code
  | decode
  | malformed
  | unbound
  | mismatch
  | budget
  | cancelled
  | io
  | internal
  | custom (name : String)
deriving DecidableEq

namespace Code

/-- The code as it is printed. -/
def text : Code → String
  | .decode => "E_DECODE"
  | .malformed => "E_AST"
  | .unbound => "E_UNBOUND"
  | .mismatch => "E_TYPE"
  | .budget => "E_BUDGET"
  | .cancelled => "E_CANCELLED"
  | .io => "E_IO"
  | .internal => "E_INTERNAL"
  | .custom name => name

/-- The code with a given text. -/
def ofText (s : String) : Code :=
  match [decode, malformed, unbound, mismatch, budget, cancelled, io, internal].find?
      (·.text == s) with
  | some c => c
  | none => .custom s

/-- The exit status of a command that ends with the code. -/
def exitStatus : Code → Nat
  | .io => 1
  | .decode | .malformed => 2
  | .budget | .cancelled => 3
  | _ => 4

end Code

/-- How grave a diagnostic is. Anything that is not a warning prevents execution. -/
inductive Severity
  | unstated
  | warning
  | custom (name : String)
deriving DecidableEq

namespace Severity

/-- The severity as it is printed; unstated means an error. -/
def text : Severity → String
  | .unstated => ""
  | .warning => "warning"
  | .custom name => name

/-- The severity with a given text. -/
def ofText (s : String) : Severity :=
  if s == "" then .unstated else if s == "warning" then .warning else .custom s

end Severity

/-- A remark on a document or a run. -/
structure Diagnostic where
  code : Code
  message : String
  span : Option Span := none
  hint : String := ""
  severity : Severity := .unstated
deriving DecidableEq

/-- A span as JSON. -/
def Span.toJson (s : Span) : Json :=
  .object [("file", .text s.file), ("startLine", .int s.startLine), ("startCol", .int s.startCol),
    ("endLine", .int s.endLine), ("endCol", .int s.endCol)]

namespace Diagnostic

/-- A warning does not prevent execution. -/
def isWarning (d : Diagnostic) : Bool := d.severity == .warning

/-- A member that is left out when its text is empty. -/
def optionalText (key value : String) : List (String × Json) :=
  if value == "" then [] else [(key, .text value)]

/-- The diagnostic as JSON; what is unset is left out. -/
def toJson (d : Diagnostic) : Json :=
  .object ([("code", .text d.code.text), ("message", .text d.message)]
    ++ (match d.span with | some s => [("span", s.toJson)] | none => [])
    ++ optionalText "hint" d.hint ++ optionalText "severity" d.severity.text)

/-- The diagnostic for a reader: two lines, and a third one for a hint. -/
def pretty (d : Diagnostic) : String :=
  let place := match d.span with | some s => s.startText | none => "<unknown>"
  let level := if d.isWarning then "warning" else "error"
  level ++ "[" ++ d.code.text ++ "]: " ++ d.message ++ "\n  --> " ++ place
    ++ (if d.hint == "" then "" else "\n  hint: " ++ d.hint)

end Diagnostic

namespace Diagnostics

/-- Whether any diagnostic prevents execution. -/
def hasErrors (ds : List Diagnostic) : Bool := ds.any fun d => !d.isWarning

/-- All diagnostics as JSON; no diagnostics are `null`. -/
def toJson : List Diagnostic → Json
  | [] => .null
  | ds => .list (ds.map Diagnostic.toJson)

/-- All diagnostics for a reader, with an empty line between two. -/
def pretty (ds : List Diagnostic) : String :=
  String.intercalate "\n\n" (ds.map Diagnostic.pretty)

/-- The first code that prevents execution. -/
def code (ds : List Diagnostic) : Code :=
  match ds.find? fun d => !d.isWarning with
  | some d => d.code
  | none => .internal

/-- All diagnostics on one line. -/
def summary (ds : List Diagnostic) : String :=
  String.intercalate "; " (ds.map fun d => d.code.text ++ ": " ++ d.message)

end Diagnostics

/-- A way for an operation to fail. `unbound`, `mismatch` and `runtime` are errors of a running program,
`decode` is an error in a document, and `within` tells what was being done. -/
inductive Failure
  | unbound (message : String) (span : Option Span)
  | mismatch (message : String) (span : Option Span)
  | runtime (message : String) (span : Option Span)
  | decode (message : String) (span : Option Span)
  | budget (message : String)
  | cancelled
  | deadline
  | diagnostics (ds : List Diagnostic)
  | other (message : String)
  | within (task : String) (failure : Failure)

namespace Failure

/-- The code of a failure. -/
def code : Failure → Code
  | .unbound _ _ => .unbound
  | .mismatch _ _ => .mismatch
  | .runtime _ _ => .internal
  | .decode _ _ => .decode
  | .budget _ => .budget
  | .cancelled | .deadline => .cancelled
  | .diagnostics ds => Diagnostics.code ds
  | .other _ => .internal
  | .within _ f => f.code

/-- The wording of a failure. An error in a document starts with its position. -/
def message : Failure → String
  | .unbound m _ | .mismatch m _ | .runtime m _ | .budget m | .other m => m
  | .decode m none => m
  | .decode m (some s) => s.startText ++ ": " ++ m
  | .cancelled => "context canceled"
  | .deadline => "context deadline exceeded"
  | .diagnostics ds => Diagnostics.summary ds
  | .within task f => task ++ ": " ++ f.message

/-- The position of a failure. -/
def span? : Failure → Option Span
  | .unbound _ s | .mismatch _ s | .runtime _ s | .decode _ s => s
  | .within _ f => f.span?
  | _ => none

/-- Advice on a failure. -/
def hint : Failure → String
  | .unbound _ _ => "assign the variable before reading it, or provide it in env"
  | .within _ f => f.hint
  | _ => ""

/-- Whether the document is to blame. -/
def isDecode : Failure → Bool
  | .decode _ _ => true
  | .within _ f => f.isDecode
  | _ => false

/-- The failure as a diagnostic. -/
def toDiagnostic (f : Failure) : Diagnostic :=
  { code := f.code, message := f.message, span := f.span?, hint := f.hint }

end Failure

/-- A halted run as a failure. -/
def Halt.toFailure : Halt → Failure
  | .fault f =>
    if f.isUnbound then .unbound f.message f.span.known? else .mismatch f.message f.span.known?
  | .steps max => .budget (Halt.message (.steps max))
  | .time ms => .budget (Halt.message (.time ms))
  | .cancelled => .cancelled
  | .deadline => .deadline

end WhileLang
