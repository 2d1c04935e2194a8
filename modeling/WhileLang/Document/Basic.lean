import WhileLang.Log
import WhileLang.Scope
import WhileLang.Engine.Run

/-!
# Program documents

A document is a program with the environment it starts in. `Document.executeBy` checks it and, if no error
is found, has it run; warnings go along with the outcome.
-/

namespace WhileLang

/-- A program, the environment it starts in, and the name of the file it came from. -/
structure Document where
  file : String
  env : Env
  program : Tree

/-- A run of a document that passed its check. -/
structure Execution where
  warnings : List Diagnostic
  outcome : Outcome

namespace Document

/-- All diagnostics of a document. -/
def check (doc : Document) : List Diagnostic := doc.program.check doc.env

/-- Check a document and have its program run unless the check finds errors, which are then returned. -/
def executeBy {m : Type → Type} [Monad m] (doc : Document) (run : m Outcome) :
    m (Except (List Diagnostic) Execution) := do
  let ds := doc.check
  if Diagnostics.hasErrors ds then return .error ds
  else return .ok { warnings := ds, outcome := ← run }

/-- Check a document and run it under the given settings. -/
def execute (doc : Document) (cfg : Settings) (fuel : Nat) :
    Except (List Diagnostic) Execution :=
  doc.executeBy (m := Id) (doc.program.execute cfg fuel doc.env)

/-- What is logged before a run: its warnings, and that it starts. -/
def startRecords (doc : Document) (runId : String) (warnings : List Diagnostic) :
    List Log.Record :=
  warnings.map (fun d =>
    { level := Log.Level.warn, message := d.message
      values := [("code", d.code.text), ("file", doc.file)] })
    ++ [{ level := Log.Level.debug, message := "executing program"
          values := [("file", doc.file), ("runId", runId), ("bindings", toString doc.env.size)] }]

/-- What is logged after a run. -/
def endRecord (doc : Document) (o : Outcome) : Log.Record :=
  match o.halt? with
  | some h =>
    { level := Log.Level.info, message := "program failed"
      values := [("file", doc.file), ("code", h.toFailure.code.text), ("steps", toString o.steps)] }
  | none =>
    { level := Log.Level.info, message := "program finished"
      values := [("file", doc.file), ("steps", toString o.steps)] }

/-- All that is logged around a run. -/
def records (doc : Document) (runId : String) (x : Execution) : List Log.Record :=
  doc.startRecords runId x.warnings ++ [doc.endRecord x.outcome]

end Document

end WhileLang
