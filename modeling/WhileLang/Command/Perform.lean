import WhileLang.Command.Request
import WhileLang.Config
import WhileLang.Document.Source
import WhileLang.Report
import WhileLang.Trace.Summary

/-!
# Doing what a command line asks for

`Command.perform` takes a command line from its arguments to what is printed and the exit status. All files
are read and written through the host.
-/

namespace WhileLang.Command

/-- What a command leaves behind besides files. -/
structure Output where
  exit : Nat := 0
  stdout : String := ""
  stderr : String := ""

namespace Output

/-- Something that went wrong before a command began. -/
def failure (message : String) : Output := { exit := 1, stderr := "error: " ++ message ++ "\n" }

/-- Text that was printed earlier. -/
def afterLog (log : String) (o : Output) : Output := { o with stderr := log ++ o.stderr }

end Output

/-- What holds throughout a command. -/
structure Session where
  config : Config
  pretty : Bool
  level : Log.Level

namespace Session

/-- Settle what the options leave to the settings. -/
def start (config : Config) (o : Options) : Except String Session :=
  let pretty := o.pretty.getD config.pretty
  if o.logLevel == "" then .ok ⟨config, pretty, config.logLevel⟩
  else
    match Log.Level.read? o.logLevel with
    | some level => .ok ⟨config, pretty, level⟩
    | none => .error (Log.Level.unknown o.logLevel)

/-- Diagnostics in the form that was asked for. -/
def shown (s : Session) (ds : List Diagnostic) : String :=
  if s.pretty then Diagnostics.pretty ds else (Diagnostics.toJson ds).compact

/-- Report diagnostics and fail with the status of the first error. -/
def report (s : Session) (ds : List Diagnostic) : Output :=
  { exit := (Diagnostics.code ds).exitStatus, stderr := s.shown ds ++ "\n" }

/-- Report that a file cannot be used. -/
def ioError (s : Session) (message : String) : Output := s.report [{ code := .io, message := message }]

/-! ## Commands on a document -/

/-- The name that the standard input has in diagnostics. -/
def inputName : String := "<stdin>"

/-- Read a program: its text and the name it has in diagnostics. -/
def readSource {m : Type → Type} [Monad m] (s : Session) (host : Host m) (file : String) :
    m (Except Output (Yaml.Source × String)) := do
  if file == "-" then
    match ← host.input with
    | .ok bytes => return .ok (Yaml.Source.ofBytes bytes, inputName)
    | .error reason => return .error (s.ioError ("cannot read stdin: " ++ reason))
  else
    match ← host.read file with
    | .ok bytes => return .ok (Yaml.Source.ofBytes bytes, file)
    | .error _ => return .error (s.ioError ("cannot read file: " ++ file))

/-- What `check` prints. Warnings alone do not make it fail. -/
def checkOutput (s : Session) (name : String) (source : Yaml.Source) : Output :=
  let ds := Document.checkSource name source
  if Diagnostics.hasErrors ds then s.report ds
  else if !ds.isEmpty then { stdout := s.shown ds ++ "\n" }
  else if s.pretty then { stdout := "No errors found.\n" }
  else { stdout := "[]\n" }

/-- What `render` prints. -/
def renderOutput (s : Session) (name : String) (source : Yaml.Source) : Output :=
  match Document.renderSource name source with
  | .ok text => { stdout := text }
  | .error ds => s.report ds

/-- Format a program, to the standard output or back into its file. -/
def format {m : Type → Type} [Monad m] (s : Session) (host : Host m) (write : Bool)
    (file name : String) (source : Yaml.Source) : m Output := do
  match Document.formatSource name source with
  | .error ds => return s.report ds
  | .ok text =>
    let remark : Log.Record :=
      { level := .warn, message := "comments are not preserved by the formatter"
        values := [("file", name)] }
    let log := Log.lines (← host.logTime) s.level (if Document.hasComments source then [remark] else [])
    if write && file != "-" then
      match ← host.write file (Bytes.ofText text) with
      | .ok _ => return { stderr := log }
      | .error e => return (s.ioError ("error writing file: " ++ e.message file)).afterLog log
    else return { stdout := text, stderr := log }

/-! ## Running -/

/-- The limits on a run: those of the command line, else those of the settings. -/
def limits (s : Session) (o : Options) : Limits :=
  { maxSteps := match o.maxSteps with
      | some n => Limits.positive n
      | none => s.config.limits.maxSteps
    timeMs := match o.timeMs with
      | some n => Limits.positive n
      | none => s.config.limits.timeMs }

/-- What is logged about an event of a run. -/
def eventRecord? (e : Event) : Option Log.Record :=
  let field (key : String) : String × String := (key, (e.data.lookup key).getD "")
  match e with
  | .step _ _ =>
    some { level := .debug, message := "step", values := [field "kind", field "node", field "depth"] }
  | .assign _ _ =>
    some { level := .debug, message := "assign", values := [field "name", field "value"] }
  | _ => none

/-- All that is logged about a run. -/
def runRecords (doc : Document) (runId : String) (x : Execution) : List Log.Record :=
  doc.startRecords runId x.warnings ++ x.outcome.events.filterMap eventRecord?
    ++ [doc.endRecord x.outcome]

/-- What a run prints in the end. -/
def outcomeOutput (s : Session) (o : Outcome) : Output :=
  match o.halt? with
  | some h => s.report [h.toFailure.toDiagnostic]
  | none =>
    let result := resultReport o.result o.env
    { stdout := (if s.pretty then result.indented 0 else result.compact) ++ "\n" }

/-- Empty the file for the trace, if there is to be one. -/
def openTrace {m : Type → Type} [Monad m] (s : Session) (host : Host m) (o : Options) :
    m (Except Output Unit) := do
  if o.traceOut == "" then return .ok ()
  else
    match ← host.write o.traceOut [] with
    | .ok _ => return .ok ()
    | .error _ => return .error (s.ioError ("cannot write trace file: " ++ o.traceOut))

/-- Run a program. The file for the trace is emptied before anything else is done. -/
def run {m : Type → Type} [Monad m] (s : Session) (host : Host m) (o : Options) (name : String)
    (source : Yaml.Source) : m Output := do
  match ← s.openTrace host o with
  | .error out => return out
  | .ok _ =>
    match Document.ofSource name source with
    | .error ds => return s.report ds
    | .ok doc =>
      let cfg : Settings :=
        { limits := s.limits o, traced := o.traceOut != "" || s.level ≤ Log.Level.debug }
      match ← doc.executeBy (host.execute doc cfg) with
      | .error ds => return s.report ds
      | .ok x =>
        if o.traceOut != "" then
          let time ← host.traceTime
          let lines := x.outcome.events.map (Event.line time o.runId)
          let _ ← host.write o.traceOut (Bytes.ofText (String.join lines))
        let log := Log.lines (← host.logTime) s.level (runRecords doc o.runId x)
        return (s.outcomeOutput x.outcome).afterLog log

/-! ## Commands without a document -/

/-- Summarise a trace. -/
def summarise {m : Type → Type} [Monad m] (s : Session) (host : Host m) (text : Bool) (file : String) :
    m Output := do
  match ← host.read file with
  | .error .isDirectory =>
    return s.ioError ("cannot read trace " ++ file ++ ": " ++ FileError.isDirectory.message file)
  | .error _ => return s.ioError ("cannot read file: " ++ file)
  | .ok bytes =>
    let summary := (Trace.Summary.ofLines (Text.ofUtf8 bytes)).timed
    if text || s.pretty then return { stdout := summary.text }
    else return { stdout := summary.toJson.compact ++ "\n" }

/-- The settings and where they come from. -/
def configOutput (s : Session) : Output :=
  { stdout := "# " ++ s.config.path.getD "defaults" ++ "\n" ++ s.config.encode }

/-- Carry out a command. -/
def carryOut {m : Type → Type} [Monad m] (s : Session) (host : Host m) (verb : Verb) (o : Options)
    (file : String) : m Output := do
  match verb with
  | .config => return s.configOutput
  | .trace => s.summarise host o.text file
  | verb =>
    match ← s.readSource host file with
    | .error out => return out
    | .ok (source, name) =>
      match verb with
      | .run => s.run host o name source
      | .fmt => s.format host o.write file name source
      | .render => return s.renderOutput name source
      | _ => return s.checkOutput name source

end Session

/-- A short reminder of the commands. -/
def helpText : String :=
  "Evaluate SIMPLE programs\n\nUsage:\n  simple [command]\n\nAvailable Commands:\n"
    ++ String.join (Verb.all.map fun v => "  " ++ v.name ++ "\n")

/-- Do what a command line asks for. Its form is checked before the settings are loaded. -/
def perform {m : Type → Type} [Monad m] (host : Host m) (args : List String) : m Output := do
  match Request.ofArgs args with
  | .error e => return .failure e.message
  | .ok .help => return { stdout := helpText }
  | .ok (.perform verb o file) =>
    match ← Config.load host with
    | .error p => return .failure p.message
    | .ok config =>
      match Session.start config o with
      | .error message => return .failure message
      | .ok s => s.carryOut host verb o file

end WhileLang.Command
