import WhileLang.Host.Basic
import WhileLang.Host.Path
import WhileLang.Yaml.Bind
import WhileLang.Yaml.Render

/-!
# Settings

Settings come from a file of the project, else from a file of the user, else they are the defaults. A file
that exists but is not right is an error; it does not lead on to the next one.
-/

namespace WhileLang

open Yaml (Node BindError)

/-- Settings of the commands. -/
structure Config where
  /-- The greatest number of steps; zero for no limit. -/
  maxSteps : Int := 0
  /-- The greatest number of milliseconds; zero for no limit. -/
  timeMs : Int := 0
  pretty : Bool := false
  level : String := "warn"
  /-- The file that the settings come from. -/
  path : Option String := none

namespace Config

/-- Why settings could not be loaded. -/
inductive Problem
  | unusable (path : String) (e : FileError)
  | malformed (path : String) (e : BindError)
  | level (path text : String)
  | negative (path : String)

/-- The wording of a problem. -/
def Problem.message : Problem → String
  | .unusable path e => e.message path
  | .malformed path e => "config: parse " ++ path ++ ": " ++ e.message
  | .level path text => "config: " ++ path ++ ": " ++ Log.Level.unknown text
  | .negative path => "config: " ++ path ++ ": budget limits must not be negative"

/-- The settings in a file, field by field. -/
def fields (fuel : Nat) : List (Yaml.Bind.Field Config) :=
  [.ofFields "budget" "config.BudgetConfig"
      [.of "max_steps" (Yaml.Bind.int "int64") fun c n => { c with maxSteps := n },
        .of "time_ms" (Yaml.Bind.int "int64") fun c n => { c with timeMs := n }]
      fuel id fun _ c => c,
    .ofFields "output" "config.OutputConfig"
      [.of "pretty" Yaml.Bind.bool fun c b => { c with pretty := b }]
      fuel id fun _ c => c,
    .ofFields "log" "config.LogConfig"
      [.of "level" Yaml.Bind.text fun c s => { c with level := s }]
      fuel id fun _ c => c]

/-- Read settings over the defaults. An empty file keeps them all. -/
def parse (s : Yaml.Source) : Except BindError Config := do
  let c ← Yaml.bindRecord
    (fun fuel place n c => do
      return (← Yaml.Bind.fill "config.Config" (fields fuel) fuel none place n c).1)
    s ({} : Config)
  return c.getD {}

/-- The settings in a file that has been read, or could be opened but not read. -/
def ofFile (path : String) (s : Yaml.Source) : Except Problem Config :=
  match parse s with
  | .error e => .error (.malformed path e)
  | .ok c =>
    if (Log.Level.read? c.level).isNone then .error (.level path c.level)
    else if c.maxSteps < 0 ∨ c.timeMs < 0 then .error (.negative path)
    else .ok { c with path := some path }

/-- The files that may hold settings, the first that exists counts. -/
def candidates (workDir : String) (home : Option String) : List String :=
  Path.join workDir ".simple.yaml"
    :: (home.map fun h => Path.join (Path.join h ".simple") "config.yaml").toList

/-- Load settings from the first file that exists. -/
def loadFrom {m : Type → Type} [Monad m] (host : Host m) : List String → m (Except Problem Config)
  | [] => return .ok {}
  | path :: rest => do
    match ← host.read path with
    | .ok bytes => return ofFile path (Yaml.Source.ofBytes bytes)
    | .error .missing => loadFrom host rest
    | .error .isDirectory =>
      return ofFile path (Yaml.Source.unreadable (FileError.isDirectory.message path))
    | .error e => return .error (.unusable path e)

/-- Load the settings for the current directory. -/
def load {m : Type → Type} [Monad m] (host : Host m) : m (Except Problem Config) :=
  loadFrom host (candidates host.workDir host.home)

/-- The limits on a run. -/
def limits (c : Config) : Limits :=
  { maxSteps := Limits.positive c.maxSteps, timeMs := Limits.positive c.timeMs }

/-- The level of the log. -/
def logLevel (c : Config) : Log.Level := (Log.Level.read? c.level).getD 0

/-- The settings as a document. -/
def encode (c : Config) : String :=
  let node := Node.ofFields false
    [("budget", .ofFields false [("max_steps", .ofInt c.maxSteps), ("time_ms", .ofInt c.timeMs)]),
      ("output", .ofFields false [("pretty", .ofBool c.pretty)]),
      ("log", .ofFields false [("level", .ofString c.level)])]
  node.render true

end Config

end WhileLang
