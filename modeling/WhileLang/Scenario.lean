import WhileLang.Host.Basic
import WhileLang.Host.Path
import WhileLang.Yaml.Bind

/-!
# Scenarios

A scenario is a directory with a program and a description of what a command should do with it.
-/

namespace WhileLang

open Yaml (BindError Datum)

/-- Remarks on a scenario. -/
structure Scenario.Remarks where
  description : String := ""
  tags : List String := []

/-- A command line, without the program's own name, and what is expected of it. -/
structure Scenario where
  cmd : List String := []
  remarks : Option Scenario.Remarks := none
  exitCode : Int := 0
  stdoutJson : Datum := .null
  stdoutText : String := ""
  stderrContains : String := ""
  stderrJson : Datum := .null

namespace Scenario

/-- The file that describes a scenario. -/
def fileName : String := "scenario.yaml"

/-- Why a scenario could not be loaded. -/
inductive Problem
  | unusable (path : String) (e : FileError)
  | malformed (dir : String) (e : BindError)
  | empty (dir : String)
  | command (dir : String)

/-- The wording of a problem. -/
def Problem.message : Problem → String
  | .unusable path e => e.message path
  | .malformed dir e => "scenario " ++ dir ++ ": " ++ e.message
  | .empty dir => "scenario " ++ dir ++ ": EOF"
  | .command dir => "scenario " ++ dir ++ ": cmd needs a command and a program file"

/-- The fields of the remarks. -/
def remarkFields : List (Yaml.Bind.Field Remarks) :=
  [.of "description" Yaml.Bind.text fun r s => { r with description := s },
    .of "tags" Yaml.Bind.texts fun r l => { r with tags := l }]

/-- Read remarks, which may be missing: null takes them away, and a mapping makes them. -/
def readRemarks (fuel : Nat) (s : Scenario) (place : Yaml.Place) (n : Yaml.Node) :
    Yaml.Binding Scenario := do
  match n, n.tag with
  | .scalar _ _ tag text, "!!null" =>
    let _ ← Yaml.Bind.meaning tag text
    return { s with remarks := none }
  | n, "!!null" =>
    let _ ← @Yaml.Bind.scalar Unit "*testutil.ScenarioMeta" (fun _ _ => none) place n
    return s
  | n, _ =>
    let (r, _) ←
      Yaml.Bind.fill "testutil.ScenarioMeta" remarkFields fuel none place n (s.remarks.getD {})
    return { s with remarks := some r }

/-- The fields of what is expected. -/
def expectFields (fuel : Nat) : List (Yaml.Bind.Field Scenario) :=
  [.of "exitCode" (Yaml.Bind.int "int") fun s n => { s with exitCode := n },
    .of "stdoutJson" (Yaml.Bind.any fuel) fun s d => { s with stdoutJson := d },
    .of "stdoutText" Yaml.Bind.text fun s t => { s with stdoutText := t },
    .of "stderrContains" Yaml.Bind.text fun s t => { s with stderrContains := t },
    .of "stderrJsonSubset" (Yaml.Bind.any fuel) fun s d => { s with stderrJson := d }]

/-- The fields of a scenario. -/
def fields (fuel : Nat) : List (Yaml.Bind.Field Scenario) :=
  [.of "cmd" Yaml.Bind.texts fun s l => { s with cmd := l },
    { name := "meta", read := fun place n s => Yaml.Bind.visit (readRemarks fuel s) place n },
    .ofFields "expect" "testutil.ExpectedResult" (expectFields fuel) fuel id fun _ s => s]

/-- Read a description. -/
def parse (dir : String) (source : Yaml.Source) : Except Problem Scenario :=
  let read := Yaml.bindRecord
    (fun fuel place n s => do
      return (← Yaml.Bind.fill "testutil.Scenario" (fields fuel) fuel none place n s).1)
    source ({} : Scenario)
  match read with
  | .error e => .error (.malformed dir e)
  | .ok none => .error (.empty dir)
  | .ok (some s) => if s.cmd.length < 2 then .error (.command dir) else .ok s

/-- Load the scenario in a directory. -/
def load {m : Type → Type} [Monad m] (folders : Folders m) (dir : String) : m (Except Problem Scenario) := do
  let path := Path.join dir fileName
  match ← folders.read path with
  | .ok bytes => return parse dir (Yaml.Source.ofBytes bytes)
  | .error .isDirectory =>
    return parse dir (Yaml.Source.unreadable (FileError.isDirectory.message path))
  | .error e => return .error (.unusable path e)

/-- The directories with a scenario below a directory, in increasing order of their names. -/
def list {m : Type → Type} [Monad m] (folders : Folders m) (root : String) :
    m (Except Problem (List String)) := do
  match ← folders.list root with
  | .error e => return .error (.unusable root e)
  | .ok names =>
    let dirs := (names.filter (·.2)).map fun p => Path.join root p.1
    return .ok (← dirs.filterM fun dir => folders.holds (Path.join dir fileName))

/-- The subcommand. -/
def command (s : Scenario) : String := s.cmd.headD ""

/-- The text after a beginning, if it has that beginning. -/
def after? (beginning s : String) : Option String :=
  if beginning.toList.isPrefixOf s.toList then
    some (String.ofList (s.toList.drop beginning.length))
  else none

/-- The value of a flag among some arguments: the argument after it, or what follows its equals sign. -/
def flagIn (name : String) : List String → Option String
  | [] => none
  | arg :: rest =>
    match arg == name, rest with
    | true, value :: _ => some value
    | _, _ => (after? (name ++ "=") arg).or (flagIn name rest)

/-- The value of a flag. -/
def flag? (s : Scenario) (name : String) : Option String := flagIn name s.cmd

/-- Whether a flag is there as an argument of its own. -/
def hasFlag (s : Scenario) (name : String) : Bool := s.cmd.contains name

/-- The program of a scenario: the name of its file, and its text. -/
def program {m : Type → Type} [Monad m] (folders : Folders m) (dir : String) (s : Scenario) :
    m (Except Problem (String × Bytes)) := do
  let name := s.cmd.getD 1 ""
  let path := Path.join dir name
  match ← folders.read path with
  | .ok bytes => return .ok (name, bytes)
  | .error e => return .error (.unusable path e)

end Scenario

end WhileLang
