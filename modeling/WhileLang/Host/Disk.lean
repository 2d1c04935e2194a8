import WhileLang.Host.Basic
import WhileLang.Host.Path

/-!
# Files in memory

A `Disk` holds directories and files by their absolute paths. Going along a path needs a directory at each
step, also where the path goes back up.
-/

namespace WhileLang

/-- What is at a path. -/
inductive Entry
  | directory
  | file (bytes : Bytes)

/-- Directories and files; the root is always there. -/
structure Disk where
  entries : List (List String × Entry) := []

namespace Disk

/-- What is at an absolute path. -/
def at? (d : Disk) (path : List String) : Option Entry :=
  if path.isEmpty then some .directory else d.entries.lookup path

/-- Put something at an absolute path. -/
def put (d : Disk) (path : List String) (e : Entry) : Disk :=
  { entries := (path, e) :: d.entries.filter fun p => p.1 != path }

/-- Go along names from a directory. -/
def walk (d : Disk) : List String → List String → Except FileError (List String)
  | here, [] => .ok here
  | here, name :: rest =>
    match d.at? here with
    | none => .error .missing
    | some (.file _) => .error .notDirectory
    | some .directory =>
      if name == "" || name == "." then walk d here rest
      else if name == ".." then walk d here.dropLast rest
      else walk d (here ++ [name]) rest

/-- The names on the way to an absolute path. -/
def names (path : String) : List String := (Path.parts path).filter (· != "")

/-- The place that a path leads to from the current directory. -/
def locate (d : Disk) (workDir path : String) : Except FileError (List String) :=
  if path == "" then .error .missing
  else if Path.isAbsolute path then walk d [] (Path.parts path)
  else walk d (names workDir) (Path.parts path)

/-- Read a file. -/
def read (d : Disk) (workDir path : String) : Except FileError Bytes := do
  match d.at? (← d.locate workDir path) with
  | none => .error .missing
  | some .directory => .error .isDirectory
  | some (.file bytes) => return bytes

/-- Write a file into a directory that exists. -/
def write (d : Disk) (workDir path : String) (bytes : Bytes) : Except FileError Disk := do
  let place ← d.locate workDir path
  match d.at? place with
  | some .directory => .error .isDirectory
  | _ => return d.put place (.file bytes)

/-- Insert a name in increasing order. -/
def insertName (p : String × Bool) : List (String × Bool) → List (String × Bool)
  | [] => [p]
  | q :: rest => if p.1 < q.1 then p :: q :: rest else q :: insertName p rest

/-- The names in a directory. -/
def list (d : Disk) (workDir path : String) : Except FileError (List (String × Bool)) := do
  let place ← d.locate workDir path
  match d.at? place with
  | none => .error .missing
  | some (.file _) => .error .notDirectory
  | some .directory =>
    return (d.entries.filterMap fun p =>
      match p.1.getLast? with
      | some name =>
        if p.1.dropLast == place then some (name, match p.2 with | .directory => true | _ => false) else none
      | none => none).foldr insertName []

/-- Whether there is anything at a path. -/
def holds (d : Disk) (workDir path : String) : Bool :=
  match d.locate workDir path with
  | .ok place => (d.at? place).isSome
  | .error _ => false

/-- Make a directory and all those on the way to it. -/
def makeDirectory (d : Disk) (path : List String) : Disk :=
  (List.range path.length).foldl (fun d n =>
    let p := path.take (n + 1)
    if (d.at? p).isSome then d else d.put p .directory) d

/-- Make a file and all directories on the way to it. -/
def makeFile (d : Disk) (path : List String) (bytes : Bytes) : Disk :=
  (d.makeDirectory path.dropLast).put path (.file bytes)

/-- The directories of a disk. -/
def folders (workDir : String) : Folders (StateM Disk) where
  read path := do return (← get).read workDir path
  list path := do return (← get).list workDir path
  holds path := do return (← get).holds workDir path

/-- A host whose files are in memory. Runs get the given fuel, and time passes with the steps. -/
def host (workDir : String) (home : Option String) (input : Except String Bytes) (time : String)
    (clock : Nat → Int) (fuel : Nat) : Host (StateM Disk) where
  workDir := workDir
  home := home
  read path := do return (← get).read workDir path
  write path bytes := do
    match (← get).write workDir path bytes with
    | .ok d =>
      set d
      return .ok ()
    | .error e => return .error e
  input := return input
  traceTime := return time
  logTime := return none
  execute doc cfg := return doc.program.execute { cfg with clock := clock } fuel doc.env

end Disk

end WhileLang
