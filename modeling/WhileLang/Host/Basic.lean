import WhileLang.Document.Basic

/-!
# The world outside

A `Host` is all that the commands ask of the system they run on, and `Folders` is what the search for
scenarios asks. Both are written against these, so they run in memory as well as on a real system.
-/

namespace WhileLang

/-- Bytes of a file. -/
abbrev Bytes := List UInt8

/-- The bytes of a text. -/
def Bytes.ofText (s : String) : Bytes := s.toUTF8.toList

/-- Why a file cannot be used. -/
inductive FileError
  | missing
  | notDirectory
  | isDirectory
  | other (reason : String)
deriving DecidableEq

/-- The wording of the error for a path. A directory can be opened, but not read. -/
def FileError.message (path : String) : FileError → String
  | .missing => "open " ++ path ++ ": no such file or directory"
  | .notDirectory => "open " ++ path ++ ": not a directory"
  | .isDirectory => "read " ++ path ++ ": is a directory"
  | .other reason => "open " ++ path ++ ": " ++ reason

/-- What can be found out about directories. -/
structure Folders (m : Type → Type) where
  /-- The contents of a file. -/
  read : String → m (Except FileError Bytes)
  /-- The names in a directory, in increasing order, and whether each is a directory. -/
  list : String → m (Except FileError (List (String × Bool)))
  /-- Whether there is anything at a path. -/
  holds : String → m Bool

/-- Services of the system, run in a monad. -/
structure Host (m : Type → Type) where
  /-- The current directory. -/
  workDir : String
  /-- The home directory of the user, if there is one. -/
  home : Option String
  /-- The contents of a file. -/
  read : String → m (Except FileError Bytes)
  /-- Replace the contents of a file, which is made if it does not exist. -/
  write : String → Bytes → m (Except FileError Unit)
  /-- All of the standard input, or why it cannot be read. -/
  input : m (Except String Bytes)
  /-- The time for a line of a trace. -/
  traceTime : m String
  /-- The time for a line of the log, if lines show it. -/
  logTime : m (Option String)
  /-- Run the program of a document that has been checked. -/
  execute : Document → Settings → m Outcome

end WhileLang
