/-!
# Paths

`clean` gives the shortest path to the same place, going by the names alone; `join` goes on from a
directory.
-/

namespace WhileLang.Path

/-- Whether a path starts at the root. -/
def isAbsolute (path : String) : Bool := path.toList.head? == some '/'

/-- The names between the slashes. -/
def parts (path : String) : List String := path.splitOn "/"

/-- Go on by one name; the way so far has the latest name first. -/
def advance (absolute : Bool) (way : List String) (name : String) : List String :=
  if name == "" || name == "." then way
  else if name == ".." then
    match way with
    | [] => if absolute then [] else [".."]
    | last :: before => if last == ".." then ".." :: way else before
  else name :: way

/-- The shortest path to the same place. -/
def clean (path : String) : String :=
  let absolute := isAbsolute path
  let names := ((parts path).foldl (advance absolute) []).reverse
  let joined := String.intercalate "/" names
  if absolute then "/" ++ joined else if names.isEmpty then "." else joined

/-- A name inside a directory. An empty directory stands for the current one. -/
def join (dir name : String) : String := clean (if dir == "" then name else dir ++ "/" ++ name)

end WhileLang.Path
