import WhileLang.Command.Flag

/-!
# What a command line asks for

The first argument that is neither a flag nor the value of one names the command. What follows are the
command's own flags and arguments. For a word that is no command, those that are near to it are offered: the distance
of two texts is the least number of bytes that have to be put in, taken out or replaced to get from one to the
other.
-/

namespace WhileLang.Command

/-- What can be done. -/
inductive Verb
  | run
  | check
  | fmt
  | render
  | trace
  | config
deriving DecidableEq

namespace Verb

/-- All of them, in the order in which they are offered. -/
def all : List Verb := [run, check, fmt, render, trace, config]

/-- The word for it. -/
def name : Verb → String
  | run => "run"
  | check => "check"
  | fmt => "fmt"
  | render => "render"
  | trace => "trace"
  | config => "config"

/-- The flags that only it has. -/
def ownFlags : Verb → List Flag
  | run =>
    [.number "max-steps" fun o n => { o with maxSteps := some n },
      .number "time-ms" fun o n => { o with timeMs := some n },
      .words "trace-out" fun o s => { o with traceOut := s },
      .words "run-id" fun o s => { o with runId := s }]
  | fmt => [.switch "write" (some 'w') fun o b => { o with write := b }]
  | trace => [.switch "text" none fun o b => { o with text := b }]
  | _ => []

/-- All flags that may be used with it. -/
def flags (v : Verb) : List Flag := v.ownFlags ++ Flag.shared ++ [Flag.help]

end Verb

/-- A command line that makes sense. -/
inductive Request
  | help
  /-- Something to do with a file; `config` has none. -/
  | perform (verb : Verb) (options : Options) (file : String)

/-- What is wrong with a command line. -/
inductive UsageError
  | unknownCommand (word : String) (suggestions : List String)
  | surplus (word : String) (verb : Verb)
  | argumentCount (n : Nat)
  | flag (e : FlagError)

/-- The wording of an error. -/
def UsageError.message : UsageError → String
  | .unknownCommand word suggestions =>
    "unknown command " ++ Text.quoted word ++ " for \"simple\""
      ++ (if suggestions.isEmpty then ""
          else "\n\nDid you mean this?\n" ++ String.join (suggestions.map fun s => "\t" ++ s ++ "\n"))
  | .surplus word verb => "unknown command " ++ Text.quoted word ++ " for \"simple " ++ verb.name ++ "\""
  | .argumentCount n => s!"accepts 1 arg(s), received {n}"
  | .flag e => e.message

namespace Request

/-! ## Suggestions -/

/-- The rest of a row: the distances after one more byte `c` of the first text. `above` is the row before,
of which `corner` was the last number used, and `left` is the last number of this row. -/
def distanceRow (c : UInt8) : (other : List UInt8) → (corner : Nat) → (above : List Nat) → (left : Nat) →
    List Nat
  | d :: other, corner, up :: above, left =>
    let n := if c == d then corner else min corner (min up left) + 1
    n :: distanceRow c other up above n
  | _, _, _, _ => []

/-- The row after one more byte of the first text. -/
def nextDistances (other : List UInt8) (row : List Nat) (c : UInt8) : List Nat :=
  match row with
  | corner :: above => (corner + 1) :: distanceRow c other corner above (corner + 1)
  | [] => []

/-- The distance of two texts, worked out row by row. -/
def distance (a b : List UInt8) : Nat :=
  (a.foldl (nextDistances b) (List.range (b.length + 1))).getLastD 0

/-- Lower case of a letter. Two letters beyond ASCII have an ASCII lower case. -/
def lower (c : Char) : Char :=
  if c.toNat = 0x130 then 'i' else if c.toNat = 0x212a then 'k' else c.toLower

/-- A word in lower case. -/
def lowerCase (s : String) : String := String.ofList (s.toList.map lower)

/-- The words that are offered: the commands, and the one that writes scripts for a shell. -/
def offered : List String := Verb.all.map Verb.name ++ ["completion"]

/-- The farthest that a suggestion may be from the word that was typed. -/
def reach : Nat := 2

/-- The commands that are near to a word or begin with it, in any case. -/
def suggestions (word : String) : List String :=
  let word := lowerCase word
  offered.filter fun name =>
    distance word.toUTF8.toList name.toUTF8.toList ≤ reach || word.toList.isPrefixOf name.toList

/-! ## The command word -/

/-- Whether the argument after this one belongs to it, as far as is known before the command is. A flag
that is not known is taken to have a value. -/
def takesNext (arg : String) : Bool :=
  match arg.toList with
  | '-' :: '-' :: name =>
    !name.contains '=' && !Flag.shared.any fun f => f.name.toList == name && !f.needsValue
  | ['-', c] => c != '=' && c.toNat < 0x80
  | _ => false

/-- The command word and the arguments without it. A flag at the very end has no value to pass over. -/
def command? : List String → Option (String × List String)
  | [] => none
  | arg :: rest =>
    if arg == "--" then none
    else if takesNext arg then
      match rest with
      | value :: next :: rest => (command? (next :: rest)).map fun p => (p.1, arg :: value :: p.2)
      | _ => none
    else if arg == "" || arg.toList.head? == some '-' then
      (command? rest).map fun p => (p.1, arg :: p.2)
    else some (arg, rest)

/-- Read flags, or say what is wrong with them. -/
def readFlags (flags : List Flag) (args : List String) : Except UsageError (Options × List String) :=
  match Flag.read flags args {} [] with
  | .ok r => .ok r
  | .error e => .error (.flag e)

/-- The request for a command. -/
def ofVerb (verb : Verb) (args : List String) : Except UsageError Request := do
  let (o, words) ← readFlags verb.flags args
  if o.help then return .help
  else
    match verb, words with
    | .config, [] => return .perform verb o ""
    | .config, word :: _ => .error (.surplus word verb)
    | _, [file] => return .perform verb o file
    | _, words => .error (.argumentCount words.length)

/-- The request of a command line. -/
def ofArgs (args : List String) : Except UsageError Request := do
  match command? args with
  | none =>
    let _ ← readFlags (Flag.shared ++ [Flag.help]) args
    return .help
  | some (word, rest) =>
    match Verb.all.find? (·.name == word) with
    | some verb => ofVerb verb rest
    | none =>
      if word == "help" || word == "completion" then return .help
      else .error (.unknownCommand word (suggestions word))

end Request

end WhileLang.Command
