import Std.Time.DateTime.Timestamp
import WhileLang.Command.Perform

/-!
# The program

The commands on the real system.
-/

namespace WhileLang.Main

/-- What an error of the system means for a file. -/
def fileError : IO.Error → FileError
  | .noFileOrDirectory _ _ _ => .missing
  | .inappropriateType _ code _ => if code == 21 then .isDirectory else .notDirectory
  | e => .other (toString e)

/-- Run an action on a file. -/
def onFile {α : Type} (act : IO α) : IO (Except FileError α) := do
  try
    return .ok (← act)
  catch e => return .error (fileError e)

/-- Read a stream to its end. -/
partial def readAll (stream : IO.FS.Stream) (acc : ByteArray) : IO ByteArray := do
  let bytes ← stream.read 65536
  if bytes.isEmpty then return acc else readAll stream (acc ++ bytes)

/-- The standard input, or why it cannot be read. -/
def readInput : IO (Except String Bytes) := do
  try
    return .ok (← readAll (← IO.getStdin) ByteArray.empty).toList
  catch e => return .error (toString e)

/-- The current time. -/
def now : IO Instant := do
  let t ← Std.Time.Timestamp.now
  return Instant.ofEpochNanos t.toNanosecondsSinceUnixEpoch.val.toNat

/-- Whether a run that was given `bound` steps has to go on: it was stopped at the bound, but its time is
not over yet. -/
def mustGoOn (limits : Limits) (elapsed : Nat) (o : Outcome) : Bool :=
  match o.reply, limits.timeMs with
  | .unfinished, _ => true
  | .halted (.time _) _, some ms => elapsed < ms
  | _, _ => false

/-- Run a program with more and more steps until it ends or its time is over. The clock is read between
two attempts. -/
partial def execute (doc : Document) (cfg : Settings) (start bound : Nat) : IO Outcome := do
  let clock : Nat → Int := fun n => if n < bound then 0 else cfg.limits.timeMs.getD 0
  let o := doc.program.execute { cfg with clock := clock } (bound + 2) doc.env
  if mustGoOn cfg.limits ((← IO.monoMsNow) - start) o then execute doc cfg start (2 * bound)
  else return o

/-- The real system. -/
def host (workDir : String) (home : Option String) : Host IO where
  workDir := workDir
  home := home
  read path := onFile do return (← IO.FS.readBinFile path).toList
  write path bytes := onFile (IO.FS.writeBinFile path (ByteArray.mk bytes.toArray))
  input := readInput
  traceTime := do return (← now).text
  logTime := do return some (← now).text
  execute doc cfg := do execute doc cfg (← IO.monoMsNow) 1000

end WhileLang.Main

/-- Run a command line. -/
def main (args : List String) : IO UInt32 := do
  let home := (← IO.getEnv "HOME").filter (· != "")
  let workDir := (← IO.currentDir).toString
  let out ← WhileLang.Command.perform (WhileLang.Main.host workDir home) args
  (← IO.getStdout).putStr out.stdout
  (← IO.getStderr).putStr out.stderr
  return UInt32.ofNat out.exit
