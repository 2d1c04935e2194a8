import WhileLang.Text.Literal
import WhileLang.Text.Quoted

/-!
# Log lines

A log record has a level, a message and named values. Levels are numbers with four named points; a level
between them is written as a name with an offset.
-/

namespace WhileLang.Log

/-- How important a record is. -/
abbrev Level := Int64

namespace Level

/-- Every move of the program. -/
def debug : Level := -4

/-- What a run came to. -/
def info : Level := 0

/-- Something a user should look at. -/
def warn : Level := 4

/-- Something that went wrong. -/
def error : Level := 8

/-- A name followed by a signed offset, which is left out when it is zero. -/
def withOffset (name : String) (offset : Int) : String :=
  if offset = 0 then name
  else if offset < 0 then name ++ toString offset
  else name ++ "+" ++ toString offset

/-- A level counts from the highest name that is not above it. -/
def name (l : Level) : String :=
  if l < info then withOffset "DEBUG" (l - debug).toInt
  else if l < warn then withOffset "INFO" (l - info).toInt
  else if l < error then withOffset "WARN" (l - warn).toInt
  else withOffset "ERROR" (l - error).toInt

/-- Upper case of the letters that have an ASCII capital: the ASCII ones and the dotless i. -/
def capital (c : Char) : Char := if c.toNat = 0x131 then 'I' else c.toUpper

/-- The level with a name in any case. -/
def ofName? (name : List Char) : Option Level :=
  match String.ofList (name.map capital) with
  | "DEBUG" => some debug
  | "INFO" => some info
  | "WARN" => some warn
  | "ERROR" => some error
  | _ => none

/-- A sign starts the offset of a level. -/
def isSign (c : Char) : Bool := c == '+' || c == '-'

/-- Read a level: blank means `warn`, otherwise a name with an optional signed offset. -/
def read? (s : String) : Option Level :=
  let cs := Text.trimList s.toList
  if cs.isEmpty then some warn
  else
    let name := cs.takeWhile fun c => !isSign c
    match cs.dropWhile fun c => !isSign c with
    | [] => ofName? name
    | offset => do
      let n ← Text.int64? offset
      let l ← ofName? name
      return l + Int64.ofInt n

/-- The complaint about a text that is no level. -/
def unknown (s : String) : String := "unknown log level " ++ Text.quoted s

end Level

/-- A log record. -/
structure Record where
  level : Level
  message : String
  values : List (String × String) := []

/-- Whether a value has to be quoted: it is empty, or holds a blank, a quotation mark, an equals sign, or
a character that does not print. -/
def needsQuotes (s : String) : Bool :=
  s.isEmpty || s.toList.any fun c =>
    if c.toNat < 0x80 then c.toNat ≤ 0x20 || c == '"' || c == '='
    else c.toNat == 0xfffd || Text.isBlank c || !Text.isPrintable c

/-- A value as a log line shows it. -/
def value (s : String) : String := if needsQuotes s then Text.quoted s else s

/-- The line of a record, after the time it was made, if that is to be shown. -/
def Record.line (time : Option String) (r : Record) : String :=
  (match time with | some t => "time=" ++ value t ++ " " | none => "")
    ++ "level=" ++ r.level.name ++ " msg=" ++ value r.message
    ++ String.join (r.values.map fun p => " " ++ p.1 ++ "=" ++ value p.2) ++ "\n"

/-- The lines of the records that reach a level. -/
def lines (time : Option String) (threshold : Level) (rs : List Record) : String :=
  String.join ((rs.filter fun r => threshold ≤ r.level).map (Record.line time))

end WhileLang.Log
