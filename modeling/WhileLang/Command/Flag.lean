import WhileLang.Text.Literal
import WhileLang.Text.Quoted

/-!
# Flags

A flag is a name with two dashes in front, and for some of them a letter with one. Flags may stand
anywhere among the arguments; two dashes alone end them. Of a flag that is repeated, the last one counts.
-/

namespace WhileLang.Command

/-- What the flags of a command line say. -/
structure Options where
  pretty : Option Bool := none
  logLevel : String := ""
  maxSteps : Option Int := none
  timeMs : Option Int := none
  traceOut : String := ""
  runId : String := "cli"
  write : Bool := false
  text : Bool := false
  help : Bool := false

/-- What is wrong with the value of a flag. -/
inductive ValueError
  | notBool
  | notInt
  | outOfRange

/-- The wording for a value. -/
def ValueError.message (value : String) : ValueError → String
  | .notBool => "strconv.ParseBool: parsing " ++ Text.quoted value ++ ": invalid syntax"
  | .notInt => "strconv.ParseInt: parsing " ++ Text.quoted value ++ ": invalid syntax"
  | .outOfRange => "strconv.ParseInt: parsing " ++ Text.quoted value ++ ": value out of range"

/-- A flag: its name and letter, whether it needs a value, and what a value does. -/
structure Flag where
  name : String
  letter : Option Char := none
  needsValue : Bool
  set : Options → String → Except ValueError Options

namespace Flag

/-- A truth value in one of its spellings. -/
def bool (value : String) : Except ValueError Bool :=
  if ["1", "t", "T", "TRUE", "true", "True"].contains value then .ok true
  else if ["0", "f", "F", "FALSE", "false", "False"].contains value then .ok false
  else .error .notBool

/-- An integer of 64 bits. -/
def int (value : String) : Except ValueError Int :=
  match Text.literal value.toList with
  | .ok n => .ok n
  | .error .invalid => .error .notInt
  | .error .outOfRange => .error .outOfRange

/-- A flag that is on or off; without a value it is on. -/
def switch (name : String) (letter : Option Char) (set : Options → Bool → Options) : Flag :=
  { name := name, letter := letter, needsValue := false
    set := fun o value => do return set o (← bool value) }

/-- A flag with a number. -/
def number (name : String) (set : Options → Int → Options) : Flag :=
  { name := name, needsValue := true, set := fun o value => do return set o (← int value) }

/-- A flag with any text. -/
def words (name : String) (set : Options → String → Options) : Flag :=
  { name := name, needsValue := true, set := fun o value => .ok (set o value) }

/-- Flags of every command. -/
def shared : List Flag :=
  [switch "pretty" none fun o b => { o with pretty := some b },
    words "log-level" fun o s => { o with logLevel := s }]

/-- Asks for help instead. -/
def help : Flag := switch "help" (some 'h') fun o b => { o with help := b }

/-- How a complaint about a value names the flag. -/
def display (f : Flag) : String :=
  (match f.letter with | some c => "-" ++ c.toString ++ ", " | none => "") ++ "--" ++ f.name

end Flag

/-- What is wrong with the flags of a command line. -/
inductive FlagError
  | unknown (name : String)
  | unknownLetter (letters : List Char)
  | syntactic (arg : String)
  | noValue (arg : String)
  | value (flag : Flag) (given : String) (e : ValueError)

/-- The first byte of a character, as a character of its own. -/
def firstByte (c : Char) : Char := Char.ofNat ((c.toString.toUTF8.toList.headD 0).toNat)

/-- A character between single quotation marks. -/
def quotedLetter (c : Char) : String :=
  let body := if c == '\'' then ['\\', '\''] else if c == '"' then ['"'] else Text.quotedChar c
  String.ofList ('\'' :: body ++ ['\''])

/-- The wording of an error. -/
def FlagError.message : FlagError → String
  | .unknown name => "unknown flag: --" ++ name
  | .unknownLetter letters =>
    "unknown shorthand flag: " ++ quotedLetter (firstByte (letters.headD ' ')) ++ " in -"
      ++ String.ofList letters
  | .syntactic arg => "bad flag syntax: " ++ arg
  | .noValue arg => "flag needs an argument: " ++ arg
  | .value flag given e =>
    "invalid argument " ++ Text.quoted given ++ " for " ++ Text.quoted flag.display ++ " flag: "
      ++ e.message given

namespace Flag

/-- Apply a flag. -/
def apply (f : Flag) (o : Options) (value : String) : Except FlagError Options :=
  match f.set o value with
  | .ok o => .ok o
  | .error e => .error (.value f value e)

/-- Read letters after a single dash; a value may follow the first of them after an equals sign. Letters
that start with `test.` are passed over. -/
def readLetters (flags : List Flag) : List Char → Options → Except FlagError Options
  | [], o => .ok o
  | c :: rest, o =>
    if "test.".toList.isPrefixOf (c :: rest) then .ok o
    else
      match flags.find? (·.letter == some c) with
      | none => .error (.unknownLetter (c :: rest))
      | some f =>
        match rest with
        | '=' :: v :: value => f.apply o (String.ofList (v :: value))
        | rest => do readLetters flags rest (← f.apply o "true")

/-- Read arguments: the options they set, and those that are no flags. -/
def read (flags : List Flag) : List String → Options → List String →
    Except FlagError (Options × List String)
  | [], o, words => .ok (o, words.reverse)
  | arg :: rest, o, words =>
    match arg.toList with
    | ['-', '-'] => .ok (o, words.reverse ++ rest)
    | '-' :: '-' :: c :: cs =>
      if c == '-' || c == '=' then .error (.syntactic arg)
      else
        let name := (c :: cs).takeWhile (· != '=')
        match flags.find? (·.name == String.ofList name) with
        | none => .error (.unknown (String.ofList name))
        | some f =>
          match (c :: cs).drop name.length, f.needsValue, rest with
          | _ :: value, _, rest => do read flags rest (← f.apply o (String.ofList value)) words
          | [], false, rest => do read flags rest (← f.apply o "true") words
          | [], true, value :: rest => do read flags rest (← f.apply o value) words
          | [], true, [] => .error (.noValue arg)
    | '-' :: c :: cs => do read flags rest (← readLetters flags (c :: cs) o) words
    | _ => read flags rest o (arg :: words)

end Flag

end WhileLang.Command
