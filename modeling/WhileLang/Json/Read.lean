import WhileLang.Json.Basic
import WhileLang.Text.Literal
import WhileLang.Text.Utf8

/-!
# Reading JSON

`Json.read?` takes exactly one value with blanks around it. A half of a surrogate pair that stands alone
is read as the replacement character.
-/

namespace WhileLang.Json

/-- White space between the parts of a value. -/
def isSpace (c : Char) : Bool := c == ' ' || c == '\t' || c == '\n' || c == '\r'

/-- Pass over white space. -/
def skipSpace (cs : List Char) : List Char := cs.dropWhile isSpace

/-! ## Texts -/

/-- The number that four hexadecimal digits denote. -/
def unit? (a b c d : Char) : Option Nat :=
  (Text.digitsIn 16 false [a, b, c, d] 0).toOption

/-- The first half of a surrogate pair. -/
def isHigh (n : Nat) : Bool := 0xd800 ≤ n && n < 0xdc00

/-- The second half of a surrogate pair. -/
def isLow (n : Nat) : Bool := 0xdc00 ≤ n && n < 0xe000

/-- The character of a unit that is not part of a pair. -/
def unitChar (n : Nat) : Char := if isHigh n || isLow n then Text.replacement else Char.ofNat n

/-- The character of a surrogate pair. -/
def pairChar (high low : Nat) : Char := Char.ofNat (0x10000 + 1024 * (high - 0xd800) + (low - 0xdc00))

/-- The character that a letter stands for after a backslash. -/
def escape? (c : Char) : Option Char :=
  match c with
  | '"' => some '"'
  | '\\' => some '\\'
  | '/' => some '/'
  | 'b' => some '\x08'
  | 'f' => some '\x0c'
  | 'n' => some '\n'
  | 'r' => some '\r'
  | 't' => some '\t'
  | _ => none

/-- The characters of a text so far, the latest first. `high` is the first half of a pair if that is what
was read last; the replacement character stands for it until the second half comes. -/
structure Reading where
  chars : List Char := []
  high : Option Nat := none

namespace Reading

/-- Take in a character. -/
def char (r : Reading) (c : Char) : Reading := { chars := c :: r.chars }

/-- Take in a unit. -/
def unit (r : Reading) (n : Nat) : Reading :=
  match r.high with
  | some h =>
    if isLow n then { chars := pairChar h n :: r.chars.drop 1 }
    else { chars := unitChar n :: r.chars, high := if isHigh n then some n else none }
  | none => { chars := unitChar n :: r.chars, high := if isHigh n then some n else none }

end Reading

/-- The rest of a text after its opening quotation mark. -/
def readText : Reading → List Char → Option (String × List Char)
  | _, [] => none
  | r, '"' :: rest => some (String.ofList r.chars.reverse, rest)
  | r, '\\' :: 'u' :: a :: b :: c :: d :: rest =>
    match unit? a b c d with
    | some n => readText (r.unit n) rest
    | none => none
  | r, '\\' :: c :: rest =>
    match escape? c with
    | some c => readText (r.char c) rest
    | none => none
  | r, c :: rest => if c == '\\' || c.toNat < 0x20 then none else readText (r.char c) rest

/-! ## Numbers -/

/-- One or more digits. -/
def digits1? (cs : List Char) : Option (List Char × List Char) :=
  if (cs.takeWhile Char.isDigit).isEmpty then none
  else some (cs.takeWhile Char.isDigit, cs.dropWhile Char.isDigit)

/-- Digits without needless zeros in front. -/
def whole? : List Char → Option (List Char × List Char)
  | '0' :: rest => some (['0'], rest)
  | cs => digits1? cs

/-- A point and digits, if there is a point. -/
def fraction? : List Char → Option (List Char × List Char)
  | '.' :: rest => (digits1? rest).map fun p => ('.' :: p.1, p.2)
  | cs => some ([], cs)

/-- An exponent, if there is one. -/
def exponent? : List Char → Option (List Char × List Char)
  | e :: rest =>
    if e == 'e' || e == 'E' then
      match rest with
      | s :: digits =>
        if s == '+' || s == '-' then (digits1? digits).map fun p => (e :: s :: p.1, p.2)
        else (digits1? rest).map fun p => (e :: p.1, p.2)
      | [] => none
    else some ([], e :: rest)
  | [] => some ([], [])

/-- A number without its sign. -/
def magnitude? (cs : List Char) : Option (List Char × List Char) := do
  let (whole, cs) ← whole? cs
  let (fraction, cs) ← fraction? cs
  let (exponent, cs) ← exponent? cs
  return (whole ++ fraction ++ exponent, cs)

/-- A number. -/
def number? : List Char → Option (Json × List Char)
  | '-' :: cs => (magnitude? cs).map fun p => (.number (String.ofList ('-' :: p.1)), p.2)
  | cs => (magnitude? cs).map fun p => (.number (String.ofList p.1), p.2)

/-! ## Values -/

mutual

/-- A value. Every call is one of at most two for a character, which bounds the fuel; `depth` says how many
more collections may be opened inside one another. -/
def readValue (fuel depth : Nat) (cs : List Char) : Option (Json × List Char) :=
  match fuel with
  | 0 => none
  | fuel + 1 =>
    match skipSpace cs, depth with
    | '[' :: rest, depth + 1 =>
      match skipSpace rest with
      | ']' :: rest => some (.list [], rest)
      | rest => (readItems fuel depth [] rest).map fun p => (.list p.1, p.2)
    | '\x7b' :: rest, depth + 1 =>
      match skipSpace rest with
      | '\x7d' :: rest => some (.object [], rest)
      | rest => (readMembers fuel depth [] rest).map fun p => (.object p.1, p.2)
    | '"' :: rest, _ => (readText {} rest).map fun p => (.text p.1, p.2)
    | 't' :: 'r' :: 'u' :: 'e' :: rest, _ => some (.bool true, rest)
    | 'f' :: 'a' :: 'l' :: 's' :: 'e' :: rest, _ => some (.bool false, rest)
    | 'n' :: 'u' :: 'l' :: 'l' :: rest, _ => some (.null, rest)
    | cs, _ => number? cs

/-- The items of a list up to its end; `acc` holds those before them, the latest first. -/
def readItems (fuel depth : Nat) (acc : List Json) (cs : List Char) :
    Option (List Json × List Char) :=
  match fuel with
  | 0 => none
  | fuel + 1 => do
    let (item, cs) ← readValue fuel depth cs
    match skipSpace cs with
    | ',' :: cs => readItems fuel depth (item :: acc) cs
    | ']' :: cs => return ((item :: acc).reverse, cs)
    | _ => none

/-- The members of an object up to its end; `acc` holds those before them, the latest first. -/
def readMembers (fuel depth : Nat) (acc : List (String × Json)) (cs : List Char) :
    Option (List (String × Json) × List Char) :=
  match fuel with
  | 0 => none
  | fuel + 1 =>
    match skipSpace cs with
    | '"' :: cs => do
      let (key, cs) ← readText {} cs
      match skipSpace cs with
      | ':' :: cs =>
        let (value, cs) ← readValue fuel depth cs
        match skipSpace cs with
        | ',' :: cs => readMembers fuel depth ((key, value) :: acc) cs
        | '\x7d' :: cs => return (((key, value) :: acc).reverse, cs)
        | _ => none
      | _ => none
    | _ => none

end

/-- How deep collections may be nested. -/
def maxDepth : Nat := 10000

/-- Read a text that holds one value and nothing else. -/
def read? (cs : List Char) : Option Json :=
  match readValue (2 * cs.length + 2) maxDepth cs with
  | some (j, rest) => if (skipSpace rest).isEmpty then some j else none
  | none => none

end WhileLang.Json
