import WhileLang.Yaml.Source

/-!
# Reading position

A `Cursor` stands before the characters still to be read. It counts lines and columns, and how many line
breaks it has crossed since the last visible character. Past the end it sees the null character, which
no text holds.
-/

namespace WhileLang.Yaml

/-! ## Character classes -/

/-- A space or a tab. -/
def isBlank (c : Char) : Bool := c == ' ' || c == '\t'

/-- A line break, including the next-line character and Unicode's two separators. -/
def isBreak (c : Char) : Bool :=
  c == '\n' || c == '\r' || c.toNat == 0x85 || c.toNat == 0x2028 || c.toNat == 0x2029

/-- The end of the text. -/
def isEnd (c : Char) : Bool := c.toNat == 0

/-- A line break or the end. -/
def isBreakOrEnd (c : Char) : Bool := isBreak c || isEnd c

/-- A blank, a line break or the end. -/
def isGap (c : Char) : Bool := isBlank c || isBreakOrEnd c

/-- What names are made of. -/
def isWord (c : Char) : Bool := c.isAlphanum || c == '_' || c == '-'

/-- The value of a hexadecimal digit. -/
def hexValue? (c : Char) : Option Nat :=
  if c.isDigit then some (c.toNat - 48)
  else if 'a' ≤ c ∧ c ≤ 'f' then some (c.toNat - 87)
  else if 'A' ≤ c ∧ c ≤ 'F' then some (c.toNat - 55)
  else none

/-! ## The cursor -/

/-- A position in a text. -/
structure Cursor where
  rest : List Char
  mark : Mark := {}
  newlines : Nat := 0
  failure : Option Problem := none

/-- Reading may fail. -/
abbrev Result := Except Error

namespace Cursor

/-- The start of a text. -/
def ofSource (s : Source) : Cursor := { rest := s.chars, failure := s.failure }

/-- The character some places ahead. -/
def ahead (c : Cursor) (n : Nat) : Char := (c.rest[n]?).getD '\x00'

/-- The next character. -/
def char (c : Cursor) : Char := c.ahead 0

/-- Make sure that so many characters can be seen, or that the text ends before. -/
def need (c : Cursor) (n : Nat) : Result Unit :=
  match c.failure with
  | none => .ok ()
  | some p => if (c.rest.drop (n - 1)).isEmpty then .error ⟨p, none⟩ else .ok ()

/-- Step over a character. -/
def next (c : Cursor) : Cursor :=
  match c.rest with
  | [] => c
  | ch :: rest =>
    { c with
      rest := rest
      mark := { c.mark with index := c.mark.index + 1, column := c.mark.column + 1 }
      newlines := if isBlank ch then c.newlines else 0 }

/-- Step over some characters. -/
def skip (c : Cursor) : Nat → Cursor
  | 0 => c
  | n + 1 => c.next.skip n

/-- Step over a line break; a carriage return and a line feed are one. -/
def nextLine (c : Cursor) : Cursor :=
  let past (n : Nat) : Cursor :=
    { c with
      rest := c.rest.drop n
      mark := { index := c.mark.index + n, line := c.mark.line + 1, column := 0 }
      newlines := c.newlines + 1 }
  match c.rest with
  | '\r' :: '\n' :: _ => past 2
  | ch :: _ => if isBreak ch then past 1 else c
  | [] => c

/-- The next line break as content: Unicode's separators stay, all others become a line feed. -/
def breakText (c : Cursor) : List Char :=
  if c.char.toNat == 0x2028 || c.char.toNat == 0x2029 then [c.char]
  else if isBreak c.char then ['\n']
  else []

/-- Whether a line starts here that is `---` or `...` and then blank or over. -/
def atDocumentIndicator (c : Cursor) : Bool :=
  c.mark.column == 0
    && ((c.ahead 0 == '-' && c.ahead 1 == '-' && c.ahead 2 == '-')
      || (c.ahead 0 == '.' && c.ahead 1 == '.' && c.ahead 2 == '.'))
    && isGap (c.ahead 3)

/-- A problem inside the token that started at `start`. -/
def fail {α : Type} (c : Cursor) (problem : Problem) (start : Mark) : Result α :=
  .error (Error.lexical problem start c.mark)

/-- Step over characters as long as they satisfy a condition. -/
def skipWhile (c : Cursor) (p : Char → Bool) : Result Cursor := go c.rest c
where
  /-- Steps over at most as many characters as the list has. -/
  go : List Char → Cursor → Result Cursor
    | [], c => do c.need 1; return c
    | _ :: limit, c => do
      c.need 1
      if p c.char then go limit c.next else return c

/-- Read characters as long as they satisfy a condition. -/
def takeWhile (c : Cursor) (p : Char → Bool) : Result (List Char × Cursor) := go c.rest c []
where
  /-- Reads at most as many characters as the list has; what is read has the latest first. -/
  go : List Char → Cursor → List Char → Result (List Char × Cursor)
    | [], c, acc => do c.need 1; return (acc.reverse, c)
    | _ :: limit, c, acc => do
      c.need 1
      if p c.char then go limit c.next (c.char :: acc) else return (acc.reverse, c)

end Cursor

end WhileLang.Yaml
