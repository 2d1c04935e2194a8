import WhileLang.Yaml.Node
import WhileLang.Yaml.Style

/-!
# Writing nodes

Block collections are indented by two; lists are indented under their key. Collections in brackets stay on
one line. A key that is long or has line breaks is written after a question mark.
-/

namespace WhileLang.Yaml

/-- The output so far, with the latest character first, and what is known of its end: the column, whether
it ends with white space, and whether the line holds nothing but indentation. -/
structure Pen where
  out : List Char := []
  column : Nat := 0
  spaced : Bool := true
  indented : Bool := true

namespace Pen

/-- Write a character. -/
def put (p : Pen) (c : Char) : Pen := { p with out := c :: p.out, column := p.column + 1 }

/-- Write some characters. -/
def puts (p : Pen) (cs : List Char) : Pen := cs.foldl put p

/-- End a line. -/
def newLine (p : Pen) : Pen := { p with out := '\n' :: p.out, column := 0, indented := true }

/-- Write a line break that stands in a text. -/
def putBreak (p : Pen) (c : Char) : Pen :=
  if c == '\n' then p.newLine else { p with out := c :: p.out, column := 0, indented := true }

/-- Go to an indentation, on a new line unless the current one has room for it. -/
def indent (p : Pen) (width : Nat) : Pen :=
  let p := if !p.indented || width < p.column || (p.column == width && !p.spaced) then p.newLine else p
  let p := p.puts (List.replicate (width - p.column) ' ')
  { p with spaced := true }

/-- Write a sign. -/
def sign (p : Pen) (s : List Char) (apart spaced indented : Bool) : Pen :=
  let p := if apart && !p.spaced then p.put ' ' else p
  let p := p.puts s
  { p with spaced := spaced, indented := p.indented && indented }

/-- A plain scalar. -/
def plain (p : Pen) (cs : List Char) : Pen :=
  let p := if !cs.isEmpty && !p.spaced then p.put ' ' else p
  let p := p.puts cs
  { p with spaced := p.spaced && cs.isEmpty, indented := false }

/-- The characters of a single-quoted scalar; after a line break the text goes on at the indentation. -/
def singleChars (width : Nat) : Pen → Bool → List Char → Pen
  | p, _, [] => p
  | p, broken, c :: rest =>
    if c == ' ' then singleChars width (p.put c) broken rest
    else if isBreak c then
      let p := if !broken && c == '\n' then p.newLine else p
      singleChars width (p.putBreak c) true rest
    else
      let p := if broken then p.indent width else p
      let p := if c == '\'' then p.put '\'' else p
      singleChars width { p.put c with indented := false } false rest

/-- A single-quoted scalar. -/
def singleQuoted (p : Pen) (width : Nat) (cs : List Char) : Pen :=
  let p := singleChars width (p.sign ['\''] true false false) false cs
  { p.sign ['\''] false false false with spaced := false, indented := false }

/-- An upper-case hexadecimal digit. -/
def hexDigit (n : Nat) : Char := Char.ofNat (if n < 10 then 48 + n else 55 + n)

/-- The lowest hexadecimal digits of a number. -/
def hexDigits : (count : Nat) → Nat → List Char
  | 0, _ => []
  | count + 1, n => hexDigits count (n / 16) ++ [hexDigit (n % 16)]

/-- A character as an escape. -/
def escapeChar (c : Char) : List Char :=
  '\\' :: match c.toNat with
  | 0x00 => ['0']
  | 0x07 => ['a']
  | 0x08 => ['b']
  | 0x09 => ['t']
  | 0x0a => ['n']
  | 0x0b => ['v']
  | 0x0c => ['f']
  | 0x0d => ['r']
  | 0x1b => ['e']
  | 0x22 => ['"']
  | 0x5c => ['\\']
  | 0x85 => ['N']
  | 0xa0 => ['_']
  | 0x2028 => ['L']
  | 0x2029 => ['P']
  | n =>
    if n ≤ 0xff then 'x' :: hexDigits 2 n
    else if n ≤ 0xffff then 'u' :: hexDigits 4 n
    else 'U' :: hexDigits 8 n

/-- A double-quoted scalar. A text that starts with a byte order mark is escaped as a whole. -/
def doubleQuoted (p : Pen) (cs : List Char) : Pen :=
  let marked := (cs.head?.map Char.toNat) == some 0xfeff
  let body := cs.flatMap fun c =>
    if marked || !writable c || isBreak c || c == '"' || c == '\\' then escapeChar c else [c]
  let p := (p.sign ['"'] true false false).puts body
  { p.sign ['"'] false false false with spaced := false, indented := false }

/-- The lines of a block scalar. -/
def blockChars (width : Nat) : Pen → Bool → List Char → Pen
  | p, _, [] => p
  | p, broken, c :: rest =>
    if isBreak c then blockChars width (p.putBreak c) true rest
    else
      let p := if broken then p.indent width else p
      blockChars width { p.put c with indented := false } false rest

/-- The signs after the bar of a block scalar: the indentation if the text does not show it, and what
happens to its last line breaks. -/
def blockHints (cs : List Char) : List Char :=
  let width := match cs with
    | c :: _ => if c == ' ' || isBreak c then ['2'] else []
    | [] => []
  let ending := match cs.reverse with
    | [] => ['-']
    | c :: before =>
      if !isBreak c then ['-']
      else
        match before with
        | [] => ['+']
        | d :: _ => if isBreak d then ['+'] else []
  width ++ ending

/-- A block scalar. -/
def literal (p : Pen) (width : Nat) (cs : List Char) : Pen :=
  let p := p.sign ('|' :: blockHints cs) true false false
  blockChars width { p with spaced := true } true cs

/-- A scalar in a style. -/
def scalar (p : Pen) (style : ScalarStyle) (width : Nat) (text : String) : Pen :=
  match style with
  | .plain => p.plain text.toList
  | .singleQuoted => p.singleQuoted width text.toList
  | .doubleQuoted => p.doubleQuoted text.toList
  | .literal | .folded => p.literal width text.toList

end Pen

/-- Where a node is written. -/
structure Site where
  cautious : Bool
  /-- The indentation of the surrounding block; nothing at the outermost level. -/
  indent : Option Nat := none
  flow : Bool := false
  simpleKey : Bool := false

namespace Site

/-- One level further in. -/
def deeper (s : Site) (flow : Bool) : Site :=
  { s with
    indent := match s.indent with
      | none => some (if flow then 2 else 0)
      | some n => some (n + 2)
    simpleKey := false }

/-- The indentation as a width. -/
def width (s : Site) : Nat := s.indent.getD 0

end Site

/-- The longest key, in bytes, that is written on one line with its value. -/
def maxSimpleKey : Nat := 128

namespace Node

/-- Whether a key can be written on one line with its value. -/
def isSimpleKey : Node → Bool
  | .scalar _ _ _ text => !(Traits.ofList text.toList).multiline && text.utf8ByteSize ≤ maxSimpleKey
  | .alias _ name _ => name.utf8ByteSize ≤ maxSimpleKey
  | .list _ _ _ _ items => items.isEmpty
  | .dict _ _ _ _ entries => entries.isEmpty

mutual

/-- Write a node. The tag of a scalar is not written: it follows from the text and its style. -/
def write (s : Site) (p : Pen) : Node → Pen
  | .scalar _ _ tag text =>
    let style :=
      chooseStyle (wantedStyle s.cautious tag text) (Traits.ofList text.toList) text s.flow s.simpleKey
    p.scalar style (s.deeper true).width text
  | .list _ _ _ flow items =>
    if s.flow || flow || items.isEmpty then
      let inner := { s.deeper true with flow := true }
      let p := writeFlowItems inner (p.sign ['['] true true false) true items
      p.sign [']'] false false false
    else writeItems (s.deeper false) p items
  | .dict _ _ _ flow entries =>
    if s.flow || flow || entries.isEmpty then
      let inner := { s.deeper true with flow := true }
      let p := writeFlowEntries inner (p.sign ['\x7b'] true true false) true entries
      p.sign ['\x7d'] false false false
    else writeEntries (s.deeper false) p entries
  | .alias _ name _ => p.sign ('*' :: name.toList) true false false

/-- Items of a block list. -/
def writeItems (s : Site) (p : Pen) : List Node → Pen
  | [] => p
  | n :: rest =>
    let p := (p.indent s.width).sign ['-'] true false true
    writeItems s (write s p n) rest

/-- Items of a list in brackets. -/
def writeFlowItems (s : Site) (p : Pen) (first : Bool) : List Node → Pen
  | [] => if p.column = 0 then p.indent (s.width - 2) else p
  | n :: rest =>
    let p := if first then p else p.sign [','] false false false
    let p := if p.column = 0 then p.indent s.width else p
    writeFlowItems s (write s p n) false rest

/-- Entries of a block mapping. -/
def writeEntries (s : Site) (p : Pen) : List (Node × Node) → Pen
  | [] => p
  | e :: rest => writeEntries s (writeEntry s (p.indent s.width) e) rest

/-- An entry of a block mapping. -/
def writeEntry (s : Site) (p : Pen) : Node × Node → Pen
  | (k, v) =>
    if k.isSimpleKey then
      let p := write { s with simpleKey := true } p k
      write s (p.sign [':'] false false false) v
    else
      let p := write s (p.sign ['?'] true false true) k
      write s ((p.indent s.width).sign [':'] true false true) v

/-- Entries of a mapping in brackets. -/
def writeFlowEntries (s : Site) (p : Pen) (first : Bool) : List (Node × Node) → Pen
  | [] => p
  | e :: rest =>
    let p := if first then p else p.sign [','] false false false
    let p := if p.column = 0 then p.indent s.width else p
    writeFlowEntries s (writeFlowEntry s p e) false rest

/-- An entry of a mapping in brackets. -/
def writeFlowEntry (s : Site) (p : Pen) : Node × Node → Pen
  | (k, v) =>
    if k.isSimpleKey then
      let p := write { s with simpleKey := true } p k
      write s (p.sign [':'] false false false) v
    else
      let p := write s (p.sign ['?'] true false false) k
      write s (p.sign [':'] true false false) v

end

/-- A node as a document of its own. -/
def render (cautious : Bool) (n : Node) : String :=
  String.ofList ((n.write { cautious := cautious } {}).indent 0).out.reverse

end Node

end WhileLang.Yaml
