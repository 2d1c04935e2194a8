import WhileLang.Yaml.Token

/-!
# Scalar tokens

Plain, quoted and block scalars. A line break inside a plain or quoted scalar is folded: one becomes a
space, and of several the first is dropped.
-/

namespace WhileLang.Yaml

/-- Line breaks between two pieces of folded text. `first` is the break that ends the upper line, `more`
those of the empty lines below it. -/
def foldBreaks (first more : List Char) : List Char :=
  if first.head? == some '\n' then (if more.isEmpty then [' '] else more) else first ++ more

namespace Cursor

/-! ## Plain scalars -/

/-- Whether the plain scalar ends before the next character. -/
def endsPlain (c : Cursor) (inFlow : Bool) : Bool :=
  (c.char == ':' && isGap (c.ahead 1))
    || (inFlow && [',', '?', '[', ']', '\x7b', '\x7d'].contains c.char)

/-- Visible characters of a plain scalar, put in front of `acc` with the latest first. -/
def plainRun (c : Cursor) (inFlow : Bool) (acc : List Char) : Result (List Char × Cursor) :=
  go c.rest c acc
where
  /-- Reads at most as many characters as the list has. -/
  go : List Char → Cursor → List Char → Result (List Char × Cursor)
    | [], c, acc => return (acc, c)
    | _ :: limit, c, acc => do
      if isGap c.char || c.endsPlain inFlow then return (acc, c)
      else
        let acc := c.char :: acc
        let c := c.next
        c.need 2
        go limit c acc

/-- White space between pieces of a scalar: blanks of the current line, or once a line break is found,
that break and those that follow it. -/
structure Gap where
  blanks : List Char := []
  first : List Char := []
  more : List Char := []
  broken : Bool := false

/-- The white space as content. -/
def Gap.text (g : Gap) : List Char := if g.broken then foldBreaks g.first g.more else g.blanks

/-- Read white space. Where an indentation is given, a tab left of it is refused. -/
def gap (c : Cursor) (g : Gap) (tabs : Option (Int × Mark)) : Result (Gap × Cursor) := go c.rest c g
where
  /-- Reads at most as many characters as the list has. -/
  go : List Char → Cursor → Gap → Result (Gap × Cursor)
    | [], c, g => return (g, c)
    | _ :: limit, c, g => do
      if isBlank c.char then
        if let some (indent, start) := tabs then
          if g.broken && c.mark.column < indent && c.char == '\t' then c.fail .tabIndent start
        let g := if g.broken then g else { g with blanks := g.blanks ++ [c.char] }
        c.next.need 1
        go limit c.next g
      else if isBreak c.char then
        c.need 2
        let g := if g.broken then { g with more := g.more ++ c.breakText }
          else { g with blanks := [], first := c.breakText, broken := true }
        c.nextLine.need 1
        go limit c.nextLine g
      else return (g, c)

/-- A plain scalar, and whether it was followed by a line break. Lines of a scalar outside brackets must
be indented. -/
def plainScalar (c : Cursor) (indent : Int) (inFlow : Bool) : Result (Token × Bool × Cursor) :=
  go ('\x00' :: c.rest) c [] {} c.mark
where
  /-- Reads piece by piece; `acc` has the latest character first and `g` is the white space after it. -/
  go : List Char → Cursor → List Char → Gap → Mark → Result (Token × Bool × Cursor)
    | [], d, acc, g, stop => return finish d acc g stop
    | _ :: limit, d, acc, g, stop => do
      d.need 4
      if d.atDocumentIndicator || d.char == '#' then return finish d acc g stop
      else
        let fresh := !(isGap d.char || d.endsPlain inFlow)
        let (acc, d) ← d.plainRun inFlow (if fresh then g.text.reverse ++ acc else acc)
        let g := if fresh then {} else g
        let stop := if fresh then d.mark else stop
        if !(isBlank d.char || isBreak d.char) then return finish d acc g stop
        else
          let (g, d) ← d.gap g (some (indent + 1, c.mark))
          if !inFlow && d.mark.column < indent + 1 then return finish d acc g stop
          else go limit d acc g stop
  /-- The token. -/
  finish (d : Cursor) (acc : List Char) (g : Gap) (stop : Mark) : Token × Bool × Cursor :=
    (⟨.scalar (String.ofList acc.reverse) .plain, c.mark, stop⟩, g.broken, d)

/-! ## Quoted scalars -/

/-- The character that a one-letter escape stands for. -/
def escape? : Char → Option Char
  | '0' => some '\x00'
  | 'a' => some '\x07'
  | 'b' => some '\x08'
  | 't' => some '\t'
  | '\t' => some '\t'
  | 'n' => some '\n'
  | 'v' => some '\x0b'
  | 'f' => some '\x0c'
  | 'r' => some '\r'
  | 'e' => some '\x1b'
  | ' ' => some ' '
  | '"' => some '"'
  | '\'' => some '\''
  | '\\' => some '\\'
  | 'N' => some (Char.ofNat 0x85)
  | '_' => some (Char.ofNat 0xa0)
  | 'L' => some (Char.ofNat 0x2028)
  | 'P' => some (Char.ofNat 0x2029)
  | _ => none

/-- How many hexadecimal digits follow an escape letter. -/
def escapeWidth? : Char → Option Nat
  | 'x' => some 2
  | 'u' => some 4
  | 'U' => some 8
  | _ => none

/-- The value of some hexadecimal digits. -/
def hexNumber? : List Char → Option Nat
  | cs => cs.foldl (fun acc ch => do return 16 * (← acc) + (← hexValue? ch)) (some 0)

/-- A backslash escape and the character it stands for. -/
def escaped (c : Cursor) (start : Mark) : Result (Char × Cursor) := do
  match escape? (c.ahead 1), escapeWidth? (c.ahead 1) with
  | some ch, _ => return (ch, c.skip 2)
  | none, none => c.fail .unknownEscape start
  | none, some width =>
    let c := c.skip 2
    c.need width
    match hexNumber? ((List.range width).map c.ahead) with
    | none => c.fail .escapeDigits start
    | some n =>
      if (0xd800 ≤ n ∧ n ≤ 0xdfff) ∨ 0x10ffff < n then c.fail .escapeCode start
      else return (Char.ofNat n, c.skip width)

/-- Visible characters of a quoted scalar, put in front of `acc` with the latest first, and whether they
end with an escaped line break. -/
def quotedRun (c : Cursor) (double : Bool) (start : Mark) (acc : List Char) :
    Result (List Char × Bool × Cursor) :=
  go c.rest c acc
where
  /-- Reads at most as many characters as the list has. -/
  go : List Char → Cursor → List Char → Result (List Char × Bool × Cursor)
    | [], c, acc => return (acc, false, c)
    | _ :: limit, c, acc => do
      if isGap c.char then return (acc, false, c)
      else if !double && c.char == '\'' && c.ahead 1 == '\'' then
        let c := c.skip 2
        c.need 2
        go limit c ('\'' :: acc)
      else if c.char == (if double then '"' else '\'') then return (acc, false, c)
      else if double && c.char == '\\' then
        if isBreak (c.ahead 1) then
          c.need 3
          return (acc, true, c.next.nextLine)
        else
          let (ch, c) ← c.escaped start
          c.need 2
          go limit c (ch :: acc)
      else
        c.next.need 2
        go limit c.next (c.char :: acc)

/-- A quoted scalar; the cursor stands before the opening quotation mark. -/
def quotedScalar (c : Cursor) (double : Bool) : Result (Token × Cursor) :=
  go c.rest c.next []
where
  /-- Reads piece by piece; `acc` has the latest character first. -/
  go : List Char → Cursor → List Char → Result (Token × Cursor)
    | [], d, _ => d.fail .endOfStream c.mark
    | _ :: limit, d, acc => do
      d.need 4
      if d.atDocumentIndicator then d.fail .documentIndicator c.mark
      if isEnd d.char then d.fail .endOfStream c.mark
      let (acc, joined, d) ← d.quotedRun double c.mark acc
      d.need 1
      if d.char == (if double then '"' else '\'') then
        let style := if double then .doubleQuoted else .singleQuoted
        return (⟨.scalar (String.ofList acc.reverse) style, c.mark, d.next.mark⟩, d.next)
      else
        let (g, d) ← d.gap { broken := joined } none
        go limit d (g.text.reverse ++ acc)

/-! ## Block scalars -/

/-- What happens to the line breaks at the end of a block scalar. -/
inductive Chomping
  | clip
  | strip
  | keep
deriving DecidableEq

/-- A chomping indicator. -/
def chomping? (ch : Char) : Option Chomping :=
  if ch == '+' then some .keep else if ch == '-' then some .strip else none

/-- An indentation indicator. -/
def indentDigit (c : Cursor) (start : Mark) : Result (Nat × Cursor) :=
  if c.char.isDigit then
    if c.char == '0' then c.fail .zeroIndent start else return (c.char.toNat - 48, c.next)
  else return (0, c)

/-- The indicators after `|` or `>`, in either order. -/
def blockHeader (c : Cursor) (start : Mark) : Result (Chomping × Nat × Cursor) := do
  c.need 1
  match chomping? c.char with
  | some ch =>
    let c := c.next
    c.need 1
    let (digit, c) ← c.indentDigit start
    return (ch, digit, c)
  | none =>
    let (digit, c) ← c.indentDigit start
    if digit = 0 then return (.clip, 0, c)
    else
      c.need 1
      match chomping? c.char with
      | some ch => return (ch, digit, c.next)
      | none => return (.clip, digit, c)

/-- Empty lines and the indentation of the line after them. An indentation of zero is not known yet: the
widest of these lines decides it, but it is never less than `least`. -/
def blockBreaks (c : Cursor) (indent least : Nat) (start : Mark) :
    Result (Nat × List Char × Mark × Cursor) := go ('\x00' :: c.rest) c [] 0 c.mark
where
  /-- Reads line by line; `widest` is the widest indentation so far. -/
  go : List Char → Cursor → List Char → Nat → Mark → Result (Nat × List Char × Mark × Cursor)
    | [], d, breaks, widest, stop => return (settle widest, breaks, stop, d)
    | _ :: limit, d, breaks, widest, stop => do
      let d ← indentation d.rest d
      let widest := max widest d.mark.column
      if (indent = 0 || d.mark.column < indent) && d.char == '\t' then d.fail .tabForSpace start
      if !isBreak d.char then return (settle widest, breaks, stop, d)
      else
        d.need 2
        let breaks := breaks ++ d.breakText
        let d := d.nextLine
        go limit d breaks widest d.mark
  /-- Spaces up to the indentation. -/
  indentation : List Char → Cursor → Result Cursor
    | [], d => do d.need 1; return d
    | _ :: limit, d => do
      d.need 1
      if (indent = 0 || d.mark.column < indent) && d.char == ' ' then indentation limit d.next
      else return d
  /-- The indentation that is known afterwards. -/
  settle (widest : Nat) : Nat := if indent = 0 then max widest least else indent

/-- The content of a block scalar up to the first line that is indented less, its last line break, the
empty lines after it, and where it stops. -/
def blockLines (c : Cursor) (literal : Bool) (indent : Nat) (start : Mark) (breaks : List Char)
    (stop : Mark) : Result (List Char × List Char × List Char × Mark × Cursor) :=
  go ('\x00' :: c.rest) c [] [] breaks false stop
where
  /-- Reads line by line; `acc` has the latest character first, and `led` says whether the line before
  started with a blank. -/
  go : List Char → Cursor → List Char → List Char → List Char → Bool → Mark →
      Result (List Char × List Char × List Char × Mark × Cursor)
    | [], d, acc, first, more, _, stop => return (acc, first, more, stop, d)
    | _ :: limit, d, acc, first, more, led, stop => do
      if d.mark.column == indent && !isEnd d.char then
        let blank := isBlank d.char
        let joint :=
          if !literal && !led && !blank && first.head? == some '\n' then
            (if more.isEmpty then [' '] else [])
          else first
        let (line, d) ← d.takeWhile fun ch => !isBreakOrEnd ch
        d.need 2
        let first := d.breakText
        let d := d.nextLine
        let acc := line.reverse ++ (more.reverse ++ (joint.reverse ++ acc))
        let (_, more, stop, d) ← d.blockBreaks indent indent start
        go limit d acc first more blank stop
      else return (acc, first, more, stop, d)

/-- A block scalar after its header line. -/
def blockBody (c : Cursor) (literal : Bool) (outer : Int) (header : Chomping × Nat) (start : Mark) :
    Result (Token × Cursor) := do
  let given := if header.2 = 0 then 0 else header.2 + outer.toNat
  let (indent, breaks, stop, c) ← c.blockBreaks given (max 1 (outer + 1).toNat) start
  let (acc, first, more, stop, c) ← c.blockLines literal indent start breaks stop
  let tail := match header.1 with
    | .strip => []
    | .clip => first
    | .keep => first ++ more
  let style := if literal then ScalarStyle.literal else .folded
  return (⟨.scalar (String.ofList (acc.reverse ++ tail)) style, start, stop⟩, c)

end Cursor

end WhileLang.Yaml
