import WhileLang.Yaml.Token.Stream

/-!
# Comments

A comment on the line of a token belongs to that line. A run of comment lines belongs to what follows it,
unless it touches what stands before it and an empty line or a smaller indentation divides it from what
follows.
-/

namespace WhileLang.Yaml.TokenStream

/-- How far ahead comments are looked for. -/
def commentReach : Nat := 512

/-- The comment on the rest of the line, if no line break has been crossed since the last token. -/
def lineComment (s : TokenStream) (owner : Mark) : Result TokenStream := do
  let blanks := (s.cursor.rest.takeWhile isBlank).length
  if 0 < s.cursor.newlines || commentReach ≤ blanks || s.cursor.ahead blanks != '#' then return s
  else
    let c := s.cursor.skip blanks
    let (text, d) ← c.takeWhile fun ch => !isBreakOrEnd ch
    return { s with
      cursor := d
      comments := s.comments.push { place := .line, text := text, owner := owner, start := c.mark } }

/-- The search for comment lines: the cursor stands behind the last one, and `peek` characters further the
search goes on. `line` and `column` belong to that place; columns count from one here. -/
structure Sweep where
  cursor : Cursor
  peek : Nat := 0
  line : Nat
  column : Nat
  scan : Mark
  owner : Mark
  start : Mark := {}
  text : List Char := []
  afterEmpty : Bool := false
  firstEmpty : Bool
  found : Array Comment

/-- What stays the same during a search. -/
structure Sweep.Frame where
  indent : Int
  footLine : Int
  inFlow : Bool
  afterValue : Bool

namespace Sweep

/-- The place the search has reached. -/
def here (w : Sweep) : Mark := ⟨w.cursor.mark.index + w.peek, w.line, w.column⟩

/-- Whether the comment lines so far start left of the current block. -/
def dedented (w : Sweep) (f : Frame) : Bool := (w.start.column : Int) - 1 < f.indent

/-- The comment lines so far belong to what stands before them. -/
def closeFoot (w : Sweep) (owner : Mark) : Sweep :=
  if w.text.isEmpty then w
  else
    { w with
      found := w.found.push
        { place := .foot, text := w.text, owner := owner, start := w.start, stop := w.here
          scan := w.scan }
      scan := w.here
      owner := w.here
      text := [] }

/-- The end of a line, or a closing bracket. -/
def endLine (w : Sweep) (f : Frame) (closing : Bool) (atEnd : Bool) : Sweep :=
  if closing || !w.afterEmpty then
    if closing || (w.firstEmpty
        && (((w.start.line : Int) == f.footLine && !f.afterValue) || w.dedented f)) then
      w.closeFoot (if w.dedented f then w.start else w.owner)
    else if !w.text.isEmpty && !atEnd then { w with text := w.text ++ ['\n'] }
    else w
  else w

/-- A visible character: comment lines at another indentation end before it. -/
def meetText (w : Sweep) (f : Frame) : Sweep :=
  if (w.column : Int) - 1 < f.indent && w.column != w.start.column then w.closeFoot w.owner else w

/-- Move to the place the search has reached. -/
def catchUp (c : Cursor) (target : Int) : List Char → Cursor
  | [] => c
  | _ :: limit =>
    if target ≤ c.mark.index then c
    else catchUp (if isBreak c.char then c.nextLine else c.next) target limit

/-- Read a comment line. -/
def readLine (w : Sweep) : Result Sweep := do
  let w := if w.text.isEmpty then { w with start := w.here } else { w with text := w.text ++ ['\n'] }
  let c := catchUp w.cursor w.here.index w.cursor.rest
  let (line, c) ← c.takeWhile fun ch => !isBreakOrEnd ch
  return { w with
    cursor := c, text := w.text ++ line, afterEmpty := false, peek := 1, column := 0
    line := c.mark.line }

/-- The search ends behind a line break beyond ASCII. -/
def endAtWideBreak (w : Sweep) (f : Frame) : Sweep := { w with column := w.column + 1 }.meetText f

/-- Look for comment lines; at most as many steps as the list has characters. The search also ends where
the text cannot be read any further. -/
def run (f : Frame) : List Char → Sweep → Result Sweep
  | [], w => return w
  | _ :: limit, w => do
    if commentReach ≤ w.peek || !(w.cursor.need (w.peek + 1)).isOk then return w
    else
      let w := { w with column := w.column + 1 }
      let ch := w.cursor.ahead w.peek
      let closing := f.inFlow && (ch == ']' || ch == '\x7d')
      if isBlank ch then run f limit { w with peek := w.peek + 1 }
      else if closing || isBreakOrEnd ch then
        let w := w.endLine f closing (isEnd ch)
        if !isBreak ch then return w
        else
          let w := { w with
            firstEmpty := false, afterEmpty := true, column := 0, line := w.line + 1
            peek := w.peek + 1 }
          if ch.toNat < 0x80 then run f limit w else return w.endAtWideBreak f
      else
        let w := w.meetText f
        if ch != '#' then return w
        else
          let w ← w.readLine
          if w.cursor.char.toNat < 0x80 then run f limit w else return w.endAtWideBreak f

/-- The comments found; what is left over belongs to what follows. -/
def comments (w : Sweep) : Array Comment :=
  if w.text.isEmpty then w.found
  else
    w.found.push
      { place := .head, text := w.text, owner := w.start, start := w.start
        stop := { w.here with index := w.here.index - 1 }, scan := w.scan }

end Sweep

/-- Read the comment lines at the cursor. `scan` is where the search for the next token began. -/
def commentLines (s : TokenStream) (scan : Mark) : Result TokenStream := do
  let c := s.cursor
  let owner : Option Token := match s.last? with
    | some t =>
      if t.kind == .flowEntry && 1 < s.tokens.size then s.tokens[s.tokens.size - 2]? else some t
    | none => none
  let footLine : Int :=
    if scan.column = 0 then -1
    else c.mark.line - c.newlines + 1 + (if c.newlines = 0 ∧ 1 < c.mark.column then 1 else 0)
  let f : Sweep.Frame :=
    { indent := max s.indent 0, footLine := footLine, inFlow := s.inFlow
      afterValue := (owner.map Token.kind) == some .value }
  let w : Sweep :=
    { cursor := c, line := c.mark.line, column := c.mark.column, scan := scan
      owner := (owner.map Token.start).getD {}, firstEmpty := c.newlines ≤ 1, found := s.comments }
  let w ← w.run f ('\x00' :: c.rest)
  return { s with cursor := w.cursor, comments := w.comments }

/-- A comment behind the first dash of a list belongs to what follows the dash. -/
def liftComment (s : TokenStream) : TokenStream :=
  let n := s.tokens.size
  match s.tokens[n - 2]?, s.last?, s.comments[s.comments.size - 1]? with
  | some a, some b, some c =>
    if 1 < n && a.kind == .blockSequenceStart && b.kind == .blockEntry && c.place == .line
        && !c.text.isEmpty && !isBreak s.cursor.char then
      let owner := if c.start.line + 1 = s.mark.line then s.mark else c.owner
      { s with
        comments := s.comments.set! (s.comments.size - 1) { c with place := .head, owner := owner } }
    else s
  | _, _, _ => s

end WhileLang.Yaml.TokenStream
