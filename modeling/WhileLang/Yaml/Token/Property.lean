import WhileLang.Yaml.Token

/-!
# Anchors, aliases, tags and directives
-/

namespace WhileLang.Yaml.Cursor

/-! ## Anchors and aliases -/

/-- What may stand right after the name of an anchor. -/
def endsName (c : Char) : Bool :=
  isGap c || ['?', ':', ',', ']', '\x7d', '%', '@', Char.ofNat 0x60].contains c

/-- An anchor or an alias; the cursor stands before its sign. -/
def name (c : Cursor) (isAlias : Bool) : Result (Token × Cursor) := do
  let (cs, d) ← c.next.takeWhile isWord
  if cs.isEmpty || !endsName d.char then d.fail .anchorEnd c.mark
  else
    let s := String.ofList cs
    return (⟨if isAlias then .alias s else .anchor s, c.mark, d.mark⟩, d)

/-! ## Tags -/

/-- The characters of a tag, apart from words. -/
def isUriSign (c : Char) : Bool :=
  [';', '/', '?', ':', '@', '&', '=', '+', '$', '.', ',', '!', '~', '*', '\'', '(', ')', '[', ']',
    '%'].contains c

/-- The byte that the next `%` escape stands for. -/
def uriOctet (c : Cursor) (start : Mark) : Result Nat := do
  c.need 3
  match c.char == '%', hexValue? (c.ahead 1), hexValue? (c.ahead 2) with
  | true, some a, some b => return 16 * a + b
  | _, _, _ => c.fail .uriEscape start

/-- The escapes that follow the first one of a character. -/
def uriTrailing (start : Mark) : Nat → Nat → Cursor → Result (Nat × Cursor)
  | 0, value, c => return (value, c)
  | n + 1, value, c => do
    let b ← c.uriOctet start
    if b / 64 = 2 then uriTrailing start n (64 * value + b % 64) (c.skip 3)
    else c.fail .uriTrailing start

/-- A character written as escapes. -/
def uriChar (c : Cursor) (start : Mark) : Result (Char × Cursor) := do
  let b ← c.uriOctet start
  match Source.leading b with
  | none => c.fail .uriLeading start
  | some (width, value) =>
    let (code, c) ← uriTrailing start (width - 1) value (c.skip 3)
    return (Char.ofNat code, c)

/-- The text of a tag after what has been read of it already. `known` says whether anything has. -/
def uri (c : Cursor) (before : List Char) (known : Bool) (start : Mark) :
    Result (List Char × Cursor) := go ('\x00' :: c.rest) c before.reverse known
where
  /-- Reads character by character; what is read has the latest first. -/
  go : List Char → Cursor → List Char → Bool → Result (List Char × Cursor)
    | [], c, acc, _ => return (acc.reverse, c)
    | _ :: limit, c, acc, known => do
      c.need 1
      if isWord c.char || isUriSign c.char then
        if c.char == '%' then
          let (ch, c) ← c.uriChar start
          go limit c (ch :: acc) true
        else go limit c.next (c.char :: acc) true
      else if known then return (acc.reverse, c)
      else c.fail .tagUri start

/-- A handle such as `!`, `!!` or `!name!`. Outside directives the second sign may be missing. -/
def handle (c : Cursor) (directive : Bool) (start : Mark) : Result (List Char × Cursor) := do
  c.need 1
  if c.char != '!' then c.fail .handleEnd start
  let (cs, c) ← c.next.takeWhile isWord
  if c.char == '!' then return ('!' :: cs ++ ['!'], c.next)
  else if directive && !cs.isEmpty then c.fail .handleEnd start
  else return ('!' :: cs, c)

/-- The handle and the suffix of a tag. The tag `!` has an empty handle. -/
def tagParts (c : Cursor) : Result (List Char × List Char × Cursor) := do
  c.need 2
  if c.ahead 1 == '<' then
    let (suffix, d) ← (c.skip 2).uri [] false c.mark
    d.need 1
    if d.char != '>' then d.fail .verbatimEnd c.mark
    return ([], suffix, d.next)
  else
    let (h, d) ← c.handle false c.mark
    if 1 < h.length && h.getLast? == some '!' then
      let (suffix, d) ← d.uri [] false c.mark
      return (h, suffix, d)
    else
      let (suffix, d) ← d.uri (h.drop 1) true c.mark
      if suffix.isEmpty then return ([], h, d) else return (['!'], suffix, d)

/-- A tag; the cursor stands before its first sign. -/
def tag (c : Cursor) : Result (Token × Cursor) := do
  let (h, suffix, d) ← c.tagParts
  d.need 1
  if !isGap d.char then d.fail .tagEnd c.mark
  return (⟨.tag (String.ofList h) (String.ofList suffix), c.mark, d.mark⟩, d)

/-! ## Directives -/

/-- One number of a version: at most two digits. -/
def versionNumber (c : Cursor) (start : Mark) : Result (Nat × Cursor) := do
  let (a, d) ← digit c
  match a with
  | none => c.fail .versionMissing start
  | some a =>
    let (b, e) ← digit d
    match b with
    | none => return (a, d)
    | some b =>
      if e.char.isDigit then e.fail .versionLong start else return (10 * a + b, e)
where
  /-- One digit, if there is one. -/
  digit (c : Cursor) : Result (Option Nat × Cursor) := do
    c.need 1
    if c.char.isDigit then return (some (c.char.toNat - 48), c.next) else return (none, c)

/-- A directive; the cursor stands before its sign. The rest of the line goes with it, and a comment there
is dropped. -/
def directive (c : Cursor) : Result (Token × Cursor) := do
  let (word, d) ← c.next.takeWhile isWord
  if word.isEmpty then d.fail .directiveName c.mark
  if !isGap d.char then d.fail .directiveNameEnd c.mark
  let (token, d) ← value (String.ofList word) d
  let d ← d.skipWhile isBlank
  let d ← if d.char == '#' then d.skipWhile fun ch => !isBreakOrEnd ch else pure d
  if !isBreakOrEnd d.char then d.fail .lineEnd c.mark
  d.need 2
  return (token, d.nextLine)
where
  /-- The directive's own part of the line. -/
  value (word : String) (d : Cursor) : Result (Token × Cursor) := do
    if word == "YAML" then
      let d ← d.skipWhile isBlank
      let (major, d) ← d.versionNumber c.mark
      if d.char != '.' then d.fail .versionDot c.mark
      let (minor, d) ← d.next.versionNumber c.mark
      return (⟨.version major minor, c.mark, d.mark⟩, d)
    else if word == "TAG" then
      let d ← d.skipWhile isBlank
      let (h, d) ← d.handle true c.mark
      d.need 1
      if !isBlank d.char then d.fail .tagSpace c.mark
      let d ← d.skipWhile isBlank
      let (text, d) ← d.uri [] false c.mark
      d.need 1
      if !isGap d.char then d.fail .tagEnd c.mark
      return (⟨.tagDirective (String.ofList h) (String.ofList text), c.mark, d.mark⟩, d)
    else d.fail .unknownDirective c.mark

end WhileLang.Yaml.Cursor
