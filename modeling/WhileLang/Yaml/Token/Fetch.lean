import WhileLang.Yaml.Token.Comment

/-!
# Finding tokens

`fetch` finds the next token and all that its indentation implies; `peek` finds as many as are needed for
the first one to be final.
-/

namespace WhileLang.Yaml.TokenStream

/-- Move to the next token, over white space and comments. Tabs count as white space only where they
cannot be meant as indentation. -/
def skipToToken (s : TokenStream) : Result TokenStream := go ('\x00' :: s.cursor.rest) s
where
  /-- Moves line by line. -/
  go : List Char → TokenStream → Result TokenStream
    | [], t => return t
    | _ :: limit, t => do
      t.cursor.need 1
      let c := t.cursor
      let c := if c.mark.index == 0 && c.char.toNat == 0xfeff then c.next else c
      let c ← c.skipWhile fun ch => ch == ' ' || ((t.inFlow || !t.keyAllowed) && ch == '\t')
      let t := { t with cursor := c }.liftComment
      let t ← if t.cursor.char == '#' then t.commentLines s.mark else pure t
      if isBreak t.cursor.char then
        t.cursor.need 2
        go limit { t with
          cursor := t.cursor.nextLine, keyAllowed := t.keyAllowed || !t.inFlow }
      else return t

/-- A token at a place where a key may start. -/
def keyed (s : TokenStream) (read : Cursor → Result (Token × Cursor)) : Result TokenStream := do
  let s ← s.saveKey
  let (t, c) ← read s.cursor
  return { s with cursor := c, keyAllowed := false }.push t

/-- The document is over: all blocks end, and no key can be open. -/
def endDocument (s : TokenStream) : Result TokenStream := do
  let s ← (s.closeBlocks (-1) s.mark).dropKey
  return { s with keyAllowed := false }

/-- The end of the text, which also ends its last line. -/
def fetchEnd (s : TokenStream) : Result TokenStream := do
  let m := s.mark
  let m := if m.column = 0 then m else { m with column := 0, line := m.line + 1 }
  let s ← { s with cursor := { s.cursor with mark := m } }.endDocument
  return s.push ⟨.streamEnd, m, m⟩

/-- A dash, which starts a list item. -/
def fetchEntry (s : TokenStream) : Result TokenStream := do
  if !s.inFlow && !s.keyAllowed then s.fail .entryNotAllowed s.mark
  let s ← s.openBlock s.mark.column none .blockSequenceStart s.mark
  let s ← s.dropKey
  return { s with keyAllowed := true }.take .blockEntry 1

/-- A question mark, which starts a key. -/
def fetchKey (s : TokenStream) : Result TokenStream := do
  if !s.inFlow && !s.keyAllowed then s.fail .keyNotAllowed s.mark
  let s ← s.openBlock s.mark.column none .blockMappingStart s.mark
  let s ← s.dropKey
  return { s with keyAllowed := !s.inFlow }.take .key 1

/-- A colon, which starts a value and may show that a key stands before it. -/
def fetchValue (s : TokenStream) : Result TokenStream := do
  let k := s.keyPlace
  if ← s.keyIsOpen k then
    let s := s.insertAt k.token ⟨.key, k.mark, k.mark⟩
    let s ← s.openBlock k.mark.column (some k.token) .blockMappingStart k.mark
    let s := (s.setKeyPlace { k with possible := false }).forgetToken k.token
    return { s with keyAllowed := false }.take .value 1
  else
    let s := s.setKeyPlace { k with possible := false }
    if !s.inFlow && !s.keyAllowed then s.fail .valueNotAllowed s.mark
    let s ← s.openBlock s.mark.column none .blockMappingStart s.mark
    return { s with keyAllowed := !s.inFlow }.take .value 1

/-- A block scalar with its header line. -/
def fetchBlockScalar (s : TokenStream) (literal : Bool) : Result TokenStream := do
  let s ← s.dropKey
  let start := s.mark
  let (chomping, digit, c) ← s.cursor.next.blockHeader start
  let c ← c.skipWhile isBlank
  let s := { s with cursor := c, keyAllowed := true }
  let s ← if c.char == '#' then s.lineComment start else pure s
  let c ← s.cursor.skipWhile fun ch => s.cursor.char == '#' && !isBreakOrEnd ch
  if !isBreakOrEnd c.char then c.fail .lineEnd start
  c.need 2
  let (t, c) ← c.nextLine.blockBody literal s.indent (chomping, digit) start
  return { s with cursor := c }.push t

/-- Whether a plain scalar can start here. -/
def startsPlain (s : TokenStream) : Bool :=
  let ch := s.cursor.char
  let after := s.cursor.ahead 1
  !(isGap ch || ['-', '?', ':', ',', '[', ']', '\x7b', '\x7d', '#', '&', '*', '!', '|', '>', '\'', '"',
      '%', '@', Char.ofNat 0x60].contains ch)
    || (ch == '-' && !isBlank after)
    || (!s.inFlow && (ch == '?' || ch == ':') && !isGap after)

/-- The token that starts with the next character. -/
def fetchHere (s : TokenStream) : Result TokenStream := do
  let ch := s.cursor.char
  let beforeGap := isGap (s.cursor.ahead 1)
  if ch == '[' || ch == '\x7b' then
    let s ← (← s.saveKey).enterFlow
    let kind := if ch == '[' then Token.Kind.flowSequenceStart else .flowMappingStart
    return { s with keyAllowed := true }.take kind 1
  else if ch == ']' || ch == '\x7d' then
    let s := (← s.dropKey).leaveFlow
    let kind := if ch == ']' then Token.Kind.flowSequenceEnd else .flowMappingEnd
    return { s with keyAllowed := false }.take kind 1
  else if ch == ',' then
    return { (← s.dropKey) with keyAllowed := true }.take .flowEntry 1
  else if ch == '-' && beforeGap then s.fetchEntry
  else if ch == '?' && (s.inFlow || beforeGap) then s.fetchKey
  else if ch == ':' && (s.inFlow || beforeGap) then s.fetchValue
  else if ch == '*' then s.keyed (·.name true)
  else if ch == '&' then s.keyed (·.name false)
  else if ch == '!' then s.keyed (·.tag)
  else if ch == '|' && !s.inFlow then s.fetchBlockScalar true
  else if ch == '>' && !s.inFlow then s.fetchBlockScalar false
  else if ch == '\'' then s.keyed (·.quotedScalar false)
  else if ch == '"' then s.keyed (·.quotedScalar true)
  else if s.startsPlain then
    let s ← s.saveKey
    let (t, broken, c) ← s.cursor.plainScalar s.indent s.inFlow
    return { s with cursor := c, keyAllowed := broken }.push t
  else s.fail .noTokenStart s.mark

/-- Find the next token. -/
def fetch (s : TokenStream) : Result TokenStream := do
  s.cursor.need 1
  if !s.started then
    return { s with started := true, keyAllowed := true, keys := #[{}] }.push
      ⟨.streamStart, s.mark, s.mark⟩
  else
    let scan := s.mark
    let s ← s.skipToToken
    let s := s.closeBlocks s.mark.column scan
    s.cursor.need 4
    let ch := s.cursor.char
    if isEnd ch then s.fetchEnd
    else if s.mark.column == 0 && ch == '%' then
      let s ← s.endDocument
      let (t, c) ← s.cursor.directive
      return { s with cursor := c }.push t
    else if s.cursor.atDocumentIndicator then
      return (← s.endDocument).take (if ch == '-' then .documentStart else .documentEnd) 3
    else
      let owner := match s.last? with
        | some t => if (if s.inFlow then ch == ',' else ch == ':') then t.start else s.mark
        | none => s.mark
      let s ← s.fetchHere
      if s.last?.map Token.kind == some .blockEntry then return s else s.lineComment owner

/-- Whether the first token may still change: fewer than three are known, or a key may start at it. -/
def needsMore (s : TokenStream) : Result (Bool × TokenStream) := do
  if s.tokens.size ≤ s.taken + 2 then return (true, s)
  else
    match s.keyTokens.lookup s.taken with
    | none => return (false, s)
    | some i =>
      let k := (s.keys[i]?).getD {}
      if ← s.keyIsOpen k then return (true, s)
      else return (false, { s with keys := s.keys.set! i { k with possible := false } })

/-- Make the first token final. -/
def settle (s : TokenStream) : Result TokenStream := go ('\x00' :: '\x00' :: '\x00' :: '\x00' :: s.cursor.rest) s
where
  /-- Finds at most as many tokens as the list has characters. -/
  go : List Char → TokenStream → Result TokenStream
    | [], s => return s
    | _ :: limit, s => do
      let (more, s) ← s.needsMore
      if more then go limit (← s.fetch) else return s

end WhileLang.Yaml.TokenStream
