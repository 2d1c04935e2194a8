import WhileLang.Yaml.Token.Fetch

/-!
# Events of a YAML text

The structure of a text as a flat list: nodes, the starts and ends of collections, and the starts and
ends of documents. `EventStream.next` reads one event. It works through a stack of states, each of which
says what may come next.
-/

namespace WhileLang.Yaml

/-- Which comments an event carries. Only their presence matters. -/
structure Remarks where
  head : Bool := false
  line : Bool := false
  foot : Bool := false

/-- What an event tells. -/
inductive Event.Kind
  | streamStart
  | streamEnd
  | documentStart
  | documentEnd
  | alias (name : String)
  | scalar (anchor : Option String) (tag : String) (text : String) (style : ScalarStyle)
  | sequenceStart (anchor : Option String) (tag : String) (flow : Bool)
  | sequenceEnd
  | mappingStart (anchor : Option String) (tag : String) (flow : Bool)
  | mappingEnd

/-- An event, where it starts, and its comments. -/
structure Event where
  kind : Event.Kind
  start : Mark
  remarks : Remarks := {}

/-- What may come next. -/
inductive EventStream.State
  | streamStart
  | implicitDocumentStart
  | documentStart
  | documentContent
  | documentEnd
  | blockNode
  | blockSequenceFirst
  | blockSequenceEntry
  | indentlessEntry
  | blockMappingFirst
  | blockMappingKey
  | blockMappingValue
  | flowSequenceFirst
  | flowSequenceEntry
  | flowPairKey
  | flowPairValue
  | flowPairEnd
  | flowMappingFirst
  | flowMappingKey
  | flowMappingValue
  | flowMappingEmptyValue
  | over

/-- A text on its way to events. The comments are those met since the last event that took them. -/
structure EventStream where
  tokens : TokenStream
  state : EventStream.State := .streamStart
  states : List EventStream.State := []
  /-- Where the open collections start. -/
  starts : List Mark := []
  /-- Tag handles and what they stand for. -/
  tags : List (String × String) := []
  head : List Char := []
  line : List Char := []
  foot : List Char := []
  /-- A comment that belongs to the collection in a list item and not to its first entry. -/
  stem : List Char := []

namespace EventStream

/-- Reading events changes the stream and may fail. -/
abbrev Reading := StateT EventStream Result

/-- The stream of a text. -/
def ofSource (s : Source) : EventStream := { tokens := TokenStream.ofSource s }

/-! ## Tokens and their comments -/

/-- Two comments, one under the other. -/
def joinLines (a b : List Char) : List Char := if a.isEmpty then b else a ++ '\n' :: b

/-- Take over the comments that belong to a token. The end of a block leaves the head comments, and all
that come after them, to the next token. -/
def collect (t : Token) : List Comment → EventStream → EventStream
  | [], r => r
  | c :: later, r =>
    if t.start.index < c.owner.index then r
    else
      let more := !c.text.isEmpty
      if more && c.place == .head && t.kind == .blockEnd then r
      else
        let r := if more then
            match c.place with
            | .head => { r with head := joinLines r.head c.text }
            | .line => { r with line := joinLines r.line c.text }
            | .foot => { r with foot := joinLines r.foot c.text }
          else r
        let s := r.tokens
        collect t later { r with tokens := { s with
          comments := s.comments.set! s.given { c with text := [], stop := {}, start := {}, scan := {} }
          given := s.given + 1 } }

/-- The next token. -/
def peek : Reading Token := do
  let r ← get
  let s ← r.tokens.settle
  match s.tokens[s.taken]? with
  | some t =>
    set (collect t (s.comments.toList.drop s.given) { r with tokens := s })
    return t
  | none => throw ⟨.endOfStream, none⟩

/-- Step over the next token. -/
def skip : Reading Unit :=
  modify fun r => { r with tokens := { r.tokens with taken := r.tokens.taken + 1 } }

/-- An event that takes all comments. -/
def withRemarks (kind : Event.Kind) (start : Mark) : Reading Event := do
  let r ← get
  set { r with head := [], line := [], foot := [], stem := [] }
  return ⟨kind, start, ⟨!r.head.isEmpty, !r.line.isEmpty, !r.foot.isEmpty⟩⟩

/-- The start of a block collection, which takes the comment put aside for it. -/
def withStem (kind : Event.Kind) (start : Mark) : Reading Event := do
  let r ← get
  set { r with stem := [] }
  return ⟨kind, start, { head := !r.stem.isEmpty }⟩

/-! ## States -/

/-- What comes next. -/
def goto (s : State) : Reading Unit := modify fun r => { r with state := s }

/-- What comes after the construct that is about to be read. -/
def pushState (s : State) : Reading Unit := modify fun r => { r with states := s :: r.states }

/-- Return to what was put aside. -/
def popState : Reading Unit := modify fun r =>
  match r.states with
  | s :: rest => { r with state := s, states := rest }
  | [] => { r with state := .over }

/-- A collection starts. -/
def pushStart (m : Mark) : Reading Unit := modify fun r => { r with starts := m :: r.starts }

/-- A collection ends; where it started. -/
def popStart : Reading Mark := modifyGet fun r => (r.starts.headD {}, { r with starts := r.starts.drop 1 })

/-- A node without any text. -/
def empty (m : Mark) : Reading Event := return ⟨.scalar none "" "" .plain, m, {}⟩

/-- A problem with the order of tokens, inside the construct that began at `context`. -/
def fail {α : Type} (p : Problem) (context : Mark) (t : Token) : Reading α :=
  throw (Error.structural p context t.start)

/-! ## Nodes -/

/-- The properties before a node: an anchor and a tag, in either order, each at most once. -/
structure Properties where
  anchor : Option String := none
  tag : Option (String × String × Mark) := none

/-- Read the properties before a node, and the token after them. -/
def properties (t : Token) : Reading (Properties × Token) := do
  match t.kind with
  | .anchor a =>
    skip
    let t ← peek
    match t.kind with
    | .tag handle suffix =>
      skip
      return ({ anchor := some a, tag := some (handle, suffix, t.start) }, ← peek)
    | _ => return ({ anchor := some a }, t)
  | .tag handle suffix =>
    skip
    let tag := some (handle, suffix, t.start)
    let t ← peek
    match t.kind with
    | .anchor a =>
      skip
      return ({ anchor := some a, tag := tag }, ← peek)
    | _ => return ({ tag := tag }, t)
  | _ => return ({}, t)

/-- The full tag: a handle stands for what a directive says. -/
def fullTag (p : Properties) (start : Mark) : Reading String := do
  match p.tag with
  | none => return ""
  | some (handle, suffix, m) =>
    if handle.isEmpty then return suffix
    else
      match (← get).tags.lookup handle with
      | some long => return long ++ suffix
      | none => throw (Error.structural .undefinedHandle start m)

/-- A node. Block collections are allowed only outside brackets, and a list without indentation of its own
only as the value of a mapping. -/
def node (block indentless : Bool) : Reading Event := do
  let first ← peek
  match first.kind with
  | .alias name =>
    popState
    let e ← withRemarks (.alias name) first.start
    skip
    return e
  | _ =>
    let (p, t) ← properties first
    let start := first.start
    let tag ← fullTag p start
    if indentless && t.kind == .blockEntry then
      goto .indentlessEntry
      return ⟨.sequenceStart p.anchor tag false, start, {}⟩
    match t.kind, block with
    | .scalar text style, _ =>
      popState
      let e ← withRemarks (.scalar p.anchor tag text style) start
      skip
      return e
    | .flowSequenceStart, _ =>
      goto .flowSequenceFirst
      withRemarks (.sequenceStart p.anchor tag true) start
    | .flowMappingStart, _ =>
      goto .flowMappingFirst
      withRemarks (.mappingStart p.anchor tag true) start
    | .blockSequenceStart, true =>
      goto .blockSequenceFirst
      withStem (.sequenceStart p.anchor tag false) start
    | .blockMappingStart, true =>
      goto .blockMappingFirst
      withStem (.mappingStart p.anchor tag false) start
    | _, _ =>
      if p.anchor.isSome || !tag.isEmpty then
        popState
        return ⟨.scalar p.anchor tag "" .plain, start, {}⟩
      else fail .nodeContent start t

/-! ## Documents -/

/-- A handle may be declared once. -/
def declareTag (handle text : String) (t : Token) : Reading Unit := do
  let r ← get
  if (r.tags.lookup handle).isSome then fail .duplicateTag {} t
  else set { r with tags := r.tags ++ [(handle, text)] }

/-- The directives before a document; at most as many as the list has characters. -/
def directives : List Char → Bool → Reading Unit
  | [], _ => return ()
  | _ :: limit, versioned => do
    let t ← peek
    match t.kind with
    | .version major minor =>
      if versioned then fail .duplicateVersion {} t
      if major != 1 || minor != 1 then fail .wrongVersion {} t
      skip
      directives limit true
    | .tagDirective handle text =>
      declareTag handle text t
      skip
      directives limit versioned
    | _ => return ()

/-- The handles that every document knows, unless it declares them itself. -/
def defaultTags : Reading Unit :=
  modify fun r =>
    let add (tags : List (String × String)) (p : String × String) :=
      if (tags.lookup p.1).isSome then tags else tags ++ [p]
    { r with tags := [("!", "!"), ("!!", "tag:yaml.org,2002:")].foldl add r.tags }

/-- All directives before a document. -/
def allDirectives : Reading Unit := do
  directives ('\x00' :: (← get).tokens.cursor.rest) false
  defaultTags

/-- Skip extra marks of the end of a document; at most as many as the list has characters. -/
def skipEnds : List Char → Reading Unit
  | [] => return ()
  | _ :: limit => do
    let t ← peek
    if t.kind == .documentEnd then
      skip
      skipEnds limit

/-- Split a comment at its last empty line. Works on the reversed comment: the lower part comes first. -/
def splitAtEmptyLine : List Char → List Char → Option (List Char × List Char)
  | _, [] => none
  | lower, '\n' :: upper =>
    if lower.isEmpty then some (upper, [])
    else
      match upper with
      | '\n' :: rest => some (rest, lower)
      | _ => splitAtEmptyLine ('\n' :: lower) upper
  | lower, c :: upper => splitAtEmptyLine (c :: lower) upper

/-- The start of a document. The upper part of a comment before it, down to the last empty line, belongs
to the document. -/
def documentStart (implicit : Bool) : Reading Event := do
  if !implicit then skipEnds ('\x00' :: (← get).tokens.cursor.rest)
  let t ← peek
  match t.kind, implicit with
  | .streamEnd, _ =>
    goto .over
    skip
    return ⟨.streamEnd, t.start, {}⟩
  | .version _ _, _ | .tagDirective _ _, _ | .documentStart, _ | _, false =>
    allDirectives
    let d ← peek
    if d.kind != .documentStart then fail .documentStart {} d
    pushState .documentEnd
    goto .documentContent
    skip
    return ⟨.documentStart, t.start, {}⟩
  | _, true =>
    allDirectives
    pushState .documentEnd
    goto .blockNode
    let r ← get
    match splitAtEmptyLine [] r.head.reverse with
    | some (upper, lower) =>
      if upper.isEmpty then return ⟨.documentStart, t.start, {}⟩
      else
        set { r with head := lower }
        return ⟨.documentStart, t.start, { head := true }⟩
    | none => return ⟨.documentStart, t.start, {}⟩

/-- The content of a document after its mark. -/
def documentContent : Reading Event := do
  let t ← peek
  match t.kind with
  | .version _ _ | .tagDirective _ _ | .documentStart | .documentEnd | .streamEnd =>
    popState
    empty t.start
  | _ => node true false

/-- The end of a document. -/
def documentEnd : Reading Event := do
  let t ← peek
  if t.kind == .documentEnd then skip
  modify fun r => { r with tags := [] }
  goto .documentStart
  withRemarks .documentEnd t.start

/-! ## Block collections -/

/-- Put the comment before a list item aside if a collection follows. `before` is what there was of it
before the dash. -/
def splitStem (before : Nat) : Reading Unit := do
  if before != 0 then
    let t ← peek
    if t.kind == .blockSequenceStart || t.kind == .blockMappingStart then
      modify fun r => { r with stem := r.head.take before, head := r.head.drop (before + 1) }

/-- An item of a list after its dash. An item that ends at once is empty. -/
def listItem (dash : Token) (again : State) (ends : Token.Kind → Bool) : Reading Event := do
  let before := (← get).head.length
  skip
  splitStem before
  let t ← peek
  if ends t.kind then
    goto again
    empty dash.stop
  else
    pushState again
    node true false

/-- An item of a list, or its end. -/
def blockSequenceEntry (first : Bool) : Reading Event := do
  if first then
    pushStart (← peek).start
    skip
  let t ← peek
  match t.kind with
  | .blockEntry => listItem t .blockSequenceEntry fun k => k == .blockEntry || k == .blockEnd
  | .blockEnd =>
    popState
    let _ ← popStart
    skip
    return ⟨.sequenceEnd, t.start, {}⟩
  | _ => fail .dash (← popStart) t

/-- An item of a list without indentation of its own, or its end. -/
def indentlessEntry : Reading Event := do
  let t ← peek
  match t.kind with
  | .blockEntry =>
    listItem t .indentlessEntry fun k =>
      k == .blockEntry || k == .key || k == .value || k == .blockEnd
  | _ =>
    popState
    return ⟨.sequenceEnd, t.start, {}⟩

/-- Whether a key or value of a block mapping is empty because of the next token. -/
def endsPart (k : Token.Kind) : Bool := k == .key || k == .value || k == .blockEnd

/-- A key of a mapping, or its end. -/
def blockMappingKey (first : Bool) : Reading Event := do
  if first then
    pushStart (← peek).start
    skip
  let t ← peek
  match t.kind with
  | .key =>
    skip
    if endsPart (← peek).kind then
      goto .blockMappingValue
      empty t.stop
    else
      pushState .blockMappingValue
      node true true
  | .blockEnd =>
    popState
    let _ ← popStart
    let e ← withRemarks .mappingEnd t.start
    skip
    return e
  | _ => fail .key (← popStart) t

/-- A value of a mapping. -/
def blockMappingValue : Reading Event := do
  let t ← peek
  match t.kind with
  | .value =>
    skip
    if endsPart (← peek).kind then
      goto .blockMappingKey
      empty t.stop
    else
      pushState .blockMappingKey
      node true true
  | _ =>
    goto .blockMappingKey
    empty t.start

/-! ## Flow collections -/

/-- The end of a collection in brackets. -/
def flowEnd (kind : Event.Kind) (t : Token) : Reading Event := do
  popState
  let _ ← popStart
  let e ← withRemarks kind t.start
  skip
  return e

/-- The token that starts an entry: all entries but the first follow a comma. -/
def flowEntry (first : Bool) (t : Token) (closing : Token.Kind) (p : Problem) : Reading Token := do
  if first || t.kind == closing then return t
  else if t.kind == .flowEntry then
    skip
    peek
  else fail p (← popStart) t

/-- An item of a list in brackets, or its end. An item may be a mapping of one pair. -/
def flowSequenceEntry (first : Bool) : Reading Event := do
  if first then
    pushStart (← peek).start
    skip
  let t ← flowEntry first (← peek) .flowSequenceEnd .commaOrBracket
  match t.kind with
  | .flowSequenceEnd => flowEnd .sequenceEnd t
  | .key =>
    goto .flowPairKey
    skip
    return ⟨.mappingStart none "" true, t.start, {}⟩
  | _ =>
    pushState .flowSequenceEntry
    node false false

/-- The key of a pair. -/
def flowPairKey : Reading Event := do
  let t ← peek
  match t.kind with
  | .value | .flowEntry | .flowSequenceEnd =>
    skip
    goto .flowPairValue
    empty t.stop
  | _ =>
    pushState .flowPairValue
    node false false

/-- The value of a pair. -/
def flowPairValue : Reading Event := do
  let t ← peek
  if t.kind == .value then
    skip
    let v ← peek
    if v.kind != .flowEntry && v.kind != .flowSequenceEnd then
      pushState .flowPairEnd
      return ← node false false
  goto .flowPairEnd
  empty t.start

/-- The end of a pair. -/
def flowPairEnd : Reading Event := do
  let t ← peek
  goto .flowSequenceEntry
  return ⟨.mappingEnd, t.start, {}⟩

/-- A key of a mapping in brackets, or its end. A key without a value is allowed. -/
def flowMappingKey (first : Bool) : Reading Event := do
  if first then
    pushStart (← peek).start
    skip
  let t ← flowEntry first (← peek) .flowMappingEnd .commaOrBrace
  match t.kind with
  | .flowMappingEnd => flowEnd .mappingEnd t
  | .key =>
    skip
    let k ← peek
    if k.kind == .value || k.kind == .flowEntry || k.kind == .flowMappingEnd then
      goto .flowMappingValue
      empty k.start
    else
      pushState .flowMappingValue
      node false false
  | _ =>
    pushState .flowMappingEmptyValue
    node false false

/-- A value of a mapping in brackets. -/
def flowMappingValue (present : Bool) : Reading Event := do
  let t ← peek
  if !present then
    goto .flowMappingKey
    empty t.start
  else if t.kind == .value then
    skip
    let v ← peek
    if v.kind != .flowEntry && v.kind != .flowMappingEnd then
      pushState .flowMappingKey
      node false false
    else
      goto .flowMappingKey
      empty v.start
  else
    goto .flowMappingKey
    empty t.start

/-! ## One event -/

/-- The next event. -/
def next : Reading Event := do
  match (← get).state with
  | .streamStart =>
    let t ← peek
    goto .implicitDocumentStart
    skip
    return ⟨.streamStart, t.start, {}⟩
  | .implicitDocumentStart => documentStart true
  | .documentStart => documentStart false
  | .documentContent => documentContent
  | .documentEnd => documentEnd
  | .blockNode => node true false
  | .blockSequenceFirst => blockSequenceEntry true
  | .blockSequenceEntry => blockSequenceEntry false
  | .indentlessEntry => indentlessEntry
  | .blockMappingFirst => blockMappingKey true
  | .blockMappingKey => blockMappingKey false
  | .blockMappingValue => blockMappingValue
  | .flowSequenceFirst => flowSequenceEntry true
  | .flowSequenceEntry => flowSequenceEntry false
  | .flowPairKey => flowPairKey
  | .flowPairValue => flowPairValue
  | .flowPairEnd => flowPairEnd
  | .flowMappingFirst => flowMappingKey true
  | .flowMappingKey => flowMappingKey false
  | .flowMappingValue => flowMappingValue true
  | .flowMappingEmptyValue => flowMappingValue false
  | .over => return ⟨.streamEnd, {}, {}⟩

end EventStream

end WhileLang.Yaml
