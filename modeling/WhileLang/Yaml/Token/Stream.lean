import WhileLang.Yaml.Token.Scalar
import WhileLang.Yaml.Token.Property

/-!
# The token stream

Tokens are found one by one, but not quite in order: that a scalar is the key of a mapping shows only at
the colon behind it. So each place where a key may start is remembered, and the tokens that belong before
it are put there later. A token leaves the stream once no remembered key can start at it.
-/

namespace WhileLang.Yaml

/-- A place where a key may have started. A required one must turn out to be a key. -/
structure KeyStart where
  possible : Bool := false
  required : Bool := false
  token : Nat := 0
  mark : Mark := {}

/-- What has been read of a text and what is still to come. -/
structure TokenStream where
  cursor : Cursor
  /-- All tokens so far. -/
  tokens : Array Token := #[]
  /-- How many tokens have left the stream. -/
  taken : Nat := 0
  started : Bool := false
  /-- The indentation of the current block, and of those around it. -/
  indent : Int := -1
  indents : List Int := []
  /-- How many brackets are open. -/
  flowLevel : Nat := 0
  keyAllowed : Bool := false
  /-- One place per open bracket, and one outside all of them. -/
  keys : Array KeyStart := #[]
  /-- The tokens that may be keys, with the position in `keys` of the place that says so. -/
  keyTokens : List (Nat × Nat) := []
  comments : Array Comment := #[]
  /-- How many comments have been handed out. -/
  given : Nat := 0

namespace TokenStream

/-- The stream of a text. -/
def ofSource (s : Source) : TokenStream := { cursor := Cursor.ofSource s }

/-- The deepest nesting of brackets, and of blocks. -/
def maxDepth : Nat := 10000

/-- Where reading stands. -/
def mark (s : TokenStream) : Mark := s.cursor.mark

/-- Whether a bracket is open. -/
def inFlow (s : TokenStream) : Bool := s.flowLevel != 0

/-- The token found last. -/
def last? (s : TokenStream) : Option Token := s.tokens[s.tokens.size - 1]?

/-- Add a token at the end. -/
def push (s : TokenStream) (t : Token) : TokenStream := { s with tokens := s.tokens.push t }

/-- Put a token before the one with a given number. -/
def insertAt (s : TokenStream) (number : Nat) (t : Token) : TokenStream :=
  { s with tokens := s.tokens.insertIdxIfInBounds number t }

/-- Step over some characters, which make up a token. -/
def take (s : TokenStream) (kind : Token.Kind) (width : Nat) : TokenStream :=
  let c := s.cursor.skip width
  { s with cursor := c }.push ⟨kind, s.mark, c.mark⟩

/-- A problem at the reading position, inside the construct that began at `start`. -/
def fail {α : Type} (s : TokenStream) (p : Problem) (start : Mark) : Result α :=
  s.cursor.fail p start

/-! ## Keys -/

/-- The place for a key at the innermost open bracket. -/
def keyPlace (s : TokenStream) : KeyStart := (s.keys[s.keys.size - 1]?).getD {}

/-- Change the place for a key at the innermost open bracket. -/
def setKeyPlace (s : TokenStream) (k : KeyStart) : TokenStream :=
  { s with keys := s.keys.set! (s.keys.size - 1) k }

/-- No key starts at a token any more. -/
def forgetToken (s : TokenStream) (number : Nat) : TokenStream :=
  { s with keyTokens := s.keyTokens.filter fun p => p.1 != number }

/-- Whether a key that started at a place may still be found: keys stay on one line and are not longer
than 1024 characters. -/
def keyIsOpen (s : TokenStream) (k : KeyStart) : Result Bool :=
  if !k.possible then return false
  else if k.mark.line < s.mark.line || k.mark.index + 1024 < s.mark.index then
    if k.required then s.fail .noColon k.mark else return false
  else return true

/-- Give up the key that may have started at the innermost open bracket. -/
def dropKey (s : TokenStream) : Result TokenStream :=
  let k := s.keyPlace
  if !k.possible then return s
  else if k.required then s.fail .noColon k.mark
  else return (s.setKeyPlace { k with possible := false }).forgetToken k.token

/-- Remember that a key may start here. -/
def saveKey (s : TokenStream) : Result TokenStream := do
  if !s.keyAllowed then return s
  else
    let k : KeyStart :=
      { possible := true
        required := !s.inFlow && s.indent == s.mark.column
        token := s.tokens.size
        mark := s.mark }
    let s ← s.dropKey
    let s := (s.setKeyPlace k).forgetToken k.token
    return { s with keyTokens := (k.token, s.keys.size - 1) :: s.keyTokens }

/-- A bracket opens. -/
def enterFlow (s : TokenStream) : Result TokenStream :=
  let s := { s with
    keys := s.keys.push { token := s.tokens.size, mark := s.mark }
    flowLevel := s.flowLevel + 1 }
  if maxDepth < s.flowLevel then s.fail .tooDeep s.mark else return s

/-- A bracket closes. -/
def leaveFlow (s : TokenStream) : TokenStream :=
  if s.flowLevel = 0 then s
  else
    let s := s.forgetToken s.keyPlace.token
    { s with flowLevel := s.flowLevel - 1, keys := s.keys.pop }

/-! ## Blocks -/

/-- Open a block if the column is further right than the current one. The block starts before the token
with the given number, or at the end. -/
def openBlock (s : TokenStream) (column : Int) (number : Option Nat) (kind : Token.Kind)
    (start : Mark) : Result TokenStream :=
  if s.inFlow || column ≤ s.indent then return s
  else
    let s := { s with indents := s.indent :: s.indents, indent := column }
    if maxDepth < s.indents.length then s.fail .tooDeep s.keyPlace.mark
    else return s.insertAt (number.getD s.tokens.size) ⟨kind, start, start⟩

/-- Where a block ends: before the comments that stand at its own indentation. Goes back over the comments
found since the search for the token began, from the latest one. -/
def blockEndMark (indent : Int) : List Comment → Int → Mark → Mark
  | [], _, found => found
  | c :: earlier, least, found =>
    if c.stop.index < least then found
    else
      blockEndMark indent earlier c.scan.index
        (if (c.start.column : Int) = indent + 1 then c.start else found)

/-- Close the blocks that are further right than a column. -/
def closeBlocks (s : TokenStream) (column : Int) (scan : Mark) : TokenStream :=
  if s.inFlow then s
  else go s.indents s { scan with index := scan.index - 1 }
where
  /-- Closes one block after the other. -/
  go : List Int → TokenStream → Mark → TokenStream
    | [], s, _ => s
    | outer :: outers, s, found =>
      if s.indent ≤ column then s
      else
        let found := blockEndMark s.indent s.comments.toList.reverse found.index found
        go outers ({ s with indent := outer, indents := outers }.push ⟨.blockEnd, found, found⟩) found

end TokenStream

end WhileLang.Yaml
