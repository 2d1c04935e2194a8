import WhileLang.Yaml.Cursor
import WhileLang.Yaml.Plain
import WhileLang.Yaml.Token

/-!
# How a scalar is best written

`Traits.of` collects what matters about a text, and `chooseStyle` picks the simplest style that keeps it:
plain, else single quotes, else double quotes. A text with line feeds is written as a block where possible.
-/

namespace WhileLang.Yaml

/-- Whether a character may be written as it is. Characters beyond the basic plane may not. -/
def writable (c : Char) : Bool :=
  let n := c.toNat
  n == 0x0a || (0x20 ≤ n && n ≤ 0x7e) || (0xa0 ≤ n && n ≤ 0xffff && n != 0xfeff && n != 0xfffe && n != 0xffff)

/-- What matters about a text for the way it is written. -/
structure Traits where
  multiline : Bool := false
  flowPlain : Bool := true
  blockPlain : Bool := true
  singleQuoted : Bool := true
  block : Bool := true

namespace Traits

/-- What has been seen of a text from the left. -/
structure Scan where
  flowSign : Bool := false
  blockSign : Bool := false
  breaks : Bool := false
  special : Bool := false
  tab : Bool := false
  breakSpace : Bool := false
  spaceBreak : Bool := false
  afterSpace : Bool := false
  afterBreak : Bool := false
  afterGap : Bool := true

/-- The signs that cannot start a plain scalar. -/
def isSign (c : Char) : Bool :=
  ['#', ',', '[', ']', '\x7b', '\x7d', '&', '*', '!', '|', '>', '\'', '"', '%', '@',
    Char.ofNat 0x60].contains c

/-- What the first character means for plain style; `blank` says whether a blank or the end follows. -/
def firstSigns (c : Char) (blank : Bool) : Bool × Bool :=
  if isSign c then (true, true)
  else if c == '?' || c == ':' then (true, blank)
  else if c == '-' then (blank, blank)
  else (false, false)

/-- What a later character means for plain style. -/
def laterSigns (c : Char) (blank afterGap : Bool) : Bool × Bool :=
  if [',', '?', '[', ']', '\x7b', '\x7d'].contains c then (true, false)
  else if c == ':' then (true, blank)
  else if c == '#' && afterGap then (true, true)
  else (false, false)

/-- Take in one character. -/
def Scan.step (s : Scan) (first : Bool) (c : Char) (rest : List Char) : Scan :=
  let blank := match rest with | [] => true | d :: _ => isBlank d
  let (flow, block) := if first then firstSigns c blank else laterSigns c blank s.afterGap
  { flowSign := s.flowSign || flow
    blockSign := s.blockSign || block
    breaks := s.breaks || isBreak c
    special := s.special || (c != '\t' && !writable c)
    tab := s.tab || c == '\t'
    breakSpace := s.breakSpace || (c == ' ' && s.afterBreak)
    spaceBreak := s.spaceBreak || (isBreak c && s.afterSpace)
    afterSpace := c == ' '
    afterBreak := isBreak c
    afterGap := isGap c }

/-- Take in the rest of a text. -/
def Scan.run : Scan → Bool → List Char → Scan
  | s, _, [] => s
  | s, first, c :: rest => (s.step first c rest).run false rest

/-- The traits of a text. -/
def ofList (cs : List Char) : Traits :=
  match cs with
  | [] => { flowPlain := false, block := false }
  | c :: _ =>
    let indicator := ['-', '-', '-'].isPrefixOf cs || ['.', '.', '.'].isPrefixOf cs
    let s := Scan.run { flowSign := indicator, blockSign := indicator } true cs
    let last := cs.getLastD c
    let plain := !(c == ' ' || isBreak c || last == ' ' || isBreak last || s.breakSpace || s.spaceBreak
      || s.tab || s.special || s.breaks)
    { multiline := s.breaks
      flowPlain := plain && !s.flowSign
      blockPlain := plain && !s.blockSign
      singleQuoted := !(s.breakSpace || s.spaceBreak || s.tab || s.special)
      block := !(last == ' ' || s.spaceBreak || s.special) }

end Traits

/-- Words that older readers take for truth values. -/
def isOldBool (s : String) : Bool :=
  ["y", "Y", "yes", "Yes", "YES", "on", "On", "ON", "n", "N", "no", "No", "NO", "off", "Off",
    "OFF"].contains s

/-- Groups of a number in base sixty, each after a colon. At least one is needed if `needed`. -/
def sixties : (fuel : Nat) → (needed : Bool) → List Char → Bool
  | 0, _, _ => false
  | fuel + 1, _, ':' :: a :: b :: rest =>
    (('0' ≤ a && a ≤ '5') && b.isDigit && sixties fuel false rest)
      || (a.isDigit && sixties fuel false (b :: rest))
  | fuel + 1, _, [':', a] => a.isDigit && sixties fuel false []
  | _ + 1, needed, rest =>
    !needed && (rest.isEmpty || (rest.head? == some '.' && (rest.drop 1).all fun c => c.isDigit || c == '_'))

/-- Numbers in base sixty, which older readers know. -/
def isBaseSixty (s : String) : Bool :=
  match (Text.splitSign s.toList).2 with
  | c :: rest =>
    c.isDigit
      && sixties (rest.length + 1) true (rest.dropWhile fun c => c.isDigit || c == '_')
  | [] => false

/-- The style that a scalar asks for. A string that would be read back as something else is quoted; a
cautious writer also has older readers in mind. -/
def wantedStyle (cautious : Bool) (tag text : String) : ScalarStyle :=
  if text.toList.contains '\n' then .literal
  else if tag == "!!str" && ((Plain.resolve true text).tag != "!!str"
      || (cautious && (isOldBool text || isBaseSixty text))) then .doubleQuoted
  else .plain

/-- The style that a scalar gets, in brackets or not, as the key of a one-line entry or not. -/
def chooseStyle (wanted : ScalarStyle) (t : Traits) (text : String) (flow simpleKey : Bool) :
    ScalarStyle :=
  let style := if simpleKey && t.multiline then .doubleQuoted else wanted
  let style :=
    if style == .plain
        && (!(if flow then t.flowPlain else t.blockPlain) || (text.isEmpty && (flow || simpleKey))) then
      .singleQuoted
    else style
  let style := if style == .singleQuoted && !t.singleQuoted then .doubleQuoted else style
  if (style == .literal || style == .folded) && (!t.block || flow || simpleKey) then .doubleQuoted
  else style

end WhileLang.Yaml
