/-!
# Integers of 64 bits

Integers are read in two ways. `int64?` takes decimal digits with a sign and nothing else. `literal` takes
them as they are written in source code: decimal, or with the prefix `0x`, `0o` or `0b`; a plain leading zero
also means octal. An underscore may stand between two digits, or between a prefix and a digit.
-/

namespace WhileLang.Text

/-! ## Decimal digits only -/

/-- The number that decimal digits denote; nothing for no digits or anything else. -/
def digits? (cs : List Char) : Option Nat :=
  if cs.isEmpty || cs.any (fun c => !c.isDigit) then none
  else some (cs.foldl (fun n c => 10 * n + (c.toNat - 48)) 0)

/-- An integer with an optional sign. -/
def integer? : List Char → Option Int
  | '-' :: cs => (digits? cs).map fun n => -(n : Int)
  | '+' :: cs => (digits? cs).map Int.ofNat
  | cs => (digits? cs).map Int.ofNat

/-- Whether an integer fits 64 bits. -/
def fits64 (n : Int) : Bool := -9223372036854775808 ≤ n && n ≤ 9223372036854775807

/-- An integer with an optional sign that fits 64 bits. -/
def int64? (cs : List Char) : Option Int := (integer? cs).filter fits64

/-! ## Literals -/

/-- Why a text is not an integer of 64 bits. -/
inductive LiteralError
  | invalid
  | outOfRange
deriving DecidableEq

/-- The value of a digit in some base up to 36. -/
def digitValue? (c : Char) : Option Nat :=
  if c.isDigit then some (c.toNat - 48)
  else if c.isLower then some (c.toNat - 87)
  else if c.isUpper then some (c.toNat - 55)
  else none

/-- The number that digits denote in a base. Numbers end below 2^64, and the first defect from the left
decides. Underscores are passed over if the base was told by a prefix. -/
def digitsIn (base : Nat) (underscores : Bool) : List Char → Nat → Except LiteralError Nat
  | [], n => .ok n
  | c :: rest, n =>
    if underscores && c == '_' then digitsIn base underscores rest n
    else
      match digitValue? c with
      | none => .error .invalid
      | some d =>
        if base ≤ d then .error .invalid
        else if 18446744073709551616 ≤ base * n + d then .error .outOfRange
        else digitsIn base underscores rest (base * n + d)

/-- The base that a prefix announces, and the digits after it. -/
def splitPrefix : List Char → Nat × List Char
  | '0' :: p :: d :: rest =>
    match p.toLower with
    | 'x' => (16, d :: rest)
    | 'o' => (8, d :: rest)
    | 'b' => (2, d :: rest)
    | _ => (8, p :: d :: rest)
  | '0' :: rest => (8, rest)
  | cs => (10, cs)

/-- What stands left of an underscore. -/
inductive Before
  | start
  | digit
  | underscore
  | other
deriving DecidableEq

/-- Whether every underscore stands between digits. -/
def underscoresFit (hex : Bool) : List Char → Before → Bool
  | [], before => before != .underscore
  | c :: rest, before =>
    if c.isDigit || (hex && (digitValue? c).any (· < 16)) then underscoresFit hex rest .digit
    else if c == '_' then before == .digit && underscoresFit hex rest .underscore
    else before != .underscore && underscoresFit hex rest .other

/-- Whether the underscores of a number are well placed; a prefix counts as a digit. -/
def underscoresOk : List Char → Bool
  | '0' :: p :: rest =>
    match p.toLower with
    | 'x' => underscoresFit true rest .digit
    | 'o' | 'b' => underscoresFit false rest .digit
    | _ => underscoresFit false ('0' :: p :: rest) .start
  | cs => underscoresFit false cs .start

/-- A number without a sign. -/
def natural (cs : List Char) : Except LiteralError Nat :=
  if cs.isEmpty then .error .invalid
  else do
    let (base, digits) := splitPrefix cs
    let n ← digitsIn base true digits 0
    if cs.contains '_' && !underscoresOk cs then .error .invalid else return n

/-- A magnitude with a sign, as an integer of 64 bits. -/
def signed (negative : Bool) (n : Nat) : Except LiteralError Int :=
  if negative then (if 9223372036854775808 < n then .error .outOfRange else .ok (-(n : Int)))
  else if 9223372036854775808 ≤ n then .error .outOfRange
  else .ok n

/-- Split off a sign. -/
def splitSign : List Char → Bool × List Char
  | '-' :: cs => (true, cs)
  | '+' :: cs => (false, cs)
  | cs => (false, cs)

/-- An integer of 64 bits. -/
def literal (cs : List Char) : Except LiteralError Int := do
  let (negative, cs) := splitSign cs
  signed negative (← natural cs)

/-- An integer of 64 bits in a given base. -/
def literalIn (base : Nat) (cs : List Char) : Except LiteralError Int := do
  let (negative, cs) := splitSign cs
  if cs.isEmpty then .error .invalid else signed negative (← digitsIn base false cs 0)

end WhileLang.Text
