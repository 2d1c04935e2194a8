import WhileLang.Text.Literal

/-!
# Decimal fractions

A decimal fraction is an integer times a power of ten. `Scientific.isFinite` tells, without computing
large powers, whether it rounds to a finite double.
-/

namespace WhileLang.Text

/-- `± digits · 10 ^ exponent`. -/
structure Scientific where
  negative : Bool
  digits : Nat
  exponent : Int

namespace Scientific

/-- How many decimal digits a number has. -/
def width (n : Nat) : Nat := if n = 0 then 0 else (Nat.toDigits 10 n).length

/-- The power of ten that the number is less than. -/
def magnitude (x : Scientific) : Int := width x.digits + x.exponent

/-- Whether the number is less than the midpoint above the largest double, and so rounds to a finite one. -/
def isFinite (x : Scientific) : Bool :=
  x.digits == 0 || x.magnitude < 0
    || (x.magnitude < 400
      && (if x.exponent < 0 then x.digits < (Nat.pow 2 1024 - Nat.pow 2 970) * Nat.pow 10 x.exponent.natAbs
          else x.digits * Nat.pow 10 x.exponent.natAbs < Nat.pow 2 1024 - Nat.pow 2 970))

/-- The nearest double. -/
def toFloat (x : Scientific) : Float :=
  let size :=
    if x.digits = 0 || x.magnitude < -400 then 0.0
    else if x.exponent < 0 then OfScientific.ofScientific x.digits true x.exponent.natAbs
    else OfScientific.ofScientific x.digits false x.exponent.natAbs
  if x.negative then -size else size

/-- The number that decimal digits denote, and how many they are; underscores are passed over. -/
def digitRun (cs : List Char) : Nat × Nat × List Char :=
  let run := cs.takeWhile fun c => c.isDigit || c == '_'
  let digits := run.filter Char.isDigit
  (digits.foldl (fun n c => 10 * n + (c.toNat - 48)) 0, digits.length, cs.drop run.length)

/-- An exponent, which may be missing. -/
def exponentPart : List Char → Option Int
  | [] => some 0
  | e :: cs =>
    if e == 'e' || e == 'E' then
      let (negative, cs) := splitSign cs
      match digitRun cs with
      | (n, 1, []) | (n, _ + 2, []) => if cs.head? == some '_' then none
          else some (if negative then -(n : Int) else n)
      | _ => none
    else none

/-- Read a decimal fraction: digits, which may hold a point, and an optional exponent. -/
def read? (cs : List Char) : Option Scientific := do
  let (negative, rest) := splitSign cs
  let (whole, n, rest) := digitRun rest
  let (part, m, rest) := match rest with
    | '.' :: rest => digitRun rest
    | _ => (0, 0, rest)
  if n + m = 0 then none
  else if cs.contains '_' && !underscoresOk (splitSign cs).2 then none
  else return ⟨negative, whole * Nat.pow 10 m + part, (← exponentPart rest) - m⟩

end Scientific

end WhileLang.Text
