import WhileLang.Text.Scientific

/-!
# The shortest decimal of a double

A double stands for all the reals that round to it. `Shortest.ofFloat` picks, among the decimal fractions in
that interval, the one with the fewest digits, and of two such the nearer one. All arithmetic is exact.
-/

namespace WhileLang.Text

namespace Shortest

/-- The bits of a finite double without its sign: `mantissa · 2 ^ exponent`. -/
structure Binary where
  mantissa : Nat
  exponent : Int
  /-- Whether the next smaller double is only half as far away as the next larger one. -/
  narrow : Bool

/-- Take a finite double apart. -/
def Binary.ofFloat (x : Float) : Binary :=
  let bits := x.toBits.toNat
  let fraction : Nat := bits % Nat.pow 2 52
  let exponent : Nat := bits / Nat.pow 2 52 % 2048
  if exponent = 0 then ⟨fraction, -1074, false⟩
  else ⟨Nat.pow 2 52 + fraction, (exponent : Int) - 1075, fraction == 0 && 1 < exponent⟩

/-- Whether a double has a minus sign. -/
def isNegative (x : Float) : Bool := Nat.pow 2 63 ≤ x.toBits.toNat

/-- The integer part of a double without its sign. -/
def Binary.floor (b : Binary) : Nat :=
  b.mantissa * Nat.pow 2 b.exponent.toNat / Nat.pow 2 (-b.exponent).toNat

/-- The multiple of `10 ^ k` that rounds to the double, if there is one. Everything is counted in quarters
of the double's last bit, over the common denominator `den`. -/
def onGrid? (b : Binary) (k : Int) : Option Nat :=
  let scale := Nat.pow 2 (b.exponent - 2).toNat * Nat.pow 10 (-k).toNat
  let den := Nat.pow 2 (2 - b.exponent).toNat * Nat.pow 10 k.toNat
  let low := (4 * b.mantissa - if b.narrow then 1 else 2) * scale
  let mid := 4 * b.mantissa * scale
  let high := (4 * b.mantissa + 2) * scale
  let inside (d : Nat) : Bool :=
    if b.mantissa % 2 = 0 then low ≤ d * den && d * den ≤ high else low < d * den && d * den < high
  let d := mid / den
  let rest := 2 * (mid % den)
  match inside d, inside (d + 1) with
  | true, true => some (if rest < den || (rest == den && d % 2 == 0) then d else d + 1)
  | true, false => some d
  | false, true => some (d + 1)
  | false, false => none

/-- The first grid with a hit, from coarse to fine. -/
def firstGrid (b : Binary) : (fuel : Nat) → Int → Nat × Int
  | 0, k => (0, k)
  | fuel + 1, k =>
    match onGrid? b k with
    | some d => (d, k)
    | none => firstGrid b fuel (k - 1)

/-- The shortest decimal of a finite double. No double reaches 10^309, and none needs a grid finer than
10^-342. -/
def ofFloat (x : Float) : Scientific :=
  let b := Binary.ofFloat x
  if b.mantissa = 0 then ⟨isNegative x, 0, 0⟩
  else
    let (digits, k) := firstGrid b 652 309
    ⟨isNegative x, digits, k⟩

end Shortest

namespace Scientific

/-- The power of ten of the first digit. -/
def leading (x : Scientific) : Int := if x.digits = 0 then 0 else x.magnitude - 1

/-- The sign of a number. -/
def sign (x : Scientific) : String := if x.negative then "-" else ""

/-- Some zeros. -/
def zeros (n : Nat) : String := String.ofList (List.replicate n '0')

/-- The number without an exponent. -/
def positional (x : Scientific) : String :=
  let digits := toString x.digits
  if 0 ≤ x.exponent then x.sign ++ digits ++ zeros x.exponent.toNat
  else
    let places := x.exponent.natAbs
    let digits := zeros (places + 1 - digits.length) ++ digits
    x.sign ++ String.ofList (digits.toList.take (digits.length - places)) ++ "."
      ++ String.ofList (digits.toList.drop (digits.length - places))

/-- The number with one digit before the point, and an exponent of at least so many digits. -/
def exponential (width : Nat) (x : Scientific) : String :=
  let digits := (toString x.digits).toList
  let power := toString x.leading.natAbs
  x.sign ++ String.ofList (digits.take 1) ++ (if digits.length ≤ 1 then "" else ".")
    ++ String.ofList (digits.drop 1) ++ (if x.leading < 0 then "e-" else "e+")
    ++ zeros (width - power.length) ++ power

end Scientific

end WhileLang.Text
