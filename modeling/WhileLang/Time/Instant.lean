import WhileLang.Text.Literal

/-!
# Instants

A date with a time of day and an offset from universal time. Reading follows a `Layout`; the distance of
two instants is counted in nanoseconds.
-/

namespace WhileLang

/-- A date, a time of day and an offset in seconds. -/
structure Instant where
  year : Nat
  month : Nat
  day : Nat
  hour : Nat := 0
  minute : Nat := 0
  second : Nat := 0
  nanos : Nat := 0
  offset : Int := 0

namespace Instant

/-- What may follow the date. -/
inductive Layout
  /-- Nothing. -/
  | date
  /-- A time of day after one or more spaces. -/
  | spaced
  /-- A time of day with an offset, after the given letter. -/
  | zoned (letter : Char)

/-! ## Calendar -/

/-- Whether a year has a 29th of February. -/
def isLeap (year : Nat) : Bool := year % 4 == 0 && (year % 100 != 0 || year % 400 == 0)

/-- The length of a month. -/
def daysIn (year month : Nat) : Nat :=
  match month with
  | 2 => if isLeap year then 29 else 28
  | 4 | 6 | 9 | 11 => 30
  | _ => 31

/-- Days from the start of year zero to the start of a year. -/
def daysBeforeYear (year : Nat) : Nat :=
  365 * year + (year + 3) / 4 - (year + 99) / 100 + (year + 399) / 400

/-- Days from the start of a year to the start of a month. -/
def daysBeforeMonth (year month : Nat) : Nat :=
  (List.range (month - 1)).foldl (fun days m => days + daysIn year (m + 1)) 0

/-- Nanoseconds from the start of year zero, in universal time. -/
def toNanos (t : Instant) : Int :=
  let days := daysBeforeYear t.year + daysBeforeMonth t.year t.month + (t.day - 1)
  let seconds : Int := 86400 * days + 3600 * t.hour + 60 * t.minute + t.second
  1000000000 * (seconds - t.offset) + t.nanos

/-- The date that is some days after the start of year zero. -/
def ofDays (days : Nat) : Instant :=
  let near := days * 400 / 146097
  let year :=
    if daysBeforeYear (near + 1) ≤ days then near + 1
    else if daysBeforeYear near ≤ days then near
    else near - 1
  let rest := days - daysBeforeYear year
  let month := ((List.range 12).filter fun m => daysBeforeMonth year (m + 1) ≤ rest).length
  { year := year, month := month, day := rest - daysBeforeMonth year month + 1 }

/-- Days from the start of year zero to the start of 1970. -/
def epochDays : Nat := 719528

/-- The instant that is some nanoseconds after the start of 1970, in universal time. -/
def ofEpochNanos (n : Nat) : Instant :=
  let seconds := n / 1000000000
  let rest := seconds % 86400
  { ofDays (epochDays + seconds / 86400) with
    hour := rest / 3600, minute := rest / 60 % 60, second := rest % 60, nanos := n % 1000000000 }

/-! ## Reading -/

/-- One or two digits; both are required in a fixed field. -/
def field (fixed : Bool) : List Char → Option (Nat × List Char)
  | a :: b :: rest =>
    if !a.isDigit then none
    else if b.isDigit then some (10 * (a.toNat - 48) + (b.toNat - 48), rest)
    else if fixed then none
    else some (a.toNat - 48, b :: rest)
  | [a] => if a.isDigit && !fixed then some (a.toNat - 48, []) else none
  | [] => none

/-- A given character. -/
def expect (c : Char) : List Char → Option (List Char)
  | d :: rest => if c == d then some rest else none
  | [] => none

/-- Four digits. -/
def yearField (cs : List Char) : Option (Nat × List Char) := do
  let digits := cs.take 4
  if digits.length < 4 then none else return (← Text.digits? digits, cs.drop 4)

/-- A date. -/
def dateFields (fixed : Bool) (cs : List Char) : Option (Instant × List Char) := do
  let (year, cs) ← yearField cs
  let (month, cs) ← field fixed (← expect '-' cs)
  if month < 1 || 12 < month then none
  else
    let (day, cs) ← field fixed (← expect '-' cs)
    return ({ year := year, month := month, day := day }, cs)

/-- A fraction of a second after a point or a comma, cut to nanoseconds. -/
def fraction : List Char → Nat × List Char
  | mark :: d :: rest =>
    if (mark == '.' || mark == ',') && d.isDigit then
      let digits := (d :: rest).takeWhile Char.isDigit
      let nanos := (List.range 9).foldl
        (fun n i => 10 * n + ((digits[i]?).map fun c => c.toNat - 48).getD 0) 0
      (nanos, (d :: rest).dropWhile Char.isDigit)
    else (0, mark :: d :: rest)
  | cs => (0, cs)

/-- A time of day. -/
def timeFields (fixed : Bool) (t : Instant) (cs : List Char) : Option (Instant × List Char) := do
  let (hour, cs) ← field false cs
  let (minute, cs) ← field fixed (← expect ':' cs)
  let (second, cs) ← field fixed (← expect ':' cs)
  if 24 ≤ hour || 60 ≤ minute || 60 ≤ second then none
  else
    let (nanos, cs) := fraction cs
    return ({ t with hour := hour, minute := minute, second := second, nanos := nanos }, cs)

/-- An offset: `Z`, or a sign, hours and minutes. -/
def zoneField : List Char → Option (Int × List Char)
  | 'Z' :: rest => some (0, rest)
  | sign :: cs => do
    let (hours, cs) ← field true cs
    let (minutes, cs) ← field true (← expect ':' cs)
    if 24 < hours || 60 < minutes then none
    else
      let size : Int := 3600 * hours + 60 * minutes
      if sign == '+' then return (size, cs)
      else if sign == '-' then return (-size, cs)
      else none
  | [] => none

/-- Read an instant. Fixed fields need two digits each, except for hours. -/
def read? (fixed : Bool) (layout : Layout) (s : List Char) : Option Instant := do
  let (t, cs) ← dateFields fixed s
  let (t, cs) ← match layout with
    | .date => some (t, cs)
    | .spaced => do
      let cs ← expect ' ' cs
      timeFields fixed t (cs.dropWhile (· == ' '))
    | .zoned letter => do
      let (t, cs) ← timeFields fixed t (← expect letter cs)
      let (offset, cs) ← zoneField cs
      some ({ t with offset := offset }, cs)
  if !cs.isEmpty || t.day < 1 || daysIn t.year t.month < t.day then none else some t

/-! ## Writing -/

/-- A number with at least so many digits. -/
def padded (width n : Nat) : String :=
  let s := toString n
  String.ofList (List.replicate (width - s.length) '0') ++ s

/-- Nanoseconds as a fraction without trailing zeros. -/
def fractionText (nanos : Nat) : String :=
  let digits := ((padded 9 nanos).toList.reverse.dropWhile (· == '0')).reverse
  if digits.isEmpty then "" else "." ++ String.ofList digits

/-- The offset as it is written behind a time of day. -/
def zoneText (offset : Int) : String :=
  if offset = 0 then "Z"
  else
    let minutes := offset.natAbs / 60
    (if offset < 0 then "-" else "+") ++ padded 2 (minutes / 60) ++ ":" ++ padded 2 (minutes % 60)

/-- Date and time of day with a `T` between them, and the offset. -/
def text (t : Instant) : String :=
  padded 4 t.year ++ "-" ++ padded 2 t.month ++ "-" ++ padded 2 t.day ++ "T" ++ padded 2 t.hour ++ ":"
    ++ padded 2 t.minute ++ ":" ++ padded 2 t.second ++ fractionText t.nanos ++ zoneText t.offset

end Instant

end WhileLang
