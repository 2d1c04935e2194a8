import WhileLang.Text.Scientific
import WhileLang.Time.Instant

/-!
# What plain scalars mean

A plain scalar is a truth value, a null, a number or a date if it is written like one, and a string
otherwise.
-/

namespace WhileLang.Yaml

/-- The meaning of a plain scalar. -/
inductive Plain
  | null
  | bool (b : Bool)
  | int (n : Int)
  | float (x : Float)
  | time (t : Instant)
  | text

namespace Plain

/-- The tag that goes with a meaning. -/
def tag : Plain → String
  | .null => "!!null"
  | .bool _ => "!!bool"
  | .int _ => "!!int"
  | .float _ => "!!float"
  | .time _ => "!!timestamp"
  | .text => "!!str"

/-- The words with a meaning of their own. -/
def ofWord? (s : String) : Option Plain :=
  match s with
  | "true" | "True" | "TRUE" => some (.bool true)
  | "false" | "False" | "FALSE" => some (.bool false)
  | "" | "~" | "null" | "Null" | "NULL" => some .null
  | ".nan" | ".NaN" | ".NAN" => some (.float (0.0 / 0.0))
  | ".inf" | ".Inf" | ".INF" | "+.inf" | "+.Inf" | "+.INF" => some (.float (1.0 / 0.0))
  | "-.inf" | "-.Inf" | "-.INF" => some (.float (-1.0 / 0.0))
  | _ => none

/-- A date, which may have a time of day. The year has four digits. -/
def time? (cs : List Char) : Option Instant :=
  if (cs.takeWhile Char.isDigit).length != 4 || (cs.dropWhile Char.isDigit).head? != some '-' then none
  else
    [Instant.Layout.zoned 'T', .zoned 't', .spaced, .date].findSome? fun l => Instant.read? false l cs

/-- A floating-point number in YAML's own notation. -/
def float? (cs : List Char) : Option Float := do
  let x ← Text.Scientific.read? cs
  if x.isFinite then return x.toFloat else none

/-- An integer: at first as a literal with a sign, then as one without a sign up to 2^64. -/
def literal? (cs : List Char) : Option Int :=
  match Text.literal cs, Text.natural cs with
  | .ok n, _ => some n
  | .error _, .ok n => some n
  | .error _, .error _ => none

/-- An integer whose sign follows its prefix, or whose prefix follows its sign. -/
def prefixed? : List Char → Option Int
  | '0' :: 'b' :: cs => ofBase 2 cs
  | '0' :: 'o' :: cs => ofBase 8 cs
  | '-' :: '0' :: 'b' :: cs => (Text.literalIn 2 ('-' :: cs)).toOption
  | '-' :: '0' :: 'o' :: cs => (Text.literalIn 8 ('-' :: cs)).toOption
  | _ => none
where
  /-- Digits in a base, with an optional sign or up to 2^64. -/
  ofBase (base : Nat) (cs : List Char) : Option Int :=
    match Text.literalIn base cs with
    | .ok n => some n
    | .error _ => if cs.isEmpty then none else (Text.digitsIn base false cs 0).toOption.map Int.ofNat

/-- A number. Underscores are passed over. -/
def number? (cs : List Char) : Option Plain :=
  let cs := cs.filter (· != '_')
  match literal? cs with
  | some n => some (.int n)
  | none =>
    match float? cs with
    | some x => some (.float x)
    | none => (prefixed? cs).map .int

/-- The letters that start a word with a meaning. -/
def startsWord (c : Char) : Bool := "yYnNtTfFoO~".toList.contains c

/-- The meaning of a plain scalar. Dates are looked for only where no tag says otherwise. -/
def resolve (dates : Bool) (s : String) : Plain :=
  match s.toList with
  | [] => .null
  | c :: rest =>
    if c.isDigit || c == '+' || c == '-' then
      match ofWord? s with
      | some p => p
      | none =>
        match if dates then time? (c :: rest) else none with
        | some t => .time t
        | none => (number? (c :: rest)).getD .text
    else if c == '.' then
      match ofWord? s with
      | some p => p
      | none => ((float? (c :: rest)).map Plain.float).getD .text
    else if startsWord c then (ofWord? s).getD .text
    else .text

end Plain

end WhileLang.Yaml
