import WhileLang.Json.Basic
import WhileLang.Text.Quoted
import WhileLang.Text.Shortest
import WhileLang.Time.Instant

/-!
# Data without a schema

A `Datum` is what a YAML node means when nothing is known about it beforehand. Mappings whose keys are all
strings are `dict`s; any other mapping is a `table`, which has no form in JSON.
-/

namespace WhileLang.Yaml

/-- The meaning of a node. -/
inductive Datum
  | null
  | bool (b : Bool)
  | int (n : Int)
  | float (x : Float)
  | text (s : String)
  | time (t : Instant)
  | list (items : List Datum)
  /-- Entries in increasing order of their keys. -/
  | dict (entries : List (String × Datum))
  | table (entries : List (Datum × Datum))

namespace Datum

/-- Set the value of a key. -/
def insert (key : String) (value : Datum) : List (String × Datum) → List (String × Datum)
  | [] => [(key, value)]
  | (k, v) :: rest =>
    if key < k then (key, value) :: (k, v) :: rest
    else if key = k then (key, value) :: rest
    else (k, v) :: insert key value rest

/-- Whether two data are the same key. Only scalars can be, and an undefined number is never. -/
def sameKey : Datum → Datum → Bool
  | .null, .null => true
  | .bool a, .bool b => a == b
  | .int a, .int b => a == b
  | .float a, .float b => a == b
  | .text a, .text b => a == b
  | .time a, .time b => a.offset == 0 && b.offset == 0 && a.toNanos == b.toNanos
  | _, _ => false

/-! ## JSON -/

/-- Why a datum has no form in JSON. -/
inductive NoJson
  | table
  | number (form : String)
  | zone

/-- The wording of the reason. -/
def NoJson.message : NoJson → String
  | .table => "json: unsupported type: map[interface \x7b\x7d]interface \x7b\x7d"
  | .number form => "json: unsupported value: " ++ form
  | .zone =>
    "json: error calling MarshalJSON for type time.Time: Time.MarshalJSON: timezone hour outside of range [0,23]"

/-- A number in JSON: the fewest digits, with an exponent from 10^21 on and below 10^-6. -/
def floatJson (x : Float) : Except NoJson Json :=
  if x.isNaN then .error (.number "NaN")
  else if x.isInf then .error (.number (if x < 0 then "-Inf" else "+Inf"))
  else
    let s := Text.Shortest.ofFloat x
    .ok (.number (if s.leading < -6 || 21 ≤ s.leading then s.exponential 1 else s.positional))

/-- An instant in JSON. -/
def timeJson (t : Instant) : Except NoJson Json :=
  if 86400 ≤ t.offset.natAbs then .error .zone else .ok (.text t.text)

mutual

/-- A datum in JSON. The first part without such a form decides the reason why not. -/
def toJson : Datum → Except NoJson Json
  | .null => .ok .null
  | .bool b => .ok (.bool b)
  | .int n => .ok (.int n)
  | .float x => floatJson x
  | .text s => .ok (.text s)
  | .time t => timeJson t
  | .list items => do return .list (← itemsJson items)
  | .dict entries => do return .object (← entriesJson entries)
  | .table _ => .error .table

/-- The items of a list. -/
def itemsJson : List Datum → Except NoJson (List Json)
  | [] => .ok []
  | d :: rest => do
    let j ← toJson d
    return j :: (← itemsJson rest)

/-- The entries of a dictionary. -/
def entriesJson : List (String × Datum) → Except NoJson (List (String × Json))
  | [] => .ok []
  | (k, d) :: rest => do
    let j ← toJson d
    return (k, j) :: (← entriesJson rest)

end

/-! ## Literal form -/

/-- A number as a literal: the fewest digits, with an exponent from 10^21 on and below 10^-4. -/
def floatLiteral (x : Float) : String :=
  if x.isNaN then "NaN"
  else if x.isInf then (if x < 0 then "-Inf" else "+Inf")
  else
    let s := Text.Shortest.ofFloat x
    if s.leading < -4 || 21 ≤ s.leading then s.exponential 2 else s.positional

mutual

/-- A datum as complaints about keys spell it. -/
def literal : Datum → String
  | .null => "interface \x7b\x7d(nil)"
  | .bool b => if b then "true" else "false"
  | .int n => toString n
  | .float x => floatLiteral x
  | .text s => Text.quoted s
  | .time t => t.text
  | .list items =>
    "[]interface \x7b\x7d\x7b" ++ String.intercalate ", " (itemLiterals items) ++ "\x7d"
  | .dict entries =>
    "map[string]interface \x7b\x7d\x7b" ++ String.intercalate ", " (entryLiterals entries) ++ "\x7d"
  | .table entries =>
    "map[interface \x7b\x7d]interface \x7b\x7d\x7b" ++ String.intercalate ", " (pairLiterals entries)
      ++ "\x7d"

/-- The items of a list. -/
def itemLiterals : List Datum → List String
  | [] => []
  | d :: rest => literal d :: itemLiterals rest

/-- The entries of a dictionary. -/
def entryLiterals : List (String × Datum) → List String
  | [] => []
  | (k, d) :: rest => (Text.quoted k ++ ":" ++ literal d) :: entryLiterals rest

/-- The entries of a table. -/
def pairLiterals : List (Datum × Datum) → List String
  | [] => []
  | (k, d) :: rest => (literal k ++ ":" ++ literal d) :: pairLiterals rest

end

end Datum

end WhileLang.Yaml
