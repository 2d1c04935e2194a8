import WhileLang.Json.Basic
import WhileLang.Engine.Run

/-!
# Results as JSON

A result is reported as an object with the normal form under `result` and the final bindings, sorted by
name, under `env`.
-/

namespace WhileLang

/-- A value as JSON. -/
def Value.toJson : Value → Json
  | .num _ n => .int n.toInt
  | .bool _ b => .bool b

/-- A normal form as JSON; `null` for any other tree. -/
def Tree.resultJson : Tree → Json
  | .num _ n => .int n.toInt
  | .bool _ b => .bool b
  | .nothing _ => .text "do-nothing"
  | _ => .null

/-- The bindings as a JSON object, in increasing order of the names. -/
def Env.toJson (e : Env) : Json := .object (e.bindings.map fun p => (p.1, p.2.toJson))

/-- The report of a run. -/
def resultReport (result : Tree) (env : Env) : Json :=
  .object [("result", result.resultJson), ("env", env.toJson)]

end WhileLang
