import WhileLang.Env
import WhileLang.Fault

/-!
# One reduction

`Tree.reduce` takes a tree one step: operands, conditions and first statements are driven to normal form
by a `Machine`, and the rule of the root says what comes next. A tree in normal form reduces to itself.
-/

namespace WhileLang

/-- What comes of an evaluation: a tree and the environment to go on in, a halt with the environment
that survives it, or no answer within the fuel. -/
inductive Reply
  | done (tree : Tree) (env : Env)
  | halted (halt : Halt) (env : Env)
  | unfinished

/-- What the rules need from their surroundings: evaluation of an operand, and word of an assignment.
`σ` is whatever the surroundings keep. -/
structure Machine (σ : Type) where
  eval : Tree → Env → σ → Reply × σ
  assigned : String → Value → σ → σ

namespace Op

/-- The operator's result. Sums and products wrap around. -/
def apply (op : Op) (span : Span) (a b : Int64) : Tree :=
  match op with
  | .add => .num span (a + b)
  | .mul => .num span (a * b)
  | .lt => .bool span (decide (a < b))

end Op

namespace Tree

/-- Both operands' results under an operator, which takes numbers only. -/
def combine (op : Op) (span : Span) (l r : Tree) (env : Env) : Reply :=
  match l, r with
  | .num _ a, .num _ b => .done (op.apply span a b) env
  | _, _ => .halted (.fault ⟨.operands op l.typeName r.typeName, span⟩) env

/-- The branch that a condition's result selects. -/
def choose (span : Span) (c t e : Tree) (env : Env) : Reply :=
  match c with
  | .bool _ true => .done t env
  | .bool _ false => .done e env
  | _ => .halted (.fault ⟨.condition c.typeName, span⟩) env

/-- A loop unrolled once. -/
def unroll (span : Span) (cond body : Tree) : Tree :=
  .ite span cond (.seq span body (.loop span cond body)) (.nothing span)

/-- One reduction step. Where an operand halts, the environment reported is the one it halted with. -/
@[inline] def reduce {σ : Type} (m : Machine σ) (t : Tree) (env : Env) (s : σ) : Reply × σ :=
  match t with
  | .absent | .num _ _ | .bool _ _ | .nothing _ => (.done t env, s)
  | .var span name =>
    match env.get? name with
    | some v => (.done v.toTree env, s)
    | none => (.halted (.fault ⟨.unbound name, span⟩) env, s)
  | .binary span op l r =>
    match m.eval l env s with
    | (.done lv env, s) =>
      match m.eval r env s with
      | (.done rv env, s) => (combine op span lv rv env, s)
      | stopped => stopped
    | stopped => stopped
  | .assign span name value =>
    match m.eval value env s with
    | (.done v env, s) =>
      match v.value? with
      | some v => (.done (.nothing span) (env.insert name v), m.assigned name v s)
      | none => (.halted (.fault ⟨.assigned v.typeName name, span⟩) env, s)
    | stopped => stopped
  | .ite span c t e =>
    match m.eval c env s with
    | (.done cv env, s) => (choose span cv t e env, s)
    | stopped => stopped
  | .seq _ first second =>
    match m.eval first env s with
    | (.done _ env, s) => (.done second env, s)
    | stopped => stopped
  | .loop span c b => (.done (unroll span c b) env, s)

end Tree

end WhileLang
