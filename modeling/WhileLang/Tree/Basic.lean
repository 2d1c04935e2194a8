import WhileLang.Span

/-!
# Program trees

A program is one `Tree`: values, expressions and statements share the type, because a statement may
stand wherever an expression may. A child that is missing is `Tree.absent`; the engine runs it as
`do-nothing`, and the scope check reports it where it is required.
-/

namespace WhileLang

/-- The three operators on numbers. -/
inductive Op
  | add
  | mul
  | lt
deriving DecidableEq

/-- The operator as it is written between its operands. -/
def Op.symbol : Op → String
  | .add => "+"
  | .mul => "*"
  | .lt => "<"

/-- What an expression evaluates to. A value keeps the position of the tree that produced it. -/
inductive Value
  | num (span : Span) (n : Int64)
  | bool (span : Span) (b : Bool)
deriving DecidableEq

/-- A program, or a part of one. Numbers are 64-bit words and wrap around. -/
inductive Tree
  | absent
  | num (span : Span) (n : Int64)
  | bool (span : Span) (b : Bool)
  | nothing (span : Span)
  | binary (span : Span) (op : Op) (left right : Tree)
  | var (span : Span) (name : String)
  | assign (span : Span) (name : String) (value : Tree)
  | ite (span : Span) (cond thenBranch elseBranch : Tree)
  | seq (span : Span) (first second : Tree)
  | loop (span : Span) (cond body : Tree)
deriving DecidableEq

instance : Inhabited Tree := ⟨.absent⟩

namespace Value

/-- Decimal digits with a leading minus for negative numbers; `true` or `false`. -/
def text : Value → String
  | .num _ n => toString n.toInt
  | .bool _ b => if b then "true" else "false"

/-- The same number or the same truth value; positions do not count. -/
def same : Value → Value → Bool
  | .num _ a, .num _ b => a == b
  | .bool _ a, .bool _ b => a == b
  | _, _ => false

/-- The tree that evaluates to the value at once. -/
def toTree : Value → Tree
  | .num s n => .num s n
  | .bool s b => .bool s b

end Value

namespace Tree

/-- The position of the root. -/
def span : Tree → Span
  | .absent => Span.none
  | .num s _ | .bool s _ | .nothing s | .binary s _ _ _ | .var s _ | .assign s _ _
  | .ite s _ _ _ | .seq s _ _ | .loop s _ _ => s

/-- The name of the root's construct, as diagnostics and traces give it. -/
def kind : Tree → String
  | .absent => ""
  | .num _ _ => "Number"
  | .bool _ _ => "Boolean"
  | .nothing _ => "DoNothing"
  | .binary _ .add _ _ => "Add"
  | .binary _ .mul _ _ => "Multiply"
  | .binary _ .lt _ _ => "LessThan"
  | .var _ _ => "Variable"
  | .assign _ _ _ => "Assign"
  | .ite _ _ _ _ => "If"
  | .seq _ _ _ => "Sequence"
  | .loop _ _ _ => "While"

/-- A tree is reducible unless it is a value, `do-nothing` or absent. -/
def isReducible : Tree → Bool
  | .absent | .num _ _ | .bool _ _ | .nothing _ => false
  | _ => true

/-- The value that a tree in normal form stands for. -/
def value? : Tree → Option Value
  | .num s n => some (.num s n)
  | .bool s b => some (.bool s b)
  | _ => none

/-- The kind of result a tree is, in the words of type errors. -/
def typeName : Tree → String
  | .absent => "nothing"
  | .num _ _ => "number"
  | .bool _ _ => "boolean"
  | .nothing _ => "do-nothing"
  | _ => "statement"

/-- Equal normal forms. Positions do not count, and a tree that can still be reduced equals none. -/
def same : Tree → Tree → Bool
  | .num _ a, .num _ b => a == b
  | .bool _ a, .bool _ b => a == b
  | .nothing _, .nothing _ => true
  | _, _ => false

/-- The tree on one line. Operands are not parenthesised; an absent child shows as `?`. -/
def text : Tree → String
  | .absent => "?"
  | .num _ n => toString n.toInt
  | .bool _ b => if b then "true" else "false"
  | .nothing _ => "do-nothing"
  | .binary _ op l r => l.text ++ " " ++ op.symbol ++ " " ++ r.text
  | .var _ name => name
  | .assign _ name v => name ++ " := " ++ v.text
  | .ite _ c t e => "if (" ++ c.text ++ ") \x7b " ++ t.text ++ " \x7d else \x7b " ++ e.text ++ " \x7d"
  | .seq _ a b => a.text ++ "; " ++ b.text
  | .loop _ c b => "while (" ++ c.text ++ ") \x7b " ++ b.text ++ " \x7d"

/-- The tree's text between guillemets, for inspection. -/
def inspect : Tree → String
  | .absent => "«nil»"
  | t => "«" ++ t.text ++ "»"

/-- The tree as the engine runs it: an absent tree does nothing. -/
def orNothing : Tree → Tree
  | .absent => .nothing Span.none
  | t => t

/-- Statements in order, nested to the right. One statement stays as it is and none does nothing. -/
def ofList : List Tree → Tree
  | [] => .nothing Span.none
  | [t] => t
  | t :: rest => .seq Span.none t (ofList rest)

end Tree

end WhileLang
