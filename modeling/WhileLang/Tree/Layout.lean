import WhileLang.Tree.Basic

/-!
# Laid out source

`Tree.pretty` prints a tree over several lines: a block stands between braces and is indented by two
spaces, statements of a sequence stand one per line, and an operand is parenthesised where the
precedence of the operators requires it.
-/

namespace WhileLang

/-- How tightly an operator binds. All operators associate to the left. -/
def Op.precedence : Op → Nat
  | .lt => 1
  | .add => 2
  | .mul => 3

namespace Tree

/-- Statements are the trees that print with keywords, `:=` or `;`. -/
def isStatement : Tree → Bool
  | .assign _ _ _ | .ite _ _ _ _ | .seq _ _ _ | .loop _ _ _ => true
  | _ => false

/-- Whether `child` needs parentheses as an operand of `parent`. An operator of the same precedence
keeps its parentheses on the right, since the left one is the default reading. -/
def needsParens (child : Tree) (parent : Op) (onRight : Bool) : Bool :=
  match child with
  | .binary _ op _ _ =>
    op.precedence < parent.precedence || (op.precedence == parent.precedence && onRight)
  | t => t.isStatement

/-- Two spaces per level. -/
def pad (depth : Nat) : String := String.ofList (List.replicate (2 * depth) ' ')

/-- Text between parentheses, if asked for. -/
def wrap (parens : Bool) (s : String) : String := if parens then "(" ++ s ++ ")" else s

/-- A block whose first line is already laid out as `body`. -/
def braces (depth : Nat) (body : String) : String :=
  "\x7b\n" ++ pad (depth + 1) ++ body ++ "\n" ++ pad depth ++ "\x7d"

/-- An `else` block, left out when there is nothing to do. -/
def elseBlock (depth : Nat) (elseBranch : Tree) (body : String) : String :=
  match elseBranch with
  | .absent | .nothing _ => ""
  | _ => " else " ++ braces depth body

/-- The lines of a tree at a nesting depth; the first line is not indented. Operands, conditions and
assigned values start again at depth zero. -/
def layout (depth : Nat) : Tree → String
  | .absent => "?"
  | .num _ n => toString n.toInt
  | .bool _ b => if b then "true" else "false"
  | .nothing _ => "do-nothing"
  | .var _ name => name
  | .binary _ op l r =>
    wrap (l.needsParens op false) (l.layout 0) ++ " " ++ op.symbol ++ " "
      ++ wrap (r.needsParens op true) (r.layout 0)
  | .assign _ name v => name ++ " := " ++ v.layout 0
  | .ite _ c t e =>
    "if (" ++ c.layout 0 ++ ") "
      ++ braces depth (if t = .absent then "do-nothing" else t.layout (depth + 1))
      ++ elseBlock depth e (e.layout (depth + 1))
  | .seq _ a b => a.layout depth ++ ";\n" ++ pad depth ++ b.layout depth
  | .loop _ c b =>
    "while (" ++ c.layout 0 ++ ") "
      ++ braces depth (if b = .absent then "do-nothing" else b.layout (depth + 1))

/-- The laid out source of a program, ended by a line break. -/
def pretty : Tree → String
  | .absent => "do-nothing\n"
  | t => t.layout 0 ++ "\n"

end Tree

end WhileLang
