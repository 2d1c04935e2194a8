import WhileLang.Document.Basic
import WhileLang.Yaml.Render

/-!
# From programs to YAML nodes

The canonical document of a program. Expressions are written in brackets and statements as blocks; the
statements of a sequence that nests to the right are the items of one list, and an `else` that does
nothing is left out.
-/

namespace WhileLang

open Yaml (Node)

namespace Value

/-- A value as a node. -/
def toNode : Value → Node
  | .num _ n => .ofInt n.toInt
  | .bool _ b => .ofBool b

end Value

namespace Tree

/-- Expressions that an assignment can be written on one line with. -/
def isExpression : Tree → Bool
  | .num _ _ | .bool _ _ | .binary _ _ _ _ | .var _ _ => true
  | _ => false

/-- Whether an `else` has to be written. -/
def isElse : Tree → Bool
  | .absent | .nothing _ => false
  | _ => true

/-- The form of an operator. -/
def opForm : Op → String
  | .add => "add"
  | .mul => "mul"
  | .lt => "lt"

/-- A mapping of one form to its body. -/
def formNode (form : String) (body : Node) : Node := Node.ofFields false [(form, body)]

/-- Statements as one node: a single one as it is, several as the items of a list. -/
def ofStatements : List Node → Node
  | [n] => n
  | ns => formNode "seq" (Node.ofList false ns)

/-- The statements of a tree as nodes. A sequence that nests to the right has several, and any other tree is one
itself; an absent tree is written as `do-nothing`. -/
def statementNodes : Tree → List Node
  | .absent | .nothing _ => [Node.ofString "do-nothing"]
  | .num s n => [Value.toNode (.num s n)]
  | .bool s b => [Value.toNode (.bool s b)]
  | .binary _ op l r =>
    [(formNode (opForm op)
      (Node.ofList false [ofStatements l.statementNodes, ofStatements r.statementNodes])).inBrackets]
  | .var _ name => [(formNode "var" (Node.ofString name)).inBrackets]
  | .assign _ name v =>
    [formNode "assign"
      (Node.ofFields v.isExpression [("name", Node.ofString name), ("value", ofStatements v.statementNodes)])]
  | .ite _ c t e =>
    [formNode "if"
      (Node.ofFields false ([("cond", ofStatements c.statementNodes), ("then", ofStatements t.statementNodes)]
        ++ if e.isElse then [("else", ofStatements e.statementNodes)] else []))]
  | .seq _ a b => ofStatements a.statementNodes :: b.statementNodes
  | .loop _ c b =>
    [formNode "while"
      (Node.ofFields false [("cond", ofStatements c.statementNodes), ("body", ofStatements b.statementNodes)])]

/-- A tree as a node. -/
def toNode (t : Tree) : Node := ofStatements t.statementNodes

end Tree

namespace Document

/-- A document as a node. An empty environment is left out. -/
def toNode (doc : Document) : Node :=
  let env := Node.ofFields false (doc.env.bindings.map fun b => (b.1, b.2.toNode))
  Node.ofFields false
    ((if doc.env.size = 0 then [] else [("env", env)]) ++ [("program", doc.program.toNode)])

/-- The canonical text of a document. -/
def encode (doc : Document) : String := doc.toNode.render false

end Document

end WhileLang
