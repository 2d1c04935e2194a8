import WhileLang.Diagnostic
import WhileLang.Env

/-!
# Checking a tree before it runs

`Tree.check` walks a tree once. A required child that is absent and an empty name are errors. A variable
that is read where some path has not bound it yet is a warning only: the read may stand on a branch that
never runs. The walk carries the names that are bound on every path so far.
-/

namespace WhileLang

/-- Names bound on every path that reaches a point. -/
abbrev Scope := List String

namespace Scope

/-- One more bound name. -/
def insert (s : Scope) (name : String) : Scope := if s.contains name then s else name :: s

/-- The names bound on both of two paths. -/
def inter (a b : Scope) : Scope := a.filter b.contains

end Scope

namespace Tree

/-- The complaint about a child that is absent. -/
def missing (parent : Tree) (role : String) : Diagnostic :=
  { code := .malformed, message := s!"{parent.kind} is missing its {role}", span := parent.span.known? }

/-- The warning about a read that may come too early. -/
def mayBeUnbound (span : Span) (name : String) : Diagnostic :=
  { code := .unbound, message := s!"variable '{name}' may be unbound here", span := span.known?
    hint := "assign it on every path before this point, or provide it in env", severity := .warning }

/-- An empty name. -/
def emptyName (what : String) (span : Span) : Diagnostic :=
  { code := .malformed, message := s!"{what} must not be empty", span := span.known? }

/-- The diagnostics of a tree that starts with the given names bound, and the names bound after it.
A statement with an absent child is not walked further; operands and assigned values are walked one
by one. -/
def walk (t : Tree) (s : Scope) : List Diagnostic × Scope :=
  match t with
  | .absent | .num _ _ | .bool _ _ | .nothing _ => ([], s)
  | .var span name =>
    if name = "" then ([emptyName "variable name" span], s)
    else if s.contains name then ([], s)
    else ([mayBeUnbound span name], s)
  | .binary span op l r =>
    let (dl, s) := if l = .absent then ([missing (.binary span op l r) "left operand"], s) else l.walk s
    let (dr, s) := if r = .absent then ([missing (.binary span op l r) "right operand"], s) else r.walk s
    (dl ++ dr, s)
  | .assign span name v =>
    let dn := if name = "" then [emptyName "assignment target" span] else []
    let (dv, s) := if v = .absent then ([missing (.assign span name v) "value"], s) else v.walk s
    (dn ++ dv, if name = "" then s else s.insert name)
  | .ite span c t e =>
    if c = .absent then ([missing (.ite span c t e) "condition"], s)
    else if t = .absent then ([missing (.ite span c t e) "then branch"], s)
    else
      let (dc, s) := c.walk s
      let (dt, st) := t.walk s
      let (de, se) := e.walk s
      (dc ++ dt ++ de, st.inter se)
  | .seq span a b =>
    if a = .absent then ([missing (.seq span a b) "first statement"], s)
    else if b = .absent then ([missing (.seq span a b) "second statement"], s)
    else
      let (da, s) := a.walk s
      let (db, s) := b.walk s
      (da ++ db, s)
  | .loop span c b =>
    if c = .absent then ([missing (.loop span c b) "condition"], s)
    else if b = .absent then ([missing (.loop span c b) "body"], s)
    else
      let (dc, s) := c.walk s
      let (db, _) := b.walk s
      (dc ++ db, s)

/-- All diagnostics of a program that starts in an environment. -/
def check (t : Tree) (env : Env) : List Diagnostic :=
  match t with
  | .absent => [{ code := .malformed, message := "program is empty" }]
  | t => (t.walk env.names).1

end Tree

end WhileLang
