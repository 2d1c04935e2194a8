import WhileLang.Tree.Basic

/-!
# The parts of a tree

The constructs that a tree is made of, its children, and how many of them there are.
-/

namespace WhileLang

namespace Tree

/-- All constructs of a tree, the tree itself first. A child that is absent is none. -/
def nodes : Tree → List Tree
  | .absent => []
  | .num s n => [.num s n]
  | .bool s b => [.bool s b]
  | .nothing s => [.nothing s]
  | .var s name => [.var s name]
  | .binary s op l r => .binary s op l r :: (l.nodes ++ r.nodes)
  | .assign s name value => .assign s name value :: value.nodes
  | .ite s c t e => .ite s c t e :: (c.nodes ++ t.nodes ++ e.nodes)
  | .seq s a b => .seq s a b :: (a.nodes ++ b.nodes)
  | .loop s c b => .loop s c b :: (c.nodes ++ b.nodes)

theorem mem_nodes_self {t : Tree} (h : t ≠ .absent) : t ∈ t.nodes := by
  cases t with
  | absent => exact absurd rfl h
  | _ => exact List.mem_cons_self

/-- The parts that a tree is made of. -/
def children : Tree → List Tree
  | .absent | .num _ _ | .bool _ _ | .nothing _ | .var _ _ => []
  | .assign _ _ value => [value]
  | .binary _ _ a b | .seq _ a b | .loop _ a b => [a, b]
  | .ite _ c t e => [c, t, e]

/-- The constructs of a child belong to the whole. -/
theorem nodes_subset_of_mem_children {t a : Tree} (h : a ∈ t.children) : a.nodes ⊆ t.nodes := by
  intro u hu
  cases t with
  | absent | num | bool | nothing | var => exact absurd h List.not_mem_nil
  | assign s name value =>
    rw [List.mem_singleton.1 h] at hu
    exact List.mem_cons_of_mem _ hu
  | binary s op l r | seq s l r | loop s l r =>
    have ha : a = l ∨ a = r := by simpa [children] using h
    rcases ha with rfl | rfl
    · exact List.mem_cons_of_mem _ (List.mem_append_left _ hu)
    · exact List.mem_cons_of_mem _ (List.mem_append_right _ hu)
  | ite s c t e =>
    have ha : a = c ∨ a = t ∨ a = e := by simpa [children] using h
    rcases ha with rfl | rfl | rfl
    · exact List.mem_cons_of_mem _ (List.mem_append_left _ (List.mem_append_left _ hu))
    · exact List.mem_cons_of_mem _ (List.mem_append_left _ (List.mem_append_right _ hu))
    · exact List.mem_cons_of_mem _ (List.mem_append_right _ hu)

/-- How many nodes a tree has. A child that is absent counts. -/
def size : Tree → Nat
  | .absent | .num _ _ | .bool _ _ | .nothing _ | .var _ _ => 1
  | .binary _ _ l r => l.size + r.size + 1
  | .assign _ _ value => value.size + 1
  | .ite _ c t e => c.size + t.size + e.size + 1
  | .seq _ a b => a.size + b.size + 1
  | .loop _ c b => c.size + b.size + 1

theorem size_lt_of_mem_children {t a : Tree} (h : a ∈ t.children) : a.size < t.size := by
  cases t with
  | absent | num | bool | nothing | var => exact absurd h List.not_mem_nil
  | assign s name value =>
    rw [List.mem_singleton.1 h]
    exact Nat.lt_succ_self _
  | binary s op l r | seq s l r | loop s l r =>
    have ha : a = l ∨ a = r := by simpa [children] using h
    rcases ha with rfl | rfl <;> simp only [size] <;> omega
  | ite s c t e =>
    have ha : a = c ∨ a = t ∨ a = e := by simpa [children] using h
    rcases ha with rfl | rfl | rfl <;> simp only [size] <;> omega

/-- No tree is a part of itself. -/
theorem ne_of_mem_children {t a : Tree} (h : a ∈ t.children) : a ≠ t := by
  rintro rfl
  exact Nat.lt_irrefl _ (size_lt_of_mem_children h)

/-- A tree with parts is not in normal form. -/
theorem isReducible_of_mem_children {t a : Tree} (h : a ∈ t.children) : t.isReducible = true := by
  cases t with
  | absent | num | bool | nothing | var => exact absurd h List.not_mem_nil
  | _ => rfl

end Tree

end WhileLang
