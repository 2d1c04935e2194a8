import WhileLang.Proofs.Tree
import WhileLang.Scope

/-!
# What the check complains about

Every diagnostic of a walk is about one construct of the tree and stands where that construct does: a child of it
is missing, its name is empty, or it reads a variable that may be unbound. The first two are errors and have the
same code; the last one is a warning.
-/

namespace WhileLang

namespace Tree

/-- What the check may say about a construct. -/
inductive Complaint (u : Tree) : Diagnostic → Prop
  | missing (role : String) : Complaint u (u.missing role)
  | emptyName (what : String) : Complaint u (emptyName what u.span)
  | mayBeUnbound (name : String) : Complaint u (mayBeUnbound u.span name)

namespace Complaint

variable {u : Tree} {d : Diagnostic}

/-- A complaint stands where its construct does. -/
theorem span_eq (h : u.Complaint d) : d.span = u.span.known? := by
  cases h <;> rfl

/-- A complaint that is no warning says that the tree is malformed. -/
theorem code_eq (h : u.Complaint d) (herror : d.isWarning = false) : d.code = .malformed := by
  cases h with
  | missing | emptyName => rfl
  | mayBeUnbound name => cases herror

end Complaint

/-- Every diagnostic is a complaint about a construct of the tree. -/
def Complaints (t : Tree) (ds : List Diagnostic) : Prop := ∀ d ∈ ds, ∃ u ∈ t.nodes, u.Complaint d

namespace Complaints

variable {t : Tree} {ds ds' : List Diagnostic}

theorem nil : Complaints t [] := fun _ h => absurd h List.not_mem_nil

theorem one {d : Diagnostic} (ht : t ≠ .absent) (h : t.Complaint d) : Complaints t [d] := by
  intro d' hd
  rw [List.mem_singleton.1 hd]
  exact ⟨t, mem_nodes_self ht, h⟩

theorem append (h : Complaints t ds) (h' : Complaints t ds') : Complaints t (ds ++ ds') := by
  intro d hd
  rcases List.mem_append.1 hd with hd | hd
  · exact h d hd
  · exact h' d hd

/-- Complaints about a child are complaints about the whole. -/
theorem ofChild {a : Tree} (ha : a ∈ t.children) (h : Complaints a ds) : Complaints t ds := by
  intro d hd
  obtain ⟨u, hu, hc⟩ := h d hd
  exact ⟨u, nodes_subset_of_mem_children ha hu, hc⟩

/-- A child is walked unless it is missing. -/
theorem ofOptional {a : Tree} {role : String} {s : Scope} (ha : a ∈ t.children)
    (h : Complaints a (a.walk s).1) :
    Complaints t (if a = .absent then ([t.missing role], s) else a.walk s).1 := by
  have ht : t ≠ .absent := by
    rintro rfl
    exact absurd ha List.not_mem_nil
  split
  · exact one ht (.missing role)
  · exact h.ofChild ha

end Complaints

/-- All that a walk says is about constructs of the tree. -/
theorem walk_complaints (t : Tree) : ∀ s : Scope, Complaints t (t.walk s).1 := by
  induction t with
  | absent | num | bool | nothing => exact fun _ => .nil
  | var sp name =>
    intro s
    rw [walk]
    split
    · exact .one Tree.noConfusion (.emptyName _)
    · split
      · exact .nil
      · exact .one Tree.noConfusion (.mayBeUnbound name)
  | binary sp op l r ihl ihr =>
    intro s
    rw [walk]
    apply Complaints.append
    · exact .ofOptional (by simp [children]) (ihl _)
    · exact .ofOptional (by simp [children]) (ihr _)
  | assign sp name v ih =>
    intro s
    rw [walk]
    apply Complaints.append
    · split
      · exact .one Tree.noConfusion (.emptyName _)
      · exact .nil
    · exact .ofOptional (by simp [children]) (ih _)
  | ite sp c t e ihc iht ihe =>
    intro s
    rw [walk]
    split
    · exact .one Tree.noConfusion (.missing _)
    split
    · exact .one Tree.noConfusion (.missing _)
    apply Complaints.append
    · apply Complaints.append
      · exact .ofChild (by simp [children]) (ihc _)
      · exact .ofChild (by simp [children]) (iht _)
    · exact .ofChild (by simp [children]) (ihe _)
  | seq sp a b iha ihb | loop sp a b iha ihb =>
    intro s
    rw [walk]
    split
    · exact .one Tree.noConfusion (.missing _)
    split
    · exact .one Tree.noConfusion (.missing _)
    apply Complaints.append
    · exact .ofChild (by simp [children]) (iha _)
    · exact .ofChild (by simp [children]) (ihb _)

/-- All that the check says of a program that is there is about its constructs. -/
theorem check_complaints {t : Tree} (ht : t ≠ .absent) (env : Env) : Complaints t (t.check env) := by
  cases t with
  | absent => exact absurd rfl ht
  | _ => exact walk_complaints _ _

end Tree

end WhileLang
