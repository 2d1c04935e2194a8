import WhileLang.Proofs.Document.Located
import WhileLang.Proofs.Scope.Walk

/-!
# What the check calls an error

The check reports an error if and only if something is wrong with the form of a tree: it is absent, or one of its
constructs lacks a child that it needs or has an empty name. It skips the children of some malformed constructs, but
not without having said what is wrong, so an induction over the tree settles both directions (`harmless_walk_iff`).
Which names are bound plays no part.

Documents cannot leave a child out, so all that can be wrong with the form of a program that was read is an empty
name.
-/

namespace WhileLang

namespace Tree

/-- The children that a construct needs: all but the second branch of a conditional. -/
def required : Tree → List Tree
  | .ite _ c t _ => [c, t]
  | t => t.children

/-- A variable or an assignment whose name is empty. -/
def Unnamed : Tree → Prop
  | .var _ name | .assign _ name _ => name = ""
  | _ => False

/-- A construct that has all the children it needs, and a name if it is one that has a name. -/
def Whole (u : Tree) : Prop := .absent ∉ u.required ∧ ¬ u.Unnamed

section

variable {s : Span} {op : Op} {name : String} {a b c : Tree}

@[simp] theorem whole_var : Whole (.var s name) ↔ name ≠ "" := by
  simp [Whole, required, children, Unnamed]

@[simp] theorem whole_assign : Whole (.assign s name a) ↔ a ≠ .absent ∧ name ≠ "" := by
  simp [Whole, required, children, Unnamed, eq_comm]

@[simp] theorem whole_binary : Whole (.binary s op a b) ↔ a ≠ .absent ∧ b ≠ .absent := by
  simp [Whole, required, children, Unnamed, eq_comm]

@[simp] theorem whole_ite : Whole (.ite s a b c) ↔ a ≠ .absent ∧ b ≠ .absent := by
  simp [Whole, required, Unnamed, eq_comm]

@[simp] theorem whole_seq : Whole (.seq s a b) ↔ a ≠ .absent ∧ b ≠ .absent := by
  simp [Whole, required, children, Unnamed, eq_comm]

@[simp] theorem whole_loop : Whole (.loop s a b) ↔ a ≠ .absent ∧ b ≠ .absent := by
  simp [Whole, required, children, Unnamed, eq_comm]

end

open Diagnostics (Harmless)

/-- A walk finds no error if and only if all constructs are whole, whatever names are bound. -/
theorem harmless_walk_iff (t : Tree) : ∀ s : Scope, Harmless (t.walk s).1 ↔ ∀ u ∈ t.nodes, u.Whole := by
  induction t with
  | absent => simp [walk, nodes, Harmless, Diagnostics.hasErrors]
  | num | bool | nothing => simp [walk, nodes, Harmless, Diagnostics.hasErrors, Whole, required, children, Unnamed]
  | var sp name =>
    intro s
    rw [harmless_var, nodes, List.forall_mem_singleton, whole_var]
  | binary sp op l r ihl ihr =>
    intro s
    rw [harmless_binary, ihl, ihr, nodes, List.forall_mem_cons, List.forall_mem_append, whole_binary]
  | assign sp name v ih =>
    intro s
    rw [harmless_assign, ih, nodes, List.forall_mem_cons, whole_assign]
  | ite sp c t e ihc iht ihe =>
    intro s
    rw [harmless_ite, ihc, iht, ihe, nodes, List.forall_mem_cons, List.forall_mem_append, List.forall_mem_append,
      whole_ite]
    exact and_congr_right fun _ => and_assoc.symm
  | seq sp a b iha ihb =>
    intro s
    rw [harmless_seq, iha, ihb, nodes, List.forall_mem_cons, List.forall_mem_append, whole_seq]
  | loop sp c b ihc ihb =>
    intro s
    rw [harmless_loop, ihc, ihb, nodes, List.forall_mem_cons, List.forall_mem_append, whole_loop]

/-- The check reports an error if and only if the program is absent or one of its constructs is not whole. -/
theorem hasErrors_check_iff (t : Tree) (env : Env) :
    Diagnostics.hasErrors (t.check env) = true ↔
      t = .absent ∨ ∃ u ∈ t.nodes, .absent ∈ u.required ∨ u.Unnamed := by
  by_cases ht : t = .absent
  · rw [ht]
    exact iff_of_true rfl (.inl rfl)
  · have hbroken : (¬ ∀ u ∈ t.nodes, u.Whole) ↔ ∃ u ∈ t.nodes, .absent ∈ u.required ∨ u.Unnamed := by
      simp only [Whole, not_forall, not_and_or, not_not, exists_prop]
    have hwalk : Diagnostics.hasErrors (t.check env) = true ↔ ¬ Harmless (t.walk env.names).1 := by
      rw [check_eq_walk ht env, Harmless, Bool.not_eq_false]
    rw [hwalk, harmless_walk_iff, hbroken, or_iff_right ht]

theorem required_subset_children (t : Tree) : t.required ⊆ t.children := by
  cases t with
  | ite s c t e => simp [required, children]
  | _ => exact List.Subset.refl _

end Tree

open Document

/-- A program that was read has all its children. -/
theorem Document.complete_of_decode {file : String} {source : Yaml.Source} {doc : Document}
    (h : decode file source = .ok doc) :
    doc.program ≠ .absent ∧ ∀ u ∈ doc.program.nodes, .absent ∉ u.children := by
  obtain ⟨root, commented, k, -, hrun⟩ := decode_ok.1 h
  have hgrown : Tree.Grown (Context.IsPlace ⟨file, root⟩) fun t =>
      t ≠ .absent ∧ ∀ u ∈ t.nodes, .absent ∉ u.children :=
    Tree.grown_nodes fun _ _ hchildren => hchildren
  obtain ⟨-, -, hprogram⟩ := (Context.document_yields hgrown 0).1 doc k hrun
  exact hprogram

/-- The errors of the check tell malformed programs from well-formed ones. There is one if and only if the program is
absent, or some construct of it lacks a child that it needs, or some variable or assignment has an empty name; which
names are bound does not matter. A program that was read lacks no child, so only an empty name makes its check
fail. -/
theorem check_errs_iff_malformed :
    (∀ (t : Tree) (env : Env), Diagnostics.hasErrors (t.check env) = true ↔
      t = .absent ∨ ∃ u ∈ t.nodes, .absent ∈ u.required ∨ u.Unnamed) ∧
    (∀ (t : Tree) (env env' : Env), Diagnostics.hasErrors (t.check env) = Diagnostics.hasErrors (t.check env')) ∧
    ∀ file source doc, decode file source = .ok doc →
      (∀ u ∈ doc.program.nodes, .absent ∉ u.children) ∧
        (Diagnostics.hasErrors doc.check = true ↔ ∃ u ∈ doc.program.nodes, u.Unnamed) := by
  refine ⟨Tree.hasErrors_check_iff, fun t env env' => ?_, fun file source doc h => ?_⟩
  · rw [Bool.eq_iff_iff, t.hasErrors_check_iff env, t.hasErrors_check_iff env']
  · obtain ⟨hpresent, hcomplete⟩ := complete_of_decode h
    refine ⟨hcomplete, ?_⟩
    rw [Document.check, Tree.hasErrors_check_iff, or_iff_right hpresent]
    have hrequired : ∀ u ∈ doc.program.nodes, (.absent ∈ u.required ∨ u.Unnamed) ↔ u.Unnamed := fun u hu =>
      or_iff_right fun habsent => hcomplete u hu (u.required_subset_children habsent)
    constructor
    · rintro ⟨u, hu, hbroken⟩
      exact ⟨u, hu, (hrequired u hu).1 hbroken⟩
    · rintro ⟨u, hu, hunnamed⟩
      exact ⟨u, hu, .inr hunnamed⟩

/-- A document that can be read, with an assignment to no name. -/
def nameless : String := "program:\n  assign:\n    name: \"\"\n    value:\n      var: x\n"

/-- The check of this document fails. -/
theorem check_errs_iff_malformed_nameless :
    ∃ doc, decode "nameless.yaml" (.ofText nameless) = .ok doc ∧ Diagnostics.hasErrors doc.check = true ∧
      ∃ u ∈ doc.program.nodes, u.Unnamed := by
  have herrs : (decode "nameless.yaml" (.ofText nameless)).toOption.any
      (fun doc => Diagnostics.hasErrors doc.check) = true := by
    decide +kernel
  rcases hdoc : decode "nameless.yaml" (.ofText nameless) with m | doc
  · rw [hdoc] at herrs
    cases herrs
  · rw [hdoc] at herrs
    have hfails : Diagnostics.hasErrors doc.check = true := herrs
    exact ⟨doc, rfl, hfails, ((check_errs_iff_malformed.2.2 _ _ doc hdoc).2).1 hfails⟩

end WhileLang
