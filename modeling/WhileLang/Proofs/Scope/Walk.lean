import WhileLang.Scope

/-!
# Walks that find no error

For each construct one lemma says when a walk over it finds no error: every child it needs is in place, its name is
not empty, and the walks over its parts find none (`harmless_binary` and so on). Another one says what such a walk
gives, namely the diagnostics of the parts, in order, and the names bound after them. Together they are all that later
proofs need of `Tree.walk`.
-/

namespace WhileLang

namespace Scope

/-- A bound name is the one just added or one from before. -/
theorem mem_insert {s : Scope} {name x : String} : x ∈ s.insert name ↔ x = name ∨ x ∈ s := by
  unfold insert
  split
  · next h =>
    have hmem : name ∈ s := by simpa using h
    constructor
    · exact .inr
    · rintro (rfl | hx)
      · exact hmem
      · exact hx
  · exact List.mem_cons

/-- A name is bound on both paths if it is bound on each. -/
theorem mem_inter {a b : Scope} {x : String} : x ∈ a.inter b ↔ x ∈ a ∧ x ∈ b := by
  unfold inter
  rw [List.mem_filter, List.contains_iff_mem]

end Scope

/-- Diagnostics that do not prevent execution. -/
def Diagnostics.Harmless (ds : List Diagnostic) : Prop := Diagnostics.hasErrors ds = false

namespace Diagnostics.Harmless

@[simp] theorem append {ds ds' : List Diagnostic} :
    Harmless (ds ++ ds') ↔ Harmless ds ∧ Harmless ds' := by
  simp [Harmless, hasErrors]

@[simp] theorem not_missing (parent : Tree) (role : String) (ds : List Diagnostic) :
    ¬ Harmless (parent.missing role :: ds) := by
  simp [Harmless, hasErrors, Tree.missing, Diagnostic.isWarning]

@[simp] theorem not_emptyName (what : String) (s : Span) (ds : List Diagnostic) :
    ¬ Harmless (Tree.emptyName what s :: ds) := by
  simp [Harmless, hasErrors, Tree.emptyName, Diagnostic.isWarning]

end Diagnostics.Harmless

namespace Tree

open Diagnostics (Harmless)

variable {sp : Span} {s : Scope}

theorem harmless_var {x : String} : Harmless (walk (.var sp x) s).1 ↔ x ≠ "" := by
  by_cases hx : x = ""
  · simp [walk, hx]
  · simp only [walk, hx, if_false, ne_eq, not_false_eq_true, iff_true]
    split <;> rfl

theorem walk_var {x : String} (h : Harmless (walk (.var sp x) s).1) :
    walk (.var sp x) s = (if x ∈ s then [] else [mayBeUnbound sp x], s) := by
  have hx := harmless_var.1 h
  simp only [walk, hx, if_false, List.contains_iff_mem]
  split <;> rfl

theorem harmless_binary {op : Op} {l r : Tree} : Harmless (walk (.binary sp op l r) s).1 ↔
    (l ≠ .absent ∧ r ≠ .absent) ∧ Harmless (l.walk s).1 ∧ Harmless (r.walk (l.walk s).2).1 := by
  by_cases hl : l = .absent
  · simp [walk, hl]
  by_cases hr : r = .absent
  · simp [walk, hr]
  · simp [walk, hl, hr]

theorem walk_binary {op : Op} {l r : Tree} (h : Harmless (walk (.binary sp op l r) s).1) :
    Harmless (l.walk s).1 ∧ Harmless (r.walk (l.walk s).2).1 ∧
      walk (.binary sp op l r) s =
        ((l.walk s).1 ++ (r.walk (l.walk s).2).1, (r.walk (l.walk s).2).2) := by
  obtain ⟨⟨hl, hr⟩, hdl, hdr⟩ := harmless_binary.1 h
  exact ⟨hdl, hdr, by simp only [walk, hl, hr, if_false]⟩

theorem harmless_assign {x : String} {v : Tree} :
    Harmless (walk (.assign sp x v) s).1 ↔ (v ≠ .absent ∧ x ≠ "") ∧ Harmless (v.walk s).1 := by
  by_cases hx : x = ""
  · simp [walk, hx]
  by_cases hv : v = .absent
  · simp [walk, hv]
  · simp [walk, hx, hv]

theorem walk_assign {x : String} {v : Tree} (h : Harmless (walk (.assign sp x v) s).1) :
    Harmless (v.walk s).1 ∧ walk (.assign sp x v) s = ((v.walk s).1, (v.walk s).2.insert x) := by
  obtain ⟨⟨hv, hx⟩, hdv⟩ := harmless_assign.1 h
  exact ⟨hdv, by simp only [walk, hx, hv, if_false, List.nil_append]⟩

theorem harmless_ite {c t e : Tree} : Harmless (walk (.ite sp c t e) s).1 ↔
    (c ≠ .absent ∧ t ≠ .absent) ∧ Harmless (c.walk s).1 ∧ Harmless (t.walk (c.walk s).2).1 ∧
      Harmless (e.walk (c.walk s).2).1 := by
  by_cases hc : c = .absent
  · simp [walk, hc]
  by_cases ht : t = .absent
  · simp [walk, hc, ht]
  · simp [walk, hc, ht]

theorem walk_ite {c t e : Tree} (h : Harmless (walk (.ite sp c t e) s).1) :
    Harmless (c.walk s).1 ∧ Harmless (t.walk (c.walk s).2).1 ∧ Harmless (e.walk (c.walk s).2).1 ∧
      walk (.ite sp c t e) s =
        ((c.walk s).1 ++ (t.walk (c.walk s).2).1 ++ (e.walk (c.walk s).2).1,
          (t.walk (c.walk s).2).2.inter (e.walk (c.walk s).2).2) := by
  obtain ⟨⟨hc, ht⟩, hdc, hdt, hde⟩ := harmless_ite.1 h
  exact ⟨hdc, hdt, hde, by simp only [walk, hc, ht, if_false]⟩

theorem harmless_seq {a b : Tree} : Harmless (walk (.seq sp a b) s).1 ↔
    (a ≠ .absent ∧ b ≠ .absent) ∧ Harmless (a.walk s).1 ∧ Harmless (b.walk (a.walk s).2).1 := by
  by_cases ha : a = .absent
  · simp [walk, ha]
  by_cases hb : b = .absent
  · simp [walk, ha, hb]
  · simp [walk, ha, hb]

theorem walk_seq {a b : Tree} (h : Harmless (walk (.seq sp a b) s).1) :
    Harmless (a.walk s).1 ∧ Harmless (b.walk (a.walk s).2).1 ∧
      walk (.seq sp a b) s =
        ((a.walk s).1 ++ (b.walk (a.walk s).2).1, (b.walk (a.walk s).2).2) := by
  obtain ⟨⟨ha, hb⟩, hda, hdb⟩ := harmless_seq.1 h
  exact ⟨hda, hdb, by simp only [walk, ha, hb, if_false]⟩

theorem harmless_loop {c b : Tree} : Harmless (walk (.loop sp c b) s).1 ↔
    (c ≠ .absent ∧ b ≠ .absent) ∧ Harmless (c.walk s).1 ∧ Harmless (b.walk (c.walk s).2).1 := by
  by_cases hc : c = .absent
  · simp [walk, hc]
  by_cases hb : b = .absent
  · simp [walk, hc, hb]
  · simp [walk, hc, hb]

/-- Nothing that the body of a loop binds counts after the loop. -/
theorem walk_loop {c b : Tree} (h : Harmless (walk (.loop sp c b) s).1) :
    Harmless (c.walk s).1 ∧ Harmless (b.walk (c.walk s).2).1 ∧
      walk (.loop sp c b) s = ((c.walk s).1 ++ (b.walk (c.walk s).2).1, (c.walk s).2) := by
  obtain ⟨⟨hc, hb⟩, hdc, hdb⟩ := harmless_loop.1 h
  exact ⟨hdc, hdb, by simp only [walk, hc, hb, if_false]⟩

/-- A program that is there is checked by one walk. -/
theorem check_eq_walk {t : Tree} (ht : t ≠ .absent) (env : Env) : t.check env = (t.walk env.names).1 := by
  cases t with
  | absent => exact absurd rfl ht
  | _ => rfl

/-- An absent program does not pass the check. -/
theorem ne_absent_of_clean {t : Tree} {env : Env} (h : Diagnostics.hasErrors (t.check env) = false) :
    t ≠ .absent := by
  rintro rfl
  cases h

end Tree

end WhileLang
