import WhileLang.Env

/-!
# Binding and looking up

Lookups after a binding, in sorted lists of bindings first and then in environments. Bindings that are made in
increasing order end up as they were given, so an environment is the one that its bindings make.
-/

namespace WhileLang

namespace Bindings

/-- A name that was just bound has its new value, and every other name the value it had. -/
theorem lookup_insert (name x : String) (v : Value) (l : List (String × Value)) :
    (insert name v l).lookup x = if x = name then some v else l.lookup x := by
  induction l with
  | nil =>
    by_cases hx : x = name
    · simp [insert, hx]
    · simp [insert, List.lookup_cons, hx, beq_eq_false_iff_ne.2 hx]
  | cons p rest ih =>
    obtain ⟨k, w⟩ := p
    by_cases hx : x = name
    · subst hx
      simp only [insert]
      split
      · simp
      · split
        · simp
        · next _ hne => simp [List.lookup_cons, beq_eq_false_iff_ne.2 hne, ih]
    · have hbeq : (x == name) = false := beq_eq_false_iff_ne.2 hx
      simp only [insert]
      split
      · simp [List.lookup_cons, hbeq]
      · split
        · next _ heq =>
          subst heq
          simp [List.lookup_cons, hbeq]
        · simp only [List.lookup_cons, ih, hx, if_false]

/-- A name that comes after all others is bound at the end. -/
theorem insert_eq_append {name : String} (v : Value) {l : List (String × Value)} (h : ∀ b ∈ l, b.1 < name) :
    insert name v l = l ++ [(name, v)] := by
  induction l with
  | nil => rfl
  | cons p rest ih =>
    obtain ⟨hp, hrest⟩ := List.forall_mem_cons.1 h
    have hlt : ¬ name < p.1 := String.lt_asymm hp
    have hne : name ≠ p.1 := by
      intro heq
      rw [heq] at hp
      exact String.lt_irrefl p.1 hp
    rw [insert, if_neg hlt, if_neg hne, ih hrest, List.cons_append]

end Bindings

namespace Env

/-- A name that was just bound has its new value, and every other name the value it had. -/
theorem get?_insert (e : Env) (name x : String) (v : Value) :
    (e.insert name v).get? x = if x = name then some v else e.get? x :=
  Bindings.lookup_insert name x v e.bindings

/-- Binding a name adds it to those that are bound. -/
theorem contains_insert (e : Env) (name x : String) (v : Value) :
    (e.insert name v).contains x = (x = name || e.contains x) := by
  unfold contains
  rw [get?_insert]
  by_cases hx : x = name
  · simp [hx]
  · simp [hx]

/-- The names of an environment are bound in it. -/
theorem contains_of_mem_names {e : Env} {x : String} (h : x ∈ e.names) : e.contains x = true := by
  unfold names at h
  rw [List.mem_map] at h
  obtain ⟨⟨k, v⟩, hmem, rfl⟩ := h
  unfold contains get?
  rw [List.lookup_isSome_iff]
  exact ⟨(k, v), hmem, by simp⟩

/-- The names of an environment are those that are bound. -/
theorem mem_names {e : Env} {x : String} : x ∈ e.names ↔ e.contains x = true := by
  refine ⟨contains_of_mem_names, fun h => ?_⟩
  unfold contains get? at h
  rw [List.lookup_isSome_iff] at h
  obtain ⟨b, hb, hx⟩ := h
  rw [beq_iff_eq.1 hx]
  exact List.mem_map_of_mem hb

/-- Bindings that go on in increasing order are added at the end. -/
theorem foldl_insert_bindings (l : List (String × Value)) :
    ∀ e : Env, Bindings.Sorted (e.bindings ++ l) →
      (l.foldl (fun e b => e.insert b.1 b.2) e).bindings = e.bindings ++ l := by
  induction l with
  | nil =>
    intro e _
    rw [List.foldl_nil, List.append_nil]
  | cons b rest ih =>
    intro e hsorted
    have hlast : (e.insert b.1 b.2).bindings = e.bindings ++ [b] := by
      refine Bindings.insert_eq_append b.2 fun b' hb' => ?_
      exact (List.pairwise_append.1 hsorted).2.2 b' hb' b List.mem_cons_self
    have hrest : e.bindings ++ b :: rest = (e.insert b.1 b.2).bindings ++ rest := by
      rw [hlast, List.append_assoc]
      rfl
    rw [List.foldl_cons, hrest]
    exact ih (e.insert b.1 b.2) (hrest ▸ hsorted)

/-- An environment is the one that its bindings make. -/
theorem ofList_bindings (e : Env) : ofList e.bindings = e :=
  ext (foldl_insert_bindings e.bindings empty e.sorted)

theorem mem_of_mem_foldl_insert {b : String × Value} (l : List (String × Value)) :
    ∀ e : Env, b ∈ (l.foldl (fun e b => e.insert b.1 b.2) e).bindings → b ∈ e.bindings ∨ b ∈ l := by
  induction l with
  | nil => exact fun e h => .inl h
  | cons b' rest ih =>
    intro e h
    rcases ih (e.insert b'.1 b'.2) h with h | h
    · rcases Bindings.mem_insert h with rfl | h
      · exact .inr List.mem_cons_self
      · exact .inl h
    · exact .inr (List.mem_cons_of_mem b' h)

/-- An environment has no other bindings than those it is made of. -/
theorem mem_of_mem_ofList {b : String × Value} {l : List (String × Value)} (h : b ∈ (ofList l).bindings) :
    b ∈ l :=
  (mem_of_mem_foldl_insert l empty h).resolve_left List.not_mem_nil

end Env

end WhileLang
