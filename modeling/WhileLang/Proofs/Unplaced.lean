import Mathlib.Data.List.Perm.Subperm
import WhileLang.Proofs.Env

/-!
# Trees and environments without their positions

Two trees are equal up to positions if they are equal once every span is taken out. The same is said of the
bindings of an environment, and implies that `Env.same` holds.
-/

namespace WhileLang

/-- The value at no position. -/
def Value.unplaced : Value → Value
  | .num _ n => .num Span.none n
  | .bool _ b => .bool Span.none b

/-- The tree with every position taken out. -/
def Tree.unplaced : Tree → Tree
  | .absent => .absent
  | .num _ n => .num Span.none n
  | .bool _ b => .bool Span.none b
  | .nothing _ => .nothing Span.none
  | .binary _ op l r => .binary Span.none op l.unplaced r.unplaced
  | .var _ name => .var Span.none name
  | .assign _ name v => .assign Span.none name v.unplaced
  | .ite _ c t e => .ite Span.none c.unplaced t.unplaced e.unplaced
  | .seq _ a b => .seq Span.none a.unplaced b.unplaced
  | .loop _ c b => .loop Span.none c.unplaced b.unplaced

@[simp] theorem Value.text_unplaced (v : Value) : v.unplaced.text = v.text := by
  cases v <;> rfl

@[simp] theorem Value.unplaced_unplaced (v : Value) : v.unplaced.unplaced = v.unplaced := by
  cases v <;> rfl

/-- Values that agree up to positions are the same. -/
theorem Value.same_of_unplaced {v w : Value} (h : v.unplaced = w.unplaced) : v.same w = true := by
  cases v <;> cases w <;> simp only [unplaced, reduceCtorEq, num.injEq, bool.injEq, true_and] at h
  all_goals simp [same, h]

/-- Values that are the same agree up to positions. -/
theorem Value.unplaced_of_same {v w : Value} (h : v.same w = true) : v.unplaced = w.unplaced := by
  cases v <;> cases w <;> simp_all [same, unplaced]

/-- Whether a tree stands for a value, and for which, does not depend on positions. -/
theorem Tree.value?_unplaced (t : Tree) : t.unplaced.value? = t.value?.map Value.unplaced := by
  cases t <;> rfl

/-! ## Bindings -/

namespace Bindings

/-- The bindings with every position taken out. -/
def unplaced (l : List (String × Value)) : List (String × Value) :=
  l.map fun b => (b.1, b.2.unplaced)

theorem unplaced_unplaced (l : List (String × Value)) : unplaced (unplaced l) = unplaced l := by
  simp [unplaced]

@[simp] theorem unplaced_cons (b : String × Value) (l : List (String × Value)) :
    unplaced (b :: l) = (b.1, b.2.unplaced) :: unplaced l := rfl

theorem unplaced_insert (name : String) (v : Value) (l : List (String × Value)) :
    unplaced (insert name v l) = insert name v.unplaced (unplaced l) := by
  induction l with
  | nil => rfl
  | cons p rest ih =>
    obtain ⟨k, w⟩ := p
    simp only [insert, unplaced_cons]
    split
    · rfl
    · split
      · rfl
      · rw [unplaced_cons, ih]

theorem lookup_unplaced (x : String) (l : List (String × Value)) :
    (unplaced l).lookup x = (l.lookup x).map Value.unplaced := by
  induction l with
  | nil => rfl
  | cons p rest ih =>
    obtain ⟨k, w⟩ := p
    simp only [unplaced_cons, List.lookup_cons, ih]
    split <;> rfl

/-- What a name leads to is bound to it. -/
theorem mem_of_lookup {l : List (String × Value)} {x : String} {v : Value} (h : l.lookup x = some v) :
    (x, v) ∈ l := by
  obtain ⟨before, after, hsplit, -⟩ := List.lookup_eq_some_iff.1 h
  rw [hsplit]
  exact List.mem_append_right before List.mem_cons_self

/-- In a sorted list a binding is what its name leads to. -/
theorem Sorted.lookup_of_mem {l : List (String × Value)} (h : Sorted l) {x : String} {v : Value}
    (hmem : (x, v) ∈ l) : l.lookup x = some v := by
  induction l with
  | nil => exact absurd hmem List.not_mem_nil
  | cons p rest ih =>
    obtain ⟨hlt, hrest⟩ := List.pairwise_cons.1 h
    rcases List.mem_cons.1 hmem with rfl | hmem
    · simp
    · have hne : (x == p.1) = false := by
        rw [beq_eq_false_iff_ne]
        intro heq
        have hp := hlt (x, v) hmem
        rw [heq] at hp
        exact String.lt_irrefl p.1 hp
      rw [List.lookup_cons, hne]
      exact ih hrest hmem

theorem Sorted.nodup {l : List (String × Value)} (h : Sorted l) : l.Nodup := by
  refine h.imp fun hlt heq => ?_
  rw [heq] at hlt
  exact String.lt_irrefl _ hlt

/-- Sorted lists have their bindings in one order only. -/
theorem Sorted.eq_of_perm {l l' : List (String × Value)} (h : Sorted l) (h' : Sorted l') (hperm : l.Perm l') :
    l = l' := by
  refine List.Perm.eq_of_pairwise (fun b b' _ _ hlt hlt' => ?_) h h' hperm
  exact absurd hlt' (String.lt_asymm hlt)

/-- A sorted list has no bindings that another list does not lead to. -/
theorem Sorted.subset_of_lookup {l l' : List (String × Value)} (h : Sorted l)
    (hlookup : ∀ x, l.lookup x = l'.lookup x) : l ⊆ l' := by
  intro b hb
  have hv : l'.lookup b.1 = some b.2 := by rw [← hlookup, h.lookup_of_mem hb]
  exact mem_of_lookup hv

/-- Sorted lists in which every name leads to the same value are equal. -/
theorem Sorted.eq_of_lookup {l l' : List (String × Value)} (h : Sorted l) (h' : Sorted l')
    (hlookup : ∀ x, l.lookup x = l'.lookup x) : l = l' := by
  have hsub : l ⊆ l' := h.subset_of_lookup hlookup
  have hsub' : l' ⊆ l := h'.subset_of_lookup fun x => (hlookup x).symm
  exact h.eq_of_perm h' ((List.perm_ext_iff_of_nodup h.nodup h'.nodup).2 fun b => ⟨@hsub b, @hsub' b⟩)

end Bindings

namespace Env

open Bindings (unplaced)

/-- The bindings of an environment are what its names lead to. -/
theorem mem_bindings {e : Env} {x : String} {v : Value} : (x, v) ∈ e.bindings ↔ e.get? x = some v :=
  ⟨e.sorted.lookup_of_mem, Bindings.mem_of_lookup⟩

/-- An environment is told by its lookups. -/
theorem ext_get? {e e' : Env} (h : ∀ x, e.get? x = e'.get? x) : e = e' :=
  ext (e.sorted.eq_of_lookup e'.sorted h)

theorem unplaced_foldl_insert (l : List (String × Value)) :
    ∀ e e' : Env, unplaced e.bindings = e'.bindings →
      unplaced (l.foldl (fun e b => e.insert b.1 b.2) e).bindings =
        ((unplaced l).foldl (fun e b => e.insert b.1 b.2) e').bindings := by
  induction l with
  | nil => exact fun e e' h => h
  | cons p rest ih =>
    intro e e' h
    refine ih (e.insert p.1 p.2) (e'.insert p.1 p.2.unplaced) ?_
    show unplaced (Bindings.insert p.1 p.2 e.bindings) = Bindings.insert p.1 p.2.unplaced e'.bindings
    rw [Bindings.unplaced_insert, h]

/-- Positions play no part in which bindings are kept. -/
theorem unplaced_ofList (l : List (String × Value)) :
    unplaced (ofList l).bindings = (ofList (unplaced l)).bindings :=
  unplaced_foldl_insert l empty empty rfl

/-- Lookups in environments whose bindings agree up to positions do so too. -/
theorem get?_of_unplaced {e e' : Env} (h : unplaced e.bindings = unplaced e'.bindings) (x : String) :
    (e.get? x).map Value.unplaced = (e'.get? x).map Value.unplaced := by
  rw [get?, get?, ← Bindings.lookup_unplaced, ← Bindings.lookup_unplaced, h]

/-- Environments whose bindings agree up to positions are the same. -/
theorem same_of_unplaced {e e' : Env} (h : unplaced e.bindings = unplaced e'.bindings) :
    e.same e' = true := by
  have hsize : e.size = e'.size := by
    have hlen := congrArg List.length h
    simpa [unplaced, size] using hlen
  unfold same
  rw [Bool.and_eq_true]
  refine ⟨by simp [hsize], ?_⟩
  rw [List.all_eq_true]
  rintro ⟨x, v⟩ hmem
  -- the other environment leads from the same name to a value that differs in its position at most
  have hv : e.get? x = some v := mem_bindings.1 hmem
  have hboth : (e'.get? x).map Value.unplaced = some v.unplaced := by
    rw [← get?_of_unplaced h, hv]
    rfl
  obtain ⟨w, hw, hvw⟩ := Option.map_eq_some_iff.1 hboth
  simp only [hw]
  exact Value.same_of_unplaced hvw.symm

theorem sorted_unplaced (e : Env) : Bindings.Sorted (unplaced e.bindings) :=
  List.pairwise_map.2 e.sorted

/-- The bindings of environments that are the same agree up to positions. -/
theorem unplaced_of_same {e e' : Env} (h : e.same e' = true) :
    unplaced e.bindings = unplaced e'.bindings := by
  unfold same at h
  rw [Bool.and_eq_true, beq_iff_eq, List.all_eq_true] at h
  obtain ⟨hsize, hall⟩ := h
  have hlen : (unplaced e'.bindings).length ≤ (unplaced e.bindings).length := by
    unfold unplaced
    rw [List.length_map, List.length_map]
    exact Nat.le_of_eq hsize.symm
  have hsub : unplaced e.bindings ⊆ unplaced e'.bindings := by
    intro b hb
    obtain ⟨⟨x, v⟩, hmem, rfl⟩ := List.mem_map.1 hb
    have hv := hall (x, v) hmem
    split at hv
    · next w hw => exact List.mem_map.2 ⟨(x, w), mem_bindings.2 hw, by rw [Value.unplaced_of_same hv]⟩
    · cases hv
  -- both are sorted by name, so neither has room for anything else
  have hperm := (List.subperm_of_subset e.sorted_unplaced.nodup hsub).perm_of_length_le hlen
  exact e.sorted_unplaced.eq_of_perm e'.sorted_unplaced hperm

/-- Environments are the same if and only if their bindings agree up to positions. -/
theorem same_iff_unplaced {e e' : Env} : e.same e' = true ↔ unplaced e.bindings = unplaced e'.bindings :=
  ⟨unplaced_of_same, same_of_unplaced⟩

/-- The bindings of two environments agree up to positions if all lookups do. -/
theorem unplaced_of_get? {e e' : Env}
    (h : ∀ x, (e.get? x).map Value.unplaced = (e'.get? x).map Value.unplaced) :
    unplaced e.bindings = unplaced e'.bindings := by
  refine e.sorted_unplaced.eq_of_lookup e'.sorted_unplaced fun x => ?_
  rw [Bindings.lookup_unplaced, Bindings.lookup_unplaced]
  exact h x

/-- Positions are no part of an environment's text. -/
theorem text_of_unplaced {e e' : Env} (h : unplaced e.bindings = unplaced e'.bindings) : e.text = e'.text := by
  have hitems : ∀ e : Env, e.bindings.map (fun b => b.1 ++ ": " ++ b.2.text) =
      (unplaced e.bindings).map fun b => b.1 ++ ": " ++ b.2.text := by
    intro e
    rw [unplaced, List.map_map]
    refine List.map_congr_left fun b _ => ?_
    rw [Function.comp, Value.text_unplaced]
  rw [text, text, hitems e, hitems e', h]

end Env

end WhileLang
