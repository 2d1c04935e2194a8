import Mathlib.Data.List.Perm.Subperm
import WhileLang.Yaml.Node

/-!
# Documents without their aliases

`Node.unfolded` replaces every alias of a document by a copy of the node it refers to, and the aliases in that
copy likewise. Where no alias lies inside the node it refers to, directly or through other aliases, a chain of
aliases never comes to the same anchor twice; since a document has no more anchors than nodes, unfolding to
that depth leaves no alias behind (`Linked.unfolded`).

`Unfolds root n n'` says the same of two nodes without saying how far to go: `n'` is `n` with all aliases
replaced. It leaves positions, anchors and brackets open, for readers to whom they do not matter.
-/

namespace WhileLang.Yaml.Node

/-- What holds of a collection if it holds of all that it contains, holds of every node. -/
theorem induct {motive : Node → Prop} (scalar : ∀ p a tag text, motive (.scalar p a tag text))
    (list : ∀ p a tag flow items, (∀ n ∈ items, motive n) → motive (.list p a tag flow items))
    (dict : ∀ p a tag flow entries, (∀ e ∈ entries, motive e.1 ∧ motive e.2) →
      motive (.dict p a tag flow entries))
    (link : ∀ p name target, motive (.alias p name target)) (n : Node) : motive n :=
  @Node.rec motive (fun items => ∀ n ∈ items, motive n)
    (fun entries => ∀ e ∈ entries, motive e.1 ∧ motive e.2) (fun e => motive e.1 ∧ motive e.2)
    scalar list dict link
    (fun _ h => absurd h List.not_mem_nil) (fun _ _ hn hrest => List.forall_mem_cons.2 ⟨hn, hrest⟩)
    (fun _ h => absurd h List.not_mem_nil) (fun _ _ he hrest => List.forall_mem_cons.2 ⟨he, hrest⟩)
    (fun _ _ hk hv => ⟨hk, hv⟩) n

/-- Whether a node is an alias. -/
def isAlias : Node → Bool
  | .alias _ _ _ => true
  | _ => false

/-- Whether a node is a scalar. -/
def isScalar : Node → Bool
  | .scalar _ _ _ _ => true
  | _ => false

theorem exists_alias_of_isAlias {n : Node} (h : ¬ n.isAlias = false) :
    ∃ p name i, n = .alias p name i := by
  cases n using induct with
  | scalar | list | dict => exact absurd rfl h
  | link p name i => exact ⟨p, name, i, rfl⟩

/-! ## The nodes of a document -/

mutual

/-- A node and all that it contains, keys included. -/
def parts : Node → List Node
  | .scalar p a tag text => [.scalar p a tag text]
  | .list p a tag flow items => .list p a tag flow items :: partsOfItems items
  | .dict p a tag flow entries => .dict p a tag flow entries :: partsOfEntries entries
  | .alias p name target => [.alias p name target]

/-- The parts of the items of a list. -/
def partsOfItems : List Node → List Node
  | [] => []
  | n :: rest => n.parts ++ partsOfItems rest

/-- The parts of the keys and values of a mapping. -/
def partsOfEntries : List (Node × Node) → List Node
  | [] => []
  | (k, v) :: rest => k.parts ++ v.parts ++ partsOfEntries rest

end

section Parts

variable {p : Pos} {a : Option Anchor} {tag : String} {flow : Bool} {items : List Node}
  {entries : List (Node × Node)} {m : Node}

attribute [local simp] parts partsOfItems partsOfEntries

theorem mem_partsOfItems : m ∈ partsOfItems items ↔ ∃ n ∈ items, m ∈ n.parts := by
  induction items with
  | nil => simp
  | cons n rest ih => simp [ih]

theorem mem_partsOfEntries :
    m ∈ partsOfEntries entries ↔ ∃ e ∈ entries, m ∈ e.1.parts ∨ m ∈ e.2.parts := by
  induction entries with
  | nil => simp
  | cons e rest ih => simp [ih, or_assoc]

theorem mem_parts_scalar {text : String} :
    m ∈ (Node.scalar p a tag text).parts ↔ m = .scalar p a tag text := by
  simp

theorem mem_parts_list :
    m ∈ (Node.list p a tag flow items).parts ↔
      m = .list p a tag flow items ∨ ∃ n ∈ items, m ∈ n.parts := by
  rw [parts, List.mem_cons, mem_partsOfItems]

theorem mem_parts_dict :
    m ∈ (Node.dict p a tag flow entries).parts ↔
      m = .dict p a tag flow entries ∨ ∃ e ∈ entries, m ∈ e.1.parts ∨ m ∈ e.2.parts := by
  rw [parts, List.mem_cons, mem_partsOfEntries]

theorem mem_parts_alias {name : String} {i : Nat} :
    m ∈ (Node.alias p name i).parts ↔ m = .alias p name i := by
  simp

theorem mem_parts_self (n : Node) : n ∈ n.parts := by
  cases n <;> simp

theorem item_mem_parts {n : Node} (h : n ∈ items) : n ∈ (Node.list p a tag flow items).parts :=
  mem_parts_list.2 (.inr ⟨n, h, mem_parts_self n⟩)

theorem key_mem_parts {e : Node × Node} (h : e ∈ entries) :
    e.1 ∈ (Node.dict p a tag flow entries).parts :=
  mem_parts_dict.2 (.inr ⟨e, h, .inl (mem_parts_self e.1)⟩)

theorem value_mem_parts {e : Node × Node} (h : e ∈ entries) :
    e.2 ∈ (Node.dict p a tag flow entries).parts :=
  mem_parts_dict.2 (.inr ⟨e, h, .inr (mem_parts_self e.2)⟩)

end Parts

theorem parts_sublist_items {n : Node} {items : List Node} (h : n ∈ items) :
    n.parts.Sublist (partsOfItems items) := by
  induction items with
  | nil => exact absurd h List.not_mem_nil
  | cons n' rest ih =>
    rw [partsOfItems]
    rcases List.mem_cons.1 h with rfl | h
    · exact List.sublist_append_left _ _
    · exact (ih h).trans (List.sublist_append_right _ _)

theorem parts_sublist_entries {e : Node × Node} {entries : List (Node × Node)} (h : e ∈ entries) :
    (e.1.parts ++ e.2.parts).Sublist (partsOfEntries entries) := by
  induction entries with
  | nil => exact absurd h List.not_mem_nil
  | cons e' rest ih =>
    rw [partsOfEntries]
    rcases List.mem_cons.1 h with rfl | h
    · exact List.sublist_append_left _ _
    · exact (ih h).trans (List.sublist_append_right _ _)

/-- The parts of a part are parts, each as often at least. -/
theorem parts_sublist {m : Node} : ∀ n : Node, m ∈ n.parts → m.parts.Sublist n.parts := by
  intro n
  induction n using induct with
  | scalar | link =>
    intro h
    simp only [mem_parts_scalar, mem_parts_alias] at h
    rw [h]
  | list p a tag flow items ih =>
    intro h
    rcases mem_parts_list.1 h with rfl | ⟨n, hn, hm⟩
    · exact List.Sublist.refl _
    · rw [parts]
      exact ((ih n hn hm).trans (parts_sublist_items hn)).cons _
  | dict p a tag flow entries ih =>
    intro h
    rcases mem_parts_dict.1 h with rfl | ⟨e, he, hm⟩
    · exact List.Sublist.refl _
    · rw [parts]
      have hboth : m.parts.Sublist (e.1.parts ++ e.2.parts) := by
        rcases hm with hm | hm
        · exact ((ih e he).1 hm).trans (List.sublist_append_left _ _)
        · exact ((ih e he).2 hm).trans (List.sublist_append_right _ _)
      exact (hboth.trans (parts_sublist_entries he)).cons _

/-- The parts of a part are parts. -/
theorem parts_subset {m : Node} (n : Node) (h : m ∈ n.parts) : m.parts ⊆ n.parts :=
  (parts_sublist n h).subset

theorem mem_of_findItem? {i : Nat} {m : Node} {items : List Node} (h : findItem? i items = some m) :
    ∃ n ∈ items, n.find? i = some m := by
  induction items with
  | nil => cases h
  | cons n rest ih =>
    rw [findItem?, Option.or_eq_some_iff] at h
    rcases h with h | ⟨-, h⟩
    · exact ⟨n, List.mem_cons_self, h⟩
    · obtain ⟨n', hmem, hn'⟩ := ih h
      exact ⟨n', List.mem_cons_of_mem n hmem, hn'⟩

theorem mem_of_findPair? {i : Nat} {m : Node} {entries : List (Node × Node)}
    (h : findPair? i entries = some m) :
    ∃ e ∈ entries, e.1.find? i = some m ∨ e.2.find? i = some m := by
  induction entries with
  | nil => cases h
  | cons e rest ih =>
    rw [findPair?, Option.or_eq_some_iff, Option.or_eq_some_iff] at h
    rcases h with (h | ⟨-, h⟩) | ⟨-, h⟩
    · exact ⟨e, List.mem_cons_self, .inl h⟩
    · exact ⟨e, List.mem_cons_self, .inr h⟩
    · obtain ⟨e', hmem, he'⟩ := ih h
      exact ⟨e', List.mem_cons_of_mem e hmem, he'⟩

/-- The node that an anchor's number finds has that anchor, and is a part. -/
theorem find?_some {i : Nat} {m : Node} (n : Node) :
    n.find? i = some m → m ∈ n.parts ∧ m.anchor.map (·.id) = some i := by
  -- a node with the anchor is found before all that it contains
  have here : ∀ n : Node, (n.anchor.map (·.id)) = some i → n.find? i = some m →
      m ∈ n.parts ∧ m.anchor.map (·.id) = some i := by
    intro n hn h
    unfold find? at h
    rw [if_pos hn] at h
    rw [← Option.some.inj h]
    exact ⟨mem_parts_self n, hn⟩
  induction n using induct with
  | scalar p a tag text =>
    intro h
    by_cases hn : ((Node.scalar p a tag text).anchor.map (·.id)) = some i
    · exact here _ hn h
    · unfold find? at h
      rw [if_neg hn] at h
      cases h
  | link p name target =>
    intro h
    simp [find?, anchor] at h
  | list p a tag flow items ih =>
    intro h
    by_cases hn : ((Node.list p a tag flow items).anchor.map (·.id)) = some i
    · exact here _ hn h
    · unfold find? at h
      rw [if_neg hn] at h
      obtain ⟨n, hmem, hfind⟩ := mem_of_findItem? h
      obtain ⟨hpart, hid⟩ := ih n hmem hfind
      exact ⟨parts_subset _ (item_mem_parts hmem) hpart, hid⟩
  | dict p a tag flow entries ih =>
    intro h
    by_cases hn : ((Node.dict p a tag flow entries).anchor.map (·.id)) = some i
    · exact here _ hn h
    · unfold find? at h
      rw [if_neg hn] at h
      obtain ⟨e, hmem, hfind | hfind⟩ := mem_of_findPair? h
      · obtain ⟨hpart, hid⟩ := (ih e hmem).1 hfind
        exact ⟨parts_subset _ (key_mem_parts hmem) hpart, hid⟩
      · obtain ⟨hpart, hid⟩ := (ih e hmem).2 hfind
        exact ⟨parts_subset _ (value_mem_parts hmem) hpart, hid⟩

/-- What an anchor's number finds is no alias. -/
theorem isAlias_of_find? {n m : Node} {i : Nat} (h : n.find? i = some m) : m.isAlias = false := by
  obtain ⟨-, hid⟩ := find?_some n h
  cases m using induct with
  | scalar | list | dict => rfl
  | link p name j => cases hid

/-! ## Aliases in order -/

/-- No alias is left in a node. -/
def AliasFree (n : Node) : Prop := ∀ p name i, .alias p name i ∉ n.parts

/-- An alias with this number lies in a node, or in what an alias in it refers to. -/
inductive Contains (root : Node) : Node → Nat → Prop
  | here {n : Node} {p : Pos} {name : String} {i : Nat} (h : .alias p name i ∈ n.parts) : Contains root n i
  | behind {n m : Node} {p : Pos} {name : String} {i j : Nat} (h : .alias p name j ∈ n.parts)
      (hfind : root.find? j = some m) (hm : Contains root m i) : Contains root n i

/-- The aliases of a document are in order: each refers to an anchor of the document, none is a key, and
none lies inside the node it refers to. -/
structure Linked (root : Node) : Prop where
  closed : ∀ p name i, .alias p name i ∈ root.parts → ∃ m, root.find? i = some m
  keys : ∀ p a tag flow entries, .dict p a tag flow entries ∈ root.parts →
    ∀ e ∈ entries, e.1.isAlias = false
  acyclic : ∀ i m, root.find? i = some m → ¬ Contains root m i

variable {root : Node}

/-- A node contains what its parts contain. -/
theorem Contains.of_part {n m : Node} {i : Nat} (hm : m ∈ n.parts) (h : Contains root m i) :
    Contains root n i := by
  cases h with
  | here h => exact .here (parts_subset n hm h)
  | behind h hfind hm' => exact .behind (parts_subset n hm h) hfind hm'

theorem AliasFree.of_part {n m : Node} (hn : n.AliasFree) (hm : m ∈ n.parts) : m.AliasFree :=
  fun p name i h => hn p name i (parts_subset n hm h)

theorem aliasFree_scalar {p : Pos} {a : Option Anchor} {tag text : String} :
    (Node.scalar p a tag text).AliasFree := by
  intro q name i hmem
  cases mem_parts_scalar.1 hmem

theorem aliasFree_list {p : Pos} {a : Option Anchor} {tag : String} {flow : Bool} {items : List Node}
    (h : ∀ n ∈ items, n.AliasFree) : (Node.list p a tag flow items).AliasFree := by
  intro q name i hmem
  rcases mem_parts_list.1 hmem with hmem | ⟨n, hn, hmem⟩
  · cases hmem
  · exact h n hn q name i hmem

theorem aliasFree_dict {p : Pos} {a : Option Anchor} {tag : String} {flow : Bool}
    {entries : List (Node × Node)} (h : ∀ e ∈ entries, e.1.AliasFree ∧ e.2.AliasFree) :
    (Node.dict p a tag flow entries).AliasFree := by
  intro q name i hmem
  rcases mem_parts_dict.1 hmem with hmem | ⟨e, he, hmem | hmem⟩
  · cases hmem
  · exact (h e he).1 q name i hmem
  · exact (h e he).2 q name i hmem

/-! ## Unfolding -/

mutual

/-- A node with its aliases replaced, where there is something to replace them by. -/
def unfoldWith (follow : Nat → Option Node) : Node → Node
  | .scalar p a tag text => .scalar p a tag text
  | .list p a tag flow items => .list p a tag flow (unfoldItems follow items)
  | .dict p a tag flow entries => .dict p a tag flow (unfoldEntries follow entries)
  | .alias p name target => (follow target).getD (.alias p name target)

/-- The items of a list. -/
def unfoldItems (follow : Nat → Option Node) : List Node → List Node
  | [] => []
  | n :: rest => unfoldWith follow n :: unfoldItems follow rest

/-- The keys and values of a mapping. -/
def unfoldEntries (follow : Nat → Option Node) : List (Node × Node) → List (Node × Node)
  | [] => []
  | (k, v) :: rest => (unfoldWith follow k, unfoldWith follow v) :: unfoldEntries follow rest

end

/-- A node of a document with its aliases replaced, nested ones to a depth. -/
def unfoldTo (root : Node) : Nat → Node → Node
  | 0, n => n
  | depth + 1, n => unfoldWith (fun i => (root.find? i).map (unfoldTo root depth)) n

/-- A document with each alias replaced by a copy of the node it refers to. -/
def unfolded (root : Node) : Node := unfoldTo root root.parts.length root

theorem unfoldItems_eq_map (follow : Nat → Option Node) (items : List Node) :
    unfoldItems follow items = items.map (unfoldWith follow) := by
  induction items with
  | nil => rfl
  | cons n rest ih => rw [unfoldItems, ih, List.map_cons]

theorem unfoldEntries_eq_map (follow : Nat → Option Node) (entries : List (Node × Node)) :
    unfoldEntries follow entries =
      entries.map fun e => (unfoldWith follow e.1, unfoldWith follow e.2) := by
  induction entries with
  | nil => rfl
  | cons e rest ih => rw [unfoldEntries, ih, List.map_cons]

/-- The text of a node that is no alias does not depend on what its aliases are replaced by. -/
theorem text_unfoldWith {follow : Nat → Option Node} {n : Node} (h : n.isAlias = false) :
    (unfoldWith follow n).text = n.text := by
  cases n using induct with
  | scalar | list | dict => rfl
  | link p name i => cases h

/-- `n'` is `n` with all aliases replaced; positions, anchors, brackets and the insides of keys are open. -/
inductive Unfolds (root : Node) : Node → Node → Prop
  | scalar {p q : Pos} {a b : Option Anchor} {tag text : String} :
    Unfolds root (.scalar p a tag text) (.scalar q b tag text)
  | list {p q : Pos} {a b : Option Anchor} {tag : String} {f g : Bool} {items items' : List Node}
      (hlen : items.length = items'.length)
      (hitems : ∀ x y, (x, y) ∈ items.zip items' → Unfolds root x y) :
    Unfolds root (.list p a tag f items) (.list q b tag g items')
  | dict {p q : Pos} {a b : Option Anchor} {tag : String} {f g : Bool}
      {entries entries' : List (Node × Node)} (hlen : entries.length = entries'.length)
      (hkeys : ∀ x y, (x, y) ∈ entries.zip entries' → x.1.text = y.1.text)
      (hvalues : ∀ x y, (x, y) ∈ entries.zip entries' → Unfolds root x.2 y.2) :
    Unfolds root (.dict p a tag f entries) (.dict q b tag g entries')
  | behind {p : Pos} {name : String} {i : Nat} {m n' : Node} (hfind : root.find? i = some m)
      (hm : Unfolds root m n') : Unfolds root (.alias p name i) n'

theorem mem_zip_map {α : Type} {f : α → α} {x y : α} :
    ∀ {l : List α}, (x, y) ∈ l.zip (l.map f) → x ∈ l ∧ y = f x := by
  intro l h
  induction l with
  | nil => cases h
  | cons z rest ih =>
    rw [List.map_cons, List.zip_cons_cons, List.mem_cons] at h
    rcases h with h | h
    · cases h
      exact ⟨List.mem_cons_self, rfl⟩
    · exact ⟨List.mem_cons_of_mem z (ih h).1, (ih h).2⟩

/-- A list unfolds item by item. -/
theorem Unfolds.list_map {p q : Pos} {a b : Option Anchor} {tag : String} {f g : Bool}
    {items : List Node} {u : Node → Node} (h : ∀ n ∈ items, Unfolds root n (u n)) :
    Unfolds root (.list p a tag f items) (.list q b tag g (items.map u)) := by
  refine .list (by rw [List.length_map]) fun x y hxy => ?_
  obtain ⟨hx, rfl⟩ := mem_zip_map hxy
  exact h x hx

/-- A mapping unfolds entry by entry. -/
theorem Unfolds.dict_map {p q : Pos} {a b : Option Anchor} {tag : String} {f g : Bool}
    {entries : List (Node × Node)} {u : Node × Node → Node × Node}
    (hkeys : ∀ e ∈ entries, e.1.text = (u e).1.text) (h : ∀ e ∈ entries, Unfolds root e.2 (u e).2) :
    Unfolds root (.dict p a tag f entries) (.dict q b tag g (entries.map u)) := by
  refine .dict (by rw [List.length_map]) (fun x y hxy => ?_) (fun x y hxy => ?_)
  · obtain ⟨hx, rfl⟩ := mem_zip_map hxy
    exact hkeys x hx
  · obtain ⟨hx, rfl⟩ := mem_zip_map hxy
    exact h x hx

/-- Where there is no alias, nothing is replaced. -/
theorem Unfolds.of_aliasFree {n : Node} : n.AliasFree → Unfolds root n n := by
  induction n using induct with
  | scalar => exact fun _ => .scalar
  | list p a tag flow items ih =>
    intro h
    have hitems : Unfolds root (.list p a tag flow items) (.list p a tag flow (items.map fun n => n)) :=
      .list_map fun n hn => ih n hn (h.of_part (item_mem_parts hn))
    rw [List.map_id'] at hitems
    exact hitems
  | dict p a tag flow entries ih =>
    intro h
    have hentries : Unfolds root (.dict p a tag flow entries)
        (.dict p a tag flow (entries.map fun e => e)) :=
      .dict_map (fun _ _ => rfl) fun e he => (ih e he).2 (h.of_part (value_mem_parts he))
    rw [List.map_id'] at hentries
    exact hentries
  | link p name i => exact fun h => absurd (mem_parts_self _) (h p name i)

/-- Different anchors belong to different nodes, so there are no more of them than nodes. -/
theorem length_le_of_found {ids : List Nat} (hnodup : ids.Nodup)
    (hfound : ∀ i ∈ ids, ∃ m, root.find? i = some m) : ids.length ≤ root.parts.length := by
  -- each anchor is the anchor of a part
  have hsub : ids ⊆ root.parts.filterMap fun n => n.anchor.map (·.id) := by
    intro i hi
    obtain ⟨m, hm⟩ := hfound i hi
    obtain ⟨hpart, hid⟩ := find?_some root hm
    exact List.mem_filterMap.2 ⟨m, hpart, hid⟩
  calc ids.length
      ≤ (root.parts.filterMap fun n => n.anchor.map (·.id)).length := (hnodup.subperm hsub).length_le
    _ ≤ root.parts.length := List.length_filterMap_le _ _

/-- A node lies inside everything that is open: what it contains is contained there. -/
def Within (root : Node) (opened : List Nat) (n : Node) : Prop :=
  ∀ i ∈ opened, ∃ m, root.find? i = some m ∧ ∀ j, Contains root n j → Contains root m j

theorem Within.of_part {n m : Node} {opened : List Nat} (h : Within root opened n) (hm : m ∈ n.parts) :
    Within root opened m := by
  intro i hi
  obtain ⟨m', hfind, hsub⟩ := h i hi
  exact ⟨m', hfind, fun j hj => hsub j (hj.of_part hm)⟩

/-- What an alias refers to lies inside all that the alias does, and inside itself. -/
theorem Within.behind {p : Pos} {name : String} {i : Nat} {m : Node} {opened : List Nat}
    (h : Within root opened (.alias p name i)) (hfind : root.find? i = some m) :
    Within root (i :: opened) m := by
  refine List.forall_mem_cons.2 ⟨⟨m, hfind, fun _ hj => hj⟩, fun j hj => ?_⟩
  obtain ⟨m', hfind', hsub⟩ := h j hj
  exact ⟨m', hfind', fun l hl => hsub l (.behind (mem_parts_self _) hfind hl)⟩

/-- An alias inside everything that is open refers to none of it. -/
theorem Linked.not_mem_of_contains (hroot : root.Linked) {n : Node} {opened : List Nat}
    (hopen : Within root opened n) {i : Nat} (hi : Contains root n i) : i ∉ opened := by
  intro hmem
  obtain ⟨m, hm, hsub⟩ := hopen i hmem
  exact hroot.acyclic i m hm (hsub i hi)

/-- With as many nodes open as there are nodes, no alias is left: it would be one anchor more. -/
theorem Linked.aliasFree_of_within (hroot : root.Linked) {n : Node} {opened : List Nat} (hn : n ∈ root.parts)
    (hnodup : opened.Nodup) (hopen : Within root opened n) (hlen : root.parts.length ≤ opened.length) :
    n.AliasFree := by
  intro p name i hi
  have hfresh : i ∉ opened := hroot.not_mem_of_contains hopen (.here hi)
  obtain ⟨m, hm⟩ := hroot.closed p name i (parts_subset root hn hi)
  have hfound : ∀ j ∈ i :: opened, ∃ m, root.find? j = some m :=
    List.forall_mem_cons.2 ⟨⟨m, hm⟩, fun j hj => (hopen j hj).imp fun _ h => h.1⟩
  have hmore : (i :: opened).length ≤ root.parts.length :=
    length_le_of_found (List.nodup_cons.2 ⟨hfresh, hnodup⟩) hfound
  rw [List.length_cons] at hmore
  omega

/-- Unfolding replaces every alias if it goes as deep as there are anchors left. -/
theorem Linked.unfoldTo (hroot : root.Linked) :
    ∀ (depth : Nat) (n : Node) (opened : List Nat), n ∈ root.parts → opened.Nodup → Within root opened n →
      root.parts.length ≤ depth + opened.length →
      Unfolds root n (Node.unfoldTo root depth n) ∧ (Node.unfoldTo root depth n).AliasFree := by
  intro depth
  induction depth with
  | zero =>
    intro n opened hn hnodup hopen hdepth
    have hfree : n.AliasFree := hroot.aliasFree_of_within hn hnodup hopen (by omega)
    exact ⟨.of_aliasFree hfree, hfree⟩
  | succ depth ih =>
    intro n opened hn hnodup hopen hdepth
    simp only [Node.unfoldTo]
    -- The depth counts aliases only, so inside one level the induction is on the node.
    induction n using induct with
    | scalar =>
      rw [unfoldWith]
      exact ⟨.scalar, aliasFree_scalar⟩
    | list p a tag flow items ihitems =>
      have hitem : ∀ x ∈ items, _ := fun x hx =>
        ihitems x hx (parts_subset root hn (item_mem_parts hx)) (hopen.of_part (item_mem_parts hx))
      rw [unfoldWith, unfoldItems_eq_map]
      refine ⟨.list_map fun x hx => (hitem x hx).1, aliasFree_list fun y hy => ?_⟩
      obtain ⟨x, hx, rfl⟩ := List.mem_map.1 hy
      exact (hitem x hx).2
    | dict p a tag flow entries ihentries =>
      have hkey : ∀ e ∈ entries, _ := fun e he =>
        (ihentries e he).1 (parts_subset root hn (key_mem_parts he)) (hopen.of_part (key_mem_parts he))
      have hvalue : ∀ e ∈ entries, _ := fun e he =>
        (ihentries e he).2 (parts_subset root hn (value_mem_parts he)) (hopen.of_part (value_mem_parts he))
      have hplain : ∀ e ∈ entries, e.1.isAlias = false := hroot.keys p a tag flow entries hn
      rw [unfoldWith, unfoldEntries_eq_map]
      refine ⟨.dict_map (fun e he => (text_unfoldWith (hplain e he)).symm) fun e he => (hvalue e he).1,
        aliasFree_dict fun e' he' => ?_⟩
      obtain ⟨e, he, rfl⟩ := List.mem_map.1 he'
      exact ⟨(hkey e he).2, (hvalue e he).2⟩
    | link p name i =>
      obtain ⟨m, hm⟩ := hroot.closed p name i hn
      have hfresh : i ∉ opened := hroot.not_mem_of_contains hopen (.here (mem_parts_self _))
      obtain ⟨hunfolds, hfree⟩ := ih m (i :: opened) (find?_some root hm).1
        (List.nodup_cons.2 ⟨hfresh, hnodup⟩) (hopen.behind hm) (by rw [List.length_cons]; omega)
      rw [unfoldWith, hm]
      exact ⟨.behind hm hunfolds, hfree⟩

/-- A document whose aliases are in order has an unfolding, and no alias is left in it. -/
theorem Linked.unfolded (hroot : root.Linked) :
    Unfolds root root root.unfolded ∧ root.unfolded.AliasFree :=
  hroot.unfoldTo root.parts.length root [] (mem_parts_self root) List.nodup_nil
    (fun _ h => absurd h List.not_mem_nil) (by rw [List.length_nil]; omega)

/-! ## Brackets -/

theorem itemsInBrackets_eq_map (items : List Node) : itemsInBrackets items = items.map inBrackets := by
  induction items with
  | nil => rfl
  | cons n rest ih => rw [itemsInBrackets, ih, List.map_cons]

theorem entriesInBrackets_eq_map (entries : List (Node × Node)) :
    entriesInBrackets entries = entries.map fun e => (e.1.inBrackets, e.2.inBrackets) := by
  induction entries with
  | nil => rfl
  | cons e rest ih => rw [entriesInBrackets, entryInBrackets, ih, List.map_cons]

theorem text_inBrackets (n : Node) : n.inBrackets.text = n.text := by
  cases n using induct with
  | scalar | list | dict | link => rfl

/-- Brackets change nothing that an unfolding keeps. -/
theorem Unfolds.inBrackets (root : Node) {n : Node} :
    n.AliasFree → Unfolds root n n.inBrackets ∧ n.inBrackets.AliasFree := by
  induction n using induct with
  | scalar => exact fun h => ⟨.scalar, h⟩
  | link p name i => exact fun h => absurd (mem_parts_self _) (h p name i)
  | list p a tag flow items ih =>
    intro h
    have hitem : ∀ n ∈ items, _ := fun n hn => ih n hn (h.of_part (item_mem_parts hn))
    rw [Node.inBrackets, itemsInBrackets_eq_map]
    refine ⟨.list_map fun n hn => (hitem n hn).1, aliasFree_list fun m hm => ?_⟩
    obtain ⟨n, hn, rfl⟩ := List.mem_map.1 hm
    exact (hitem n hn).2
  | dict p a tag flow entries ih =>
    intro h
    have hkey : ∀ e ∈ entries, _ := fun e he => (ih e he).1 (h.of_part (key_mem_parts he))
    have hvalue : ∀ e ∈ entries, _ := fun e he => (ih e he).2 (h.of_part (value_mem_parts he))
    rw [Node.inBrackets, entriesInBrackets_eq_map]
    refine ⟨.dict_map (fun e _ => (text_inBrackets e.1).symm) fun e he => (hvalue e he).1,
      aliasFree_dict fun e' he' => ?_⟩
    obtain ⟨e, he, rfl⟩ := List.mem_map.1 he'
    exact ⟨(hkey e he).2, (hvalue e he).2⟩

/-! ## Deciding whether aliases are in order -/

/-- What contains an alias has one among its parts. -/
theorem Contains.exists_alias {n : Node} {i : Nat} (h : Contains root n i) :
    ∃ p name j, .alias p name j ∈ n.parts ∧ (j = i ∨ ∃ m, root.find? j = some m ∧ Contains root m i) := by
  cases h with
  | @here _ p name _ h => exact ⟨p, name, i, h, .inl rfl⟩
  | @behind _ m p name _ j h hfind hm => exact ⟨p, name, j, h, .inr ⟨m, hfind, hm⟩⟩

/-- What replaces an alias is part of what its node unfolds to. -/
theorem subset_parts_unfoldWith {follow : Nat → Option Node} {p : Pos} {name : String} {j : Nat} {m : Node}
    (hm : follow j = some m) {n : Node} :
    .alias p name j ∈ n.parts → m.parts ⊆ (unfoldWith follow n).parts := by
  induction n using induct with
  | scalar =>
    intro h
    cases mem_parts_scalar.1 h
  | list q a tag flow items ih =>
    intro h
    rcases mem_parts_list.1 h with h | ⟨x, hx, h⟩
    · cases h
    · rw [unfoldWith, unfoldItems_eq_map]
      exact fun y hy => parts_subset _ (item_mem_parts (List.mem_map_of_mem hx)) (ih x hx h hy)
  | dict q a tag flow entries ih =>
    intro h
    rw [unfoldWith, unfoldEntries_eq_map]
    rcases mem_parts_dict.1 h with h | ⟨e, he, h | h⟩
    · cases h
    · exact fun y hy => parts_subset _ (key_mem_parts (List.mem_map_of_mem he)) ((ih e he).1 h hy)
    · exact fun y hy => parts_subset _ (value_mem_parts (List.mem_map_of_mem he)) ((ih e he).2 h hy)
  | link q name' i =>
    intro h
    cases mem_parts_alias.1 h
    rw [unfoldWith, hm]
    exact fun y hy => hy

/-- A node that comes to one inside itself never unfolds. -/
theorem not_aliasFree_of_contains {i : Nat} {m : Node} (hfind : root.find? i = some m)
    (hm : Contains root m i) (depth : Nat) :
    ∀ {n : Node}, Contains root n i → ¬ (unfoldTo root depth n).AliasFree := by
  induction depth with
  | zero =>
    intro n hn hfree
    obtain ⟨p, name, j, hj, -⟩ := hn.exists_alias
    exact hfree p name j hj
  | succ depth ih =>
    intro n hn hfree
    obtain ⟨p, name, j, hj, hi⟩ := hn.exists_alias
    -- the alias leads on to a node that comes to the cycle too
    have hnext : ∃ m', root.find? j = some m' ∧ Contains root m' i := by
      rcases hi with rfl | hi
      · exact ⟨m, hfind, hm⟩
      · exact hi
    obtain ⟨m', hfind', hm'⟩ := hnext
    have hsub : (unfoldTo root depth m').parts ⊆ (unfoldTo root (depth + 1) n).parts :=
      subset_parts_unfoldWith (by rw [hfind']; rfl) hj
    exact ih hm' fun q name' l hl => hfree q name' l (hsub hl)

theorem aliasFree_iff {n : Node} : n.AliasFree ↔ (n.parts.all fun m => !m.isAlias) = true := by
  rw [List.all_eq_true]
  constructor
  · intro h m hm
    cases m using induct with
    | scalar | list | dict => rfl
    | link p name i => exact absurd hm (h p name i)
  · intro h p name i hm
    exact Bool.noConfusion (h _ hm)

instance {n : Node} : Decidable n.AliasFree := decidable_of_iff _ aliasFree_iff.symm

/-- Whether an alias refers to an anchor of the document, and the keys of a mapping are no aliases. -/
def refersWell (root : Node) : Node → Bool
  | .alias _ _ i => (root.find? i).isSome
  | .dict _ _ _ _ entries => entries.all fun e => !e.1.isAlias
  | _ => true

/-- Aliases are in order if each refers to an anchor, none is a key, and unfolding replaces them all. -/
theorem linked_iff : root.Linked ↔ (root.parts.all root.refersWell) = true ∧ root.unfolded.AliasFree := by
  constructor
  · intro h
    refine ⟨List.all_eq_true.2 fun n hn => ?_, h.unfolded.2⟩
    cases n using induct with
    | scalar | list => rfl
    | dict p a tag flow entries =>
      refine List.all_eq_true.2 fun e he => ?_
      rw [h.keys p a tag flow entries hn e he]
      rfl
    | link p name i =>
      obtain ⟨m, hm⟩ := h.closed p name i hn
      exact Option.isSome_iff_exists.2 ⟨m, hm⟩
  · rintro ⟨hall, hfree⟩
    have hwell := List.all_eq_true.1 hall
    refine ⟨fun p name i hi => Option.isSome_iff_exists.1 (hwell _ hi), ?_, ?_⟩
    · intro p a tag flow entries hn e he
      have hplain := List.all_eq_true.1 (hwell _ hn) e he
      rw [Bool.not_eq_true'] at hplain
      exact hplain
    · intro i m hfind hm
      exact not_aliasFree_of_contains hfind hm _ (hm.of_part (find?_some root hfind).1) hfree

instance : Decidable root.Linked := decidable_of_iff _ linked_iff.symm

end WhileLang.Yaml.Node
