import Mathlib.Logic.Equiv.Basic
import WhileLang.Proofs.Document.Decoding

/-!
# Renaming anchors

`Node.renamed ρ` renames the anchors of a document and the aliases that refer to them. An alias refers to its
node by a number, and its name is only used to speak of it, with one exception: where an alias stands as a
key, the text of the key is taken to be that name. A renaming that keeps these names (`KeepsKeys`) keeps all
that is read.

`Mirrors ρ f x y` relates the reader of a document to that of the renamed document. Both take the same steps;
a node that one comes to is the renamed node of the other, and an error of one is that of the other with the
name of the alias renamed.
-/

namespace WhileLang

/-! ## Renamed documents -/

namespace Yaml

/-- An anchor under a new name. -/
def Anchor.renamed (ρ : String → String) (a : Anchor) : Anchor := { a with name := ρ a.name }

namespace Node

mutual

/-- The node with all anchors renamed, and with them the aliases that refer to them. -/
def renamed (ρ : String → String) : Node → Node
  | .scalar p a tag text => .scalar p (a.map (Anchor.renamed ρ)) tag text
  | .list p a tag flow items => .list p (a.map (Anchor.renamed ρ)) tag flow (renamedItems ρ items)
  | .dict p a tag flow entries => .dict p (a.map (Anchor.renamed ρ)) tag flow (renamedEntries ρ entries)
  | .alias p name target => .alias p (ρ name) target

/-- The items of a list. -/
def renamedItems (ρ : String → String) : List Node → List Node
  | [] => []
  | n :: rest => renamed ρ n :: renamedItems ρ rest

/-- The keys and values of a mapping. -/
def renamedEntries (ρ : String → String) : List (Node × Node) → List (Node × Node)
  | [] => []
  | (k, v) :: rest => (renamed ρ k, renamed ρ v) :: renamedEntries ρ rest

end

/-- A renaming keeps the names of the aliases that stand as keys. -/
def KeepsKeys (ρ : String → String) (root : Node) : Prop :=
  ∀ p a tag flow entries, .dict p a tag flow entries ∈ root.parts →
    ∀ e ∈ entries, ∀ q name i, e.1 = .alias q name i → ρ name = name

variable {ρ : String → String}

theorem renamedItems_eq_map (items : List Node) : renamedItems ρ items = items.map (renamed ρ) := by
  induction items with
  | nil => rfl
  | cons n rest ih => rw [renamedItems, ih, List.map_cons]

theorem renamedEntries_eq_map (entries : List (Node × Node)) :
    renamedEntries ρ entries = entries.map fun e => (renamed ρ e.1, renamed ρ e.2) := by
  induction entries with
  | nil => rfl
  | cons e rest ih => rw [renamedEntries, ih, List.map_cons]

@[simp] theorem pos_renamed (n : Node) : (n.renamed ρ).pos = n.pos := by
  cases n <;> rfl

@[simp] theorem tag_renamed (n : Node) : (n.renamed ρ).tag = n.tag := by
  cases n <;> rfl

@[simp] theorem isAlias_renamed (n : Node) : (n.renamed ρ).isAlias = n.isAlias := by
  cases n <;> rfl

theorem text_renamed {n : Node} (h : ∀ p name i, n = .alias p name i → ρ name = name) :
    (n.renamed ρ).text = n.text := by
  cases n using induct with
  | scalar | list | dict => rfl
  | link p name i => exact h p name i rfl

theorem anchor_renamed (n : Node) : (n.renamed ρ).anchor.map (·.id) = n.anchor.map (·.id) := by
  cases n using induct with
  | scalar p a | list p a | dict p a =>
    cases a with
    | none | some => rfl
  | link => rfl

theorem findItem?_renamed {i : Nat} {items : List Node}
    (h : ∀ n ∈ items, (n.renamed ρ).find? i = (n.find? i).map (renamed ρ)) :
    findItem? i (items.map (renamed ρ)) = (findItem? i items).map (renamed ρ) := by
  induction items with
  | nil => rfl
  | cons n rest ih =>
    obtain ⟨hn, hrest⟩ := List.forall_mem_cons.1 h
    rw [List.map_cons, findItem?, findItem?, hn, ih hrest]
    cases n.find? i with
    | none | some => rfl

theorem findPair?_renamed {i : Nat} {entries : List (Node × Node)}
    (h : ∀ e ∈ entries, (e.1.renamed ρ).find? i = (e.1.find? i).map (renamed ρ) ∧
      (e.2.renamed ρ).find? i = (e.2.find? i).map (renamed ρ)) :
    findPair? i (entries.map fun e => (renamed ρ e.1, renamed ρ e.2)) =
      (findPair? i entries).map (renamed ρ) := by
  induction entries with
  | nil => rfl
  | cons e rest ih =>
    obtain ⟨⟨hkey, hval⟩, hrest⟩ := List.forall_mem_cons.1 h
    rw [List.map_cons, findPair?, findPair?, hkey, hval, ih hrest]
    cases e.1.find? i with
    | some => rfl
    | none =>
      cases e.2.find? i with
      | none | some => rfl

/-- Whether a renaming keeps the names of the keys of a mapping that are aliases. -/
def keepsKeys (ρ : String → String) : Node → Bool
  | .dict _ _ _ _ entries => entries.all fun e => !e.1.isAlias || ρ e.1.text == e.1.text
  | _ => true

theorem keepsKeys_iff {root : Node} : root.KeepsKeys ρ ↔ root.parts.all (keepsKeys ρ) = true := by
  rw [List.all_eq_true]
  constructor
  · intro h n hn
    cases n using induct with
    | scalar | list | link => rfl
    | dict p a tag flow entries =>
      refine List.all_eq_true.2 fun e he => ?_
      by_cases halias : e.1.isAlias = false
      · rw [halias]
        rfl
      · obtain ⟨q, name, i, hkey⟩ := exists_alias_of_isAlias halias
        rw [hkey, text, h p a tag flow entries hn e he q name i hkey, beq_self_eq_true, Bool.or_true]
  · intro h p a tag flow entries hmem e he q name i hkey
    have hkept := List.all_eq_true.1 (h _ hmem) e he
    rw [hkey] at hkept
    exact beq_iff_eq.1 hkept

instance {root : Node} : Decidable (root.KeepsKeys ρ) := decidable_of_iff _ keepsKeys_iff.symm

/-- Numbers find the renamed nodes. -/
theorem find?_renamed (i : Nat) (n : Node) : (n.renamed ρ).find? i = (n.find? i).map (renamed ρ) := by
  have here : ∀ n : Node, n.anchor.map (·.id) = some i → n.find? i = some n := by
    intro n hn
    unfold find?
    rw [if_pos hn]
  have hsame : ∀ n : Node, n.anchor.map (·.id) = some i →
      (n.renamed ρ).find? i = (n.find? i).map (renamed ρ) := by
    intro n hn
    rw [here n hn, here (n.renamed ρ) ((anchor_renamed n).trans hn)]
    rfl
  induction n using induct with
  | scalar p a tag text =>
    by_cases hn : (scalar p a tag text).anchor.map (·.id) = some i
    · exact hsame _ hn
    · unfold find?
      rw [anchor_renamed, if_neg hn, if_neg hn]
      rfl
  | list p a tag flow items ih =>
    by_cases hn : (list p a tag flow items).anchor.map (·.id) = some i
    · exact hsame _ hn
    · unfold find?
      rw [anchor_renamed, if_neg hn, if_neg hn]
      show findItem? i (renamedItems ρ items) = (findItem? i items).map (renamed ρ)
      rw [renamedItems_eq_map]
      exact findItem?_renamed ih
  | dict p a tag flow entries ih =>
    by_cases hn : (dict p a tag flow entries).anchor.map (·.id) = some i
    · exact hsame _ hn
    · unfold find?
      rw [anchor_renamed, if_neg hn, if_neg hn]
      show findPair? i (renamedEntries ρ entries) = (findPair? i entries).map (renamed ρ)
      rw [renamedEntries_eq_map]
      exact findPair?_renamed ih
  | link p name target => rfl

end Node

end Yaml

namespace Document

open Yaml (Node Pos Anchor)

/-- What is wrong, with the name of an alias renamed. -/
def Defect.renamed (ρ : String → String) : Defect → Defect
  | .selfReference name => .selfReference (ρ name)
  | .danglingAlias name => .danglingAlias (ρ name)
  | d => d

/-- An error, with the name of an alias renamed. -/
def Malformed.renamed (ρ : String → String) (e : Malformed) : Malformed :=
  { e with defect := e.defect.renamed ρ }

/-- The same document with its anchors renamed. -/
def Context.renamed (ρ : String → String) (cx : Context) : Context := { cx with root := cx.root.renamed ρ }

/-- Two readers take the same steps: what one returns the other does in its own terms, and the errors are the
same up to the names of aliases. -/
def Mirrors {α β : Type} (ρ : String → String) (f : α → β) (x : Decoding α) (y : Decoding β) : Prop :=
  ∀ k, y.run k = ((x.run k).map fun r => (f r.1, r.2)).mapError (Malformed.renamed ρ)

namespace Mirrors

variable {α β γ δ : Type} {ρ : String → String} {f : α → β} {g : γ → δ} {x : Decoding α} {y : Decoding β}

theorem pure {a : α} : Mirrors ρ f (pure a) (pure (f a)) := fun _ => rfl

theorem fail {cx : Context} {p : Pos} {d : Defect} :
    Mirrors ρ f (cx.fail p d) ((cx.renamed ρ).fail p (d.renamed ρ)) := fun _ => rfl

theorem bind {u : α → Decoding γ} {v : β → Decoding δ} (hxy : Mirrors ρ f x y)
    (huv : ∀ k a k', x.run k = .ok (a, k') → Mirrors ρ g (u a) (v (f a))) :
    Mirrors ρ g (x >>= u) (y >>= v) := by
  intro k
  rw [StateT.run_bind, StateT.run_bind, hxy k]
  rcases hx : x.run k with e | ⟨a, k'⟩
  · rfl
  · exact huv k a k' hx k'

theorem ite {c : Prop} [Decidable c] {x' : Decoding α} {y' : Decoding β} (hpos : c → Mirrors ρ f x y)
    (hneg : ¬ c → Mirrors ρ f x' y') : Mirrors ρ f (if c then x else x') (if c then y else y') := by
  by_cases hc : c
  · rw [if_pos hc, if_pos hc]
    exact hpos hc
  · rw [if_neg hc, if_neg hc]
    exact hneg hc

end Mirrors

namespace Context

variable {ρ : String → String} {cx : Context} {follow follow' : Follow} {opened : List Nat} {p : Pos}
  {key val : Node} {items : List Node} {entries : List (Node × Node)}

/-! ## Steps that follow no alias -/

/-- What is read at a scalar does not depend on its anchor. -/
theorem scalar_mirrors {n : Node} (hn : n.isAlias = false) :
    Mirrors ρ id (cx.scalar n) ((cx.renamed ρ).scalar (n.renamed ρ)) := by
  unfold scalar
  rw [Node.tag_renamed, Node.pos_renamed, Node.text_renamed (fun p name i h => by rw [h] at hn; cases hn)]
  generalize Yaml.Plain.resolve false n.text = r
  split
  · cases n using Node.induct with
    | scalar =>
      cases r with
      | int i => exact .ite (fun _ => .pure) fun _ => .fail
      | _ => exact .fail
    | _ => exact .fail
  · cases n using Node.induct with
    | scalar =>
      cases r with
      | bool b => exact .pure
      | _ => exact .fail
    | _ => exact .fail
  · exact .ite (fun _ => .pure) fun _ => .fail
  · exact .fail

theorem leaf_mirrors (hkey : (key.renamed ρ).text = key.text) (hval : val.isAlias = false) :
    Mirrors ρ id (cx.leaf key val) ((cx.renamed ρ).leaf (key.renamed ρ) (val.renamed ρ)) := by
  unfold leaf
  rw [hkey, Node.tag_renamed, Node.pos_renamed, Node.pos_renamed]
  split
  case h_1 | h_2 => exact .ite (fun _ => scalar_mirrors hval) fun _ => .fail
  case h_3 => exact .ite (fun _ => .pure) fun _ => .fail
  all_goals exact .fail

/-- The entries of a mapping, renamed. -/
def renamedEntry (ρ : String → String) (e : Node × Node) : Node × Node := (e.1.renamed ρ, e.2.renamed ρ)

/-- The texts of keys are kept. -/
def KeepsTexts (ρ : String → String) (entries : List (Node × Node)) : Prop :=
  ∀ e ∈ entries, (e.1.renamed ρ).text = e.1.text

theorem field?_renamed (hkeys : KeepsTexts ρ entries) (name : String) :
    field? name (entries.map (renamedEntry ρ)) = (field? name entries).map (Node.renamed ρ) := by
  induction entries with
  | nil => rfl
  | cons e rest ih =>
    obtain ⟨he, hrest⟩ := List.forall_mem_cons.1 hkeys
    have htext : (renamedEntry ρ e).1.text = e.1.text := he
    unfold field? at ih ⊢
    rw [List.map_cons, List.find?_cons, List.find?_cons, htext]
    split
    · rfl
    · exact ih hrest

theorem checkFields_mirrors (hkeys : KeepsTexts ρ entries) (form : String) (required optional : List String) :
    Mirrors ρ id (cx.checkFields p form required optional entries)
      ((cx.renamed ρ).checkFields p form required optional (entries.map (renamedEntry ρ))) := by
  have hknown : ∀ seen, Mirrors ρ id (checkFields.known cx form required optional seen entries)
      (checkFields.known (cx.renamed ρ) form required optional seen (entries.map (renamedEntry ρ))) := by
    induction entries with
    | nil => exact fun _ => .pure
    | cons e rest ih =>
      intro seen
      obtain ⟨he, hrest⟩ := List.forall_mem_cons.1 hkeys
      obtain ⟨key, val⟩ := e
      rw [List.map_cons, renamedEntry, checkFields.known, checkFields.known, he, Node.pos_renamed]
      exact .ite (fun _ => .fail) fun _ => .ite (fun _ => .fail) fun _ => ih hrest _
  have hpresent : ∀ name, ((entries.map (renamedEntry ρ)).any fun e => e.1.text == name) =
      entries.any fun e => e.1.text == name := by
    intro name
    have htexts : ((entries.map (renamedEntry ρ)).map fun e => e.1.text) = entries.map fun e => e.1.text := by
      rw [List.map_map]
      exact List.map_congr_left hkeys
    have hany := congrArg (fun texts : List String => texts.any (· == name)) htexts
    simp only [List.any_map] at hany ⊢
    exact hany
  unfold checkFields
  refine .bind (hknown []) fun _ _ _ _ => ?_
  simp only [hpresent]
  split
  · exact .fail
  · exact .pure

theorem resolve_mirrors {name : String} {i : Nat} :
    Mirrors ρ (Node.renamed ρ) (cx.resolve opened p name i)
      ((cx.renamed ρ).resolve opened p (ρ name) i) := by
  intro k
  have hfind : (cx.renamed ρ).root.find? i = (cx.root.find? i).map (Node.renamed ρ) :=
    Node.find?_renamed i cx.root
  rw [resolve_run, resolve_run, hfind]
  split
  · rfl
  · split
    · rfl
    · cases cx.root.find? i with
      | none | some => rfl

theorem nameAt_mirrors {n : Node} (hn : n.isAlias = false) :
    Mirrors ρ id (cx.nameAt opened n) ((cx.renamed ρ).nameAt opened (n.renamed ρ)) := by
  unfold nameAt
  cases n using Node.induct with
  | scalar q a tag text =>
    by_cases htag : tag = "!!str"
    · subst htag
      exact .pure
    · rw [Node.renamed]
      split
      · next heq =>
        cases heq
        exact absurd rfl htag
      · split
        · next heq =>
          cases heq
          exact absurd rfl htag
        · exact .fail
  | list | dict => exact .fail
  | link => cases hn

theorem assignName_mirrors (n : Node) :
    Mirrors ρ id (cx.assignName opened n) ((cx.renamed ρ).assignName opened (n.renamed ρ)) := by
  by_cases hn : n.isAlias = false
  · rw [assignName_here hn, assignName_here ((Node.isAlias_renamed n).trans hn)]
    exact nameAt_mirrors hn
  · obtain ⟨q, name, i, rfl⟩ := Node.exists_alias_of_isAlias hn
    rw [Node.renamed, assignName_alias, assignName_alias]
    refine .bind resolve_mirrors fun k m k' hm => nameAt_mirrors ?_
    obtain ⟨-, m', hfind, hr⟩ := resolve_ok hm
    cases hr
    exact Node.isAlias_of_find? hfind

/-! ## Nodes -/

/-- A node of a document and the renamed node are read alike, also where they are the body of a form. -/
structure NodeMirrors (ρ : String → String) (cx : Context) (follow follow' : Follow) (n : Node) : Prop where
  asNode : ∀ opened, Mirrors ρ id (node cx follow opened n)
    (node (cx.renamed ρ) follow' opened (n.renamed ρ))
  asBody : ∀ opened key, (key.renamed ρ).text = key.text → Mirrors ρ id (body cx follow opened key n)
    (body (cx.renamed ρ) follow' opened (key.renamed ρ) (n.renamed ρ))

theorem trees_mirrors (h : ∀ n ∈ items, NodeMirrors ρ cx follow follow' n) :
    Mirrors ρ id (trees cx follow opened items)
      (trees (cx.renamed ρ) follow' opened (items.map (Node.renamed ρ))) := by
  induction items with
  | nil =>
    rw [List.map_nil, trees, trees]
    exact .pure
  | cons n rest ih =>
    obtain ⟨hn, hrest⟩ := List.forall_mem_cons.1 h
    rw [List.map_cons, trees, trees]
    exact .bind (hn.asNode opened) fun _ t _ _ => .bind (ih hrest) fun _ ts _ _ => .pure

theorem sequence_mirrors (h : ∀ n ∈ items, NodeMirrors ρ cx follow follow' n) :
    ∀ span, Mirrors ρ id (sequence cx follow opened span items)
      (sequence (cx.renamed ρ) follow' opened span (items.map (Node.renamed ρ))) := by
  induction items with
  | nil =>
    intro span
    rw [List.map_nil, sequence, sequence]
    exact .pure
  | cons n rest ih =>
    intro span
    obtain ⟨hn, hrest⟩ := List.forall_mem_cons.1 h
    cases rest with
    | nil =>
      rw [List.map_cons, List.map_nil, sequence, sequence]
      exact hn.asNode opened
    | cons m rest =>
      rw [List.map_cons, List.map_cons, sequence, sequence, Node.pos_renamed]
      exact .bind (hn.asNode opened) fun _ t _ _ => .bind (ih hrest _) fun _ u _ _ => .pure

theorem field_mirrors (hkeys : KeepsTexts ρ entries) (h : ∀ e ∈ entries, NodeMirrors ρ cx follow follow' e.2)
    (opened : List Nat) (form name : String) :
    Mirrors ρ id (field cx follow opened p form name entries)
      (field (cx.renamed ρ) follow' opened p form name (entries.map (renamedEntry ρ))) := by
  rw [field_eq, field_eq, field?_renamed hkeys]
  cases hv : field? name entries with
  | none => exact .fail
  | some v =>
    obtain ⟨e, he, -, rfl⟩ := mem_of_field? hv
    exact (h e he).asNode opened

theorem body_list_mirrors {a : Option Anchor} {tag : String} {flow : Bool}
    (h : ∀ n ∈ items, NodeMirrors ρ cx follow follow' n) (hkey : (key.renamed ρ).text = key.text) :
    Mirrors ρ id (body cx follow opened key (.list p a tag flow items))
      (body (cx.renamed ρ) follow' opened (key.renamed ρ) ((Node.list p a tag flow items).renamed ρ)) := by
  have hleaf : Mirrors ρ id (cx.leaf key (.list p a tag flow items))
      ((cx.renamed ρ).leaf (key.renamed ρ) ((Node.list p a tag flow items).renamed ρ)) := leaf_mirrors hkey rfl
  rw [Node.renamed, Node.renamedItems_eq_map] at hleaf ⊢
  have hlength : (items.map (Node.renamed ρ)).length = items.length := List.length_map _
  rcases hop : op? key.text with _ | op
  · by_cases hseq : key.text = "seq"
    · rw [body_list_seq hseq, body_list_seq (hkey.trans hseq), Node.pos_renamed, List.isEmpty_map]
      exact .ite (fun _ => hleaf) fun _ => sequence_mirrors h _
    · rw [body_list_leaf hseq hop, body_list_leaf (hkey ▸ hseq) (hkey ▸ hop)]
      exact hleaf
  · by_cases hlen : items.length = 2
    · rw [body_list_op hop hlen, body_list_op (hkey ▸ hop) (hlength.trans hlen), Node.pos_renamed]
      refine .bind (trees_mirrors h) fun _ ts _ _ => ?_
      simp only [id]
      split
      · exact .pure
      · exact hleaf
    · rw [body_list_op_count hop hlen, body_list_op_count (hkey ▸ hop) (hlength ▸ hlen)]
      exact hleaf

theorem body_dict_mirrors {a : Option Anchor} {tag : String} {flow : Bool} (hkeys : KeepsTexts ρ entries)
    (h : ∀ e ∈ entries, NodeMirrors ρ cx follow follow' e.2) (hkey : (key.renamed ρ).text = key.text) :
    Mirrors ρ id (body cx follow opened key (.dict p a tag flow entries))
      (body (cx.renamed ρ) follow' opened (key.renamed ρ) ((Node.dict p a tag flow entries).renamed ρ)) := by
  have hleaf : Mirrors ρ id (cx.leaf key (.dict p a tag flow entries))
      ((cx.renamed ρ).leaf (key.renamed ρ) ((Node.dict p a tag flow entries).renamed ρ)) :=
    leaf_mirrors hkey rfl
  have hentries : Node.renamedEntries ρ entries = entries.map (renamedEntry ρ) :=
    Node.renamedEntries_eq_map entries
  have hfield := fun opened form name => field_mirrors (p := p) hkeys h opened form name
  rw [Node.renamed, hentries] at hleaf ⊢
  by_cases hassign : key.text = "assign"
  · rw [body_dict_assign hassign, body_dict_assign (hkey.trans hassign), Node.pos_renamed,
      field?_renamed hkeys]
    refine .bind (checkFields_mirrors hkeys _ _ _) fun _ _ _ _ => ?_
    cases field? "name" entries with
    | none => exact .fail
    | some n =>
      exact .bind (assignName_mirrors n) fun _ r _ _ => .bind (hfield r.2 _ _) fun _ v _ _ => .pure
  by_cases hif : key.text = "if"
  · rw [body_dict_if hif, body_dict_if (hkey.trans hif), Node.pos_renamed, field?_renamed hkeys,
      Option.isSome_map]
    refine .bind (checkFields_mirrors hkeys _ _ _) fun _ _ _ _ => ?_
    refine .bind (hfield opened _ _) fun _ c _ _ => .bind (hfield opened _ _) fun _ t _ _ => ?_
    exact .ite (fun _ => .bind (hfield opened _ _) fun _ e _ _ => .pure) fun _ => .pure
  by_cases hwhile : key.text = "while"
  · rw [body_dict_while hwhile, body_dict_while (hkey.trans hwhile), Node.pos_renamed]
    refine .bind (checkFields_mirrors hkeys _ _ _) fun _ _ _ _ => ?_
    exact .bind (hfield opened _ _) fun _ c _ _ => .bind (hfield opened _ _) fun _ b _ _ => .pure
  by_cases hnothing : key.text = "do-nothing"
  · rw [body_dict_nothing hnothing, body_dict_nothing (hkey.trans hnothing), Node.pos_renamed,
      List.isEmpty_map]
    exact .ite (fun _ => .pure) fun _ => hleaf
  · rw [body_dict_leaf hassign hif hwhile hnothing, body_dict_leaf (hkey ▸ hassign) (hkey ▸ hif)
      (hkey ▸ hwhile) (hkey ▸ hnothing)]
    exact hleaf

theorem keepsTexts_of_mem {a : Option Anchor} {tag : String} {flow : Bool} (hkeys : cx.root.KeepsKeys ρ)
    (hmem : .dict p a tag flow entries ∈ cx.root.parts) : KeepsTexts ρ entries :=
  fun e he => Node.text_renamed (hkeys p a tag flow entries hmem e he)

/-- An alias is followed to the same node, which is a node of the document. -/
theorem resolve_bind_mirrors {α : Type} {name : String} {i : Nat} {u v : Node → Decoding α}
    (h : ∀ m ∈ cx.root.parts, Mirrors ρ id (u m) (v (m.renamed ρ))) :
    Mirrors ρ id (cx.resolve opened p name i >>= u) ((cx.renamed ρ).resolve opened p (ρ name) i >>= v) := by
  refine .bind resolve_mirrors fun k m k' hm => h m ?_
  obtain ⟨-, m', hfind, hr⟩ := resolve_ok hm
  cases hr
  exact (Node.find?_some _ hfind).1

theorem node_mirrors_step (hkeys : cx.root.KeepsKeys ρ)
    (hnode : ∀ opened, ∀ m ∈ cx.root.parts,
      Mirrors ρ id (follow.node opened m) (follow'.node opened (m.renamed ρ)))
    (hbody : ∀ opened key, (key.renamed ρ).text = key.text → ∀ m ∈ cx.root.parts,
      Mirrors ρ id (follow.body opened key m) (follow'.body opened (key.renamed ρ) (m.renamed ρ))) (n : Node) :
    n ∈ cx.root.parts → NodeMirrors ρ cx follow follow' n := by
  induction n using Node.induct with
  | scalar p a tag text =>
    intro _
    refine ⟨fun opened => ?_, fun opened key hkey => ?_⟩
    · rw [Node.renamed, node, node]
      exact scalar_mirrors rfl
    · rw [Node.renamed]
      by_cases hvar : key.text = "var" ∧ tag = "!!str"
      · obtain ⟨hvar, rfl⟩ := hvar
        rw [body_scalar_var hvar, body_scalar_var (hkey.trans hvar), Node.pos_renamed]
        exact .pure
      · rw [body_scalar_leaf hvar, body_scalar_leaf (hkey ▸ hvar)]
        exact leaf_mirrors hkey rfl
  | list p a tag flow items ih =>
    intro hmem
    have hitems : ∀ n ∈ items, NodeMirrors ρ cx follow follow' n :=
      fun n hn => ih n hn (Node.parts_subset _ hmem (Node.item_mem_parts hn))
    refine ⟨fun opened => ?_, fun opened key hkey => body_list_mirrors hitems hkey⟩
    rw [Node.renamed, node, node]
    exact .fail
  | dict p a tag flow entries ih =>
    intro hmem
    have htexts : KeepsTexts ρ entries := keepsTexts_of_mem hkeys hmem
    have hentries : ∀ e ∈ entries, NodeMirrors ρ cx follow follow' e.2 :=
      fun e he => (ih e he).2 (Node.parts_subset _ hmem (Node.value_mem_parts he))
    refine ⟨fun opened => ?_, fun opened key hkey => body_dict_mirrors htexts hentries hkey⟩
    rw [Node.renamed, Node.renamedEntries_eq_map, node, node]
    rcases entries with _ | ⟨e, _ | ⟨e', rest⟩⟩
    · exact .fail
    · rw [List.map_cons, List.map_nil, form, form, entry, entry]
      exact (hentries e List.mem_cons_self).asBody opened e.1 (htexts e List.mem_cons_self)
    · show Mirrors ρ id (cx.fail p (.formCount (rest.length + 2)))
        ((cx.renamed ρ).fail p (.formCount ((rest.map _).length + 2)))
      rw [List.length_map]
      exact .fail
  | link p name i =>
    intro _
    refine ⟨fun opened => ?_, fun opened key hkey => ?_⟩
    · rw [Node.renamed, node, node]
      exact resolve_bind_mirrors (hnode (i :: opened))
    · rw [Node.renamed, body, body]
      exact resolve_bind_mirrors (hbody (i :: opened) key hkey)

/-- All nodes of a document and of the renamed document are read alike. -/
theorem node_mirrors (hkeys : cx.root.KeepsKeys ρ) (depth : Nat) :
    ∀ n ∈ cx.root.parts, NodeMirrors ρ cx (cx.followTo depth) ((cx.renamed ρ).followTo depth) n := by
  induction depth with
  | zero =>
    refine node_mirrors_step hkeys (fun opened m _ => ?_) fun opened key _ m _ => ?_
    · show Mirrors ρ id (cx.fail m.pos .tooManyAliases) ((cx.renamed ρ).fail (m.renamed ρ).pos _)
      rw [Node.pos_renamed]
      exact .fail
    · show Mirrors ρ id (cx.fail m.pos .tooManyAliases) ((cx.renamed ρ).fail (m.renamed ρ).pos _)
      rw [Node.pos_renamed]
      exact .fail
  | succ depth ih =>
    exact node_mirrors_step hkeys (fun opened m hm => (ih m hm).asNode opened)
      fun opened key hkey m hm => (ih m hm).asBody opened key hkey

/-! ## Documents -/

theorem bindings_mirrors (hkeys : cx.root.KeepsKeys ρ) (htexts : KeepsTexts ρ entries)
    (hmem : ∀ e ∈ entries, e.2 ∈ cx.root.parts) :
    ∀ acc, Mirrors ρ id (cx.bindings opened entries acc)
      ((cx.renamed ρ).bindings opened (entries.map (renamedEntry ρ)) acc) := by
  induction entries with
  | nil =>
    intro acc
    rw [List.map_nil, bindings, bindings]
    exact .pure
  | cons e rest ih =>
    intro acc
    obtain ⟨key, val⟩ := e
    obtain ⟨hkey, hrest⟩ := List.forall_mem_cons.1 htexts
    obtain ⟨hval, hvals⟩ := List.forall_mem_cons.1 hmem
    rw [List.map_cons, renamedEntry, bindings, bindings, hkey, Node.pos_renamed, Node.pos_renamed]
    refine .ite (fun _ => .fail) fun _ => .ite (fun _ => .fail) fun _ => ?_
    refine .bind ((node_mirrors hkeys _ val hval).asNode opened) fun _ t _ _ => ?_
    simp only [id]
    split
    · exact ih hrest hvals _
    · exact .fail

theorem envAt_mirrors (hkeys : cx.root.KeepsKeys ρ) {n : Node} (hmem : n ∈ cx.root.parts)
    (hn : n.isAlias = false) :
    Mirrors ρ id (cx.envAt opened n) ((cx.renamed ρ).envAt opened (n.renamed ρ)) := by
  cases n using Node.induct with
  | scalar p a tag text => exact .ite (fun _ => .pure) fun _ => .fail
  | list => exact .fail
  | dict p a tag flow entries =>
    rw [Node.renamed, Node.renamedEntries_eq_map]
    refine .bind (bindings_mirrors hkeys (keepsTexts_of_mem hkeys hmem) (fun e he => ?_) [])
      fun _ l _ _ => .pure
    exact Node.parts_subset _ hmem (Node.value_mem_parts he)
  | link => cases hn

theorem env_mirrors (hkeys : cx.root.KeepsKeys ρ) {n : Node} (hmem : n ∈ cx.root.parts) :
    Mirrors ρ id (cx.env n) ((cx.renamed ρ).env (n.renamed ρ)) := by
  by_cases hn : n.isAlias = false
  · rw [env_here hn, env_here ((Node.isAlias_renamed n).trans hn)]
    exact envAt_mirrors hkeys hmem hn
  · obtain ⟨q, name, i, rfl⟩ := Node.exists_alias_of_isAlias hn
    rw [Node.renamed, env_alias, env_alias]
    refine .bind resolve_mirrors fun k m k' hm => ?_
    obtain ⟨-, m', hfind, hr⟩ := resolve_ok hm
    cases hr
    exact envAt_mirrors hkeys (Node.find?_some _ hfind).1 (Node.isAlias_of_find? hfind)

/-- A document and the renamed document are read alike. -/
theorem document_mirrors (hkeys : cx.root.KeepsKeys ρ) :
    Mirrors ρ id cx.document (cx.renamed ρ).document := by
  by_cases hdict : ∃ p a tag flow entries, cx.root = .dict p a tag flow entries
  · obtain ⟨p, a, tag, flow, entries, hroot⟩ := hdict
    have hroot' : (cx.renamed ρ).root =
        .dict p (a.map (Anchor.renamed ρ)) tag flow (entries.map (renamedEntry ρ)) := by
      show cx.root.renamed ρ = _
      rw [hroot, Node.renamed, Node.renamedEntries_eq_map]
      rfl
    have hmem : .dict p a tag flow entries ∈ cx.root.parts := hroot ▸ Node.mem_parts_self _
    have htexts : KeepsTexts ρ entries := keepsTexts_of_mem hkeys hmem
    have hvalue : ∀ {name n}, field? name entries = some n → n ∈ cx.root.parts := by
      intro name n hn
      obtain ⟨e, he, -, rfl⟩ := mem_of_field? hn
      exact Node.parts_subset _ hmem (Node.value_mem_parts he)
    have henv : Mirrors ρ id (cx.envField entries)
        ((cx.renamed ρ).envField (entries.map (renamedEntry ρ))) := by
      unfold envField
      rw [field?_renamed htexts]
      cases hm : field? "env" entries with
      | none => exact .pure
      | some m => exact env_mirrors hkeys (hvalue hm)
    rw [document_dict hroot, document_dict hroot', field?_renamed htexts]
    refine .bind (checkFields_mirrors htexts _ _ _) fun _ _ _ _ => .bind henv fun _ e _ _ => ?_
    cases hn : field? "program" entries with
    | none => exact .fail
    | some n => exact .bind ((node_mirrors hkeys _ n (hvalue hn)).asNode []) fun _ t _ _ => .pure
  · have hroot : (cx.renamed ρ).root = cx.root.renamed ρ := rfl
    unfold document
    rw [hroot]
    generalize cx.root = root at hdict
    cases root using Node.induct with
    | scalar | list | link => exact .fail
    | dict => exact absurd ⟨_, _, _, _, _, rfl⟩ hdict

/-- The names of anchors carry no meaning, except as the texts of keys that are aliases. A renaming that keeps
those leaves everything else as it is: the renamed document is read with success exactly if the document is,
to the same environment, program and number of aliases, and fails with the same error in terms of the new
names. -/
theorem document_renamed (ρ : String → String) (cx : Context) (hkeys : cx.root.KeepsKeys ρ) :
    (∀ doc k, (cx.renamed ρ).document.run 0 = .ok (doc, k) ↔ cx.document.run 0 = .ok (doc, k)) ∧
      ∀ e, cx.document.run 0 = .error e → (cx.renamed ρ).document.run 0 = .error (e.renamed ρ) := by
  have hrun := document_mirrors hkeys 0
  constructor
  · intro doc k
    rw [hrun]
    rcases cx.document.run 0 with e | ⟨doc', k'⟩
    · simp [Except.map, Except.mapError]
    · simp [Except.map, Except.mapError]
  · intro e he
    rw [hrun, he]
    rfl

/-- A document with aliases for a value of the environment, for a name and for an assigned value. -/
def labelled : Context where
  file := "labelled.yaml"
  root := .ofFields false [
    ("env", .ofFields true [("x", .scalar Node.nowhere (some ⟨0, "one"⟩) "!!int" "1"),
      ("y", .alias Node.nowhere "one" 0)]),
    ("program", .ofFields true [("seq", .ofList true [
      .ofFields true [("var", .scalar Node.nowhere (some ⟨1, "place"⟩) "!!str" "x")],
      .ofFields true [("assign", .ofFields true [("name", .alias Node.nowhere "place" 1),
        ("value", .alias Node.nowhere "one" 0)])]])])]

/-- Its anchors may swap their names. -/
theorem document_renamed_swap :
    labelled.root.KeepsKeys (Equiv.swap "one" "place") ∧ ∃ doc k,
      labelled.document.run 0 = .ok (doc, k) ∧
        (labelled.renamed (Equiv.swap "one" "place")).document.run 0 = .ok (doc, k) := by
  have hkeys : labelled.root.KeepsKeys (Equiv.swap "one" "place") := by decide +kernel
  have hok : (labelled.document.run 0).isOk = true := by decide +kernel
  rcases hrun : labelled.document.run 0 with e | ⟨doc, k⟩
  · rw [hrun] at hok
    cases hok
  · exact ⟨hkeys, doc, k, rfl, ((document_renamed _ labelled hkeys).1 doc k).2 hrun⟩

/-- A document that assigns to `x` and binds a name to two, with an alias for the name `x` as its key. -/
def keyed : Context where
  file := "keyed.yaml"
  root := .ofFields false [
    ("program", .ofFields true [("assign", .ofFields true [
      ("name", .scalar Node.nowhere (some ⟨0, "n"⟩) "!!str" "x"), ("value", .ofInt 1)])]),
    ("env", .dict Node.nowhere none "!!map" true [(.alias Node.nowhere "n" 0, .ofInt 2)])]

/-- It binds the name of the anchor, and another one if the anchor is renamed. -/
theorem keyed_by_anchor :
    Function.Injective (Equiv.swap "n" "m") ∧
      (∃ doc k, keyed.document.run 0 = .ok (doc, k) ∧ doc.env.names = ["n"]) ∧
      ∃ doc k, (keyed.renamed (Equiv.swap "n" "m")).document.run 0 = .ok (doc, k) ∧
        doc.env.names = ["m"] := by
  refine ⟨(Equiv.swap "n" "m").injective, ⟨_, _, rfl, ?_⟩, ⟨_, _, rfl, ?_⟩⟩
  · decide +kernel
  · decide +kernel

end Context

end Document

end WhileLang
