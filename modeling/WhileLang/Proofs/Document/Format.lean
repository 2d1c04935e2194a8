import WhileLang.Document.Source
import WhileLang.Host.Basic
import WhileLang.Proofs.Document.RoundTrip
import WhileLang.Proofs.Document.Yields

/-!
# Formatting twice

Formatting a text writes the canonical text of the document that it holds. Aliases, bodies in brackets, forms
that can be left out and the order of fields are gone then, but everything that the writer looks at is read
back: a tree that was read is complete, so filling it changes nothing, and its node does not depend on
positions.

Parsing is not opened here. `Node.readsBack` says of one node that the text written for it is parsed to the
same node (`Node.same`), and the canonical node of the document is all that this is asked of.
-/

namespace WhileLang

/-! ## Nodes that are read back -/

namespace Yaml

/-- A text in memory. -/
def Source.ofText (text : String) : Source := .ofBytes (Bytes.ofText text)

namespace Node

mutual

/-- The same kinds, tags, texts and content; positions, anchors and brackets do not count. -/
def same : Node → Node → Bool
  | .scalar _ _ tag text, .scalar _ _ tag' text' => tag == tag' && text == text'
  | .list _ _ tag _ items, .list _ _ tag' _ items' => tag == tag' && sameItems items items'
  | .dict _ _ tag _ entries, .dict _ _ tag' _ entries' => tag == tag' && sameEntries entries entries'
  | .alias _ name i, .alias _ name' i' => name == name' && i == i'
  | _, _ => false

/-- The items of two lists. -/
def sameItems : List Node → List Node → Bool
  | [], [] => true
  | n :: rest, n' :: rest' => same n n' && sameItems rest rest'
  | _, _ => false

/-- The keys and values of two mappings. -/
def sameEntries : List (Node × Node) → List (Node × Node) → Bool
  | [], [] => true
  | (k, v) :: rest, (k', v') :: rest' => same k k' && same v v' && sameEntries rest rest'
  | _, _ => false

end

/-- The text that is written for a node is parsed to the same node. -/
def readsBack (n : Node) : Bool :=
  match parse (.ofText (n.render false)) with
  | .ok ⟨some m, _⟩ => n.same m
  | _ => false

theorem exists_of_readsBack {n : Node} (h : n.readsBack = true) :
    ∃ m commented, parse (.ofText (n.render false)) = .ok ⟨some m, commented⟩ ∧ n.same m = true := by
  unfold readsBack at h
  split at h
  · next m commented hparse => exact ⟨m, commented, hparse, h⟩
  · cases h

theorem text_eq_of_same {n n' : Node} (h : n.same n' = true) : n.text = n'.text := by
  cases n <;> cases n' <;> simp_all [same, text]

theorem sameItems_iff {items items' : List Node} :
    sameItems items items' = true ↔ List.Forall₂ (fun n n' => n.same n' = true) items items' := by
  induction items generalizing items' with
  | nil => cases items' <;> simp [sameItems]
  | cons n rest ih => cases items' <;> simp [sameItems, ih]

theorem sameEntries_iff {entries entries' : List (Node × Node)} :
    sameEntries entries entries' = true ↔
      List.Forall₂ (fun e e' => e.1.same e'.1 = true ∧ e.2.same e'.2 = true) entries entries' := by
  induction entries generalizing entries' with
  | nil => cases entries' <;> simp [sameEntries]
  | cons e rest ih => cases entries' <;> simp [sameEntries, ih]

/-- A node without aliases unfolds to every node that is the same. -/
theorem unfolds_of_same {root n : Node} (hfree : n.AliasFree) :
    ∀ {n' : Node}, n.same n' = true → Unfolds root n n' := by
  induction n using induct with
  | scalar p a tag text =>
    intro n' h
    cases n' using induct with
    | scalar q b tag' text' =>
      rw [same, Bool.and_eq_true, beq_iff_eq, beq_iff_eq] at h
      rw [h.1, h.2]
      exact .scalar
    | list | dict | link => cases h
  | list p a tag flow items ih =>
    intro n' h
    cases n' using induct with
    | list q b tag' flow' items' =>
      rw [same, Bool.and_eq_true, beq_iff_eq] at h
      obtain ⟨hlen, hitems⟩ := List.forall₂_iff_zip.1 (sameItems_iff.1 h.2)
      rw [h.1]
      refine .list hlen fun x y hxy => ?_
      have hx : x ∈ items := (List.of_mem_zip hxy).1
      exact ih x hx (hfree.of_part (item_mem_parts hx)) (hitems hxy)
    | scalar | dict | link => cases h
  | dict p a tag flow entries ih =>
    intro n' h
    cases n' using induct with
    | dict q b tag' flow' entries' =>
      rw [same, Bool.and_eq_true, beq_iff_eq] at h
      obtain ⟨hlen, hentries⟩ := List.forall₂_iff_zip.1 (sameEntries_iff.1 h.2)
      rw [h.1]
      refine .dict hlen (fun x y hxy => text_eq_of_same (hentries hxy).1) fun x y hxy => ?_
      have hx : x ∈ entries := (List.of_mem_zip hxy).1
      exact (ih x hx).2 (hfree.of_part (value_mem_parts hx)) (hentries hxy).2
    | scalar | list | link => cases h
  | link p name i => exact absurd (mem_parts_self _) (hfree p name i)

end Node

end Yaml

/-! ## What the writer looks at -/

namespace Tree

/-- A tree is written as it is without its positions. -/
theorem statementNodes_unplaced (t : Tree) : t.unplaced.statementNodes = t.statementNodes := by
  have hexpression : ∀ t : Tree, t.unplaced.isExpression = t.isExpression := fun t => by cases t <;> rfl
  have helse : ∀ t : Tree, t.unplaced.isElse = t.isElse := fun t => by cases t <;> rfl
  induction t with
  | absent | num | bool | nothing | var => rfl
  | binary s op l r ihl ihr => simp only [unplaced, statementNodes, ihl, ihr]
  | assign s name v ih => simp only [unplaced, statementNodes, ih, hexpression]
  | ite s c t e ihc iht ihe => simp only [unplaced, statementNodes, ihc, iht, ihe, helse]
  | seq s a b iha ihb => simp only [unplaced, statementNodes, iha, ihb]
  | loop s c b ihc ihb => simp only [unplaced, statementNodes, ihc, ihb]

theorem toNode_unplaced (t : Tree) : t.unplaced.toNode = t.toNode :=
  congrArg ofStatements t.statementNodes_unplaced

/-- Trees that are read have nothing to fill. -/
theorem grown_filled (Good : Span → Prop) : Grown Good fun t => t.filled = t where
  num _ _ _ := rfl
  bool _ _ _ := rfl
  nothing _ _ := rfl
  var _ _ _ := rfl
  binary s op l r _ hl hr := by rw [filled, hl, hr]
  assign s name v _ hv := by rw [filled, hv]
  ite s c t e _ hc ht he := by rw [filled, hc, ht, he]
  seq s a b _ ha hb := by rw [filled, ha, hb]
  loop s c b _ hc hb := by rw [filled, hc, hb]

end Tree

namespace Document

open Yaml (Node)

/-- A document is written as every other that is equal up to positions. -/
theorem toNode_congr {doc doc' : Document} (henv : doc.env.same doc'.env = true)
    (hprogram : doc.program.unplaced = doc'.program.unplaced) : doc.toNode = doc'.toNode := by
  have hbindings : ∀ e : Env, e.bindings.map (fun b => (b.1, b.2.toNode)) =
      (Bindings.unplaced e.bindings).map fun b => (b.1, b.2.toNode) := by
    intro e
    rw [Bindings.unplaced, List.map_map]
    refine List.map_congr_left fun b _ => ?_
    obtain ⟨name, v⟩ := b
    cases v with
    | num | bool => rfl
  have hsame := Env.unplaced_of_same henv
  have hsize : doc.env.size = doc'.env.size := by
    have hlen := congrArg List.length hsame
    simpa [Bindings.unplaced, Env.size] using hlen
  have htree : doc.program.toNode = doc'.program.toNode := by
    rw [← doc.program.toNode_unplaced, hprogram, doc'.program.toNode_unplaced]
  unfold toNode
  rw [hbindings doc.env, hbindings doc'.env, hsame, hsize, htree]

/-! ## The second time -/

/-- A text is decoded if it holds a document that is read. -/
theorem decode_ok {file : String} {source : Yaml.Source} {doc : Document} :
    decode file source = .ok doc ↔ ∃ root commented k, Yaml.parse source = .ok ⟨some root, commented⟩ ∧
      (Context.document ⟨file, root⟩).run 0 = .ok (doc, k) := by
  unfold decode read
  rcases Yaml.parse source with e | ⟨_ | root, commented⟩
  · simp [throw, throwThe, MonadExceptOf.throw]
  · simp [throw, throwThe, MonadExceptOf.throw]
  · have hparsed : ∀ root' commented', (Except.ok ⟨some root, commented⟩ : Yaml.Result Yaml.Parsed) =
        .ok ⟨some root', commented'⟩ ↔ root' = root ∧ commented' = commented := by
      intro root' commented'
      simp [eq_comm]
    simp only [hparsed]
    rcases hrun : (Context.document ⟨file, root⟩).run 0 with e | ⟨doc', k⟩
    · constructor
      · intro h
        cases h
      · rintro ⟨root, _, _, ⟨rfl, -⟩, h⟩
        rw [hrun] at h
        cases h
    · constructor
      · intro h
        cases h
        exact ⟨root, commented, k, ⟨rfl, rfl⟩, hrun⟩
      · rintro ⟨root, _, _, ⟨rfl, -⟩, h⟩
        rw [hrun] at h
        cases h
        rfl

theorem formatSource_of_decode {file : String} {source : Yaml.Source} {doc : Document}
    (h : decode file source = .ok doc) : formatSource file source = .ok doc.encode := by
  unfold formatSource ofSource
  rw [h]
  rfl

/-- The node of a document is made of its fields, so it has no aliases. -/
theorem aliasFree_toNode (doc : Document) : doc.toNode.AliasFree := by
  have hprogram : doc.program.toNode.AliasFree := (toNode_writes doc.program).free
  have henv : (Node.ofFields false (doc.env.bindings.map fun b => (b.1, b.2.toNode))).AliasFree := by
    refine Writes.free_ofFields fun f hf => ?_
    obtain ⟨⟨name, v⟩, -, rfl⟩ := List.mem_map.1 hf
    cases v with
    | num | bool => exact Node.aliasFree_scalar
  refine Writes.free_ofFields fun f hf => ?_
  rcases List.mem_append.1 hf with hf | hf
  · split at hf
    · exact absurd hf List.not_mem_nil
    · rw [List.mem_singleton.1 hf]
      exact henv
  · rw [List.mem_singleton.1 hf]
    exact hprogram

/-- The canonical text of a document that was read is decoded to the same document. -/
theorem decode_encode {file : String} {source : Yaml.Source} {doc : Document}
    (hdoc : decode file source = .ok doc) (hback : doc.toNode.readsBack = true) :
    ∃ doc', decode file (.ofText doc.encode) = .ok doc' ∧ doc.env.same doc'.env = true ∧
      doc.program.unplaced = doc'.program.unplaced := by
  obtain ⟨root, commented, k, -, hrun⟩ := decode_ok.1 hdoc
  obtain ⟨-, hnames, hfilled⟩ := (Context.document_yields (Tree.grown_filled _) 0).1 doc k hrun
  -- the node that was written is read to the same document
  have hwritten : (Context.mk file doc.toNode).root = doc.toNode := rfl
  obtain ⟨doc₁, hrun₁, henv₁, hprogram₁⟩ := Context.document_toNode hwritten hnames 0
  rw [hfilled] at hprogram₁
  -- and so is the one that comes back
  obtain ⟨m, commented', hparse, hsame⟩ := Node.exists_of_readsBack hback
  have hagree : Agree Context.DocumentsAlike (Context.mk file doc.toNode).document
      (Context.mk file m).document :=
    Context.document_agree (Node.unfolds_of_same (aliasFree_toNode doc) hsame)
  obtain ⟨doc₂, hrun₂, henv₂, hprogram₂⟩ := (hagree 0 0).1 doc₁ 0 hrun₁
  refine ⟨doc₂, decode_ok.2 ⟨m, commented', 0, hparse, hrun₂⟩, ?_, ?_⟩
  · apply Env.same_of_unplaced
    rw [Env.unplaced_of_same henv₁, Env.unplaced_of_same henv₂]
  · rw [← hprogram₂]
    exact hprogram₁.symm

/-- Formatting reaches a fixed point and loses nothing. -/
theorem format_stable {file : String} {source : Yaml.Source} {doc : Document}
    (hdoc : decode file source = .ok doc) (hback : doc.toNode.readsBack = true) :
    ∃ text doc', formatSource file source = .ok text ∧ decode file (.ofText text) = .ok doc' ∧
      doc.env.same doc'.env = true ∧ doc.program.unplaced = doc'.program.unplaced ∧
      formatSource file (.ofText text) = .ok text := by
  obtain ⟨doc', hdoc', henv, hprogram⟩ := decode_encode hdoc hback
  refine ⟨doc.encode, doc', formatSource_of_decode hdoc, hdoc', henv, hprogram, ?_⟩
  have hencode : doc'.encode = doc.encode := by
    unfold encode
    rw [toNode_congr henv hprogram]
  rw [formatSource_of_decode hdoc', hencode]

/-- A text with an alias, a form that can be left out, and fields in another order than they are written in.
-/
def untidy : String :=
  "env:\n  x: &one\n    num: 1\nprogram:\n  assign:\n    value: *one\n    name: y\n"

/-- This text is formatted, and its format is left as it is. -/
theorem format_stable_untidy :
    ∃ doc, decode "untidy.yaml" (.ofText untidy) = .ok doc ∧ doc.toNode.readsBack = true ∧
      ∃ text doc', formatSource "untidy.yaml" (.ofText untidy) = .ok text ∧
        decode "untidy.yaml" (.ofText text) = .ok doc' ∧ doc.env.same doc'.env = true ∧
        doc.program.unplaced = doc'.program.unplaced ∧
        formatSource "untidy.yaml" (.ofText text) = .ok text := by
  have hback : (decode "untidy.yaml" (.ofText untidy)).toOption.any (·.toNode.readsBack) = true := by
    decide +kernel
  rcases hdoc : decode "untidy.yaml" (.ofText untidy) with e | doc
  · rw [hdoc] at hback
    cases hback
  · rw [hdoc] at hback
    exact ⟨doc, rfl, hback, format_stable hdoc hback⟩

end Document

end WhileLang
