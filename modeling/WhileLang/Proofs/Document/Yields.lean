import WhileLang.Proofs.Document.Decoding
import WhileLang.Proofs.Env

/-!
# What reading can return

`Yields cx P x` says that all results of a reader have a property, and that the reader complains of nothing but
nodes of the document. A property that holds of a complete tree whenever it holds of its parts (`Tree.Grown`)
holds of all trees that are read, whatever aliases are followed on the way, because reading only ever makes
complete trees, and puts each where a node of the document is. The names of an environment that is read are not
empty.
-/

namespace WhileLang

/-- The property holds of a tree that stands in a good place, with all its children, if it holds of these. -/
structure Tree.Grown (Good : Span → Prop) (P : Tree → Prop) : Prop where
  num : ∀ s n, Good s → P (.num s n)
  bool : ∀ s b, Good s → P (.bool s b)
  nothing : ∀ s, Good s → P (.nothing s)
  var : ∀ s name, Good s → P (.var s name)
  binary : ∀ s op l r, Good s → P l → P r → P (.binary s op l r)
  assign : ∀ s name v, Good s → P v → P (.assign s name v)
  ite : ∀ s c t e, Good s → P c → P t → P e → P (.ite s c t e)
  seq : ∀ s a b, Good s → P a → P b → P (.seq s a b)
  loop : ∀ s c b, Good s → P c → P b → P (.loop s c b)

namespace Document

open Yaml (Node Pos Anchor)

/-- The span of a node of the document. -/
def Context.IsPlace (cx : Context) (s : Span) : Prop := ∃ n ∈ cx.root.parts, s = cx.span n.pos

theorem Context.isPlace_span {cx : Context} {n : Node} (h : n ∈ cx.root.parts) : cx.IsPlace (cx.span n.pos) :=
  ⟨n, h, rfl⟩

/-- All results of a reader have a property, and its complaints are about nodes of the document. -/
def Yields {α : Type} (cx : Context) (P : α → Prop) (x : Decoding α) : Prop :=
  ∀ k, (∀ a k', x.run k = .ok (a, k') → P a) ∧ ∀ e, x.run k = .error e → ∃ s, cx.IsPlace s ∧ e.span = some s

namespace Yields

variable {α β : Type} {cx : Context} {P Q : α → Prop} {R : β → Prop} {x y : Decoding α} {f : α → Decoding β}

theorem pure {a : α} (h : P a) : Yields cx P (pure a) := by
  refine fun k => ⟨fun b k' hb => ?_, fun e he => ?_⟩
  · cases hb
    exact h
  · cases he

/-- A complaint about a node of the document. -/
theorem fail {p : Pos} {d : Defect} (h : cx.IsPlace (cx.span p)) : Yields cx P (cx.fail p d) := by
  refine fun k => ⟨fun a k' ha => ?_, fun e he => ?_⟩
  · cases ha
  · cases he
    exact ⟨_, h, rfl⟩

theorem bind (hx : Yields cx P x) (hf : ∀ a, P a → Yields cx R (f a)) : Yields cx R (x >>= f) := by
  refine fun k => ⟨fun b k' h => ?_, fun e h => ?_⟩
  · obtain ⟨a, k₁, ha, hb⟩ := Decoding.bind_ok.1 h
    exact (hf a ((hx k).1 a k₁ ha) k₁).1 b k' hb
  · rcases Decoding.bind_error.1 h with h | ⟨a, k₁, ha, h⟩
    · exact (hx k).2 e h
    · exact (hf a ((hx k).1 a k₁ ha) k₁).2 e h

theorem ite {c : Prop} [Decidable c] (hpos : c → Yields cx P x) (hneg : ¬ c → Yields cx P y) :
    Yields cx P (if c then x else y) := by
  by_cases hc : c
  · rw [if_pos hc]
    exact hpos hc
  · rw [if_neg hc]
    exact hneg hc

end Yields

namespace Context

variable {cx : Context} {follow : Follow} {opened : List Nat} {p : Pos} {P : Tree → Prop}
  {items : List Node} {entries : List (Node × Node)}

/-- An alias leads to a node of the document. -/
theorem resolve_yields {name : String} {i : Nat} (hp : cx.IsPlace (cx.span p)) :
    Yields cx (fun m => m ∈ cx.root.parts) (cx.resolve opened p name i) := by
  refine fun k => ⟨fun m k' h => ?_, fun e h => ?_⟩
  · obtain ⟨-, m', hfind, heq⟩ := resolve_ok h
    cases heq
    exact (Node.find?_some cx.root hfind).1
  · rw [resolve_run] at h
    have hspan : e.span = some (cx.span p) := by
      repeat' split at h
      all_goals cases h
      all_goals rfl
    exact ⟨_, hp, hspan⟩

/-- The entries of a mapping of the document are nodes of the document. -/
def EntriesIn (cx : Context) (entries : List (Node × Node)) : Prop :=
  ∀ e ∈ entries, e.1 ∈ cx.root.parts ∧ e.2 ∈ cx.root.parts

theorem entriesIn_of_mem {a : Option Anchor} {tag : String} {flow : Bool}
    (h : .dict p a tag flow entries ∈ cx.root.parts) : cx.EntriesIn entries :=
  fun _ he => ⟨Node.parts_subset _ h (Node.key_mem_parts he), Node.parts_subset _ h (Node.value_mem_parts he)⟩

theorem mem_parts_of_field? {name : String} {v : Node} (hin : cx.EntriesIn entries)
    (h : field? name entries = some v) : v ∈ cx.root.parts := by
  obtain ⟨e, he, -, rfl⟩ := mem_of_field? h
  exact (hin e he).2

/-- What is wrong with the fields of a mapping is told of a key or of the mapping. -/
theorem checkFields_yields {form : String} {required optional : List String} (hp : cx.IsPlace (cx.span p))
    (hin : cx.EntriesIn entries) :
    Yields cx (fun _ => True) (cx.checkFields p form required optional entries) := by
  have hknown : ∀ seen,
      Yields cx (fun _ => True) (checkFields.known cx form required optional seen entries) := by
    induction entries with
    | nil => exact fun seen => .pure trivial
    | cons e rest ih =>
      intro seen
      obtain ⟨he, hrest⟩ := List.forall_mem_cons.1 hin
      rw [checkFields.known]
      refine .ite (fun _ => .fail (isPlace_span he.1)) fun _ => ?_
      exact .ite (fun _ => .fail (isPlace_span he.1)) fun _ => ih hrest _
  unfold checkFields
  refine .bind (hknown []) fun _ _ => ?_
  split
  · exact .fail hp
  · exact .pure trivial

/-- An alias for a name is followed before the name is looked at. -/
theorem assignName_yields {n : Node} (hn : n ∈ cx.root.parts) :
    Yields cx (fun _ => True) (cx.assignName opened n) := by
  have hname : ∀ opened n, n ∈ cx.root.parts → Yields cx (fun _ => True) (cx.nameAt opened n) := by
    intro opened n hn
    unfold nameAt
    split
    · exact .pure trivial
    · exact .fail (isPlace_span hn)
  by_cases halias : n.isAlias = false
  · rw [assignName_here halias]
    exact hname opened n hn
  · obtain ⟨p, name, i, rfl⟩ := Node.exists_alias_of_isAlias halias
    rw [assignName_alias]
    exact .bind (resolve_yields (isPlace_span hn)) fun m hm => hname _ m hm

/-! ## Trees -/

section Trees

variable (hP : Tree.Grown cx.IsPlace P)

include hP

theorem scalar_yields {n : Node} (hn : n ∈ cx.root.parts) : Yields cx P (cx.scalar n) := by
  have hplace : cx.IsPlace (cx.span n.pos) := isPlace_span hn
  unfold scalar
  split
  · split
    · exact .ite (fun _ => .pure (hP.num _ _ hplace)) fun _ => .fail hplace
    · exact .fail hplace
  · split
    · exact .pure (hP.bool _ _ hplace)
    · exact .fail hplace
  · exact .ite (fun _ => .pure (hP.nothing _ hplace)) fun _ => .fail hplace
  · exact .fail hplace

theorem leaf_yields {key val : Node} (hkey : key ∈ cx.root.parts) (hval : val ∈ cx.root.parts) :
    Yields cx P (cx.leaf key val) := by
  have hplace : ∀ d, Yields cx P (cx.fail val.pos d) := fun d => .fail (isPlace_span hval)
  unfold leaf
  split
  case h_1 | h_2 => exact .ite (fun _ => scalar_yields hP hval) fun _ => hplace _
  case h_3 => exact .ite (fun _ => .pure (hP.nothing _ (isPlace_span hkey))) fun _ => hplace _
  case h_12 => exact .fail (isPlace_span hkey)
  all_goals exact hplace _

omit hP in
/-- All trees that are read at a node have a property, also where the node is the body of a form. -/
structure NodeYields (P : Tree → Prop) (cx : Context) (follow : Follow) (n : Node) : Prop where
  asNode : ∀ opened, Yields cx P (node cx follow opened n)
  asBody : ∀ opened key, key ∈ cx.root.parts → Yields cx P (body cx follow opened key n)

omit hP in
theorem trees_yields (h : ∀ n ∈ items, NodeYields P cx follow n) :
    Yields cx (fun ts => ∀ t ∈ ts, P t) (trees cx follow opened items) := by
  induction items with
  | nil =>
    rw [trees]
    exact .pure (List.forall_mem_nil P)
  | cons n rest ih =>
    obtain ⟨hn, hrest⟩ := List.forall_mem_cons.1 h
    rw [trees]
    exact .bind (hn.asNode opened) fun t ht => .bind (ih hrest) fun ts hts =>
      .pure (List.forall_mem_cons.2 ⟨ht, hts⟩)

theorem sequence_yields (hitems : ∀ n ∈ items, n ∈ cx.root.parts)
    (h : ∀ n ∈ items, NodeYields P cx follow n) :
    ∀ span, cx.IsPlace span → Yields cx P (sequence cx follow opened span items) := by
  induction items with
  | nil =>
    intro span hspan
    rw [sequence]
    exact .pure (hP.nothing span hspan)
  | cons n rest ih =>
    intro span hspan
    obtain ⟨hn, hrest⟩ := List.forall_mem_cons.1 h
    cases rest with
    | nil =>
      rw [sequence]
      exact hn.asNode opened
    | cons m rest =>
      obtain ⟨-, hin⟩ := List.forall_mem_cons.1 hitems
      rw [sequence]
      refine .bind (hn.asNode opened) fun t ht => .bind (ih hin hrest _ ?_) fun u hu => ?_
      · exact isPlace_span (hin m List.mem_cons_self)
      · exact .pure (hP.seq span t u hspan ht hu)

omit hP in
theorem field_yields (hp : cx.IsPlace (cx.span p)) (h : ∀ e ∈ entries, NodeYields P cx follow e.2)
    (form name : String) : Yields cx P (field cx follow opened p form name entries) := by
  rw [field_eq]
  split
  · next v hv =>
    obtain ⟨e, he, -, rfl⟩ := mem_of_field? hv
    exact (h e he).asNode opened
  · exact .fail hp

theorem body_list_yields {a : Option Anchor} {tag : String} {flow : Bool} {key : Node}
    (hkey : key ∈ cx.root.parts) (hval : .list p a tag flow items ∈ cx.root.parts)
    (h : ∀ n ∈ items, NodeYields P cx follow n) :
    Yields cx P (body cx follow opened key (.list p a tag flow items)) := by
  have hleaf : Yields cx P (cx.leaf key (.list p a tag flow items)) := leaf_yields hP hkey hval
  have hplace : cx.IsPlace (cx.span key.pos) := isPlace_span hkey
  have hitems : ∀ n ∈ items, n ∈ cx.root.parts :=
    fun n hn => Node.parts_subset _ hval (Node.item_mem_parts hn)
  rcases hop : op? key.text with _ | op
  · by_cases hseq : key.text = "seq"
    · rw [body_list_seq hseq]
      exact .ite (fun _ => hleaf) fun _ => sequence_yields hP hitems h _ hplace
    · rw [body_list_leaf hseq hop]
      exact hleaf
  · by_cases hlen : items.length = 2
    · rw [body_list_op hop hlen]
      refine .bind (trees_yields h) fun ts hts => ?_
      split
      · next l r => exact .pure (hP.binary _ op l r hplace (hts l (by simp)) (hts r (by simp)))
      · exact hleaf
    · rw [body_list_op_count hop hlen]
      exact hleaf

theorem body_dict_yields {a : Option Anchor} {tag : String} {flow : Bool} {key : Node}
    (hkey : key ∈ cx.root.parts) (hval : .dict p a tag flow entries ∈ cx.root.parts)
    (h : ∀ e ∈ entries, NodeYields P cx follow e.2) :
    Yields cx P (body cx follow opened key (.dict p a tag flow entries)) := by
  have hleaf : Yields cx P (cx.leaf key (.dict p a tag flow entries)) := leaf_yields hP hkey hval
  have hplace : cx.IsPlace (cx.span key.pos) := isPlace_span hkey
  have hp : cx.IsPlace (cx.span p) := isPlace_span hval
  have hin : cx.EntriesIn entries := entriesIn_of_mem hval
  have hfield : ∀ opened form name, Yields cx P (field cx follow opened p form name entries) :=
    fun opened form name => field_yields hp h form name
  by_cases hassign : key.text = "assign"
  · rw [body_dict_assign hassign]
    refine .bind (checkFields_yields hp hin) fun _ _ => ?_
    split
    · exact .fail hp
    · next n hn =>
      refine .bind (assignName_yields (mem_parts_of_field? hin hn)) fun r _ => ?_
      exact .bind (hfield r.2 _ _) fun v hv => .pure (hP.assign _ r.1 v hplace hv)
  by_cases hif : key.text = "if"
  · rw [body_dict_if hif]
    refine .bind (checkFields_yields hp hin) fun _ _ => .bind (hfield opened _ _) fun c hc =>
      .bind (hfield opened _ _) fun t ht => ?_
    refine .ite (fun _ => ?_) fun _ => ?_
    · exact .bind (hfield opened _ _) fun e he => .pure (hP.ite _ c t e hplace hc ht he)
    · -- the branch that is left out stands where the form does
      exact .pure (hP.ite _ c t _ hplace hc ht (hP.nothing _ hplace))
  by_cases hwhile : key.text = "while"
  · rw [body_dict_while hwhile]
    refine .bind (checkFields_yields hp hin) fun _ _ => .bind (hfield opened _ _) fun c hc =>
      .bind (hfield opened _ _) fun b hb => ?_
    exact .pure (hP.loop _ c b hplace hc hb)
  by_cases hnothing : key.text = "do-nothing"
  · rw [body_dict_nothing hnothing]
    exact .ite (fun _ => .pure (hP.nothing _ hplace)) fun _ => hleaf
  · rw [body_dict_leaf hassign hif hwhile hnothing]
    exact hleaf

/-- What holds of all trees behind the aliases that are followed holds of all trees that are read. -/
theorem node_yields_step (hnode : ∀ opened n, n ∈ cx.root.parts → Yields cx P (follow.node opened n))
    (hbody : ∀ opened key n, key ∈ cx.root.parts → n ∈ cx.root.parts → Yields cx P (follow.body opened key n))
    (n : Node) : n ∈ cx.root.parts → NodeYields P cx follow n := by
  induction n using Node.induct with
  | scalar p a tag text =>
    refine fun hn => ⟨fun opened => ?_, fun opened key hkey => ?_⟩
    · rw [node]
      exact scalar_yields hP hn
    · by_cases hvar : key.text = "var" ∧ tag = "!!str"
      · obtain ⟨hform, rfl⟩ := hvar
        rw [body_scalar_var hform]
        exact .pure (hP.var _ _ (isPlace_span hkey))
      · rw [body_scalar_leaf hvar]
        exact leaf_yields hP hkey hn
  | list p a tag flow items ih =>
    refine fun hn => ⟨fun opened => ?_, fun opened key hkey => ?_⟩
    · rw [node]
      exact .fail (isPlace_span hn)
    · have hitems : ∀ m ∈ items, NodeYields P cx follow m :=
        fun m hm => ih m hm (Node.parts_subset _ hn (Node.item_mem_parts hm))
      exact body_list_yields hP hkey hn hitems
  | dict p a tag flow entries ih =>
    intro hn
    have hin : cx.EntriesIn entries := entriesIn_of_mem hn
    have hvalues : ∀ e ∈ entries, NodeYields P cx follow e.2 := fun e he => (ih e he).2 (hin e he).2
    refine ⟨fun opened => ?_, fun opened key hkey => body_dict_yields hP hkey hn hvalues⟩
    rw [node]
    unfold form
    split
    · next e =>
      rw [entry]
      have he := List.mem_singleton_self e
      exact (hvalues e he).asBody opened e.1 (hin e he).1
    · exact .fail (isPlace_span hn)
  | link p name i =>
    refine fun hn => ⟨fun opened => ?_, fun opened key hkey => ?_⟩
    · rw [node]
      exact .bind (resolve_yields (isPlace_span hn)) fun m hm => hnode _ m hm
    · rw [body]
      exact .bind (resolve_yields (isPlace_span hn)) fun m hm => hbody _ key m hkey hm

theorem node_yields (depth : Nat) (n : Node) : n ∈ cx.root.parts → NodeYields P cx (cx.followTo depth) n := by
  induction depth generalizing n with
  | zero =>
    exact node_yields_step hP (fun _ _ hn => .fail (isPlace_span hn))
      (fun _ _ _ _ hn => .fail (isPlace_span hn)) n
  | succ depth ih =>
    exact node_yields_step hP (fun _ n hn => (ih n hn).asNode _)
      (fun _ _ n hkey hn => (ih n hn).asBody _ _ hkey) n

theorem tree_yields {n : Node} (hn : n ∈ cx.root.parts) : Yields cx P (cx.tree opened n) :=
  (node_yields hP _ n hn).asNode opened

end Trees

/-! ## Documents -/

section Documents

/-- No name is empty. -/
def Named (l : List (String × Value)) : Prop := ∀ b ∈ l, b.1 ≠ ""

variable (hP : Tree.Grown cx.IsPlace P)

include hP

theorem bindings_yields :
    ∀ acc, Named acc → cx.EntriesIn entries → Yields cx Named (cx.bindings opened entries acc) := by
  induction entries with
  | nil =>
    intro acc hacc _
    rw [bindings]
    exact .pure fun b hb => hacc b (List.mem_reverse.1 hb)
  | cons e rest ih =>
    intro acc hacc hin
    obtain ⟨key, val⟩ := e
    obtain ⟨⟨hkey, hval⟩, hrest⟩ := List.forall_mem_cons.1 hin
    rw [bindings]
    refine .ite (fun _ => .fail (isPlace_span hkey)) fun hname => ?_
    refine .ite (fun _ => .fail (isPlace_span hkey)) fun _ => .bind (tree_yields hP hval) fun t _ => ?_
    split
    · exact ih _ (List.forall_mem_cons.2 ⟨fun h => hname (beq_iff_eq.2 h), hacc⟩) hrest
    · exact .fail (isPlace_span hval)

theorem envAt_yields {n : Node} (hn : n ∈ cx.root.parts) :
    Yields cx (fun e => Named e.bindings) (cx.envAt opened n) := by
  unfold envAt
  split
  · exact .ite (fun _ => .pure (List.forall_mem_nil _)) fun _ => .fail (isPlace_span hn)
  · have hin := entriesIn_of_mem hn
    refine .bind (bindings_yields hP [] (List.forall_mem_nil _) hin) fun l hl => .pure fun b hb => ?_
    exact hl b (Env.mem_of_mem_ofList hb)
  · exact .fail (isPlace_span hn)

theorem env_yields {n : Node} (hn : n ∈ cx.root.parts) : Yields cx (fun e => Named e.bindings) (cx.env n) := by
  by_cases halias : n.isAlias = false
  · rw [env_here halias]
    exact envAt_yields hP hn
  · obtain ⟨p, name, i, rfl⟩ := Node.exists_alias_of_isAlias halias
    rw [env_alias]
    exact .bind (resolve_yields (isPlace_span hn)) fun m hm => envAt_yields hP hm

/-- A document that is read binds no empty name, and its program has what holds of all trees that are read. -/
theorem document_yields :
    Yields cx (fun doc : Document => doc.file = cx.file ∧ Named doc.env.bindings ∧ P doc.program)
      cx.document := by
  have hroot : cx.root ∈ cx.root.parts := Node.mem_parts_self cx.root
  by_cases hdict : ∃ p a tag flow entries, cx.root = .dict p a tag flow entries
  · obtain ⟨p, a, tag, flow, entries, heq⟩ := hdict
    have hdict : .dict p a tag flow entries ∈ cx.root.parts := heq ▸ hroot
    have hp : cx.IsPlace (cx.span p) := isPlace_span hdict
    have hin : cx.EntriesIn entries := entriesIn_of_mem hdict
    have henv : Yields cx (fun e : Env => Named e.bindings) (cx.envField entries) := by
      unfold envField
      split
      · next n hn => exact env_yields hP (mem_parts_of_field? hin hn)
      · exact .pure (List.forall_mem_nil _)
    rw [document_dict heq]
    refine .bind (checkFields_yields hp hin) fun _ _ => .bind henv fun e he => ?_
    split
    · next n hn =>
      exact .bind (tree_yields hP (mem_parts_of_field? hin hn)) fun t ht => .pure ⟨rfl, he, ht⟩
    · exact .fail hp
  · unfold document
    split
    · next heq => exact absurd ⟨_, _, _, _, _, heq⟩ hdict
    · exact .fail (isPlace_span hroot)

end Documents

end Context

end Document

end WhileLang
