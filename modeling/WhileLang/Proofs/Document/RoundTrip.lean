import WhileLang.Document.Encode
import WhileLang.Proofs.Document.Agree
import WhileLang.Proofs.Yaml.Plain

/-!
# Reading what was written

Writing leaves out what reading puts back: the right nesting of sequences, an `else` that does nothing, an
empty environment. It also writes `do-nothing` where nothing stands, so a tree comes back *filled*
(`Tree.filled`), and otherwise as it was, up to positions.

`Writes n t` says that a node stands for a tree: every reader makes this tree of it. There is one lemma for
each form, in terms of what stands for the parts, and `statementNodes_writes` puts them together along the
tree.
-/

namespace WhileLang

/-- The tree with `do-nothing` wherever nothing stands. -/
def Tree.filled : Tree → Tree
  | .absent => .nothing Span.none
  | .num s n => .num s n
  | .bool s b => .bool s b
  | .nothing s => .nothing s
  | .binary s op l r => .binary s op l.filled r.filled
  | .var s name => .var s name
  | .assign s name v => .assign s name v.filled
  | .ite s c t e => .ite s c.filled t.filled e.filled
  | .seq s a b => .seq s a.filled b.filled
  | .loop s c b => .loop s c.filled b.filled

namespace Document

open Yaml (Node Pos Anchor)
open Yaml.Node (Unfolds)

/-- A reader succeeds with a tree, up to positions, and counts no alias. -/
def Makes (x : Decoding Tree) (t : Tree) : Prop := ∀ k, ∃ t', x.run k = .ok (t', k) ∧ Alike t' t

/-- A node stands for a tree: it has no aliases, and every reader makes the tree of it. -/
structure Writes (n : Node) (t : Tree) : Prop where
  free : n.AliasFree
  read : ∀ cx follow opened, Makes (Context.node cx follow opened n) t

/-- Nodes stand for a tree as the statements of a sequence. -/
structure WritesAll (ns : List Node) (t : Tree) : Prop where
  nonempty : ns ≠ []
  free : ∀ n ∈ ns, n.AliasFree
  read : ∀ cx follow opened span, Makes (Context.sequence cx follow opened span ns) t

namespace Makes

/-- What a reader makes is handed on. -/
theorem bind {x : Decoding Tree} {f : Tree → Decoding Tree} {t u : Tree} (hx : Makes x t)
    (hf : ∀ t', Alike t' t → Makes (f t') u) : Makes (x >>= f) u := by
  intro k
  obtain ⟨t', ht', halike⟩ := hx k
  obtain ⟨u', hu', halike'⟩ := hf t' halike k
  exact ⟨u', Decoding.bind_ok.2 ⟨t', k, ht', hu'⟩, halike'⟩

/-- A step that only looks is passed over. -/
theorem after {α : Type} {x : Decoding α} {a : α} {f : α → Decoding Tree} {t : Tree}
    (hx : ∀ k, x.run k = .ok (a, k)) (h : Makes (f a) t) : Makes (x >>= f) t := by
  intro k
  obtain ⟨t', ht', halike⟩ := h k
  exact ⟨t', Decoding.bind_ok.2 ⟨a, k, hx k, ht'⟩, halike⟩

theorem pure {t t' : Tree} (h : Alike t' t) : Makes (pure t') t :=
  fun _ => ⟨t', rfl, h⟩

end Makes

namespace Context

variable {cx : Context} {follow : Follow} {opened : List Nat} {p : Pos}

/-- Fields with these names are in order. -/
theorem checkFields_names {form : String} {required optional : List String} {fields : List (String × Node)}
    (names : List String) (hnames : fields.map (·.1) = names)
    (hok : names.Nodup ∧ (∀ n ∈ names, n ∈ required ∨ n ∈ optional) ∧ ∀ n ∈ required, n ∈ names)
    (k : Nat) :
    (cx.checkFields p form required optional (fields.map fun f => (Node.ofString f.1, f.2))).run k =
      .ok ((), k) := by
  obtain ⟨hnodup, hknown, hrequired⟩ := hok
  have htexts : (fields.map fun f => (Node.ofString f.1, f.2)).map (fun e => e.1.text) = names := by
    rw [List.map_map, ← hnames]
    rfl
  refine checkFields_ok.2 ⟨rfl, ⟨htexts ▸ hnodup, fun e he => hknown _ ?_⟩, fun name hname => ?_⟩
  · rw [← htexts]
    exact List.mem_map_of_mem he
  · have hmem := hrequired name hname
    rw [← htexts, List.mem_map] at hmem
    exact hmem

theorem field_makes {form name : String} {entries : List (Node × Node)} {v : Node} {t : Tree}
    (hv : field? name entries = some v) (h : Writes v t) :
    Makes (field cx follow opened p form name entries) t := by
  rw [field_eq, hv]
  exact h.read cx follow opened

end Context

/-! ## One lemma for each form -/

namespace Writes

variable {s : Span}

theorem num (n : Int64) : Writes (Node.ofInt n.toInt) (.num s n) := by
  refine ⟨Node.aliasFree_scalar, fun cx follow opened => ?_⟩
  have hfits := Text.fits64_toInt n
  have hresolve := Yaml.Plain.resolve_toString hfits
  rw [Node.ofInt, Context.node]
  simp only [Context.scalar, Node.tag, Node.text, hresolve, hfits, if_true, Int64.ofInt_toInt]
  exact .pure rfl

theorem bool (b : Bool) : Writes (Node.ofBool b) (.bool s b) := by
  refine ⟨Node.aliasFree_scalar, fun cx follow opened => ?_⟩
  cases b with
  | false => exact .pure rfl
  | true => exact .pure rfl

theorem nothing : Writes (Node.ofString "do-nothing") (.nothing s) :=
  ⟨Node.aliasFree_scalar, fun _ _ _ => .pure rfl⟩

/-- A mapping with one key stands for what its body is read as. -/
theorem form {form : String} {val : Node} {t : Tree} (hfree : val.AliasFree)
    (hbody : ∀ cx follow opened, Makes (Context.body cx follow opened (.ofString form) val) t) :
    Writes (Tree.formNode form val) t :=
  ⟨Node.aliasFree_dict (List.forall_mem_singleton.2 ⟨Node.aliasFree_scalar, hfree⟩), hbody⟩

/-- Brackets do not matter. -/
theorem inBrackets {n : Node} {t : Tree} (h : Writes n t) : Writes n.inBrackets t := by
  refine ⟨(Unfolds.inBrackets n h.free).2, fun cx follow opened k => ?_⟩
  obtain ⟨t', ht', halike⟩ := h.read cx (cx.followTo 0) [] 0
  -- a node without aliases unfolds to itself in brackets, and is read like its unfolding
  have hagree : Context.NodeAgree cx n n.inBrackets :=
    (Context.Unfolds.agree (Unfolds.inBrackets cx.root h.free).1).1
  obtain ⟨u, hu, halike'⟩ := (hagree 0 [] cx follow opened 0 k).1 t' 0 ht'
  exact ⟨u, hu, halike'.symm.trans halike⟩

theorem var (name : String) : Writes (Tree.formNode "var" (Node.ofString name)) (.var s name) := by
  refine form Node.aliasFree_scalar fun cx follow opened => ?_
  show Makes (Context.body cx follow opened (.ofString "var") (.scalar Node.nowhere none "!!str" name)) _
  rw [Context.body_scalar_var rfl]
  exact .pure rfl

theorem binary {l r : Node} {tl tr : Tree} (op : Op) (hl : Writes l tl) (hr : Writes r tr) :
    Writes (Tree.formNode (Tree.opForm op) (Node.ofList false [l, r])) (.binary s op tl tr) := by
  have hfree : (Node.ofList false [l, r]).AliasFree :=
    Node.aliasFree_list (List.forall_mem_cons.2 ⟨hl.free, List.forall_mem_singleton.2 hr.free⟩)
  refine form hfree fun cx follow opened => ?_
  have hop : Context.op? (Node.ofString (Tree.opForm op)).text = some op := by cases op <;> rfl
  rw [Node.ofList, Context.body_list_op hop rfl, Context.trees, Context.trees, Context.trees]
  simp only [bind_assoc, pure_bind]
  refine .bind (hl.read cx follow opened) fun tl' htl => ?_
  refine .bind (hr.read cx follow opened) fun tr' htr => .pure ?_
  rw [Alike] at htl htr ⊢
  rw [Tree.unplaced, Tree.unplaced, htl, htr]

/-- A mapping without aliases in its values has none. -/
theorem free_ofFields {flow : Bool} {fields : List (String × Node)} (h : ∀ f ∈ fields, f.2.AliasFree) :
    (Node.ofFields flow fields).AliasFree := by
  refine Node.aliasFree_dict fun e he => ?_
  obtain ⟨f, hf, rfl⟩ := List.mem_map.1 he
  exact ⟨Node.aliasFree_scalar, h f hf⟩

theorem assign {v : Node} {t : Tree} (name : String) (flow : Bool) (hv : Writes v t) :
    Writes (Tree.formNode "assign" (Node.ofFields flow [("name", Node.ofString name), ("value", v)]))
      (.assign s name t) := by
  have hfree : (Node.ofFields flow [("name", Node.ofString name), ("value", v)]).AliasFree :=
    free_ofFields (List.forall_mem_cons.2 ⟨Node.aliasFree_scalar, List.forall_mem_singleton.2 hv.free⟩)
  refine form hfree fun cx follow opened => ?_
  rw [Node.ofFields, Context.body_dict_assign rfl]
  refine .after (Context.checkFields_names ["name", "value"] rfl (by decide)) ?_
  show Makes (cx.assignName opened (Node.ofString name) >>= _) _
  refine .after (a := (name, opened)) (fun k => rfl) ?_
  refine .bind (Context.field_makes rfl hv) fun t' ht => .pure ?_
  rw [Alike] at ht ⊢
  rw [Tree.unplaced, Tree.unplaced, ht]

theorem iteElse {c t e : Node} {tc tt te : Tree} (hc : Writes c tc) (ht : Writes t tt) (he : Writes e te) :
    Writes (Tree.formNode "if" (Node.ofFields false [("cond", c), ("then", t), ("else", e)]))
      (.ite s tc tt te) := by
  have hfree : (Node.ofFields false [("cond", c), ("then", t), ("else", e)]).AliasFree :=
    free_ofFields (List.forall_mem_cons.2 ⟨hc.free, List.forall_mem_cons.2 ⟨ht.free,
      List.forall_mem_singleton.2 he.free⟩⟩)
  refine form hfree fun cx follow opened => ?_
  rw [Node.ofFields, Context.body_dict_if rfl]
  refine .after (Context.checkFields_names ["cond", "then", "else"] rfl (by decide)) ?_
  refine .bind (Context.field_makes rfl hc) fun tc' hc' => ?_
  refine .bind (Context.field_makes rfl ht) fun tt' ht' => ?_
  refine .bind (Context.field_makes rfl he) fun te' he' => .pure ?_
  rw [Alike] at hc' ht' he' ⊢
  rw [Tree.unplaced, Tree.unplaced, hc', ht', he']

/-- An `else` that does nothing is left out, and put back. -/
theorem ite {c t : Node} {tc tt : Tree} {s' : Span} (hc : Writes c tc) (ht : Writes t tt) :
    Writes (Tree.formNode "if" (Node.ofFields false [("cond", c), ("then", t)]))
      (.ite s tc tt (.nothing s')) := by
  have hfree : (Node.ofFields false [("cond", c), ("then", t)]).AliasFree :=
    free_ofFields (List.forall_mem_cons.2 ⟨hc.free, List.forall_mem_singleton.2 ht.free⟩)
  refine form hfree fun cx follow opened => ?_
  rw [Node.ofFields, Context.body_dict_if rfl]
  refine .after (Context.checkFields_names ["cond", "then"] rfl (by decide)) ?_
  refine .bind (Context.field_makes rfl hc) fun tc' hc' => ?_
  refine .bind (Context.field_makes rfl ht) fun tt' ht' => .pure ?_
  rw [Alike] at hc' ht' ⊢
  rw [Tree.unplaced, Tree.unplaced, hc', ht']
  rfl

theorem loop {c b : Node} {tc tb : Tree} (hc : Writes c tc) (hb : Writes b tb) :
    Writes (Tree.formNode "while" (Node.ofFields false [("cond", c), ("body", b)])) (.loop s tc tb) := by
  have hfree : (Node.ofFields false [("cond", c), ("body", b)]).AliasFree :=
    free_ofFields (List.forall_mem_cons.2 ⟨hc.free, List.forall_mem_singleton.2 hb.free⟩)
  refine form hfree fun cx follow opened => ?_
  rw [Node.ofFields, Context.body_dict_while rfl]
  refine .after (Context.checkFields_names ["cond", "body"] rfl (by decide)) ?_
  refine .bind (Context.field_makes rfl hc) fun tc' hc' => ?_
  refine .bind (Context.field_makes rfl hb) fun tb' hb' => .pure ?_
  rw [Alike] at hc' hb' ⊢
  rw [Tree.unplaced, Tree.unplaced, hc', hb']

/-- A list stands for the sequence of its items. -/
theorem seq {ns : List Node} {t : Tree} (h : WritesAll ns t) :
    Writes (Tree.formNode "seq" (Node.ofList false ns)) t := by
  refine form (Node.aliasFree_list h.free) fun cx follow opened => ?_
  have hempty : ns.isEmpty = false := by
    rw [List.isEmpty_eq_false_iff]
    exact h.nonempty
  rw [Node.ofList, Context.body_list_seq rfl, hempty]
  exact h.read cx follow opened _

end Writes

namespace WritesAll

/-- The last statement stands for itself. -/
theorem single {n : Node} {t : Tree} (h : Writes n t) : WritesAll [n] t :=
  ⟨List.cons_ne_nil n [], List.forall_mem_singleton.2 h.free, fun cx follow opened _ =>
    h.read cx follow opened⟩

/-- One more statement in front nests the others to the right. -/
theorem cons {n : Node} {ns : List Node} {a b : Tree} {s : Span} (hn : Writes n a) (hns : WritesAll ns b) :
    WritesAll (n :: ns) (.seq s a b) := by
  refine ⟨List.cons_ne_nil n ns, List.forall_mem_cons.2 ⟨hn.free, hns.free⟩, ?_⟩
  intro cx follow opened span
  cases ns with
  | nil => exact absurd rfl hns.nonempty
  | cons m rest =>
    rw [Context.sequence]
    refine .bind (hn.read cx follow opened) fun a' ha => ?_
    refine .bind (hns.read cx follow opened _) fun b' hb => .pure ?_
    rw [Alike] at ha hb ⊢
    rw [Tree.unplaced, Tree.unplaced, ha, hb]

/-- The node of some statements stands for the tree that they do. -/
theorem ofStatements {ns : List Node} {t : Tree} (h : WritesAll ns t) : Writes (Tree.ofStatements ns) t := by
  match ns with
  | [] => exact absurd rfl h.nonempty
  | [n] => exact ⟨h.free n (List.mem_singleton_self n), fun cx follow opened => h.read cx follow opened Span.none⟩
  | _ :: _ :: _ => exact .seq h

end WritesAll

/-- An `else` that is not written does nothing. -/
theorem filled_of_not_isElse {e : Tree} (h : ¬ e.isElse = true) : ∃ s, e.filled = .nothing s := by
  cases e with
  | absent => exact ⟨Span.none, rfl⟩
  | nothing s => exact ⟨s, rfl⟩
  | num | bool | binary | var | assign | ite | seq | loop => exact absurd rfl h

/-- A tree is written as statements that stand for the tree filled. -/
theorem statementNodes_writes (t : Tree) : WritesAll t.statementNodes t.filled := by
  induction t with
  | absent | nothing => exact .single .nothing
  | num s n => exact .single (.num n)
  | bool s b => exact .single (.bool b)
  | var s name => exact .single (Writes.var name).inBrackets
  | binary s op l r ihl ihr => exact .single (Writes.binary op ihl.ofStatements ihr.ofStatements).inBrackets
  | assign s name v ih => exact .single (.assign name v.isExpression ih.ofStatements)
  | loop s c b ihc ihb => exact .single (.loop ihc.ofStatements ihb.ofStatements)
  | seq s a b iha ihb => exact .cons iha.ofStatements ihb
  | ite s c t e ihc iht ihe =>
    refine .single ?_
    rw [Tree.filled]
    by_cases he : e.isElse = true
    · rw [if_pos he]
      exact .iteElse ihc.ofStatements iht.ofStatements ihe.ofStatements
    · obtain ⟨s', hs'⟩ := filled_of_not_isElse he
      rw [if_neg he, hs']
      exact .ite ihc.ofStatements iht.ofStatements

/-- A tree is written as a node that stands for the tree filled. -/
theorem toNode_writes (t : Tree) : Writes t.toNode t.filled := (statementNodes_writes t).ofStatements

/-! ## Documents -/

namespace Context

variable {cx : Context} {opened : List Nat}

/-- A value is written as a node that is read as this value. -/
theorem tree_toNode (cx : Context) (opened : List Nat) (v : Value) (k : Nat) :
    ∃ t v', (cx.tree opened v.toNode).run k = .ok (t, k) ∧ t.value? = some v' ∧
      v'.unplaced = v.unplaced := by
  have hwrites : Writes v.toNode v.toTree := by
    cases v with
    | num s n => exact .num n
    | bool s b => exact .bool b
  obtain ⟨t, ht, halike⟩ := hwrites.read cx (cx.followTo (maxAliases + 1)) opened k
  have hvalue : t.value?.map Value.unplaced = some v.unplaced := by
    rw [← Tree.value?_unplaced, halike, Tree.value?_unplaced]
    cases v with
    | num | bool => rfl
  obtain ⟨v', hv', hsame⟩ := Option.map_eq_some_iff.1 hvalue
  exact ⟨t, v', ht, hv', hsame⟩

/-- Bindings of different names are read in order, after those that were read before. -/
theorem bindings_run (cx : Context) (opened : List Nat) (l : List (String × Value)) :
    ∀ acc k, (∀ b ∈ l, b.1 ≠ "") → ((acc.reverse ++ l).map (·.1)).Nodup →
      ∃ l', (cx.bindings opened (l.map fun b => (Node.ofString b.1, b.2.toNode)) acc).run k = .ok (l', k) ∧
        Bindings.unplaced l' = Bindings.unplaced (acc.reverse ++ l) := by
  induction l with
  | nil =>
    intro acc k _ _
    refine ⟨acc.reverse, rfl, ?_⟩
    rw [List.append_nil]
  | cons b rest ih =>
    intro acc k hnames hnodup
    obtain ⟨hname, hrest⟩ := List.forall_mem_cons.1 hnames
    obtain ⟨t, v, ht, hv, hsame⟩ := tree_toNode cx opened b.2 k
    have hempty : (b.1 == "") = false := beq_eq_false_iff_ne.2 hname
    -- the name is none of those that were read, since all names differ
    have hfresh : (acc.lookup b.1).isSome = false := by
      rw [← Bool.not_eq_true, List.lookup_isSome_iff]
      rintro ⟨b', hb', heq⟩
      rw [List.map_append, List.nodup_append] at hnodup
      have hleft : b'.1 ∈ acc.reverse.map (·.1) := List.mem_map_of_mem (List.mem_reverse.2 hb')
      have hright : b.1 ∈ (b :: rest).map (·.1) := List.mem_map_of_mem List.mem_cons_self
      exact hnodup.2.2 _ hleft _ hright (beq_iff_eq.1 heq).symm
    have hacc : ((b.1, v) :: acc).reverse ++ rest = acc.reverse ++ (b.1, v) :: rest := by
      rw [List.reverse_cons, List.append_assoc, List.singleton_append]
    obtain ⟨l', hl', hunplaced⟩ := ih ((b.1, v) :: acc) k hrest (by rw [hacc]; simpa using hnodup)
    refine ⟨l', ?_, ?_⟩
    · rw [List.map_cons, bindings]
      show StateT.run (if (b.1 == "") = true then _ else
        if (acc.lookup b.1).isSome = true then _ else _) k = _
      rw [hempty, hfresh]
      exact Decoding.bind_ok.2 ⟨t, k, ht, by rw [hv]; exact hl'⟩
    · rw [hunplaced, hacc]
      simp [Bindings.unplaced, hsame]

/-- An environment without an empty name is written as a mapping that is read as the same environment. -/
theorem env_toNode (cx : Context) (e : Env) (hnames : ∀ b ∈ e.bindings, b.1 ≠ "") (k : Nat) :
    ∃ e', (cx.env (Node.ofFields false (e.bindings.map fun b => (b.1, b.2.toNode)))).run k = .ok (e', k) ∧
      e.same e' = true := by
  -- sorted names differ
  have hnodup : (e.bindings.map (·.1)).Nodup := by
    refine List.pairwise_map.2 (e.sorted.imp fun hlt heq => ?_)
    rw [heq] at hlt
    exact String.lt_irrefl _ hlt
  obtain ⟨l, hl, hunplaced⟩ := bindings_run cx [] e.bindings [] k hnames hnodup
  refine ⟨Env.ofList l, ?_, Env.same_of_unplaced ?_⟩
  · rw [Node.ofFields, List.map_map]
    exact Decoding.bind_ok.2 ⟨(_, []), k, rfl, Decoding.bind_ok.2 ⟨l, k, hl, rfl⟩⟩
  · -- both environments are made of the same bindings
    rw [Env.unplaced_ofList, hunplaced, List.reverse_nil, List.nil_append, ← Env.unplaced_ofList,
      Env.ofList_bindings]

/-- A document is read from its fields. -/
theorem document_of_fields {cx : Context} {fields : List (String × Node)} {e : Env} {n : Node} {t : Tree}
    {k : Nat} (hroot : cx.root = Node.ofFields false fields) (names : List String)
    (hnames : fields.map (·.1) = names) (hok : names.Nodup ∧
      (∀ n ∈ names, n ∈ ["program"] ∨ n ∈ ["env"]) ∧ ∀ n ∈ ["program"], n ∈ names)
    (henv : (cx.envField (fields.map fun f => (Node.ofString f.1, f.2))).run k = .ok (e, k))
    (hprogram : field? "program" (fields.map fun f => (Node.ofString f.1, f.2)) = some n)
    (ht : (cx.tree [] n).run k = .ok (t, k)) :
    cx.document.run k = .ok (⟨cx.file, e, t⟩, k) := by
  rw [document_dict hroot, hprogram]
  refine Decoding.bind_ok.2 ⟨(), k, checkFields_names names hnames hok k, ?_⟩
  refine Decoding.bind_ok.2 ⟨e, k, henv, ?_⟩
  exact Decoding.bind_ok.2 ⟨t, k, ht, rfl⟩

/-- A document without an empty name is written as a node that is read as the same document, filled. -/
theorem document_toNode {cx : Context} {doc : Document} (hroot : cx.root = doc.toNode)
    (hnames : ∀ b ∈ doc.env.bindings, b.1 ≠ "") (k : Nat) :
    ∃ doc', cx.document.run k = .ok (doc', k) ∧ doc.env.same doc'.env = true ∧
      Alike doc'.program doc.program.filled := by
  obtain ⟨t, ht, halike⟩ := (toNode_writes doc.program).read cx (cx.followTo (maxAliases + 1)) [] k
  -- an empty environment is not written, and what is missing is read as empty
  obtain ⟨e, he, hsame⟩ := env_toNode cx doc.env hnames k
  unfold Document.toNode at hroot
  by_cases hsize : doc.env.size = 0
  · have hempty : doc.env = Env.empty := Env.ext (List.length_eq_zero_iff.1 hsize)
    simp only [hsize, if_true] at hroot
    refine ⟨⟨cx.file, Env.empty, t⟩, ?_, by rw [hempty]; rfl, halike⟩
    exact document_of_fields hroot ["program"] rfl (by decide) rfl rfl ht
  · simp only [hsize, if_false] at hroot
    refine ⟨⟨cx.file, e, t⟩, ?_, hsame, halike⟩
    exact document_of_fields hroot ["env", "program"] rfl (by decide) he rfl ht

end Context

/-- Reading undoes writing. Every reader makes of the node of a tree this tree, with `do-nothing` wherever
nothing stood, up to positions. Of the node of a document that binds no empty name it makes the same
environment and that program. -/
theorem read_toNode :
    (∀ (t : Tree) (cx : Context) (follow : Context.Follow) (opened : List Nat) (k : Nat),
      ∃ t', (Context.node cx follow opened t.toNode).run k = .ok (t', k) ∧
        t'.unplaced = t.filled.unplaced) ∧
      ∀ (doc : Document) (file : String), (∀ b ∈ doc.env.bindings, b.1 ≠ "") →
        ∃ doc', (Context.document ⟨file, doc.toNode⟩).run 0 = .ok (doc', 0) ∧
          doc.env.same doc'.env = true ∧ doc'.program.unplaced = doc.program.filled.unplaced := by
  constructor
  · intro t cx follow opened k
    exact (toNode_writes t).read cx follow opened k
  · intro doc file hnames
    exact Context.document_toNode rfl hnames 0

/-- A document with sequences that nest both ways, statements as operands, and places where nothing stands. -/
def nested : Document where
  file := "nested.yaml"
  env := Env.ofList [("x", .num Span.none (-9223372036854775808)), ("flag", .bool Span.none true)]
  program :=
    .seq Span.none
      (.seq Span.none (.assign Span.none "y" (.seq Span.none .absent (.num Span.none (-1)))) .absent)
      (.seq Span.none (.loop Span.none (.binary Span.none .lt (.var Span.none "") .absent) .absent)
        (.ite Span.none .absent (.bool Span.none true) .absent))

/-- This document comes back filled. -/
theorem read_toNode_nested :
    (∀ b ∈ nested.env.bindings, b.1 ≠ "") ∧
      ∃ doc', (Context.document ⟨"copy.yaml", nested.toNode⟩).run 0 = .ok (doc', 0) ∧
        nested.env.same doc'.env = true ∧ doc'.program.unplaced = nested.program.filled.unplaced := by
  have hnames : ∀ b ∈ nested.env.bindings, b.1 ≠ "" := by decide
  exact ⟨hnames, read_toNode.2 nested "copy.yaml" hnames⟩

end Document

end WhileLang
