import Mathlib.Data.List.Nodup
import WhileLang.Document.Encode
import WhileLang.Proofs.Document.Decoding

/-!
# The grammar of program documents

`Denotes place n t` says that a node without aliases stands for a tree, in the terms of the documentation:
which scalars there are, and for each form what its body has to be. Fields may stand in any order
(`HasFields`), and `place` says where in its file a position is. `DenotesEnv` and `DenotesDocument` say the
same of environments and of whole documents.

`Accepts x P` says that a reader succeeds exactly with the results of which `P` holds, and counts no alias.
Each part of the reader accepts what the grammar says of it, so a document is read exactly if it is one of the
grammar, and to what the grammar says that it denotes.
-/

namespace WhileLang.Document

open Yaml (Node Pos Anchor)

/-! ## The grammar -/

/-- A mapping has exactly these fields, in any order and each of them once. -/
def HasFields (entries : List (Node × Node)) (fields : List (String × Node)) : Prop :=
  (entries.map fun e => (e.1.text, e.2)).Perm fields

mutual

/-- What a node stands for: a scalar or a mapping with one form. -/
inductive Denotes (place : Pos → Span) : Node → Tree → Prop
  | num {p : Pos} {a : Option Anchor} {tag text : String} {i : Int} (htag : tag = "!!int")
      (htext : Yaml.Plain.resolve false text = .int i) (hfits : Text.fits64 i = true) :
    Denotes place (.scalar p a tag text) (.num (place p) (Int64.ofInt i))
  | bool {p : Pos} {a : Option Anchor} {tag text : String} {b : Bool} (htag : tag = "!!bool")
      (htext : Yaml.Plain.resolve false text = .bool b) :
    Denotes place (.scalar p a tag text) (.bool (place p) b)
  | nothing {p : Pos} {a : Option Anchor} {tag text : String} (htag : tag = "!!str")
      (htext : text = "do-nothing") :
    Denotes place (.scalar p a tag text) (.nothing (place p))
  | form {p : Pos} {a : Option Anchor} {tag : String} {flow : Bool} {key body : Node} {t : Tree}
      (h : DenotesForm place key body t) :
    Denotes place (.dict p a tag flow [(key, body)]) t

/-- What a form stands for, by the text of its key and its body. A tree stands where the key of its form does.
-/
inductive DenotesForm (place : Pos → Span) : Node → Node → Tree → Prop
  | num {key : Node} {p : Pos} {a : Option Anchor} {tag text : String} {t : Tree} (hkey : key.text = "num")
      (htag : tag = "!!int") (h : Denotes place (.scalar p a tag text) t) :
    DenotesForm place key (.scalar p a tag text) t
  | bool {key : Node} {p : Pos} {a : Option Anchor} {tag text : String} {t : Tree} (hkey : key.text = "bool")
      (htag : tag = "!!bool") (h : Denotes place (.scalar p a tag text) t) :
    DenotesForm place key (.scalar p a tag text) t
  | binary {key : Node} {op : Op} {p : Pos} {a : Option Anchor} {tag : String} {flow : Bool} {l r : Node}
      {tl tr : Tree} (hkey : key.text = Tree.opForm op) (hl : Denotes place l tl) (hr : Denotes place r tr) :
    DenotesForm place key (.list p a tag flow [l, r]) (.binary (place key.pos) op tl tr)
  | var {key : Node} {p : Pos} {a : Option Anchor} {tag name : String} (hkey : key.text = "var")
      (htag : tag = "!!str") :
    DenotesForm place key (.scalar p a tag name) (.var (place key.pos) name)
  | assign {key : Node} {p q : Pos} {a b : Option Anchor} {tag name : String} {flow : Bool}
      {entries : List (Node × Node)} {v : Node} {t : Tree} (hkey : key.text = "assign")
      (hfields : HasFields entries [("name", .scalar q b "!!str" name), ("value", v)])
      (hv : Denotes place v t) :
    DenotesForm place key (.dict p a tag flow entries) (.assign (place key.pos) name t)
  | empty {key : Node} {p : Pos} {a : Option Anchor} {tag : String} {flow : Bool}
      (hkey : key.text = "do-nothing") :
    DenotesForm place key (.dict p a tag flow []) (.nothing (place key.pos))
  | null {key body : Node} (hkey : key.text = "do-nothing") (htag : body.tag = "!!null") :
    DenotesForm place key body (.nothing (place key.pos))
  | ite {key : Node} {p : Pos} {a : Option Anchor} {tag : String} {flow : Bool}
      {entries : List (Node × Node)} {c t : Node} {tc tt : Tree} (hkey : key.text = "if")
      (hfields : HasFields entries [("cond", c), ("then", t)]) (hc : Denotes place c tc)
      (ht : Denotes place t tt) :
    DenotesForm place key (.dict p a tag flow entries)
      (.ite (place key.pos) tc tt (.nothing (place key.pos)))
  | iteElse {key : Node} {p : Pos} {a : Option Anchor} {tag : String} {flow : Bool}
      {entries : List (Node × Node)} {c t e : Node} {tc tt te : Tree} (hkey : key.text = "if")
      (hfields : HasFields entries [("cond", c), ("then", t), ("else", e)]) (hc : Denotes place c tc)
      (ht : Denotes place t tt) (he : Denotes place e te) :
    DenotesForm place key (.dict p a tag flow entries) (.ite (place key.pos) tc tt te)
  | seq {key : Node} {p : Pos} {a : Option Anchor} {tag : String} {flow : Bool} {items : List Node} {t : Tree}
      (hkey : key.text = "seq") (h : DenotesAll place (place key.pos) items t) :
    DenotesForm place key (.list p a tag flow items) t
  | loop {key : Node} {p : Pos} {a : Option Anchor} {tag : String} {flow : Bool}
      {entries : List (Node × Node)} {c b : Node} {tc tb : Tree} (hkey : key.text = "while")
      (hfields : HasFields entries [("cond", c), ("body", b)]) (hc : Denotes place c tc)
      (hb : Denotes place b tb) :
    DenotesForm place key (.dict p a tag flow entries) (.loop (place key.pos) tc tb)

/-- What statements stand for that begin at a span: one for itself, and more for a sequence that nests to the
right. -/
inductive DenotesAll (place : Pos → Span) : Span → List Node → Tree → Prop
  | last {span : Span} {n : Node} {t : Tree} (h : Denotes place n t) : DenotesAll place span [n] t
  | cons {span : Span} {n m : Node} {rest : List Node} {t u : Tree} (hn : Denotes place n t)
      (hrest : DenotesAll place (place m.pos) (m :: rest) u) :
    DenotesAll place span (n :: m :: rest) (.seq span t u)

end

/-- An entry of an environment binds a name to a number or a truth value. -/
def DenotesBinding (place : Pos → Span) (e : Node × Node) (b : String × Value) : Prop :=
  e.1.text = b.1 ∧ Denotes place e.2 b.2.toTree

/-- What an environment stands for: null, or a mapping of names that differ and are not empty. -/
inductive DenotesEnv (place : Pos → Span) : Node → Env → Prop
  | null {p : Pos} {a : Option Anchor} {tag text : String} (htag : tag = "!!null") :
    DenotesEnv place (.scalar p a tag text) Env.empty
  | bindings {p : Pos} {a : Option Anchor} {tag : String} {flow : Bool} {entries : List (Node × Node)}
      {l : List (String × Value)} (h : List.Forall₂ (DenotesBinding place) entries l)
      (hnames : ∀ b ∈ l, b.1 ≠ "") (hnodup : (l.map (·.1)).Nodup) :
    DenotesEnv place (.dict p a tag flow entries) (Env.ofList l)

/-- What a document stands for: a program, and an environment that may be left out. -/
inductive DenotesDocument (place : Pos → Span) : Node → Env → Tree → Prop
  | program {p : Pos} {a : Option Anchor} {tag : String} {flow : Bool} {entries : List (Node × Node)}
      {n : Node} {t : Tree} (hfields : HasFields entries [("program", n)]) (hn : Denotes place n t) :
    DenotesDocument place (.dict p a tag flow entries) Env.empty t
  | envProgram {p : Pos} {a : Option Anchor} {tag : String} {flow : Bool} {entries : List (Node × Node)}
      {m n : Node} {e : Env} {t : Tree} (hfields : HasFields entries [("program", n), ("env", m)])
      (hm : DenotesEnv place m e) (hn : Denotes place n t) :
    DenotesDocument place (.dict p a tag flow entries) e t

/-! ## Readers that accept a grammar -/

/-- A reader succeeds exactly with the results of which `P` holds, and counts no alias. -/
def Accepts {α : Type} (x : Decoding α) (P : α → Prop) : Prop :=
  ∀ k r, x.run k = .ok r ↔ ∃ a, r = (a, k) ∧ P a

namespace Accepts

variable {α β : Type} {x : Decoding α} {f : α → Decoding β} {P P' : α → Prop} {Q : α → β → Prop}

theorem pure {a : α} : Accepts (pure a) (· = a) := by
  intro k r
  rw [Decoding.pure_ok]
  constructor
  · rintro rfl
    exact ⟨a, rfl, rfl⟩
  · rintro ⟨_, rfl, rfl⟩
    rfl

theorem fail {cx : Context} {p : Pos} {d : Defect} (hP : ∀ a, ¬ P a) : Accepts (cx.fail p d) P := by
  intro k r
  rw [Context.fail_run]
  constructor
  · intro h
    cases h
  · rintro ⟨a, -, ha⟩
    exact absurd ha (hP a)

theorem congr (h : Accepts x P) (hP : ∀ a, P a ↔ P' a) : Accepts x P' := by
  intro k r
  rw [h k r]
  exact exists_congr fun a => and_congr_right fun _ => hP a

/-- What comes second accepts what the grammar says once the first part is known. -/
theorem bind (hx : Accepts x P) (hf : ∀ a, P a → Accepts (f a) (Q a)) :
    Accepts (x >>= f) fun b => ∃ a, P a ∧ Q a b := by
  intro k r
  rw [Decoding.bind_ok]
  constructor
  · rintro ⟨a, k₁, ha, hb⟩
    obtain ⟨_, ⟨⟩, hPa⟩ := (hx k _).1 ha
    obtain ⟨b, hr, hQb⟩ := (hf a hPa k r).1 hb
    exact ⟨b, hr, a, hPa, hQb⟩
  · rintro ⟨b, hr, a, hPa, hQb⟩
    exact ⟨a, k, (hx k _).2 ⟨a, rfl, hPa⟩, (hf a hPa k r).2 ⟨b, hr, hQb⟩⟩

/-- A check in front changes nothing where all that is accepted passes it. -/
theorem guard {c : Prop} {y : Decoding Unit} {g : Unit → Decoding α} (hy : Accepts y fun _ => c)
    (hg : c → Accepts (g ()) P) (hP : ∀ a, P a → c) : Accepts (y >>= g) P := by
  refine (hy.bind (Q := fun _ => P) fun _ hc => hg hc).congr fun a => ?_
  constructor
  · rintro ⟨_, -, ha⟩
    exact ha
  · intro ha
    exact ⟨(), hP a ha, ha⟩

theorem ite {c : Prop} [Decidable c] {y : Decoding α} (hpos : c → Accepts x P) (hneg : ¬ c → Accepts y P) :
    Accepts (if c then x else y) P := by
  by_cases hc : c
  · rw [if_pos hc]
    exact hpos hc
  · rw [if_neg hc]
    exact hneg hc

end Accepts

/-! ## Fields -/

section Fields

variable {entries : List (Node × Node)}

/-- The names of the fields of a mapping, in the order of the document. -/
def fieldNames (entries : List (Node × Node)) : List String := entries.map fun e => e.1.text

/-- Where names differ, a mapping has the fields that are found in it under these names. -/
theorem hasFields_iff {fields : List (String × Node)} (hnodup : (fields.map (·.1)).Nodup) :
    HasFields entries fields ↔ (fieldNames entries).Perm (fields.map (·.1)) ∧
      ∀ f ∈ fields, Context.field? f.1 entries = some f.2 := by
  have hfst : (entries.map fun e => (e.1.text, e.2)).map (·.1) = fieldNames entries := by
    rw [List.map_map]
    rfl
  have hknown : (fieldNames entries).Nodup → ∀ e ∈ entries, Context.field? e.1.text entries = some e.2 := by
    intro hnames e he
    have hall : Context.FieldsKnown (fieldNames entries) [] entries :=
      ⟨hnames, fun e' he' => .inl (List.mem_map_of_mem he')⟩
    exact Context.field?_of_mem hall he
  constructor
  · intro h
    have hperm : (fieldNames entries).Perm (fields.map (·.1)) := hfst ▸ List.Perm.map (·.1) h
    refine ⟨hperm, fun f hf => ?_⟩
    obtain ⟨e, he, rfl⟩ := List.mem_map.1 (h.mem_iff.2 hf)
    exact hknown (hperm.nodup_iff.2 hnodup) e he
  · rintro ⟨hperm, hfields⟩
    have hnames : (fieldNames entries).Nodup := hperm.nodup_iff.2 hnodup
    have hentries : (entries.map fun e => (e.1.text, e.2)).Nodup := List.Nodup.of_map (·.1) (hfst ▸ hnames)
    refine (List.perm_ext_iff_of_nodup hentries (List.Nodup.of_map (·.1) hnodup)).2 fun f => ?_
    constructor
    · intro hf
      obtain ⟨e, he, rfl⟩ := List.mem_map.1 hf
      -- the name of the entry is that of some field, and leads to the same node
      obtain ⟨f, hf, hname⟩ := List.mem_map.1 (hperm.mem_iff.1 (List.mem_map_of_mem he))
      have hfound := hfields f hf
      rw [hname, hknown hnames e he] at hfound
      rw [← hname, Option.some.inj hfound]
      exact hf
    · intro hf
      obtain ⟨e, he, hname, hvalue⟩ := Context.mem_of_field? (hfields f hf)
      exact List.mem_map.2 ⟨e, he, Prod.ext hname hvalue⟩

theorem field?_isSome_iff {name : String} :
    (Context.field? name entries).isSome = true ↔ name ∈ fieldNames entries := by
  unfold Context.field? fieldNames
  rw [Option.isSome_map, List.find?_isSome, List.mem_map]
  simp

/-- The fields of a mapping pass if they are those that are required and some of those that are optional. -/
theorem checkFields_accepts {cx : Context} {p : Pos} {form : String} {required optional : List String}
    (hnodup : (required ++ optional).Nodup) :
    Accepts (cx.checkFields p form required optional entries) fun _ =>
      (fieldNames entries).Perm
        (required ++ optional.filter fun o => (Context.field? o entries).isSome) := by
  intro k r
  rw [Context.checkFields_ok]
  have hpresent : (required ++ optional.filter fun o => (Context.field? o entries).isSome).Nodup :=
    hnodup.sublist (List.filter_sublist.append_left required)
  have hmem : ∀ name, name ∈ required ++ optional.filter (fun o => (Context.field? o entries).isSome) ↔
      name ∈ required ∨ name ∈ optional ∧ name ∈ fieldNames entries := by
    intro name
    rw [List.mem_append, List.mem_filter, field?_isSome_iff]
  constructor
  · rintro ⟨hr, ⟨hnames, hknown⟩, hrequired⟩
    refine ⟨(), hr, (List.perm_ext_iff_of_nodup hnames hpresent).2 fun name => ?_⟩
    rw [hmem]
    constructor
    · intro hname
      obtain ⟨e, he, rfl⟩ := List.mem_map.1 hname
      exact (hknown e he).imp_right fun ho => ⟨ho, hname⟩
    · rintro (hname | hname)
      · exact List.mem_map.2 (hrequired name hname)
      · exact hname.2
  · rintro ⟨_, hr, hperm⟩
    refine ⟨hr, ⟨hperm.nodup_iff.2 hpresent, fun e he => ?_⟩, fun name hname => ?_⟩
    · have hname := hperm.mem_iff.1 (List.mem_map_of_mem he)
      exact ((hmem _).1 hname).imp_right fun h => h.1
    · exact List.mem_map.1 (hperm.mem_iff.2 ((hmem name).2 (.inl hname)))

/-- A mapping with two fields. -/
theorem hasFields_two {f g : String} (hne : f ≠ g) {m n : Node} :
    HasFields entries [(f, m), (g, n)] ↔
      (fieldNames entries).Perm [f, g] ∧ Context.field? f entries = some m ∧
        Context.field? g entries = some n := by
  rw [hasFields_iff (by simpa using hne)]
  simp

end Fields

/-! ## Scalars and bodies without nodes -/

theorem denotes_scalar_iff {place : Pos → Span} {p : Pos} {a : Option Anchor} {tag text : String} {t : Tree} :
    Denotes place (.scalar p a tag text) t ↔
      (tag = "!!int" ∧ ∃ i, Yaml.Plain.resolve false text = .int i ∧ Text.fits64 i = true ∧
        t = .num (place p) (Int64.ofInt i)) ∨
      (tag = "!!bool" ∧ ∃ b, Yaml.Plain.resolve false text = .bool b ∧ t = .bool (place p) b) ∨
      (tag = "!!str" ∧ text = "do-nothing" ∧ t = .nothing (place p)) := by
  constructor
  · intro h
    cases h with
    | num htag htext hfits => exact .inl ⟨htag, _, htext, hfits, rfl⟩
    | bool htag htext => exact .inr (.inl ⟨htag, _, htext, rfl⟩)
    | nothing htag htext => exact .inr (.inr ⟨htag, htext, rfl⟩)
  · rintro (⟨htag, i, htext, hfits, rfl⟩ | ⟨htag, b, htext, rfl⟩ | ⟨htag, htext, rfl⟩)
    · exact .num htag htext hfits
    · exact .bool htag htext
    · exact .nothing htag htext

theorem denotesForm_scalar_iff {place : Pos → Span} {key : Node} {p : Pos} {a : Option Anchor}
    {tag text : String} {t : Tree} :
    DenotesForm place key (.scalar p a tag text) t ↔
      (key.text = "num" ∧ tag = "!!int" ∧ Denotes place (.scalar p a tag text) t) ∨
      (key.text = "bool" ∧ tag = "!!bool" ∧ Denotes place (.scalar p a tag text) t) ∨
      (key.text = "var" ∧ tag = "!!str" ∧ t = .var (place key.pos) text) ∨
      (key.text = "do-nothing" ∧ tag = "!!null" ∧ t = .nothing (place key.pos)) := by
  constructor
  · intro h
    cases h with
    | num hkey htag h => exact .inl ⟨hkey, htag, h⟩
    | bool hkey htag h => exact .inr (.inl ⟨hkey, htag, h⟩)
    | var hkey htag => exact .inr (.inr (.inl ⟨hkey, htag, rfl⟩))
    | null hkey htag => exact .inr (.inr (.inr ⟨hkey, htag, rfl⟩))
  · rintro (⟨hkey, htag, h⟩ | ⟨hkey, htag, h⟩ | ⟨hkey, htag, rfl⟩ | ⟨hkey, htag, rfl⟩)
    · exact .num hkey htag h
    · exact .bool hkey htag h
    · exact .var hkey htag
    · exact .null hkey htag

theorem not_denotesAll_nil {place : Pos → Span} {span : Span} {t : Tree} : ¬ DenotesAll place span [] t := by
  intro h
  cases h

theorem denotesForm_list_iff {place : Pos → Span} {key : Node} {p : Pos} {a : Option Anchor} {tag : String}
    {flow : Bool} {items : List Node} {t : Tree} :
    DenotesForm place key (.list p a tag flow items) t ↔
      (∃ op tl tr, key.text = Tree.opForm op ∧ List.Forall₂ (Denotes place) items [tl, tr] ∧
        t = .binary (place key.pos) op tl tr) ∨
      (key.text = "seq" ∧ DenotesAll place (place key.pos) items t) ∨
      (key.text = "do-nothing" ∧ tag = "!!null" ∧ t = .nothing (place key.pos)) := by
  constructor
  · intro h
    cases h with
    | binary hkey hl hr => exact .inl ⟨_, _, _, hkey, .cons hl (.cons hr .nil), rfl⟩
    | seq hkey h => exact .inr (.inl ⟨hkey, h⟩)
    | null hkey htag => exact .inr (.inr ⟨hkey, htag, rfl⟩)
  · rintro (⟨op, tl, tr, hkey, h, rfl⟩ | ⟨hkey, h⟩ | ⟨hkey, htag, rfl⟩)
    · rcases h with _ | ⟨hl, _ | ⟨hr, _ | _⟩⟩
      exact .binary hkey hl hr
    · exact .seq hkey h
    · exact .null hkey htag

namespace Context

variable {cx : Context} {follow : Follow} {opened : List Nat} {p : Pos} {a : Option Anchor} {tag text : String}
  {flow : Bool} {items : List Node} {entries : List (Node × Node)} {key : Node}

theorem scalar_accepts :
    Accepts (cx.scalar (.scalar p a tag text)) (Denotes cx.span (.scalar p a tag text)) := by
  refine Accepts.congr ?_ fun t => denotes_scalar_iff.symm
  unfold scalar
  simp only [Node.tag, Node.text, Node.pos]
  split
  -- a number and a truth value are what their text resolves to
  · rcases htext : Yaml.Plain.resolve false text with _ | b | i | x | t | _
    case int =>
      refine .ite (fun hfits => Accepts.pure.congr fun t => ?_) fun hfits => .fail fun t h => ?_
      · simp [hfits]
      · simp [hfits] at h
    all_goals exact .fail fun t h => by simp at h
  · rcases htext : Yaml.Plain.resolve false text with _ | b | i | x | t | _
    case bool =>
      refine Accepts.pure.congr fun t => ?_
      simp
    all_goals exact .fail fun t h => by simp at h
  · refine .ite (fun htext => Accepts.pure.congr fun t => ?_) fun htext => .fail fun t h => ?_
    · simp [beq_iff_eq.1 htext]
    · simp_all
  · exact .fail fun t h => by simp_all

/-- A scalar is the body of a form as the form says. -/
theorem body_scalar_accepts :
    Accepts (body cx follow opened key (.scalar p a tag text))
      (DenotesForm cx.span key (.scalar p a tag text)) := by
  refine Accepts.congr ?_ fun t => denotesForm_scalar_iff.symm
  by_cases hvar : key.text = "var" ∧ tag = "!!str"
  · obtain ⟨hkey, rfl⟩ := hvar
    rw [body_scalar_var hkey]
    exact Accepts.pure.congr fun t => by simp [hkey]
  · rw [body_scalar_leaf hvar]
    unfold leaf
    simp only [Node.tag]
    split
    case h_1 hkey =>
      refine .ite (fun htag => scalar_accepts.congr fun t => ?_) fun htag => .fail fun t h => ?_
      · simp [hkey, beq_iff_eq.1 htag]
      · simp_all
    case h_2 hkey =>
      refine .ite (fun htag => scalar_accepts.congr fun t => ?_) fun htag => .fail fun t h => ?_
      · simp [hkey, beq_iff_eq.1 htag]
      · simp_all
    case h_3 hkey =>
      refine .ite (fun htag => Accepts.pure.congr fun t => ?_) fun htag => .fail fun t h => ?_
      · simp [hkey, beq_iff_eq.1 htag]
      · simp_all
    all_goals exact .fail fun t h => by simp_all

/-- A collection without nodes is the body of `do-nothing` if it is tagged as null, and of no other form. -/
theorem leaf_collection_accepts {val : Node} (hval : val.isScalar = false) :
    Accepts (cx.leaf key val) fun t =>
      key.text = "do-nothing" ∧ val.tag = "!!null" ∧ t = .nothing (cx.span key.pos) := by
  intro k r
  rcases leaf_collection cx k key hval with ⟨hkey, htag, hrun⟩ | ⟨hno, e, hrun⟩
  · rw [hrun, Except.ok.injEq]
    simp [hkey, htag, eq_comm]
  · rw [hrun]
    constructor
    · intro h
      cases h
    · rintro ⟨t, -, hkey, htag, -⟩
      exact absurd ⟨hkey, htag⟩ hno

/-! ## Lists and mappings -/

/-- A node is read to what it denotes, by every reader. -/
def NodeAccepts (n : Node) : Prop :=
  ∀ cx follow opened, Accepts (node cx follow opened n) (Denotes cx.span n)

theorem trees_accepts (h : ∀ n ∈ items, NodeAccepts n) :
    Accepts (trees cx follow opened items) fun ts => List.Forall₂ (Denotes cx.span) items ts := by
  induction items with
  | nil =>
    rw [trees]
    exact Accepts.pure.congr fun ts => by simp
  | cons n rest ih =>
    obtain ⟨hn, hrest⟩ := List.forall_mem_cons.1 h
    rw [trees]
    refine ((hn cx follow opened).bind fun t _ => (ih hrest).bind fun ts _ => .pure).congr fun l => ?_
    simp [List.forall₂_cons_left_iff]

theorem sequence_accepts (h : ∀ n ∈ items, NodeAccepts n) (hne : items ≠ []) :
    ∀ span, Accepts (sequence cx follow opened span items) (DenotesAll cx.span span items) := by
  induction items with
  | nil => exact absurd rfl hne
  | cons n rest ih =>
    intro span
    obtain ⟨hn, hrest⟩ := List.forall_mem_cons.1 h
    cases rest with
    | nil =>
      rw [sequence]
      refine (hn cx follow opened).congr fun t => ⟨.last, fun ht => ?_⟩
      cases ht with
      | last ht => exact ht
    | cons m rest =>
      rw [sequence]
      have hmore := ih hrest (List.cons_ne_nil m rest) (cx.span m.pos)
      refine ((hn cx follow opened).bind fun t _ => hmore.bind fun u _ => .pure).congr fun t => ?_
      constructor
      · rintro ⟨t, ht, u, hu, rfl⟩
        exact .cons ht hu
      · intro ht
        cases ht with
        | cons ht hu => exact ⟨_, ht, _, hu, rfl⟩

theorem op?_eq_some_iff {form : String} {op : Op} : op? form = some op ↔ form = Tree.opForm op := by
  constructor
  · intro h
    unfold op? at h
    split at h <;> cases h <;> rfl
  · rintro rfl
    cases op <;> rfl

/-- A list is the body of a form as the form says. -/
theorem body_list_accepts (h : ∀ n ∈ items, NodeAccepts n) :
    Accepts (body cx follow opened key (.list p a tag flow items))
      (DenotesForm cx.span key (.list p a tag flow items)) := by
  refine Accepts.congr ?_ fun t => denotesForm_list_iff.symm
  have hleaf : Accepts (cx.leaf key (.list p a tag flow items)) _ := leaf_collection_accepts rfl
  rcases hop : op? key.text with _ | op
  · have hno : ∀ op, ¬ key.text = Tree.opForm op := by
      intro op hkey
      rw [op?_eq_some_iff.2 hkey] at hop
      cases hop
    by_cases hseq : key.text = "seq"
    · have hother : ¬ key.text = "do-nothing" := by
        rw [hseq]
        decide
      rw [body_list_seq hseq]
      refine .ite (fun hnil => hleaf.congr fun t => ?_) fun hnil => ?_
      · rw [List.isEmpty_iff.1 hnil]
        simp only [hno, hother, not_denotesAll_nil, false_and, and_false, exists_false, or_self]
      · have hne : items ≠ [] := fun hitems => hnil (by rw [hitems]; rfl)
        refine (sequence_accepts h hne (cx.span key.pos)).congr fun t => ?_
        simp only [hno, hother, false_and, exists_false, false_or, or_false, and_iff_right hseq]
    · rw [body_list_leaf hseq hop]
      exact hleaf.congr fun t => by simp [hseq, hno, Node.tag]
  · have hkey : key.text = Tree.opForm op := op?_eq_some_iff.1 hop
    have hother : ¬ Tree.opForm op = "seq" ∧ ¬ Tree.opForm op = "do-nothing" := by
      cases op <;> decide
    have hsame : ∀ op', Tree.opForm op = Tree.opForm op' ↔ op' = op := by
      intro op'
      cases op <;> cases op' <;> decide
    by_cases hlen : items.length = 2
    · rw [body_list_op hop hlen]
      -- as many trees come back as there are items
      refine ((trees_accepts h).bind
        (Q := fun ts t => ∃ tl tr, ts = [tl, tr] ∧ t = .binary (cx.span key.pos) op tl tr)
        fun ts hts => ?_).congr fun t => ?_
      · obtain ⟨tl, tr, rfl⟩ := List.length_eq_two.1 (hts.length_eq ▸ hlen)
        exact Accepts.pure.congr fun t => by simp
      · simp [hother, hkey, hsame]
    · rw [body_list_op_count hop hlen]
      refine hleaf.congr fun t => ?_
      have hcount : ∀ tl tr, ¬ List.Forall₂ (Denotes cx.span) items [tl, tr] :=
        fun tl tr hts => hlen hts.length_eq
      simp [hkey, hother, hcount]

theorem field_accepts (h : ∀ e ∈ entries, NodeAccepts e.2) (form name : String) :
    Accepts (field cx follow opened p form name entries) fun t =>
      ∃ v, field? name entries = some v ∧ Denotes cx.span v t := by
  rw [field_eq]
  rcases hv : field? name entries with _ | v
  · exact .fail fun t ht => by simp at ht
  · obtain ⟨e, he, -, rfl⟩ := mem_of_field? hv
    exact (h e he cx follow opened).congr fun t => by simp

/-- A name is a string. -/
theorem assignName_accepts {n : Node} (hn : n.isAlias = false) :
    Accepts (cx.assignName opened n) fun r => r.2 = opened ∧ ∃ q b, n = .scalar q b "!!str" r.1 := by
  rw [assignName_here hn]
  unfold nameAt
  split
  · exact Accepts.pure.congr fun r => by simp [Prod.ext_iff, and_comm, eq_comm]
  · next hno =>
    refine .fail fun r hr => ?_
    obtain ⟨-, q, b, rfl⟩ := hr
    exact hno q b r.1 rfl

/-! ## The forms with fields -/

theorem denotesForm_assign_iff {place : Pos → Span} {t : Tree} (hkey : key.text = "assign") :
    DenotesForm place key (.dict p a tag flow entries) t ↔
      (fieldNames entries).Perm ["name", "value"] ∧ ∃ q b name u,
        field? "name" entries = some (.scalar q b "!!str" name) ∧
        (∃ v, field? "value" entries = some v ∧ Denotes place v u) ∧ t = .assign (place key.pos) name u := by
  constructor
  · intro h
    cases h with
    | assign _ hfields hv =>
      obtain ⟨hperm, hname, hvalue⟩ := (hasFields_two (by decide)).1 hfields
      exact ⟨hperm, _, _, _, _, hname, ⟨_, hvalue, hv⟩, rfl⟩
    | _ => simp_all
  · rintro ⟨hperm, q, b, name, u, hname, ⟨v, hvalue, hv⟩, rfl⟩
    exact .assign hkey ((hasFields_two (by decide)).2 ⟨hperm, hname, hvalue⟩) hv

theorem body_assign_accepts (h : ∀ e ∈ entries, NodeAccepts e.2)
    (halias : ∀ e ∈ entries, e.2.isAlias = false) (hkey : key.text = "assign") :
    Accepts (body cx follow opened key (.dict p a tag flow entries))
      (DenotesForm cx.span key (.dict p a tag flow entries)) := by
  rw [body_dict_assign hkey]
  refine Accepts.congr ?_ fun t => (denotesForm_assign_iff hkey).symm
  refine .guard (checkFields_accepts (by decide)) (fun hperm => ?_) fun t ht => ht.1
  rcases hn : field? "name" entries with _ | n
  · refine .fail fun t ht => ?_
    obtain ⟨-, q, b, name, u, hname, -⟩ := ht
    cases hname
  · obtain ⟨e, he, -, rfl⟩ := mem_of_field? hn
    refine ((assignName_accepts (halias e he)).bind fun r _ =>
      (field_accepts h "assign" "value").bind fun u _ => .pure).congr fun t => ?_
    constructor
    · rintro ⟨⟨name, _⟩, ⟨-, q, b, hq⟩, u, hu, rfl⟩
      exact ⟨hperm, q, b, name, u, congrArg some hq, hu, rfl⟩
    · rintro ⟨-, q, b, name, u, hq, hu, rfl⟩
      exact ⟨(name, opened), ⟨rfl, q, b, Option.some.inj hq⟩, u, hu, rfl⟩

theorem denotesForm_while_iff {place : Pos → Span} {t : Tree} (hkey : key.text = "while") :
    DenotesForm place key (.dict p a tag flow entries) t ↔
      (fieldNames entries).Perm ["cond", "body"] ∧
        ∃ tc, (∃ c, field? "cond" entries = some c ∧ Denotes place c tc) ∧
        ∃ tb, (∃ b, field? "body" entries = some b ∧ Denotes place b tb) ∧
          t = .loop (place key.pos) tc tb := by
  constructor
  · intro h
    cases h with
    | loop _ hfields hc hb =>
      obtain ⟨hperm, hcond, hbody⟩ := (hasFields_two (by decide)).1 hfields
      exact ⟨hperm, _, ⟨_, hcond, hc⟩, _, ⟨_, hbody, hb⟩, rfl⟩
    | _ => simp_all
  · rintro ⟨hperm, tc, ⟨c, hcond, hc⟩, tb, ⟨b, hbody, hb⟩, rfl⟩
    exact .loop hkey ((hasFields_two (by decide)).2 ⟨hperm, hcond, hbody⟩) hc hb

theorem body_while_accepts (h : ∀ e ∈ entries, NodeAccepts e.2) (hkey : key.text = "while") :
    Accepts (body cx follow opened key (.dict p a tag flow entries))
      (DenotesForm cx.span key (.dict p a tag flow entries)) := by
  rw [body_dict_while hkey]
  refine Accepts.congr ?_ fun t => (denotesForm_while_iff hkey).symm
  refine .guard (checkFields_accepts (by decide)) (fun hperm => ?_) fun t ht => ht.1
  refine ((field_accepts h "while" "cond").bind fun c _ =>
    (field_accepts h "while" "body").bind fun b _ => .pure).congr fun t => ?_
  exact (and_iff_right hperm).symm

/-- What an `else` stands for, which does nothing where it is left out. -/
def DenotesElse (place : Pos → Span) (span : Span) (entries : List (Node × Node)) (t : Tree) : Prop :=
  (∃ e, field? "else" entries = some e ∧ Denotes place e t) ∨
    (field? "else" entries = none ∧ t = .nothing span)

theorem denotesForm_if_iff {place : Pos → Span} {t : Tree} (hkey : key.text = "if") :
    DenotesForm place key (.dict p a tag flow entries) t ↔
      (fieldNames entries).Perm
          (["cond", "then"] ++ ["else"].filter fun o => (field? o entries).isSome) ∧
        ∃ tc, (∃ c, field? "cond" entries = some c ∧ Denotes place c tc) ∧
        ∃ tt, (∃ t, field? "then" entries = some t ∧ Denotes place t tt) ∧
        ∃ te, DenotesElse place (place key.pos) entries te ∧ t = .ite (place key.pos) tc tt te := by
  constructor
  · intro h
    cases h with
    | ite _ hfields hc ht =>
      obtain ⟨hperm, hcond, hthen⟩ := (hasFields_two (by decide)).1 hfields
      have hnone : field? "else" entries = none := by
        rw [← Option.not_isSome_iff_eq_none, field?_isSome_iff, hperm.mem_iff]
        decide
      refine ⟨?_, _, ⟨_, hcond, hc⟩, _, ⟨_, hthen, ht⟩, _, .inr ⟨hnone, rfl⟩, rfl⟩
      simpa [hnone] using hperm
    | iteElse _ hfields hc ht he =>
      rw [hasFields_iff (by simp)] at hfields
      simp only [List.forall_mem_cons, List.map_cons, List.map_nil] at hfields
      obtain ⟨hperm, hcond, hthen, helse, -⟩ := hfields
      refine ⟨?_, _, ⟨_, hcond, hc⟩, _, ⟨_, hthen, ht⟩, _, .inl ⟨_, helse, he⟩, rfl⟩
      simpa [helse] using hperm
    | _ => simp_all
  · rintro ⟨hperm, tc, ⟨c, hcond, hc⟩, tt, ⟨t, hthen, ht⟩, te, ⟨e, helse, he⟩ | ⟨hnone, rfl⟩, rfl⟩
    · refine .iteElse hkey ((hasFields_iff (by simp)).2 ⟨?_, ?_⟩) hc ht he
      · simpa [helse] using hperm
      · simp [hcond, hthen, helse]
    · refine .ite hkey ((hasFields_two (by decide)).2 ⟨?_, hcond, hthen⟩) hc ht
      simpa [hnone] using hperm

theorem body_if_accepts (h : ∀ e ∈ entries, NodeAccepts e.2) (hkey : key.text = "if") :
    Accepts (body cx follow opened key (.dict p a tag flow entries))
      (DenotesForm cx.span key (.dict p a tag flow entries)) := by
  rw [body_dict_if hkey]
  refine Accepts.congr ?_ fun t => (denotesForm_if_iff hkey).symm
  refine .guard (checkFields_accepts (by decide)) (fun hperm => ?_) fun t ht => ht.1
  have helse : ∀ c t, Accepts
      (if (field? "else" entries).isSome then
        do return Tree.ite (cx.span key.pos) c t (← field cx follow opened p "if" "else" entries)
      else return Tree.ite (cx.span key.pos) c t (.nothing (cx.span key.pos)))
      fun r => ∃ te, DenotesElse cx.span (cx.span key.pos) entries te ∧
        r = Tree.ite (cx.span key.pos) c t te := by
    intro c t
    unfold DenotesElse
    refine .ite (fun hsome => ?_) fun hnone => Accepts.pure.congr fun r => ?_
    · refine ((field_accepts h "if" "else").bind fun e _ => .pure).congr fun r => ?_
      have hpresent : field? "else" entries ≠ none := Option.isSome_iff_ne_none.1 hsome
      simp only [hpresent, false_and, or_false]
    · simp [Option.not_isSome_iff_eq_none.1 hnone]
  refine ((field_accepts h "if" "cond").bind fun c _ =>
    (field_accepts h "if" "then").bind fun t _ => helse c t).congr fun t => ?_
  exact (and_iff_right hperm).symm

/-- A mapping is the body of a form as the form says. -/
theorem body_dict_accepts (h : ∀ e ∈ entries, NodeAccepts e.2)
    (halias : ∀ e ∈ entries, e.2.isAlias = false) :
    Accepts (body cx follow opened key (.dict p a tag flow entries))
      (DenotesForm cx.span key (.dict p a tag flow entries)) := by
  have hleaf : Accepts (cx.leaf key (.dict p a tag flow entries)) _ := leaf_collection_accepts rfl
  by_cases hassign : key.text = "assign"
  · exact body_assign_accepts h halias hassign
  by_cases hif : key.text = "if"
  · exact body_if_accepts h hif
  by_cases hwhile : key.text = "while"
  · exact body_while_accepts h hwhile
  by_cases hnothing : key.text = "do-nothing"
  · -- both of its bodies stand for the same tree
    rw [body_dict_nothing hnothing]
    refine .ite (fun hnil => Accepts.pure.congr fun t => ?_) fun hnil => hleaf.congr fun t => ?_
    · rw [List.isEmpty_iff.1 hnil]
      constructor
      · rintro rfl
        exact .empty hnothing
      · intro ht
        cases ht with
        | empty | null => rfl
        | _ => contradiction
    · constructor
      · rintro ⟨-, htag, rfl⟩
        exact .null hnothing htag
      · intro ht
        cases ht with
        | empty => exact absurd rfl hnil
        | null _ htag => exact ⟨hnothing, htag, rfl⟩
        | _ => contradiction
  · rw [body_dict_leaf hassign hif hwhile hnothing]
    refine hleaf.congr fun t => ?_
    constructor
    · exact fun ht => absurd ht.1 hnothing
    · intro ht
      cases ht <;> contradiction

theorem isAlias_of_aliasFree {n : Node} (hfree : n.AliasFree) : n.isAlias = false := by
  by_contra hn
  obtain ⟨p, name, i, rfl⟩ := Node.exists_alias_of_isAlias hn
  exact hfree p name i (Node.mem_parts_self _)

/-- A node without aliases is read exactly if it is one of the grammar, and to the tree that it denotes. -/
theorem node_accepts {n : Node} (hfree : n.AliasFree) : NodeAccepts n := by
  -- a form is read by the kind of its body, whose parts are smaller
  suffices h : NodeAccepts n ∧ ∀ cx follow opened key,
      Accepts (body cx follow opened key n) (DenotesForm cx.span key n) from h.1
  induction n using Node.induct with
  | scalar p a tag text =>
    refine ⟨fun cx follow opened => ?_, fun cx follow opened key => body_scalar_accepts⟩
    rw [node]
    exact scalar_accepts
  | list p a tag flow items ih =>
    have hitems : ∀ n ∈ items, NodeAccepts n :=
      fun n hn => (ih n hn (hfree.of_part (Node.item_mem_parts hn))).1
    refine ⟨fun cx follow opened => ?_, fun cx follow opened key => body_list_accepts hitems⟩
    rw [node]
    refine .fail fun t ht => ?_
    cases ht
  | dict p a tag flow entries ih =>
    have hentries : ∀ e ∈ entries, NodeAccepts e.2 ∧ ∀ cx follow opened key,
        Accepts (body cx follow opened key e.2) (DenotesForm cx.span key e.2) :=
      fun e he => (ih e he).2 (hfree.of_part (Node.value_mem_parts he))
    have halias : ∀ e ∈ entries, e.2.isAlias = false :=
      fun e he => isAlias_of_aliasFree (hfree.of_part (Node.value_mem_parts he))
    refine ⟨fun cx follow opened => ?_,
      fun cx follow opened key => body_dict_accepts (fun e he => (hentries e he).1) halias⟩
    rw [node]
    rcases entries with _ | ⟨e, _ | ⟨e', rest⟩⟩
    · rw [form]
      · refine .fail fun t ht => ?_
        cases ht
      · simp
    · rw [form, entry]
      refine ((hentries e List.mem_cons_self).2 cx follow opened e.1).congr fun t => ⟨.form, fun ht => ?_⟩
      cases ht with
      | form ht => exact ht
    · rw [form]
      · refine .fail fun t ht => ?_
        cases ht
      · simp
  | link p name i => exact absurd (Node.mem_parts_self _) (hfree p name i)

/-! ## Environments and documents -/

theorem tree_accepts {n : Node} (h : NodeAccepts n) : Accepts (cx.tree opened n) (Denotes cx.span n) :=
  h cx (cx.followTo (maxAliases + 1)) opened

theorem value?_eq_some_iff {t : Tree} {v : Value} : t.value? = some v ↔ t = v.toTree := by
  cases t <;> cases v <;> simp [Tree.value?, Value.toTree]

/-- What the bindings of a mapping are, after others: they are added in order, and no name occurs twice. -/
def DenotesBindings (place : Pos → Span) (entries : List (Node × Node)) (acc l : List (String × Value)) :
    Prop :=
  ∃ bs, l = acc.reverse ++ bs ∧ List.Forall₂ (DenotesBinding place) entries bs ∧ (∀ b ∈ bs, b.1 ≠ "") ∧
    ((acc.reverse ++ bs).map (·.1)).Nodup

theorem denotesBindings_cons {place : Pos → Span} {val : Node} {acc l : List (String × Value)} :
    DenotesBindings place ((key, val) :: entries) acc l ↔
      key.text ≠ "" ∧ key.text ∉ acc.map (·.1) ∧ ∃ t, Denotes place val t ∧ ∃ v, t.value? = some v ∧
        DenotesBindings place entries ((key.text, v) :: acc) l := by
  have happend : ∀ b (bs : List (String × Value)), acc.reverse ++ b :: bs = (b :: acc).reverse ++ bs := by
    intro b bs
    rw [List.reverse_cons, List.append_assoc, List.singleton_append]
  constructor
  · rintro ⟨bs, rfl, hbs, hnames, hnodup⟩
    obtain ⟨⟨name, v⟩, bs, ⟨rfl, hv⟩, hrest, rfl⟩ := List.forall₂_cons_left_iff.1 hbs
    obtain ⟨hname, hnames⟩ := List.forall_mem_cons.1 hnames
    have hfresh : key.text ∉ acc.map (·.1) := by
      rw [List.map_append, List.nodup_append] at hnodup
      intro hmem
      refine hnodup.2.2 key.text ?_ key.text (List.mem_map_of_mem List.mem_cons_self) rfl
      rwa [List.map_reverse, List.mem_reverse]
    rw [happend] at hnodup ⊢
    exact ⟨hname, hfresh, _, hv, v, value?_eq_some_iff.2 rfl, bs, rfl, hrest, hnames, hnodup⟩
  · rintro ⟨hname, -, t, ht, v, hv, bs, rfl, hrest, hnames, hnodup⟩
    rw [value?_eq_some_iff.1 hv] at ht
    rw [← happend] at hnodup ⊢
    refine ⟨(key.text, v) :: bs, rfl, .cons ⟨rfl, ht⟩ hrest, ?_, hnodup⟩
    exact List.forall_mem_cons.2 ⟨hname, hnames⟩

/-- Bindings are read in order, each under a name that is not empty and was not bound before. -/
theorem bindings_accepts (h : ∀ e ∈ entries, NodeAccepts e.2) :
    ∀ acc, (acc.map (·.1)).Nodup →
      Accepts (cx.bindings opened entries acc) (DenotesBindings cx.span entries acc) := by
  induction entries with
  | nil =>
    intro acc hacc
    rw [bindings]
    refine Accepts.pure.congr fun l => ?_
    constructor
    · rintro rfl
      refine ⟨[], (List.append_nil _).symm, .nil, by simp, ?_⟩
      simpa using hacc
    · rintro ⟨bs, rfl, hbs, -⟩
      cases hbs
      exact List.append_nil _
  | cons e rest ih =>
    intro acc hacc
    obtain ⟨key, val⟩ := e
    obtain ⟨hval, hrest⟩ := List.forall_mem_cons.1 h
    have hlookup : (acc.lookup key.text).isSome = true ↔ key.text ∈ acc.map (·.1) := by
      rw [List.lookup_isSome_iff, List.mem_map]
      refine exists_congr fun b => and_congr_right fun _ => ?_
      rw [beq_iff_eq]
      exact eq_comm
    rw [bindings]
    refine Accepts.congr ?_ fun l => denotesBindings_cons.symm
    refine .ite (fun hempty => .fail fun l hl => hl.1 (beq_iff_eq.1 hempty)) fun hname => ?_
    refine .ite (fun hseen => .fail fun l hl => hl.2.1 (hlookup.1 hseen)) fun hfresh => ?_
    rw [beq_iff_eq] at hname
    rw [hlookup] at hfresh
    refine ((tree_accepts hval).bind
      (Q := fun t l => ∃ v, t.value? = some v ∧ DenotesBindings cx.span rest ((key.text, v) :: acc) l)
      fun t _ => ?_).congr fun l => ?_
    · rcases hv : t.value? with _ | v
      · exact .fail fun l hl => by simp at hl
      · have hnodup : (((key.text, v) :: acc).map (·.1)).Nodup := List.nodup_cons.2 ⟨hfresh, hacc⟩
        exact (ih hrest _ hnodup).congr fun l => by simp
    · simp [hname, hfresh]

theorem denotesEnv_dict_iff {place : Pos → Span} {e : Env} :
    DenotesEnv place (.dict p a tag flow entries) e ↔
      ∃ l, DenotesBindings place entries [] l ∧ e = Env.ofList l := by
  constructor
  · intro h
    cases h with
    | bindings h hnames hnodup => exact ⟨_, ⟨_, rfl, h, hnames, hnodup⟩, rfl⟩
  · rintro ⟨_, ⟨l, rfl, h, hnames, hnodup⟩, rfl⟩
    exact .bindings h hnames hnodup

/-- An environment without aliases is read exactly if it is one of the grammar. -/
theorem env_accepts {n : Node} (hfree : n.AliasFree) : Accepts (cx.env n) (DenotesEnv cx.span n) := by
  rw [env_here (isAlias_of_aliasFree hfree)]
  cases n using Node.induct with
  | scalar p a tag text =>
    unfold envAt
    refine .ite (fun htag => Accepts.pure.congr fun e => ?_) fun htag => .fail fun e he => ?_
    · rw [beq_iff_eq] at htag
      constructor
      · rintro rfl
        exact .null htag
      · intro he
        cases he
        rfl
    · cases he with
      | null h => exact htag (beq_iff_eq.2 h)
  | list p a tag flow items =>
    unfold envAt
    refine .fail fun e he => ?_
    cases he
  | dict p a tag flow entries =>
    have hentries : ∀ e ∈ entries, NodeAccepts e.2 :=
      fun e he => node_accepts (hfree.of_part (Node.value_mem_parts he))
    unfold envAt
    refine ((bindings_accepts hentries [] List.nodup_nil).bind fun l _ => .pure).congr fun e => ?_
    exact denotesEnv_dict_iff.symm
  | link p name i => exact absurd (Node.mem_parts_self _) (hfree p name i)

/-- What the environment of a document stands for, which is empty where it is left out. -/
def DenotesEnvField (place : Pos → Span) (entries : List (Node × Node)) (e : Env) : Prop :=
  (∃ m, field? "env" entries = some m ∧ DenotesEnv place m e) ∨ (field? "env" entries = none ∧ e = Env.empty)

theorem denotesDocument_dict_iff {place : Pos → Span} {e : Env} {t : Tree} :
    DenotesDocument place (.dict p a tag flow entries) e t ↔
      (fieldNames entries).Perm (["program"] ++ ["env"].filter fun o => (field? o entries).isSome) ∧
        DenotesEnvField place entries e ∧ ∃ n, field? "program" entries = some n ∧ Denotes place n t := by
  constructor
  · intro h
    cases h with
    | program hfields hn =>
      rw [hasFields_iff (by simp)] at hfields
      simp only [List.forall_mem_singleton, List.map_cons, List.map_nil] at hfields
      obtain ⟨hperm, hprogram⟩ := hfields
      have hnone : field? "env" entries = none := by
        rw [← Option.not_isSome_iff_eq_none, field?_isSome_iff, hperm.mem_iff]
        decide
      refine ⟨?_, .inr ⟨hnone, rfl⟩, _, hprogram, hn⟩
      simpa [hnone] using hperm
    | envProgram hfields hm hn =>
      obtain ⟨hperm, hprogram, henv⟩ := (hasFields_two (by decide)).1 hfields
      refine ⟨?_, .inl ⟨_, henv, hm⟩, _, hprogram, hn⟩
      simpa [henv] using hperm
  · rintro ⟨hperm, ⟨m, henv, hm⟩ | ⟨hnone, rfl⟩, n, hprogram, hn⟩
    · refine .envProgram ((hasFields_two (by decide)).2 ⟨?_, hprogram, henv⟩) hm hn
      simpa [henv] using hperm
    · refine .program ((hasFields_iff (by simp)).2 ⟨?_, ?_⟩) hn
      · simpa [hnone] using hperm
      · simpa using hprogram

theorem dict_of_denotesDocument {place : Pos → Span} {n : Node} {e : Env} {t : Tree}
    (h : DenotesDocument place n e t) : ∃ p a tag flow entries, n = .dict p a tag flow entries := by
  cases h with
  | program | envProgram => exact ⟨_, _, _, _, _, rfl⟩

/-- A document without aliases is read exactly if it is one of the grammar. -/
theorem document_accepts (hfree : cx.root.AliasFree) :
    Accepts cx.document fun doc =>
      doc.file = cx.file ∧ DenotesDocument cx.span cx.root doc.env doc.program := by
  by_cases hdict : ∃ p a tag flow entries, cx.root = .dict p a tag flow entries
  · obtain ⟨p, a, tag, flow, entries, hroot⟩ := hdict
    have hentries : ∀ e ∈ entries, e.2.AliasFree :=
      fun e he => hfree.of_part (hroot ▸ Node.value_mem_parts he)
    have henv : Accepts (cx.envField entries) (DenotesEnvField cx.span entries) := by
      unfold envField DenotesEnvField
      rcases hm : field? "env" entries with _ | m
      · exact Accepts.pure.congr fun e => by simp
      · obtain ⟨e, he, -, rfl⟩ := mem_of_field? hm
        exact (env_accepts (hentries e he)).congr fun e => by simp
    rw [document_dict hroot, hroot]
    refine .guard (checkFields_accepts (by decide)) (fun hperm => ?_)
      fun doc hdoc => (denotesDocument_dict_iff.1 hdoc.2).1
    refine (henv.bind
      (Q := fun e (doc : Document) => ∃ t, (∃ n, field? "program" entries = some n ∧ Denotes cx.span n t) ∧
        doc = { file := cx.file, env := e, program := t })
      fun e _ => ?_).congr fun doc => ?_
    · rcases hn : field? "program" entries with _ | n
      · exact .fail fun doc hdoc => by simp at hdoc
      · obtain ⟨e', he', -, rfl⟩ := mem_of_field? hn
        refine ((tree_accepts (node_accepts (hentries e' he'))).bind fun t _ => .pure).congr fun doc => ?_
        simp
    · rw [denotesDocument_dict_iff]
      constructor
      · rintro ⟨e, he, t, ht, rfl⟩
        exact ⟨rfl, hperm, he, ht⟩
      · obtain ⟨file, e, t⟩ := doc
        rintro ⟨rfl, -, he, ht⟩
        exact ⟨e, he, t, ht, rfl⟩
  · unfold document
    split
    · next hroot => exact absurd ⟨_, _, _, _, _, hroot⟩ hdict
    · exact .fail fun doc hdoc => hdict (dict_of_denotesDocument hdoc.2)

end Context

/-- The reader accepts exactly the grammar. A node without aliases is read if it denotes a tree, and to this
tree; a document without aliases is read if it denotes an environment and a program, and to these. -/
theorem reads_iff_denotes (cx : Context) :
    (∀ (follow : Context.Follow) (opened : List Nat) (n : Node) (k k' : Nat) (t : Tree), n.AliasFree →
      ((Context.node cx follow opened n).run k = .ok (t, k') ↔ k' = k ∧ Denotes cx.span n t)) ∧
      (cx.root.AliasFree → ∀ (k k' : Nat) (doc : Document), cx.document.run k = .ok (doc, k') ↔
        k' = k ∧ doc.file = cx.file ∧ DenotesDocument cx.span cx.root doc.env doc.program) := by
  constructor
  · intro follow opened n k k' t hfree
    rw [Context.node_accepts hfree cx follow opened k (t, k')]
    simp [and_comm]
  · intro hfree k k' doc
    rw [Context.document_accepts hfree k (doc, k')]
    simp [and_comm]

/-- A document whose fields stand in another order than they are written in. Its program is a sequence of one
statement, with a condition that has no `else`. -/
def shuffled : Node :=
  let form := Tree.formNode
  let cond := form "lt" (Node.ofList true [form "var" (Node.ofString "x"), Node.ofInt 3])
  let assign := form "assign" (Node.ofFields true [("value", Node.ofInt (-1)), ("name", Node.ofString "y")])
  let ite := form "if" (Node.ofFields true [("then", assign), ("cond", cond)])
  let env := Node.ofFields true [("y", form "bool" (Node.ofBool true)), ("x", Node.ofInt 2)]
  Node.ofFields true [("program", form "seq" (Node.ofList true [ite])), ("env", env)]

/-- The grammar says what this document denotes, because it is read so. -/
theorem reads_iff_denotes_shuffled :
    shuffled.AliasFree ∧ ∃ s, DenotesDocument (Context.span ⟨"shuffled.yaml", shuffled⟩) shuffled
      (Env.ofList [("x", .num s 2), ("y", .bool s true)])
      (.ite s (.binary s .lt (.var s "x") (.num s 3)) (.assign s "y" (.num s (-1))) (.nothing s)) := by
  have hfree : shuffled.AliasFree := by decide
  refine ⟨hfree, Context.span ⟨"shuffled.yaml", shuffled⟩ Node.nowhere, ?_⟩
  exact (((reads_iff_denotes ⟨"shuffled.yaml", shuffled⟩).2 hfree 0 0 ⟨"shuffled.yaml", _, _⟩).1 rfl).2.2

end WhileLang.Document
