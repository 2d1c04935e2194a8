import Mathlib.Data.List.Forall2
import WhileLang.Proofs.Document.Decoding
import WhileLang.Proofs.Unplaced
import WhileLang.Proofs.Yaml.Unfold

/-!
# Reading a document and reading its unfolding

`Agree` relates two readers that take corresponding steps: one that follows aliases and may refuse to, and one
that meets none. It is kept by sequencing, and following an alias is a step of the first reader alone. So a
node and its unfolding are read to trees that are equal up to positions (`Unfolds.agree`), whatever is
open and however many aliases are counted, unless an alias is refused.
-/

namespace WhileLang.Document

open Yaml (Node Pos Anchor)
open Yaml.Node (Unfolds)

variable {α β γ δ : Type} {R : α → β → Prop} {S : γ → δ → Prop}

/-- Where `x` succeeds, so does `y`, with a related result and without an alias to count. Where `x` fails, so
does `y`, unless `x` refuses an alias. -/
def Agree (R : α → β → Prop) (x : Decoding α) (y : Decoding β) : Prop :=
  ∀ k k', (∀ a k₁, x.run k = .ok (a, k₁) → ∃ b, y.run k' = .ok (b, k') ∧ R a b) ∧
    ∀ e, x.run k = .error e → e.defect.refusesAlias = true ∨ ∃ e', y.run k' = .error e'

namespace Agree

theorem pure {a : α} {b : β} (h : R a b) : Agree R (pure a) (pure b) := by
  intro k k'
  refine ⟨fun a' k₁ ha => ?_, fun e he => by cases he⟩
  cases ha
  exact ⟨b, rfl, h⟩

theorem fail {cx cx' : Context} {p p' : Pos} {d d' : Defect} :
    Agree R (cx.fail p d) (cx'.fail p' d') := by
  intro k k'
  refine ⟨fun a k₁ ha => ?_, fun e _ => .inr ⟨_, rfl⟩⟩
  cases ha

theorem refused {cx : Context} {p : Pos} {y : Decoding β} :
    Agree R (cx.fail p .tooManyAliases) y := by
  intro k k'
  refine ⟨fun a k₁ ha => ?_, fun e he => .inl ?_⟩
  · cases ha
  · cases he
    rfl

theorem bind {x : Decoding α} {y : Decoding β} {f : α → Decoding γ} {g : β → Decoding δ}
    (hxy : Agree R x y) (hfg : ∀ a b, R a b → Agree S (f a) (g b)) : Agree S (x >>= f) (y >>= g) := by
  intro k k'
  constructor
  · intro c k₂ hc
    obtain ⟨a, k₁, ha, hc⟩ := Decoding.bind_ok.1 hc
    obtain ⟨b, hb, hab⟩ := (hxy k k').1 a k₁ ha
    obtain ⟨d, hd, hcd⟩ := (hfg a b hab k₁ k').1 c k₂ hc
    exact ⟨d, Decoding.bind_ok.2 ⟨b, k', hb, hd⟩, hcd⟩
  · intro e he
    rcases Decoding.bind_error.1 he with he | ⟨a, k₁, ha, he⟩
    · rcases (hxy k k').2 e he with hrefuse | ⟨e', he'⟩
      · exact .inl hrefuse
      · exact .inr ⟨e', Decoding.bind_error.2 (.inl he')⟩
    · obtain ⟨b, hb, hab⟩ := (hxy k k').1 a k₁ ha
      rcases (hfg a b hab k₁ k').2 e he with hrefuse | ⟨e', he'⟩
      · exact .inl hrefuse
      · exact .inr ⟨e', Decoding.bind_error.2 (.inr ⟨b, k', hb, he'⟩)⟩

theorem ite {c : Prop} [Decidable c] {x x' : Decoding α} {y y' : Decoding β} (hpos : c → Agree R x y)
    (hneg : ¬ c → Agree R x' y') : Agree R (if c then x else x') (if c then y else y') := by
  by_cases hc : c
  · rw [if_pos hc, if_pos hc]
    exact hpos hc
  · rw [if_neg hc, if_neg hc]
    exact hneg hc

/-- Following an alias is a step that only the first reader takes. -/
theorem resolve {cx : Context} {opened : List Nat} {p : Pos} {name : String} {i : Nat} {m : Node}
    {f : Node → Decoding α} {y : Decoding β} (hfind : cx.root.find? i = some m) (h : Agree R (f m) y) :
    Agree R (cx.resolve opened p name i >>= f) y := by
  intro k k'
  constructor
  · intro a k₁ ha
    obtain ⟨_, _, hm, ha⟩ := Decoding.bind_ok.1 ha
    obtain ⟨-, _, hm', ⟨⟩⟩ := Context.resolve_ok hm
    cases hfind.symm.trans hm'
    exact (h (k + 1) k').1 a k₁ ha
  · intro e he
    rcases Decoding.bind_error.1 he with he | ⟨_, _, hm, he⟩
    · rw [Context.resolve_run, hfind] at he
      split at he
      · cases he
        exact .inl rfl
      · split at he
        · cases he
          exact .inl rfl
        · cases he
    · obtain ⟨-, _, hm', ⟨⟩⟩ := Context.resolve_ok hm
      cases hfind.symm.trans hm'
      exact (h (k + 1) k').2 e he

end Agree

/-- Equal up to positions. -/
def Alike (t t' : Tree) : Prop := t.unplaced = t'.unplaced

namespace Context

variable {cx cx' : Context}

/-! ## Steps that follow no alias -/

theorem scalar_agree {p q : Pos} {a b : Option Anchor} {tag text : String} :
    Agree Alike (cx.scalar (.scalar p a tag text)) (cx'.scalar (.scalar q b tag text)) := by
  simp only [scalar, Node.tag, Node.text]
  generalize Yaml.Plain.resolve false text = r
  split
  · cases r with
    | int i => exact .ite (fun _ => .pure rfl) fun _ => .fail
    | _ => exact .fail
  · cases r with
    | bool b => exact .pure rfl
    | _ => exact .fail
  · exact .ite (fun _ => .pure rfl) fun _ => .fail
  · exact .fail

theorem leaf_collection_agree {key key' val val' : Node} (hkey : key.text = key'.text)
    (hval : val.isScalar = false) (hval' : val'.isScalar = false) (htag : val.tag = val'.tag) :
    Agree Alike (cx.leaf key val) (cx'.leaf key' val') := by
  intro k k'
  rcases leaf_collection cx k key hval with ⟨hk, ht, hl⟩ | ⟨hno, e, hl⟩
  · rcases leaf_collection cx' k' key' hval' with ⟨-, -, hr⟩ | ⟨hno, -⟩
    · rw [hl, hr]
      refine ⟨fun t k₁ h => ?_, fun e h => ?_⟩
      · cases h
        exact ⟨_, rfl, rfl⟩
      · cases h
    · exact absurd ⟨hkey ▸ hk, htag ▸ ht⟩ hno
  · rcases leaf_collection cx' k' key' hval' with ⟨hk', ht', -⟩ | ⟨-, e', hr⟩
    · exact absurd ⟨hkey.trans hk', htag.trans ht'⟩ hno
    · rw [hl, hr]
      refine ⟨fun t k₁ h => ?_, fun e h => .inr ⟨e', rfl⟩⟩
      cases h

/-- A body without nodes is read by its kind, tag and text, its key by the text. -/
theorem leaf_agree {root key key' val val' : Node} (hkey : key.text = key'.text)
    (hval : val.isAlias = false) (h : Unfolds root val val') :
    Agree Alike (cx.leaf key val) (cx'.leaf key' val') := by
  cases h with
  | scalar =>
    simp only [leaf, ← hkey, Node.tag]
    generalize key.text = name
    split
    case h_1 | h_2 => exact .ite (fun _ => scalar_agree) fun _ => .fail
    case h_3 => exact .ite (fun _ => .pure rfl) fun _ => .fail
    all_goals exact .fail
  | list | dict => exact leaf_collection_agree hkey rfl rfl rfl
  | behind => cases hval

/-- Fields are checked by the texts of their keys. -/
theorem checkFields_agree {p p' : Pos} {form form' : String} {required optional : List String}
    {entries entries' : List (Node × Node)}
    (hkeys : entries.map (fun e => e.1.text) = entries'.map fun e => e.1.text) :
    Agree (fun _ _ => True) (cx.checkFields p form required optional entries)
      (cx'.checkFields p' form' required optional entries') := by
  intro k k'
  constructor
  · intro u k₁ h
    obtain ⟨⟨⟩, -⟩ := checkFields_ok.1 h
    exact ⟨(), checkFields_ok_congr hkeys h, trivial⟩
  · intro e he
    rcases hr : (cx'.checkFields p' form' required optional entries').run k' with e' | r
    · exact .inr ⟨e', rfl⟩
    · obtain ⟨⟨⟩, -⟩ := checkFields_ok.1 hr
      rw [checkFields_ok_congr hkeys.symm hr] at he
      cases he

/-! ## Nodes -/

variable {root : Node}

/-- Corresponding nodes are read alike, whatever is open and however deep aliases may nest. -/
def NodeAgree (cx : Context) (n n' : Node) : Prop :=
  ∀ depth opened cx' follow' opened',
    Agree Alike (node cx (cx.followTo depth) opened n) (node cx' follow' opened' n')

theorem trees_agree {items items' : List Node} (h : List.Forall₂ (NodeAgree cx) items items')
    (depth : Nat) (opened : List Nat) (cx' : Context) (follow' : Follow) (opened' : List Nat) :
    Agree (List.Forall₂ Alike) (trees cx (cx.followTo depth) opened items)
      (trees cx' follow' opened' items') := by
  induction h with
  | nil => exact .pure .nil
  | cons hn _ ih =>
    rw [trees, trees]
    refine .bind (hn depth opened cx' follow' opened') fun t t' ht => ?_
    refine .bind ih fun ts ts' hts => ?_
    exact .pure (.cons ht hts)

theorem sequence_agree {items items' : List Node} (h : List.Forall₂ (NodeAgree cx) items items')
    (depth : Nat) (opened : List Nat) (cx' : Context) (follow' : Follow) (opened' : List Nat) :
    ∀ span span', Agree Alike (sequence cx (cx.followTo depth) opened span items)
      (sequence cx' follow' opened' span' items') := by
  induction h with
  | nil => exact fun span span' => .pure rfl
  | @cons n n' rest rest' hn hrest ih =>
    intro span span'
    cases hrest with
    | nil =>
      rw [sequence, sequence]
      exact hn depth opened cx' follow' opened'
    | cons hm hrest =>
      rw [sequence, sequence]
      refine .bind (hn depth opened cx' follow' opened') fun t t' ht => ?_
      refine .bind (ih _ _) fun u u' hu => .pure ?_
      rw [Alike] at ht hu ⊢
      rw [Tree.unplaced, Tree.unplaced, ht, hu]

/-- Entries correspond one by one: their keys have the same text, and their values are related. -/
def EntriesAgree (P : Node → Node → Prop) : List (Node × Node) → List (Node × Node) → Prop :=
  List.Forall₂ fun e e' => e.1.text = e'.1.text ∧ P e.2 e'.2

theorem EntriesAgree.texts {P : Node → Node → Prop} {entries entries' : List (Node × Node)}
    (h : EntriesAgree P entries entries') :
    entries.map (fun e => e.1.text) = entries'.map fun e => e.1.text := by
  induction h with
  | nil => rfl
  | cons he _ ih => rw [List.map_cons, List.map_cons, he.1, ih]

/-- Corresponding entries have corresponding fields. -/
theorem EntriesAgree.rel_field? {P : Node → Node → Prop} {entries entries' : List (Node × Node)}
    (h : EntriesAgree P entries entries') (name : String) :
    Option.Rel P (field? name entries) (field? name entries') := by
  induction h with
  | nil => exact .none
  | @cons e e' rest rest' he _ ih =>
    unfold field? at ih ⊢
    rw [List.find?_cons, List.find?_cons, he.1]
    split
    · exact .some he.2
    · exact ih

theorem EntriesAgree.isSome_field? {P : Node → Node → Prop} {entries entries' : List (Node × Node)}
    (h : EntriesAgree P entries entries') (name : String) :
    (field? name entries).isSome = (field? name entries').isSome := by
  have hrel := h.rel_field? name
  generalize field? name entries = v at hrel ⊢
  generalize field? name entries' = v' at hrel ⊢
  cases hrel with
  | none | some => rfl

theorem field_agree {entries entries' : List (Node × Node)} {name : String}
    (h : Option.Rel (NodeAgree cx) (field? name entries) (field? name entries'))
    (depth : Nat) (opened : List Nat) (cx' : Context) (follow' : Follow) (opened' : List Nat)
    (p p' : Pos) (form form' : String) :
    Agree Alike (field cx (cx.followTo depth) opened p form name entries)
      (field cx' follow' opened' p' form' name entries') := by
  rw [field_eq, field_eq]
  generalize field? name entries = v at h ⊢
  generalize field? name entries' = v' at h ⊢
  cases h with
  | none => exact .fail
  | some hv => exact hv depth opened cx' follow' opened'

theorem Unfolds.isAlias {n n' : Node} (hn : n.isAlias = false) (h : Unfolds root n n') :
    n'.isAlias = false := by
  cases h with
  | scalar | list | dict => rfl
  | behind => cases hn

theorem nameAt_agree {n n' : Node} (hn : n.isAlias = false) (h : Unfolds root n n') (opened : List Nat)
    (cx' : Context) (opened' : List Nat) :
    Agree (fun r r' => r.1 = r'.1) (cx.nameAt opened n) (cx'.nameAt opened' n') := by
  cases h with
  | @scalar p q a b tag text =>
    by_cases htag : tag = "!!str"
    · rw [htag]
      exact .pure rfl
    · have hfail : ∀ (cx : Context) (opened : List Nat) (p : Pos) (a : Option Anchor),
          cx.nameAt opened (.scalar p a tag text) = cx.fail p .assignName := by
        intro cx opened p a
        unfold nameAt
        split
        · next heq => exact absurd (Node.scalar.inj heq).2.2.1 htag
        · rfl
      rw [hfail, hfail]
      exact .fail
  | list | dict => exact .fail
  | behind => cases hn

/-- A name is the same in an unfolding, whether an alias leads to it or not. -/
theorem assignName_agree {n n' : Node} (h : Unfolds cx.root n n') (opened : List Nat) (cx' : Context)
    (opened' : List Nat) :
    Agree (fun r r' => r.1 = r'.1) (cx.assignName opened n) (cx'.assignName opened' n') := by
  by_cases hn : n.isAlias = false
  · rw [assignName_here hn, assignName_here (Unfolds.isAlias hn h)]
    exact nameAt_agree hn h opened cx' opened'
  · cases h with
    | behind hfind hm =>
      have hm' := Node.isAlias_of_find? hfind
      rw [assignName_alias, assignName_here (Unfolds.isAlias hm' hm)]
      exact .resolve hfind (nameAt_agree hm' hm _ cx' opened')
    | scalar | list | dict => exact absurd rfl hn

/-! ## The main induction -/

/-- Corresponding bodies are read alike. -/
def BodyAgree (cx : Context) (n n' : Node) : Prop :=
  ∀ depth opened cx' follow' opened' (key key' : Node), key.text = key'.text →
    Agree Alike (body cx (cx.followTo depth) opened key n) (body cx' follow' opened' key' n')

theorem body_list_agree {p p' : Pos} {a a' : Option Anchor} {tag : String} {flow flow' : Bool}
    {items items' : List Node}
    (h : Unfolds cx.root (.list p a tag flow items) (.list p' a' tag flow' items'))
    (hitems : List.Forall₂ (NodeAgree cx) items items') :
    BodyAgree cx (.list p a tag flow items) (.list p' a' tag flow' items') := by
  intro depth opened cx' follow' opened' key key' hkey
  -- both sides have the same key and as many items, so they take the same branch
  have hlen : items.length = items'.length := hitems.length_eq
  have hleaf : Agree Alike (cx.leaf key (.list p a tag flow items))
      (cx'.leaf key' (.list p' a' tag flow' items')) := leaf_agree hkey rfl h
  rcases hop : op? key.text with _ | op
  · by_cases hseq : key.text = "seq"
    · rw [body_list_seq hseq, body_list_seq (hkey ▸ hseq)]
      cases hitems with
      | nil => exact hleaf
      | cons hn hrest => exact sequence_agree (.cons hn hrest) depth opened cx' follow' opened' _ _
    · rw [body_list_leaf hseq hop, body_list_leaf (hkey ▸ hseq) (hkey ▸ hop)]
      exact hleaf
  · by_cases htwo : items.length = 2
    · rw [body_list_op hop htwo, body_list_op (hkey ▸ hop) (hlen ▸ htwo)]
      refine .bind (trees_agree hitems depth opened cx' follow' opened') fun ts ts' hts => ?_
      rcases hts with _ | ⟨hl, _ | ⟨hr, _ | _⟩⟩
      · exact hleaf
      · exact hleaf
      · refine .pure ?_
        rw [Alike] at hl hr ⊢
        rw [Tree.unplaced, Tree.unplaced, hl, hr]
      · exact hleaf
    · rw [body_list_op_count hop htwo, body_list_op_count (hkey ▸ hop) (hlen ▸ htwo)]
      exact hleaf

section Mapping

variable {p p' : Pos} {a a' : Option Anchor} {tag : String} {flow flow' : Bool}
  {entries entries' : List (Node × Node)}

/-- Corresponding bodies of one form are read alike. -/
def FormAgree (cx : Context) (form : String) (n n' : Node) : Prop :=
  ∀ depth opened cx' follow' opened' (key key' : Node), key.text = form → key'.text = form →
    Agree Alike (body cx (cx.followTo depth) opened key n) (body cx' follow' opened' key' n')

theorem body_assign_agree (hnames : EntriesAgree (Unfolds cx.root) entries entries')
    (hvalues : EntriesAgree (NodeAgree cx) entries entries') :
    FormAgree cx "assign" (.dict p a tag flow entries) (.dict p' a' tag flow' entries') := by
  intro depth opened cx' follow' opened' key key' hkey hkey'
  rw [body_dict_assign hkey, body_dict_assign hkey']
  refine .bind (checkFields_agree hvalues.texts) fun _ _ _ => ?_
  have hname := hnames.rel_field? "name"
  generalize field? "name" entries = n at hname ⊢
  generalize field? "name" entries' = n' at hname ⊢
  cases hname with
  | none => exact .fail
  | some hname =>
    -- from here on other nodes may be open on the two sides, which the value does not depend on
    refine .bind (assignName_agree hname opened cx' opened') fun r r' hr => ?_
    refine .bind (field_agree (hvalues.rel_field? "value") depth r.2 cx' follow' r'.2 p p' _ _)
      fun v v' hv => .pure ?_
    rw [Alike] at hv ⊢
    rw [Tree.unplaced, Tree.unplaced, hr, hv]

theorem body_if_agree (hvalues : EntriesAgree (NodeAgree cx) entries entries') :
    FormAgree cx "if" (.dict p a tag flow entries) (.dict p' a' tag flow' entries') := by
  intro depth opened cx' follow' opened' key key' hkey hkey'
  have hfield := fun name =>
    field_agree (hvalues.rel_field? name) depth opened cx' follow' opened' p p' "if" "if"
  rw [body_dict_if hkey, body_dict_if hkey', hvalues.isSome_field? "else"]
  refine .bind (checkFields_agree hvalues.texts) fun _ _ _ => ?_
  refine .bind (hfield "cond") fun c c' hc => .bind (hfield "then") fun t t' ht => ?_
  rw [Alike] at hc ht
  refine .ite (fun _ => .bind (hfield "else") fun e e' he => .pure ?_) fun _ => .pure ?_
  · rw [Alike] at he ⊢
    rw [Tree.unplaced, Tree.unplaced, hc, ht, he]
  · rw [Alike, Tree.unplaced, Tree.unplaced, hc, ht]
    rfl

theorem body_while_agree (hvalues : EntriesAgree (NodeAgree cx) entries entries') :
    FormAgree cx "while" (.dict p a tag flow entries) (.dict p' a' tag flow' entries') := by
  intro depth opened cx' follow' opened' key key' hkey hkey'
  have hfield := fun name =>
    field_agree (hvalues.rel_field? name) depth opened cx' follow' opened' p p' "while" "while"
  rw [body_dict_while hkey, body_dict_while hkey']
  refine .bind (checkFields_agree hvalues.texts) fun _ _ _ => ?_
  refine .bind (hfield "cond") fun c c' hc => .bind (hfield "body") fun b b' hb => .pure ?_
  rw [Alike] at hc hb ⊢
  rw [Tree.unplaced, Tree.unplaced, hc, hb]

theorem body_dict_agree
    (h : Unfolds cx.root (.dict p a tag flow entries) (.dict p' a' tag flow' entries'))
    (hnames : EntriesAgree (Unfolds cx.root) entries entries')
    (hvalues : EntriesAgree (NodeAgree cx) entries entries') :
    BodyAgree cx (.dict p a tag flow entries) (.dict p' a' tag flow' entries') := by
  intro depth opened cx' follow' opened' key key' hkey
  have hleaf : Agree Alike (cx.leaf key (.dict p a tag flow entries))
      (cx'.leaf key' (.dict p' a' tag flow' entries')) := leaf_agree hkey rfl h
  have hform : ∀ form, FormAgree cx form (.dict p a tag flow entries) (.dict p' a' tag flow' entries') →
      key.text = form → Agree Alike (body cx (cx.followTo depth) opened key (.dict p a tag flow entries))
        (body cx' follow' opened' key' (.dict p' a' tag flow' entries')) :=
    fun form hform htext => hform depth opened cx' follow' opened' key key' htext (hkey ▸ htext)
  by_cases hassign : key.text = "assign"
  · exact hform "assign" (body_assign_agree hnames hvalues) hassign
  by_cases hif : key.text = "if"
  · exact hform "if" (body_if_agree hvalues) hif
  by_cases hwhile : key.text = "while"
  · exact hform "while" (body_while_agree hvalues) hwhile
  by_cases hnothing : key.text = "do-nothing"
  · rw [body_dict_nothing hnothing, body_dict_nothing (hkey ▸ hnothing)]
    cases hvalues with
    | nil => exact .pure rfl
    | cons => exact hleaf
  · rw [body_dict_leaf hassign hif hwhile hnothing, body_dict_leaf (hkey ▸ hassign) (hkey ▸ hif)
      (hkey ▸ hwhile) (hkey ▸ hnothing)]
    exact hleaf

end Mapping

theorem body_scalar_agree {p p' : Pos} {a a' : Option Anchor} {tag text : String}
    (h : Unfolds cx.root (.scalar p a tag text) (.scalar p' a' tag text)) :
    BodyAgree cx (.scalar p a tag text) (.scalar p' a' tag text) := by
  intro depth opened cx' follow' opened' key key' hkey
  by_cases hvar : key.text = "var" ∧ tag = "!!str"
  · obtain ⟨hvar, rfl⟩ := hvar
    rw [body_scalar_var hvar, body_scalar_var (hkey ▸ hvar)]
    exact .pure rfl
  · rw [body_scalar_leaf hvar, body_scalar_leaf (hkey ▸ hvar)]
    exact leaf_agree hkey rfl h

/-- A node and its unfolding are read alike, as nodes and as bodies of forms. -/
theorem Unfolds.agree {n n' : Node} (h : Unfolds cx.root n n') :
    NodeAgree cx n n' ∧ BodyAgree cx n n' := by
  induction h with
  | scalar =>
    refine ⟨fun depth opened cx' follow' opened' => ?_, body_scalar_agree .scalar⟩
    rw [node, node]
    exact scalar_agree
  | list hlen hitems ih =>
    refine ⟨fun depth opened cx' follow' opened' => ?_, body_list_agree (.list hlen hitems) ?_⟩
    · rw [node, node]
      exact .fail
    · exact List.forall₂_iff_zip.2 ⟨hlen, fun hxy => (ih _ _ hxy).1⟩
  | @dict p q a b tag f g entries entries' hlen hkeys hvalues ih =>
    have hentries : ∀ P : Node → Node → Prop, (∀ x y, (x, y) ∈ entries.zip entries' → P x.2 y.2) →
        EntriesAgree P entries entries' := fun P hP =>
      List.forall₂_iff_zip.2 ⟨hlen, fun hxy => ⟨hkeys _ _ hxy, hP _ _ hxy⟩⟩
    have hbodies := hentries (BodyAgree cx) fun x y hxy => (ih x y hxy).2
    refine ⟨fun depth opened cx' follow' opened' => ?_, body_dict_agree (.dict hlen hkeys hvalues)
      (hentries _ hvalues) (hentries (NodeAgree cx) fun x y hxy => (ih x y hxy).1)⟩
    rw [node, node]
    rcases hbodies with _ | ⟨he, _ | _⟩
    · exact .fail
    · rw [form, form, entry, entry]
      exact he.2 depth opened cx' follow' opened' _ _ he.1
    · exact .fail
  | @behind p name i m n' hfind hm ih =>
    constructor
    · intro depth opened cx' follow' opened'
      rw [node]
      refine .resolve hfind ?_
      -- the depth is the number of aliases that may still be nested
      cases depth with
      | zero => exact .refused
      | succ depth => exact ih.1 depth (i :: opened) cx' follow' opened'
    · intro depth opened cx' follow' opened' key key' hkey
      rw [body]
      refine .resolve hfind ?_
      cases depth with
      | zero => exact .refused
      | succ depth => exact ih.2 depth (i :: opened) cx' follow' opened' key key' hkey

/-! ## Documents -/

theorem bindings_agree {entries entries' : List (Node × Node)}
    (h : EntriesAgree (NodeAgree cx) entries entries') (opened : List Nat) (cx' : Context)
    (opened' : List Nat) :
    ∀ acc acc', Bindings.unplaced acc = Bindings.unplaced acc' →
      Agree (fun l l' => Bindings.unplaced l = Bindings.unplaced l') (cx.bindings opened entries acc)
        (cx'.bindings opened' entries' acc') := by
  induction h with
  | nil =>
    intro acc acc' hacc
    refine .pure ?_
    rw [Bindings.unplaced, Bindings.unplaced, List.map_reverse, List.map_reverse]
    exact congrArg List.reverse hacc
  | @cons e e' rest rest' he _ ih =>
    intro acc acc' hacc
    obtain ⟨key, val⟩ := e
    obtain ⟨key', val'⟩ := e'
    obtain ⟨hkey, hval⟩ := he
    have hbound : (acc.lookup key.text).isSome = (acc'.lookup key.text).isSome := by
      have hlookup := congrArg (List.lookup key.text) hacc
      rw [Bindings.lookup_unplaced, Bindings.lookup_unplaced] at hlookup
      rw [← Option.isSome_map (f := Value.unplaced), hlookup, Option.isSome_map]
    rw [bindings, bindings, ← hkey, hbound]
    refine .ite (fun _ => .fail) fun _ => .ite (fun _ => .fail) fun _ => ?_
    refine .bind (hval _ opened cx' _ opened') fun t t' ht => ?_
    have hvalue : t.value?.map Value.unplaced = t'.value?.map Value.unplaced := by
      rw [← Tree.value?_unplaced, ← Tree.value?_unplaced, ht]
    rcases hv : t.value? with _ | v <;> rcases hv' : t'.value? with _ | v' <;>
      rw [hv, hv'] at hvalue
    · exact .fail
    · cases hvalue
    · cases hvalue
    · refine ih _ _ ?_
      rw [Bindings.unplaced_cons, Bindings.unplaced_cons, Option.some.inj hvalue, hacc]

theorem envAt_agree {n n' : Node} (hn : n.isAlias = false) (h : Unfolds cx.root n n') (opened : List Nat)
    (cx' : Context) : Agree (fun e e' => e.same e' = true) (cx.envAt opened n) (cx'.env n') := by
  rw [env_here (Unfolds.isAlias hn h)]
  cases h with
  | scalar => exact .ite (fun _ => .pure rfl) fun _ => .fail
  | list => exact .fail
  | @dict p q a b tag f g entries entries' hlen hkeys hvalues =>
    have hentries : EntriesAgree (NodeAgree cx) entries entries' :=
      List.forall₂_iff_zip.2 ⟨hlen, fun hxy => ⟨hkeys _ _ hxy, (Unfolds.agree (hvalues _ _ hxy)).1⟩⟩
    refine .bind (bindings_agree hentries opened cx' [] [] [] rfl) fun l l' hl => .pure ?_
    apply Env.same_of_unplaced
    rw [Env.unplaced_ofList, Env.unplaced_ofList, hl]
  | behind => cases hn

/-- An environment is the same in an unfolding, whether an alias leads to it or not. -/
theorem env_agree {n n' : Node} (h : Unfolds cx.root n n') (cx' : Context) :
    Agree (fun e e' => e.same e' = true) (cx.env n) (cx'.env n') := by
  by_cases hn : n.isAlias = false
  · rw [env_here hn]
    exact envAt_agree hn h [] cx'
  · cases h with
    | behind hfind hm =>
      rw [env_alias]
      exact .resolve hfind (envAt_agree (Node.isAlias_of_find? hfind) hm _ cx')
    | scalar | list | dict => exact absurd rfl hn

/-- The same document up to positions and the name of its file. -/
def DocumentsAlike (doc doc' : Document) : Prop :=
  doc.env.same doc'.env = true ∧ Alike doc.program doc'.program

theorem envField_agree {entries entries' : List (Node × Node)}
    (h : EntriesAgree (Unfolds cx.root) entries entries') :
    Agree (fun e e' => e.same e' = true) (cx.envField entries) (cx'.envField entries') := by
  have hfield := h.rel_field? "env"
  unfold envField
  generalize field? "env" entries = v at hfield ⊢
  generalize field? "env" entries' = v' at hfield ⊢
  cases hfield with
  | none => exact .pure rfl
  | some hv => exact env_agree hv cx'

theorem document_dict_agree {p p' : Pos} {a a' : Option Anchor} {tag tag' : String} {flow flow' : Bool}
    {entries entries' : List (Node × Node)} (hroot : cx.root = .dict p a tag flow entries)
    (hroot' : cx'.root = .dict p' a' tag' flow' entries')
    (h : EntriesAgree (Unfolds cx.root) entries entries') :
    Agree DocumentsAlike cx.document cx'.document := by
  rw [document_dict hroot, document_dict hroot']
  refine .bind (checkFields_agree h.texts) fun _ _ _ => ?_
  have hprogram := h.rel_field? "program"
  refine .bind (envField_agree h) fun e e' he => ?_
  generalize field? "program" entries = n at hprogram ⊢
  generalize field? "program" entries' = n' at hprogram ⊢
  cases hprogram with
  | none => exact .fail
  | some hn => exact .bind ((Unfolds.agree hn).1 _ [] cx' _ []) fun t t' ht => .pure ⟨he, ht⟩

/-- A document is read like its unfolding, unless an alias is refused. -/
theorem document_agree (h : Unfolds cx.root cx.root cx'.root) :
    Agree DocumentsAlike cx.document cx'.document := by
  generalize hroot : cx.root = n at h
  generalize hroot' : cx'.root = n' at h
  cases h with
  | scalar =>
    unfold document
    rw [hroot, hroot']
    exact .fail
  | list =>
    unfold document
    rw [hroot, hroot']
    exact .fail
  | dict hlen hkeys hvalues =>
    refine document_dict_agree hroot hroot' (List.forall₂_iff_zip.2 ⟨hlen, fun hxy => ⟨hkeys _ _ hxy, ?_⟩⟩)
    rw [hroot]
    exact hvalues _ _ hxy
  | behind hfind => cases hfind

end Context

end WhileLang.Document
