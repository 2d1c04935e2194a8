import WhileLang.Proofs.Document.Decoding
import WhileLang.Proofs.Yaml.Unfold

/-!
# What reading reaches

`Reads root n m` says that reading `n` comes to `m`, through collections and behind aliases. An alias to a
node that is open is refused. What an alias leads to is open while it is read, which matters only to a document
whose aliases lie inside their own nodes. But the node that spells the name of an assignment stays open while
the value is read, and that value may well use the same alias: then it *holds its name* (`HoldsName`). Where
nothing contains itself, this is the only reason to refuse an open node (`node_blames`), and it is always one
(`Fine.not_holdsName`).
-/

namespace WhileLang.Document

open Yaml (Node Pos Anchor)

/-! ## Reading from node to node -/

/-- Reading a node comes to another one. Nothing is read under `do-nothing`, but an alias is followed. -/
inductive Reads (root : Node) : Node → Node → Prop
  | refl {n : Node} : Reads root n n
  | item {p : Pos} {a : Option Anchor} {tag : String} {flow : Bool} {items : List Node} {n m : Node}
      (hn : n ∈ items) (h : Reads root n m) : Reads root (.list p a tag flow items) m
  | value {p : Pos} {a : Option Anchor} {tag : String} {flow : Bool} {entries : List (Node × Node)}
      {e : Node × Node} {m : Node} (he : e ∈ entries) (hkey : e.1.text ≠ "do-nothing")
      (h : Reads root e.2 m) : Reads root (.dict p a tag flow entries) m
  | idle {p q : Pos} {a : Option Anchor} {tag : String} {flow : Bool} {entries : List (Node × Node)}
      {key : Node} {name : String} {i : Nat} (he : (key, .alias q name i) ∈ entries)
      (hkey : key.text = "do-nothing") : Reads root (.dict p a tag flow entries) (.alias q name i)
  | behind {p : Pos} {name : String} {i : Nat} {m m' : Node} (hfind : root.find? i = some m)
      (h : Reads root m m') : Reads root (.alias p name i) m'

/-- Reading a node comes to an alias with one of these numbers. -/
def Meets (root : Node) (ids : List Nat) (n : Node) : Prop :=
  ∃ i ∈ ids, ∃ p name, Reads root n (.alias p name i)

/-- Reading a node comes to an assignment whose value uses the alias that its name is given by. -/
def HoldsName (root n : Node) : Prop :=
  ∃ p a tag flow entries q name i v, Reads root n (.dict p a tag flow entries) ∧
    Context.field? "name" entries = some (.alias q name i) ∧
    Context.field? "value" entries = some v ∧ Meets root [i] v

variable {root : Node}

theorem Meets.mono {ids : List Nat} {n n' : Node} (hsub : ∀ m, Reads root n m → Reads root n' m)
    (h : Meets root ids n) : Meets root ids n' := by
  obtain ⟨i, hi, p, name, hread⟩ := h
  exact ⟨i, hi, p, name, hsub _ hread⟩

theorem HoldsName.mono {n n' : Node} (hsub : ∀ m, Reads root n m → Reads root n' m)
    (h : HoldsName root n) : HoldsName root n' := by
  obtain ⟨p, a, tag, flow, entries, q, name, i, v, hread, hrest⟩ := h
  exact ⟨p, a, tag, flow, entries, q, name, i, v, hsub _ hread, hrest⟩

/-- An alias that reading comes to is contained in what is read. -/
theorem Reads.contains {n m : Node} (h : Reads root n m) :
    ∀ {p : Pos} {name : String} {i : Nat}, m = .alias p name i → Node.Contains root n i := by
  induction h with
  | refl =>
    rintro p name i rfl
    exact .here (Node.mem_parts_self _)
  | item hn _ ih => exact fun hm => (ih hm).of_part (Node.item_mem_parts hn)
  | value he _ _ ih => exact fun hm => (ih hm).of_part (Node.value_mem_parts he)
  | idle he _ =>
    intro p name i hm
    cases hm
    exact (Node.Contains.here (Node.mem_parts_self _)).of_part (Node.value_mem_parts he)
  | behind hfind _ ih => exact fun hm => .behind (Node.mem_parts_self _) hfind (ih hm)

/-! ## Results and blame -/

section Blame

variable {α β : Type} {P : Prop} {x : Decoding α} {f : α → Decoding β}

/-- A reader can come to a result. -/
def Returns (x : Decoding α) (a : α) : Prop := ∃ k k', x.run k = .ok (a, k')

/-- If a reader refuses an alias to an open node, then for a reason. -/
def Blames (P : Prop) (x : Decoding α) : Prop :=
  ∀ k e, x.run k = .error e → e.defect.isSelfReference = true → P

theorem Returns.bind {b : β} (h : Returns (x >>= f) b) : ∃ a, Returns x a ∧ Returns (f a) b := by
  obtain ⟨k, k', h⟩ := h
  obtain ⟨a, k₁, ha, hb⟩ := Decoding.bind_ok.1 h
  exact ⟨a, ⟨k, k₁, ha⟩, k₁, k', hb⟩

theorem Returns.pure {a b : α} (h : Returns (pure a) b) : a = b := by
  obtain ⟨k, k', h⟩ := h
  cases h
  rfl

theorem Returns.fail {cx : Context} {p : Pos} {d : Defect} {a : α} : ¬ Returns (cx.fail p d) a := by
  rintro ⟨k, k', h⟩
  cases h

theorem Blames.pure {a : α} : Blames P (pure a) := by
  intro k e h
  cases h

theorem Blames.fail {cx : Context} {p : Pos} {d : Defect} (hd : d.isSelfReference = false) :
    Blames P (cx.fail p d : Decoding α) := by
  intro k e h he
  cases h
  rw [hd] at he
  cases he

theorem Blames.bind (hx : Blames P x) (hf : ∀ a, Returns x a → Blames P (f a)) : Blames P (x >>= f) := by
  intro k e h he
  rcases Decoding.bind_error.1 h with h | ⟨a, k₁, ha, h⟩
  · exact hx k e h he
  · exact hf a ⟨k, k₁, ha⟩ k₁ e h he

theorem Blames.imp {Q : Prop} (hx : Blames P x) (h : P → Q) : Blames Q x :=
  fun k e hk he => h (hx k e hk he)

theorem Blames.ite {c : Prop} [Decidable c] {y : Decoding α} (hpos : c → Blames P x)
    (hneg : ¬ c → Blames P y) : Blames P (if c then x else y) := by
  by_cases hc : c
  · rw [if_pos hc]
    exact hpos hc
  · rw [if_neg hc]
    exact hneg hc

/-- What follows no alias refuses none. -/
theorem Blames.of_refuses (h : ∀ k e, x.run k = .error e → e.defect.refusesAlias = false) :
    Blames P x := by
  intro k e hk he
  have hrefuse : e.defect.refusesAlias = true := Defect.refusesAlias_of_isSelfReference he
  rw [h k e hk] at hrefuse
  cases hrefuse

end Blame

/-! ## Why an open node is refused -/

/-- Reading a node comes to an alias to something open, or to an assignment that holds its name. -/
def Clash (root : Node) (opened : List Nat) (n : Node) : Prop := Meets root opened n ∨ HoldsName root n

theorem Clash.mono {opened : List Nat} {n n' : Node} (hsub : ∀ m, Reads root n m → Reads root n' m)
    (h : Clash root opened n) : Clash root opened n' :=
  h.imp (Meets.mono hsub) (HoldsName.mono hsub)

/-- An alias to something open clashes. -/
theorem Clash.here {opened : List Nat} {p : Pos} {name : String} {i : Nat} (hi : i ∈ opened) :
    Clash root opened (.alias p name i) :=
  .inl ⟨i, hi, p, name, .refl⟩

/-- A clash with one more open node is one without it, or is with that node. -/
theorem Clash.cons {opened : List Nat} {i : Nat} {n : Node} (h : Clash root (i :: opened) n) :
    Clash root opened n ∨ Meets root [i] n := by
  rcases h with ⟨j, hj, hread⟩ | h
  · rcases List.mem_cons.1 hj with rfl | hj
    · exact .inr ⟨j, List.mem_singleton_self j, hread⟩
    · exact .inl (.inl ⟨j, hj, hread⟩)
  · exact .inl (.inr h)

/-- Where nothing contains itself, a clash behind an alias is a clash at the alias. -/
theorem Clash.behind (hroot : root.Linked) {opened : List Nat} {p : Pos} {name : String} {i : Nat}
    {m : Node} (hfind : root.find? i = some m) (h : Clash root (i :: opened) m) :
    Clash root opened (.alias p name i) := by
  rcases h.cons with h | ⟨j, hj, q, name', hread⟩
  · exact h.mono fun _ => .behind hfind
  · rw [List.mem_singleton.1 hj] at hread
    exact absurd (hread.contains rfl) (hroot.acyclic i m hfind)

namespace Context

variable {cx : Context} {P : Prop} {follow : Follow} {opened : List Nat} {p : Pos}

theorem resolve_returns {name : String} {i : Nat} {m : Node} (h : Returns (cx.resolve opened p name i) m) :
    i ∉ opened ∧ cx.root.find? i = some m := by
  obtain ⟨k, k', h⟩ := h
  obtain ⟨hi, m', hm', heq⟩ := resolve_ok h
  cases heq
  exact ⟨hi, hm'⟩

theorem resolve_blames {name : String} {i : Nat} (h : i ∈ opened → P) :
    Blames P (cx.resolve opened p name i) := by
  intro k e hk he
  rw [resolve_run] at hk
  split at hk
  · cases hk
    cases he
  · split at hk
    · next hi => exact h hi
    · split at hk
      · cases hk
      · cases hk
        cases he

theorem trees_blames {items : List Node} (h : ∀ n ∈ items, Blames P (node cx follow opened n)) :
    Blames P (trees cx follow opened items) := by
  induction items with
  | nil => exact .pure
  | cons n rest ih =>
    rw [trees]
    refine .bind (h n List.mem_cons_self) fun t _ => ?_
    exact .bind (ih fun m hm => h m (List.mem_cons_of_mem n hm)) fun ts _ => .pure

theorem sequence_blames {items : List Node} (h : ∀ n ∈ items, Blames P (node cx follow opened n)) :
    ∀ span, Blames P (sequence cx follow opened span items) := by
  induction items with
  | nil => exact fun span => .pure
  | cons n rest ih =>
    intro span
    have hrest := ih fun m hm => h m (List.mem_cons_of_mem n hm)
    cases rest with
    | nil => exact h n List.mem_cons_self
    | cons m rest =>
      rw [sequence]
      exact .bind (h n List.mem_cons_self) fun t _ => .bind (hrest _) fun u _ => .pure

theorem field_blames {form name : String} {entries : List (Node × Node)}
    (h : ∀ v, field? name entries = some v → Blames P (node cx follow opened v)) :
    Blames P (field cx follow opened p form name entries) := by
  rw [field_eq]
  cases hv : field? name entries with
  | none => exact .fail rfl
  | some v => exact h v hv

theorem checkFields_blames {form : String} {required optional : List String}
    {entries : List (Node × Node)} : Blames P (cx.checkFields p form required optional entries) :=
  .of_refuses fun _ _ => checkFields_error

theorem leaf_blames {key val : Node} : Blames P (cx.leaf key val) :=
  .of_refuses fun _ _ => leaf_error

theorem scalar_blames {n : Node} : Blames P (cx.scalar n) :=
  .of_refuses fun _ _ => scalar_error

theorem nameAt_returns {n : Node} {r : String × List Nat} (h : Returns (cx.nameAt opened n) r) :
    r.2 = opened := by
  unfold nameAt at h
  split at h
  · rw [← h.pure]
  · exact absurd h Returns.fail

theorem nameAt_blames {n : Node} : Blames P (cx.nameAt opened n) := by
  unfold nameAt
  split
  · exact .pure
  · exact .fail rfl

/-- A name that is an alias opens what it refers to, a name; any other leaves open what was. -/
theorem assignName_returns {n : Node} {r : String × List Nat} (h : Returns (cx.assignName opened n) r) :
    (n.isAlias = false ∧ r.2 = opened) ∨
      ∃ p name i m, n = .alias p name i ∧ i ∉ opened ∧ cx.root.find? i = some m ∧
        Returns (cx.assignName (i :: opened) m) r ∧ r.2 = i :: opened := by
  by_cases hn : n.isAlias = false
  · rw [assignName_here hn] at h
    exact .inl ⟨hn, nameAt_returns h⟩
  · obtain ⟨p, name, i, rfl⟩ := Node.exists_alias_of_isAlias hn
    rw [assignName_alias] at h
    obtain ⟨m, hm, h⟩ := h.bind
    obtain ⟨hi, hfind⟩ := resolve_returns hm
    refine .inr ⟨p, name, i, m, rfl, hi, hfind, ?_, nameAt_returns h⟩
    rw [assignName_here (Node.isAlias_of_find? hfind)]
    exact h

theorem assignName_blames {n : Node} (h : ∀ p name i, n = .alias p name i → i ∈ opened → P) :
    Blames P (cx.assignName opened n) := by
  by_cases hn : n.isAlias = false
  · rw [assignName_here hn]
    exact nameAt_blames
  · obtain ⟨p, name, i, rfl⟩ := Node.exists_alias_of_isAlias hn
    rw [assignName_alias]
    exact .bind (resolve_blames (h p name i rfl)) fun m _ => nameAt_blames

/-! ### The main induction -/

theorem body_list_blames {key : Node} {a : Option Anchor} {tag : String} {flow : Bool} {items : List Node}
    (h : ∀ n ∈ items, Blames P (node cx follow opened n)) :
    Blames P (body cx follow opened key (.list p a tag flow items)) := by
  rcases hop : op? key.text with _ | op
  · by_cases hseq : key.text = "seq"
    · rw [body_list_seq hseq]
      exact .ite (fun _ => leaf_blames) fun _ => sequence_blames h _
    · rw [body_list_leaf hseq hop]
      exact leaf_blames
  · by_cases htwo : items.length = 2
    · rw [body_list_op hop htwo]
      refine .bind (trees_blames h) fun ts _ => ?_
      split
      · exact .pure
      · exact leaf_blames
    · rw [body_list_op_count hop htwo]
      exact leaf_blames

theorem body_dict_blames {key : Node} {a : Option Anchor} {tag : String} {flow : Bool}
    {entries : List (Node × Node)} (hname : ∀ q name i, field? "name" entries = some (.alias q name i) →
      i ∈ opened → P)
    (hvalue : ∀ n r v, field? "name" entries = some n → Returns (cx.assignName opened n) r →
      field? "value" entries = some v → Blames P (node cx follow r.2 v))
    (hfield : ∀ name v, field? name entries = some v → name ≠ "do-nothing" →
      Blames P (node cx follow opened v)) :
    Blames P (body cx follow opened key (.dict p a tag flow entries)) := by
  by_cases hassign : key.text = "assign"
  · rw [body_dict_assign hassign]
    refine .bind checkFields_blames fun _ _ => ?_
    split
    · exact .fail rfl
    · next n hn =>
      refine .bind (assignName_blames fun q name i heq => hname q name i (heq ▸ hn)) fun r hr => ?_
      exact .bind (field_blames fun v hv => hvalue n r v hn hr hv) fun v _ => .pure
  by_cases hif : key.text = "if"
  · rw [body_dict_if hif]
    refine .bind checkFields_blames fun _ _ => ?_
    refine .bind (field_blames fun v hv => hfield "cond" v hv (by decide)) fun c _ => ?_
    refine .bind (field_blames fun v hv => hfield "then" v hv (by decide)) fun t _ => ?_
    refine .ite (fun _ => ?_) fun _ => .pure
    exact .bind (field_blames fun v hv => hfield "else" v hv (by decide)) fun e _ => .pure
  by_cases hwhile : key.text = "while"
  · rw [body_dict_while hwhile]
    refine .bind checkFields_blames fun _ _ => ?_
    refine .bind (field_blames fun v hv => hfield "cond" v hv (by decide)) fun c _ => ?_
    exact .bind (field_blames fun v hv => hfield "body" v hv (by decide)) fun b _ => .pure
  by_cases hnothing : key.text = "do-nothing"
  · rw [body_dict_nothing hnothing]
    exact .ite (fun _ => .pure) fun _ => leaf_blames
  · rw [body_dict_leaf hassign hif hwhile hnothing]
    exact leaf_blames

theorem body_scalar_blames {key : Node} {a : Option Anchor} {tag text : String} :
    Blames P (body cx follow opened key (.scalar p a tag text)) := by
  by_cases hvar : key.text = "var" ∧ tag = "!!str"
  · obtain ⟨hvar, rfl⟩ := hvar
    rw [body_scalar_var hvar]
    exact .pure
  · rw [body_scalar_leaf hvar]
    exact leaf_blames

/-- Under `do-nothing` nothing is read, and only an alias that stands there can be refused. -/
theorem body_idle_blames {key : Node} (hkey : key.text = "do-nothing") (depth : Nat) (n : Node) :
    Blames (∃ p name i, n = .alias p name i ∧ i ∈ opened) (body cx (cx.followTo depth) opened key n) := by
  have hplain : ∀ {P : Prop} {follow : Follow} {opened : List Nat} {n : Node},
      n.isAlias = false → Blames P (body cx follow opened key n) := by
    intro P follow opened n hn
    cases n using Node.induct with
    | scalar => exact body_scalar_blames
    | list =>
      rw [body_list_leaf (by rw [hkey]; decide) (by rw [hkey]; decide)]
      exact leaf_blames
    | dict =>
      rw [body_dict_nothing hkey]
      exact .ite (fun _ => .pure) fun _ => leaf_blames
    | link => cases hn
  by_cases hn : n.isAlias = false
  · exact hplain hn
  · obtain ⟨p, name, i, rfl⟩ := Node.exists_alias_of_isAlias hn
    rw [body]
    refine .bind (resolve_blames fun hi => ⟨p, name, i, rfl, hi⟩) fun m hm => ?_
    cases depth with
    | zero => exact .fail rfl
    | succ depth => exact hplain (Node.isAlias_of_find? (resolve_returns hm).2)

/-- An alias to an open node is refused only for a clash, when a node is read as such and when it is read as
the body of a form. -/
structure ClashOnly (cx : Context) (depth : Nat) (n : Node) : Prop where
  asNode : ∀ opened, Blames (Clash cx.root opened n) (node cx (cx.followTo depth) opened n)
  asBody : ∀ opened (key : Node), key.text ≠ "do-nothing" →
    Blames (Clash cx.root opened n) (body cx (cx.followTo depth) opened key n)

section Mapping

variable {depth : Nat} {a : Option Anchor} {tag : String} {flow : Bool} {entries : List (Node × Node)}
  (hentries : ∀ e ∈ entries, ClashOnly cx depth e.2)

include hentries in
/-- A mapping that is a form refuses what its body refuses. -/
theorem node_dict_blames :
    Blames (Clash cx.root opened (.dict p a tag flow entries))
      (node cx (cx.followTo depth) opened (.dict p a tag flow entries)) := by
  rw [node]
  rcases entries with _ | ⟨⟨key, val⟩, _ | ⟨e, rest⟩⟩
  · exact .fail rfl
  · rw [form, entry]
    have hval : ClashOnly cx depth val := hentries (key, val) (List.mem_singleton_self _)
    by_cases hkey : key.text = "do-nothing"
    · refine (body_idle_blames hkey depth val).imp ?_
      rintro ⟨q, name, i, rfl, hi⟩
      exact .inl ⟨i, hi, q, name, .idle (List.mem_singleton_self _) hkey⟩
    · refine (hval.asBody opened key hkey).imp (Clash.mono fun m hm => ?_)
      exact .value (List.mem_singleton_self (key, val)) hkey hm
  · exact .fail rfl

include hentries in
/-- A field is refused for a clash that is one of the mapping too. -/
theorem field_clash {name : String} {v : Node} (hv : field? name entries = some v)
    (hname : name ≠ "do-nothing") :
    (∀ m, Reads cx.root v m → Reads cx.root (.dict p a tag flow entries) m) ∧ ClashOnly cx depth v := by
  obtain ⟨e, he, hkey, rfl⟩ := mem_of_field? hv
  exact ⟨fun _ => .value he (hkey ▸ hname), hentries e he⟩

include hentries in
/-- A mapping that is the body of a form is refused for a clash in a field, or because the value of an
assignment comes to the alias that its name is given by. -/
theorem body_dict_clash (key : Node) :
    Blames (Clash cx.root opened (.dict p a tag flow entries))
      (body cx (cx.followTo depth) opened key (.dict p a tag flow entries)) := by
  refine body_dict_blames ?_ ?_ ?_
  · intro q name i hname hi
    exact (Clash.here hi).mono (field_clash hentries hname (by decide)).1
  · intro n r v hn hr hv
    obtain ⟨hsub, hclash⟩ := field_clash hentries hv (by decide)
    rcases assignName_returns hr with ⟨-, hsame⟩ | ⟨q, name, i, m, rfl, -, -, -, hopen⟩
    · rw [hsame]
      exact (hclash.asNode opened).imp (Clash.mono hsub)
    · -- the name is given by an alias, which stays open while the value is read
      rw [hopen]
      refine (hclash.asNode (i :: opened)).imp fun hclash => ?_
      rcases hclash.cons with hclash | hheld
      · exact hclash.mono hsub
      · exact .inr ⟨p, a, tag, flow, entries, q, name, i, v, .refl, hn, hv, hheld⟩
  · intro name v hv hname
    obtain ⟨hsub, hclash⟩ := field_clash hentries hv hname
    exact (hclash.asNode opened).imp (Clash.mono hsub)

end Mapping

/-- If what is behind aliases is refused only for a clash, so is everything. -/
theorem node_blames_step (hroot : cx.root.Linked) (depth : Nat)
    (hnode : ∀ opened m, Blames (Clash cx.root opened m) ((cx.followTo depth).node opened m))
    (hbody : ∀ opened m (key : Node), key.text ≠ "do-nothing" →
      Blames (Clash cx.root opened m) ((cx.followTo depth).body opened key m)) (n : Node) :
    ClashOnly cx depth n := by
  induction n using Node.induct with
  | scalar p a tag text =>
    refine ⟨fun opened => ?_, fun opened key _ => body_scalar_blames⟩
    rw [node]
    exact scalar_blames
  | list p a tag flow items ih =>
    refine ⟨fun opened => ?_, fun opened key _ => body_list_blames fun n hn => ?_⟩
    · rw [node]
      exact .fail rfl
    · exact ((ih n hn).asNode opened).imp (Clash.mono fun _ => .item hn)
  | dict p a tag flow entries ih =>
    have hentries : ∀ e ∈ entries, ClashOnly cx depth e.2 := fun e he => (ih e he).2
    exact ⟨fun opened => node_dict_blames hentries, fun opened key _ => body_dict_clash hentries key⟩
  | link p name i =>
    refine ⟨fun opened => ?_, fun opened key hkey => ?_⟩
    · rw [node]
      refine .bind (resolve_blames Clash.here) fun m hm => ?_
      exact (hnode (i :: opened) m).imp (Clash.behind hroot (resolve_returns hm).2)
    · rw [body]
      refine .bind (resolve_blames Clash.here) fun m hm => ?_
      exact (hbody (i :: opened) m key hkey).imp (Clash.behind hroot (resolve_returns hm).2)

/-- Where nothing contains itself, an alias to an open node is refused only for a clash. -/
theorem node_blames (hroot : cx.root.Linked) (depth : Nat) (n : Node) : ClashOnly cx depth n := by
  induction depth generalizing n with
  | zero =>
    -- with no alias left to follow, what is behind one is refused for their number
    refine node_blames_step hroot 0 (fun opened m => ?_) (fun opened m key _ => ?_) n
    · exact .fail rfl
    · exact .fail rfl
  | succ depth ih =>
    exact node_blames_step hroot (depth + 1) (fun opened m => (ih m).asNode opened)
      (fun opened m => (ih m).asBody opened) n

/-! ## What success says about all that is read -/

theorem trees_returns {items : List Node} {ts : List Tree} (h : Returns (trees cx follow opened items) ts) :
    ∀ n ∈ items, ∃ t, Returns (node cx follow opened n) t := by
  induction items generalizing ts with
  | nil => exact fun n hn => absurd hn List.not_mem_nil
  | cons m rest ih =>
    rw [trees] at h
    obtain ⟨t, ht, h⟩ := h.bind
    obtain ⟨us, hus, -⟩ := h.bind
    exact List.forall_mem_cons.2 ⟨⟨t, ht⟩, ih hus⟩

theorem sequence_returns {items : List Node} :
    ∀ {span : Span} {t : Tree}, Returns (sequence cx follow opened span items) t →
      ∀ n ∈ items, ∃ t, Returns (node cx follow opened n) t := by
  induction items with
  | nil => exact fun _ n hn => absurd hn List.not_mem_nil
  | cons m rest ih =>
    intro span t h
    cases rest with
    | nil => exact List.forall_mem_cons.2 ⟨⟨t, h⟩, fun n hn => absurd hn List.not_mem_nil⟩
    | cons m' rest =>
      rw [sequence] at h
      obtain ⟨u, hu, h⟩ := h.bind
      obtain ⟨u', hu', -⟩ := h.bind
      exact List.forall_mem_cons.2 ⟨⟨u, hu⟩, ih hu'⟩

theorem field_returns {form name : String} {entries : List (Node × Node)} {t : Tree}
    (h : Returns (field cx follow opened p form name entries) t) :
    ∃ v, field? name entries = some v ∧ Returns (node cx follow opened v) t := by
  rw [field_eq] at h
  cases hv : field? name entries with
  | none =>
    rw [hv] at h
    exact absurd h Returns.fail
  | some v =>
    rw [hv] at h
    exact ⟨v, rfl, h⟩

theorem checkFields_returns {form : String} {required optional : List String}
    {entries : List (Node × Node)} {u : Unit}
    (h : Returns (cx.checkFields p form required optional entries) u) :
    FieldsKnown required optional entries := by
  obtain ⟨k, k', h⟩ := h
  exact (checkFields_ok.1 h).2.1

theorem leaf_returns {key val : Node} {t : Tree} (h : Returns (cx.leaf key val) t)
    (hval : val.isScalar = false) : key.text = "do-nothing" := by
  obtain ⟨k, k', h⟩ := h
  rcases leaf_collection cx k key hval with ⟨hkey, -, -⟩ | ⟨-, e, he⟩
  · exact hkey
  · rw [he] at h
    cases h

/-- A node is read with success, as a node, a body or a name, while these anchors are open. -/
def Fine (cx : Context) (opened : List Nat) (n : Node) : Prop :=
  (∃ depth t, Returns (node cx (cx.followTo depth) opened n) t) ∨
    (∃ depth t, ∃ key : Node, key.text ≠ "do-nothing" ∧
      Returns (body cx (cx.followTo depth) opened key n) t) ∨
    ∃ r, Returns (cx.assignName opened n) r

/-- An alias that is followed leads to something that was not open, and is read with success too. -/
theorem Fine.behind {name : String} {i : Nat} (h : cx.Fine opened (.alias p name i)) :
    i ∉ opened ∧ ∃ m, cx.root.find? i = some m ∧ cx.Fine (i :: opened) m := by
  rcases h with ⟨depth, t, h⟩ | ⟨depth, t, key, hkey, h⟩ | ⟨r, h⟩
  · rw [node] at h
    obtain ⟨m, hm, h⟩ := h.bind
    obtain ⟨hi, hfind⟩ := resolve_returns hm
    refine ⟨hi, m, hfind, ?_⟩
    cases depth with
    | zero => exact absurd h Returns.fail
    | succ depth => exact .inl ⟨depth, t, h⟩
  · rw [body] at h
    obtain ⟨m, hm, h⟩ := h.bind
    obtain ⟨hi, hfind⟩ := resolve_returns hm
    refine ⟨hi, m, hfind, ?_⟩
    cases depth with
    | zero => exact absurd h Returns.fail
    | succ depth => exact .inr (.inl ⟨depth, t, key, hkey, h⟩)
  · rcases assignName_returns h with ⟨hn, -⟩ | ⟨_, _, _, m, heq, hi, hfind, hm, -⟩
    · cases hn
    · cases heq
      exact ⟨hi, m, hfind, .inr (.inr ⟨r, hm⟩)⟩

theorem Fine.item {a : Option Anchor} {tag : String} {flow : Bool} {items : List Node}
    (h : cx.Fine opened (.list p a tag flow items)) : ∀ n ∈ items, cx.Fine opened n := by
  rcases h with ⟨depth, t, h⟩ | ⟨depth, t, key, hkey, h⟩ | ⟨r, h⟩
  · rw [node] at h
    exact absurd h Returns.fail
  · -- of the forms that take a list, `seq` and the operators read its items
    have hleaf : ¬ Returns (cx.leaf key (.list p a tag flow items)) t :=
      fun h => hkey (leaf_returns h rfl)
    rcases hop : op? key.text with _ | op
    · by_cases hseq : key.text = "seq"
      · rw [body_list_seq hseq] at h
        split at h
        · exact absurd h hleaf
        · exact fun n hn => .inl ⟨depth, sequence_returns h n hn⟩
      · rw [body_list_leaf hseq hop] at h
        exact absurd h hleaf
    · by_cases htwo : items.length = 2
      · rw [body_list_op hop htwo] at h
        obtain ⟨ts, hts, -⟩ := h.bind
        exact fun n hn => .inl ⟨depth, trees_returns hts n hn⟩
      · rw [body_list_op_count hop htwo] at h
        exact absurd h hleaf
  · rw [assignName_here rfl] at h
    exact absurd h Returns.fail

/-- The values of a mapping are read with success, the one of an assignment while its name is open. Under
`do-nothing` nothing is read, but no alias leads to anything open. -/
structure FineEntries (cx : Context) (opened : List Nat) (entries : List (Node × Node)) : Prop where
  value : ∀ e ∈ entries, e.1.text ≠ "do-nothing" → ∃ opened', opened ⊆ opened' ∧ cx.Fine opened' e.2
  followed : ∀ e ∈ entries, ∀ q name i, e.2 = .alias q name i → i ∉ opened
  held : ∀ q name i v, field? "name" entries = some (.alias q name i) →
    field? "value" entries = some v → cx.Fine (i :: opened) v

theorem FineEntries.of_values {entries : List (Node × Node)}
    (hvalue : ∀ e ∈ entries, ∃ opened', opened ⊆ opened' ∧ cx.Fine opened' e.2)
    (hheld : ∀ q name i v, field? "name" entries = some (.alias q name i) →
      field? "value" entries = some v → cx.Fine (i :: opened) v) : cx.FineEntries opened entries := by
  refine ⟨fun e he _ => hvalue e he, fun e he q name i heq hi => ?_, hheld⟩
  obtain ⟨opened', hsub, hfine⟩ := hvalue e he
  rw [heq] at hfine
  exact hfine.behind.1 (hsub hi)

/-- A form without a field `name` reads all of its fields while the same nodes are open. -/
theorem FineEntries.of_fields {required optional : List String} {entries : List (Node × Node)}
    (hknown : FieldsKnown required optional entries) (hname : "name" ∉ required ++ optional)
    (hfields : ∀ name ∈ required ++ optional, ∀ v, field? name entries = some v → cx.Fine opened v) :
    cx.FineEntries opened entries := by
  have hmem : ∀ e ∈ entries, e.1.text ∈ required ++ optional :=
    fun e he => List.mem_append.2 (hknown.2 e he)
  refine .of_values (fun e he => ?_) fun q name i v hfound => ?_
  · exact ⟨opened, fun _ hi => hi, hfields _ (hmem e he) e.2 (field?_of_mem hknown he)⟩
  · obtain ⟨e, he, htext, -⟩ := mem_of_field? hfound
    exact absurd (htext ▸ hmem e he) hname

theorem body_assign_returns {key : Node} {a : Option Anchor} {tag : String} {flow : Bool} {depth : Nat}
    {entries : List (Node × Node)} {t : Tree} (hkey : key.text = "assign")
    (h : Returns (body cx (cx.followTo depth) opened key (.dict p a tag flow entries)) t) :
    cx.FineEntries opened entries := by
  rw [body_dict_assign hkey] at h
  obtain ⟨_, hcheck, h⟩ := h.bind
  have hknown := checkFields_returns hcheck
  split at h
  · exact absurd h Returns.fail
  · next n hn =>
    obtain ⟨r, hr, h⟩ := h.bind
    obtain ⟨w, hw, -⟩ := h.bind
    obtain ⟨v, hv, hw⟩ := field_returns hw
    have hvalue : cx.Fine r.2 v := .inl ⟨depth, w, hw⟩
    refine .of_values (fun e he => ?_) fun q name i v' hname hv' => ?_
    -- an entry is the name or the value, and each was read
    · have hfield := field?_of_mem hknown he
      have htext : e.1.text = "name" ∨ e.1.text = "value" := by simpa using hknown.2 e he
      rcases htext with htext | htext
      · rw [htext, hn] at hfield
        cases hfield
        exact ⟨opened, fun _ hi => hi, .inr (.inr ⟨r, hr⟩)⟩
      · rw [htext, hv] at hfield
        cases hfield
        -- the value was read with the name's own node open, if it has one
        refine ⟨r.2, ?_, hvalue⟩
        rcases assignName_returns hr with ⟨-, hsame⟩ | ⟨_, _, i, _, -, -, -, -, hopen⟩
        · rw [hsame]
          exact fun _ hi => hi
        · rw [hopen]
          exact fun _ hi => List.mem_cons_of_mem i hi
    · cases hn.symm.trans hname
      cases hv.symm.trans hv'
      rcases assignName_returns hr with ⟨hno, -⟩ | ⟨_, _, _, _, heq, -, -, -, hopen⟩
      · cases hno
      · cases heq
        rw [← hopen]
        exact hvalue

/-- A mapping that is the body of a form is read with success only if all its values are. -/
theorem body_dict_returns {key : Node} {a : Option Anchor} {tag : String} {flow : Bool} {depth : Nat}
    {entries : List (Node × Node)} {t : Tree} (hkey : key.text ≠ "do-nothing")
    (h : Returns (body cx (cx.followTo depth) opened key (.dict p a tag flow entries)) t) :
    cx.FineEntries opened entries := by
  by_cases hassign : key.text = "assign"
  · exact body_assign_returns hassign h
  by_cases hif : key.text = "if"
  · rw [body_dict_if hif] at h
    obtain ⟨_, hcheck, h⟩ := h.bind
    obtain ⟨c, hc, h⟩ := h.bind
    obtain ⟨u, hu, h⟩ := h.bind
    obtain ⟨vc, hvc, hc⟩ := field_returns hc
    obtain ⟨vu, hvu, hu⟩ := field_returns hu
    refine .of_fields (checkFields_returns hcheck) (by decide) fun name hname v hv => ?_
    have hcases : name = "cond" ∨ name = "then" ∨ name = "else" := by simpa using hname
    rcases hcases with rfl | rfl | rfl
    · cases hvc.symm.trans hv
      exact .inl ⟨depth, c, hc⟩
    · cases hvu.symm.trans hv
      exact .inl ⟨depth, u, hu⟩
    · rw [hv, Option.isSome_some, if_pos rfl] at h
      obtain ⟨x, hx, -⟩ := h.bind
      obtain ⟨vx, hvx, hx⟩ := field_returns hx
      cases hvx.symm.trans hv
      exact .inl ⟨depth, x, hx⟩
  by_cases hwhile : key.text = "while"
  · rw [body_dict_while hwhile] at h
    obtain ⟨_, hcheck, h⟩ := h.bind
    obtain ⟨c, hc, h⟩ := h.bind
    obtain ⟨b, hb, -⟩ := h.bind
    obtain ⟨vc, hvc, hc⟩ := field_returns hc
    obtain ⟨vb, hvb, hb⟩ := field_returns hb
    refine .of_fields (checkFields_returns hcheck) (by decide) fun name hname v hv => ?_
    have hcases : name = "cond" ∨ name = "body" := by simpa using hname
    rcases hcases with rfl | rfl
    · cases hvc.symm.trans hv
      exact .inl ⟨depth, c, hc⟩
    · cases hvb.symm.trans hv
      exact .inl ⟨depth, b, hb⟩
  · rw [body_dict_leaf hassign hif hwhile hkey] at h
    exact absurd (leaf_returns h rfl) hkey

theorem Fine.entries {a : Option Anchor} {tag : String} {flow : Bool} {entries : List (Node × Node)}
    (h : cx.Fine opened (.dict p a tag flow entries)) : cx.FineEntries opened entries := by
  rcases h with ⟨depth, t, h⟩ | ⟨depth, t, key, hkey, h⟩ | ⟨r, h⟩
  · rw [node] at h
    rcases entries with _ | ⟨⟨key, val⟩, _ | ⟨e, rest⟩⟩
    · exact absurd h Returns.fail
    · rw [form, entry] at h
      -- one entry cannot be both a name and a value
      have hheld : ∀ q name i v, field? "name" [(key, val)] = some (.alias q name i) →
          field? "value" [(key, val)] = some v → cx.Fine (i :: opened) v := by
        intro q name i v hname hvalue
        obtain ⟨e, he, hname, -⟩ := mem_of_field? hname
        obtain ⟨e', he', hvalue, -⟩ := mem_of_field? hvalue
        rw [List.mem_singleton.1 he] at hname
        rw [List.mem_singleton.1 he', hname] at hvalue
        exact absurd hvalue (by decide)
      by_cases hkey : key.text = "do-nothing"
      · refine ⟨List.forall_mem_singleton.2 (absurd hkey), List.forall_mem_singleton.2 ?_, hheld⟩
        rintro q name i rfl
        rw [body] at h
        obtain ⟨m, hm, -⟩ := h.bind
        exact (resolve_returns hm).1
      · refine .of_values (List.forall_mem_singleton.2 ?_) hheld
        exact ⟨opened, fun _ hi => hi, .inr (.inl ⟨depth, t, key, hkey, h⟩)⟩
    · exact absurd h Returns.fail
  · exact body_dict_returns hkey h
  · rw [assignName_here rfl] at h
    exact absurd h Returns.fail

/-- All that is read with success is read while at least the same nodes are open. -/
theorem Fine.reads {n m : Node} (h : Reads cx.root n m) :
    ∀ {opened : List Nat}, cx.Fine opened n →
      (∃ opened', opened ⊆ opened' ∧ cx.Fine opened' m) ∨ ∃ p name i, m = .alias p name i ∧ i ∉ opened := by
  induction h with
  | refl => exact fun hfine => .inl ⟨_, fun _ hi => hi, hfine⟩
  | item hn _ ih => exact fun hfine => ih (hfine.item _ hn)
  | value he hkey _ ih =>
    intro opened hfine
    obtain ⟨opened', hsub, hvalue⟩ := hfine.entries.value _ he hkey
    rcases ih hvalue with ⟨opened'', hsub', hm⟩ | ⟨p, name, i, hm, hi⟩
    · exact .inl ⟨opened'', fun _ hi => hsub' (hsub hi), hm⟩
    · exact .inr ⟨p, name, i, hm, fun hmem => hi (hsub hmem)⟩
  | idle he _ => exact fun hfine => .inr ⟨_, _, _, rfl, hfine.entries.followed _ he _ _ _ rfl⟩
  | @behind p name i m m' hfind _ ih =>
    intro opened hfine
    -- behind an alias one more node is open
    obtain ⟨-, m₁, hfind₁, hm⟩ := hfine.behind
    cases hfind.symm.trans hfind₁
    rcases ih hm with ⟨opened', hsub, hm'⟩ | ⟨q, name', j, hm', hj⟩
    · exact .inl ⟨opened', fun _ hj => hsub (List.mem_cons_of_mem i hj), hm'⟩
    · exact .inr ⟨q, name', j, hm', fun hmem => hj (List.mem_cons_of_mem i hmem)⟩

/-- What is read with success comes to no alias to anything open. -/
theorem Fine.not_meets {n : Node} (h : cx.Fine opened n) : ¬ Meets cx.root opened n := by
  rintro ⟨i, hi, p, name, hread⟩
  rcases Fine.reads hread h with ⟨opened', hsub, hfine⟩ | ⟨q, name', j, heq, hj⟩
  · exact hfine.behind.1 (hsub hi)
  · cases heq
    exact hj hi

/-- What is read with success comes to no assignment that holds its name. -/
theorem Fine.not_holdsName {n : Node} (h : cx.Fine opened n) : ¬ HoldsName cx.root n := by
  rintro ⟨p, a, tag, flow, entries, q, name, i, v, hread, hname, hvalue, j, hj, hmeets⟩
  rcases Fine.reads hread h with ⟨opened', -, hfine⟩ | ⟨_, _, _, heq, -⟩
  · have hheld := (hfine.entries.held q name i v hname hvalue).not_meets
    rw [List.mem_singleton.1 hj] at hmeets
    exact hheld ⟨i, List.mem_cons_self, hmeets⟩
  · cases heq

end Context

end WhileLang.Document
