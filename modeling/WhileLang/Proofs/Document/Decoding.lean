import WhileLang.Document.Decode
import WhileLang.Proofs.Yaml.Unfold

/-!
# What the parts of the reader do

Reading threads a count of aliases and may fail. This file opens that monad once: sequencing, failing and
following an alias, and then what each helper of the reader looks at. `scalar` and `leaf` see the kind, tag
and text of a node, `checkFields` sees the texts of keys, and `field` reads what `field?` finds.
-/

namespace WhileLang.Document

open Yaml (Node Pos Anchor)

variable {α β : Type}

/-- An alias that leads somewhere is refused: it is one too many, or what it refers to is open. -/
def Defect.refusesAlias : Defect → Bool
  | .tooManyAliases | .selfReference _ => true
  | _ => false

theorem Defect.refusesAlias_iff {d : Defect} :
    d.refusesAlias = true ↔ d = .tooManyAliases ∨ ∃ name, d = .selfReference name := by
  cases d <;> simp [refusesAlias]

/-- An alias leads to a node that is being read. -/
def Defect.isSelfReference : Defect → Bool
  | .selfReference _ => true
  | _ => false

theorem Defect.refusesAlias_of_isSelfReference {d : Defect} (h : d.isSelfReference = true) :
    d.refusesAlias = true := by
  cases d with
  | selfReference name => rfl
  | _ => cases h

namespace Decoding

variable {x : Decoding α} {f : α → Decoding β} {k : Nat}

/-- Two parts in sequence succeed if each does. -/
theorem bind_ok {r : β × Nat} :
    (x >>= f).run k = .ok r ↔ ∃ a k₁, x.run k = .ok (a, k₁) ∧ (f a).run k₁ = .ok r := by
  rw [StateT.run_bind]
  rcases x.run k with e | ⟨a, k₁⟩
  · simp [bind, Except.bind]
  · constructor
    · exact fun h => ⟨a, k₁, rfl, h⟩
    · rintro ⟨_, _, ⟨⟩, h⟩
      exact h

/-- Two parts in sequence fail as the first does, or as the second does after it. -/
theorem bind_error {e : Malformed} :
    (x >>= f).run k = .error e ↔
      x.run k = .error e ∨ ∃ a k₁, x.run k = .ok (a, k₁) ∧ (f a).run k₁ = .error e := by
  rw [StateT.run_bind]
  rcases x.run k with e' | ⟨a, k₁⟩
  · simp [bind, Except.bind]
  · constructor
    · exact fun h => .inr ⟨a, k₁, rfl, h⟩
    · rintro (⟨⟨⟩⟩ | ⟨_, _, ⟨⟩, h⟩)
      exact h

@[simp] theorem pure_ok {a : α} {r : α × Nat} : (pure a : Decoding α).run k = .ok r ↔ (a, k) = r := by
  show (Except.ok (a, k) : Except Malformed (α × Nat)) = .ok r ↔ (a, k) = r
  rw [Except.ok.injEq]

end Decoding

namespace Context

variable {cx : Context} {opened : List Nat} {p : Pos} {k : Nat}

@[simp] theorem fail_run (d : Defect) : (cx.fail p d : Decoding α).run k = .error ⟨d, some (cx.span p)⟩ :=
  rfl

/-! ## Following an alias -/

theorem resolve_run {name : String} {i : Nat} :
    (cx.resolve opened p name i).run k =
      if maxAliases < k + 1 then .error ⟨.tooManyAliases, some (cx.span p)⟩
      else if i ∈ opened then .error ⟨.selfReference name, some (cx.span p)⟩
      else
        match cx.root.find? i with
        | some m => .ok (m, k + 1)
        | none => .error ⟨.danglingAlias name, some (cx.span p)⟩ := by
  have hopen : opened.contains i = decide (i ∈ opened) := by simp
  unfold resolve
  -- the alias is counted before anything else is looked at
  show (StateT.run (if maxAliases < k + 1 then _ else _) (k + 1)) = _
  rw [hopen]
  by_cases hmany : maxAliases < k + 1
  · rw [if_pos hmany, if_pos hmany]
    rfl
  · rw [if_neg hmany, if_neg hmany]
    by_cases hi : i ∈ opened
    · simp only [hi, decide_true, if_true]
      rfl
    · simp only [hi, decide_false, if_false]
      rcases cx.root.find? i with _ | m
      · rfl
      · rfl

/-- An alias is followed to the node it refers to, unless that node is open or the count is used up. -/
theorem resolve_ok {name : String} {i : Nat} {r : Node × Nat}
    (h : (cx.resolve opened p name i).run k = .ok r) :
    i ∉ opened ∧ ∃ m, cx.root.find? i = some m ∧ r = (m, k + 1) := by
  rw [resolve_run] at h
  split at h
  · cases h
  · split at h
    · cases h
    · next hi =>
      refine ⟨hi, ?_⟩
      split at h
      · next m hm =>
        cases h
        exact ⟨m, hm, rfl⟩
      · cases h

/-! ## Fields -/

/-- The keys of a mapping are all known and all different. -/
def FieldsKnown (required optional : List String) (entries : List (Node × Node)) : Prop :=
  (entries.map fun e => e.1.text).Nodup ∧
    ∀ e ∈ entries, e.1.text ∈ required ∨ e.1.text ∈ optional

theorem fieldsKnown_cons {required optional : List String} {e : Node × Node} {rest : List (Node × Node)} :
    FieldsKnown required optional (e :: rest) ↔
      (e.1.text ∈ required ∨ e.1.text ∈ optional) ∧ (∀ e' ∈ rest, e'.1.text ≠ e.1.text) ∧
        FieldsKnown required optional rest := by
  simp only [FieldsKnown, List.map_cons, List.nodup_cons, List.mem_map, not_exists, not_and,
    List.forall_mem_cons]
  constructor
  · exact fun h => ⟨h.2.1, h.1.1, h.1.2, h.2.2⟩
  · exact fun h => ⟨⟨h.2.1, h.2.2.1⟩, h.1, h.2.2.2⟩

/-- A field passes if it is known and has not been seen, and those after it pass once it has. -/
theorem checkFields_known_cons {form : String} {required optional seen : List String} {r : Unit × Nat}
    {e : Node × Node} {rest : List (Node × Node)} :
    (checkFields.known cx form required optional seen (e :: rest)).run k = .ok r ↔
      (e.1.text ∈ required ∨ e.1.text ∈ optional) ∧ e.1.text ∉ seen ∧
        (checkFields.known cx form required optional (e.1.text :: seen) rest).run k = .ok r := by
  obtain ⟨key, val⟩ := e
  have hknown : (required.contains key.text || optional.contains key.text) = true ↔
      key.text ∈ required ∨ key.text ∈ optional := by
    rw [Bool.or_eq_true, List.contains_iff_mem, List.contains_iff_mem]
  simp only [checkFields.known]
  rw [← hknown]
  generalize (required.contains key.text || optional.contains key.text) = known
  cases known with
  | false => simp
  | true =>
    by_cases hseen : key.text ∈ seen
    · simp [hseen]
    · simp [hseen]

theorem checkFields_known_ok {form : String} {required optional : List String} {r : Unit × Nat} :
    ∀ (entries : List (Node × Node)) (seen : List String),
      (checkFields.known cx form required optional seen entries).run k = .ok r ↔
        r = ((), k) ∧ (∀ e ∈ entries, e.1.text ∉ seen) ∧ FieldsKnown required optional entries := by
  intro entries
  induction entries with
  | nil =>
    intro seen
    rw [checkFields.known, Decoding.pure_ok]
    simp [FieldsKnown, eq_comm]
  | cons e rest ih =>
    intro seen
    -- what comes later must differ from this key, which was not seen before
    have hseen : (∀ e' ∈ rest, e'.1.text ∉ e.1.text :: seen) ↔
        (∀ e' ∈ rest, e'.1.text ≠ e.1.text) ∧ ∀ e' ∈ rest, e'.1.text ∉ seen := by
      simp only [List.mem_cons, not_or, forall_and]
    rw [checkFields_known_cons, ih, hseen, fieldsKnown_cons, List.forall_mem_cons]
    constructor
    · exact fun h => ⟨h.2.2.1, ⟨h.2.1, h.2.2.2.1.2⟩, h.1, h.2.2.2.1.1, h.2.2.2.2⟩
    · exact fun h => ⟨h.2.2.1, h.2.1.1, h.1, ⟨h.2.2.2.1, h.2.1.2⟩, h.2.2.2.2⟩

/-- The fields of a mapping are in order if its keys are known, different and none is missing. -/
theorem checkFields_ok {form : String} {required optional : List String}
    {entries : List (Node × Node)} {r : Unit × Nat} :
    (cx.checkFields p form required optional entries).run k = .ok r ↔
      r = ((), k) ∧ FieldsKnown required optional entries ∧
        ∀ name ∈ required, ∃ e ∈ entries, e.1.text = name := by
  unfold checkFields
  rw [Decoding.bind_ok]
  simp only [checkFields_known_ok]
  -- the first field that is missing, if there is one, is the error
  rcases hfind : required.find? fun name => !(entries.any fun e => e.1.text == name) with _ | name
  · have hall : ∀ name ∈ required, ∃ e ∈ entries, e.1.text = name := by
      intro name hname
      have hany := List.find?_eq_none.1 hfind name hname
      simpa using hany
    constructor
    · rintro ⟨_, _, ⟨⟨⟩, -, hknown⟩, hr⟩
      exact ⟨(Decoding.pure_ok.1 hr).symm, hknown, hall⟩
    · rintro ⟨rfl, hknown, -⟩
      exact ⟨(), k, ⟨rfl, by simp, hknown⟩, rfl⟩
  · have hname : name ∈ required := List.mem_of_find?_eq_some hfind
    have hnone : ∀ e ∈ entries, e.1.text ≠ name := by simpa using List.find?_some hfind
    constructor
    · rintro ⟨_, _, -, hr⟩
      cases hr
    · rintro ⟨-, -, hall⟩
      obtain ⟨e, he, heq⟩ := hall name hname
      exact absurd heq (hnone e he)

theorem checkFields_known_error {form : String} {required optional : List String} {e : Malformed} :
    ∀ (entries : List (Node × Node)) (seen : List String),
      (checkFields.known cx form required optional seen entries).run k = .error e →
        e.defect.refusesAlias = false := by
  intro entries
  induction entries with
  | nil =>
    intro seen h
    cases h
  | cons entry rest ih =>
    intro seen h
    obtain ⟨key, val⟩ := entry
    simp only [checkFields.known] at h
    split at h
    · cases h; rfl
    · split at h
      · cases h; rfl
      · exact ih _ h

/-- Whether the fields of a mapping are in order depends on the texts of the keys alone. -/
theorem checkFields_ok_congr {cx' : Context} {p' : Pos} {k' : Nat} {form form' : String}
    {required optional : List String} {entries entries' : List (Node × Node)}
    (hkeys : entries.map (fun e => e.1.text) = entries'.map fun e => e.1.text)
    (h : (cx.checkFields p form required optional entries).run k = .ok ((), k)) :
    (cx'.checkFields p' form' required optional entries').run k' = .ok ((), k') := by
  have hmem : ∀ name, (∃ e ∈ entries, e.1.text = name) ↔ ∃ e ∈ entries', e.1.text = name := by
    intro name
    rw [← List.mem_map, hkeys, List.mem_map]
  obtain ⟨-, ⟨hnodup, hknown⟩, hrequired⟩ := checkFields_ok.1 h
  refine checkFields_ok.2 ⟨rfl, ⟨hkeys ▸ hnodup, fun e' he' => ?_⟩, fun name hname => ?_⟩
  · obtain ⟨e, he, heq⟩ := (hmem e'.1.text).2 ⟨e', he', rfl⟩
    rw [← heq]
    exact hknown e he
  · exact (hmem name).1 (hrequired name hname)

/-- Checking fields does not follow aliases. -/
theorem checkFields_error {form : String} {required optional : List String}
    {entries : List (Node × Node)} {e : Malformed}
    (h : (cx.checkFields p form required optional entries).run k = .error e) :
    e.defect.refusesAlias = false := by
  unfold checkFields at h
  rcases Decoding.bind_error.1 h with h | ⟨_, _, -, h⟩
  · exact checkFields_known_error _ _ h
  · split at h
    · cases h; rfl
    · cases h

/-- A field's value stands under a key with its name. -/
theorem mem_of_field? {name : String} {entries : List (Node × Node)} {v : Node}
    (h : field? name entries = some v) : ∃ e ∈ entries, e.1.text = name ∧ e.2 = v := by
  unfold field? at h
  obtain ⟨e, he, rfl⟩ := Option.map_eq_some_iff.1 h
  exact ⟨e, List.mem_of_find?_eq_some he, by simpa using List.find?_some he, rfl⟩

/-- Where the keys are all different, each entry is the field of its name. -/
theorem field?_of_mem {required optional : List String} {entries : List (Node × Node)}
    (hknown : FieldsKnown required optional entries) {e : Node × Node} (he : e ∈ entries) :
    field? e.1.text entries = some e.2 := by
  obtain ⟨hnodup, -⟩ := hknown
  induction entries with
  | nil => exact absurd he List.not_mem_nil
  | cons e' rest ih =>
    obtain ⟨hfresh, hnodup⟩ := List.nodup_cons.1 hnodup
    rcases List.mem_cons.1 he with rfl | he
    · simp [field?]
    · have hne : (e'.1.text == e.1.text) = false := by
        rw [beq_eq_false_iff_ne]
        intro heq
        exact hfresh (List.mem_map.2 ⟨e, he, heq.symm⟩)
      have hskip : field? e.1.text (e' :: rest) = field? e.1.text rest := by
        simp [field?, hne]
      rw [hskip]
      exact ih he hnodup

/-- Reading a field is reading the node that stands in it. -/
theorem field_eq {follow : Follow} {form name : String} (entries : List (Node × Node)) :
    field cx follow opened p form name entries =
      match field? name entries with
      | some v => node cx follow opened v
      | none => cx.fail p (.missingField name form) := by
  induction entries with
  | nil => rw [field]; rfl
  | cons e rest ih =>
    rw [field]
    by_cases he : (e.1.text == name) = true
    · rw [if_pos he]
      have hfound : field? name (e :: rest) = some e.2 := by simp [field?, he]
      rw [hfound, value]
    · rw [if_neg he, ih]
      have hskip : field? name (e :: rest) = field? name rest := by
        simp [field?, he]
      rw [hskip]

/-! ## Scalars and bodies without nodes -/

/-- Reading a scalar does not follow aliases. -/
theorem scalar_error {n : Node} {e : Malformed} (h : (cx.scalar n).run k = .error e) :
    e.defect.refusesAlias = false := by
  unfold scalar at h
  repeat' split at h
  all_goals cases h
  all_goals rfl

/-- A collection is no scalar, whatever its tag says. -/
theorem scalar_collection {n : Node} (hn : n.isScalar = false)
    (htag : n.tag = "!!int" ∨ n.tag = "!!bool") :
    ∃ e, (cx.scalar n).run k = .error e := by
  rcases htag with htag | htag
  · unfold scalar
    simp only [htag]
    split
    · cases hn
    · exact ⟨_, rfl⟩
  · unfold scalar
    simp only [htag]
    split
    · cases hn
    · exact ⟨_, rfl⟩

/-- A body that holds no nodes is read without following aliases. -/
theorem leaf_error {key val : Node} {e : Malformed} (h : (cx.leaf key val).run k = .error e) :
    e.defect.refusesAlias = false := by
  unfold leaf at h
  split at h
  case h_1 | h_2 =>
    split at h
    · exact scalar_error h
    · cases h; rfl
  case h_3 =>
    split at h
    · cases h
    · cases h; rfl
  all_goals cases h; rfl

/-- A collection is a body without nodes only of `do-nothing`, and only if it is tagged as null. -/
theorem leaf_collection (cx : Context) (k : Nat) (key : Node) {val : Node} (hval : val.isScalar = false) :
    (key.text = "do-nothing" ∧ val.tag = "!!null" ∧
        (cx.leaf key val).run k = .ok (.nothing (cx.span key.pos), k)) ∨
      (¬ (key.text = "do-nothing" ∧ val.tag = "!!null") ∧ ∃ e, (cx.leaf key val).run k = .error e) := by
  unfold leaf
  split
  case h_1 hkey =>
    refine .inr ⟨by simp [hkey], ?_⟩
    split
    · next htag => exact scalar_collection hval (.inl (by simpa using htag))
    · exact ⟨_, rfl⟩
  case h_2 hkey =>
    refine .inr ⟨by simp [hkey], ?_⟩
    split
    · next htag => exact scalar_collection hval (.inr (by simpa using htag))
    · exact ⟨_, rfl⟩
  -- `do-nothing` looks at the tag alone
  case h_3 hkey =>
    split
    · next htag => exact .inl ⟨hkey, by simpa using htag, rfl⟩
    · next htag => exact .inr ⟨fun h => htag (by simp [h.2]), _, rfl⟩
  all_goals
    refine .inr ⟨fun h => ?_, _, rfl⟩
    simp_all

/-! ## Bodies by form -/

section Body

variable {follow : Follow} {key : Node} {a : Option Anchor} {tag : String} {flow : Bool}
  {items : List Node} {entries : List (Node × Node)}

attribute [local simp] body

theorem body_scalar_var {text : String} (hkey : key.text = "var") :
    body cx follow opened key (.scalar p a "!!str" text) = pure (.var (cx.span key.pos) text) := by
  simp [hkey]

theorem body_scalar_leaf {text : String} (h : ¬ (key.text = "var" ∧ tag = "!!str")) :
    body cx follow opened key (.scalar p a tag text) = cx.leaf key (.scalar p a tag text) := by
  unfold body
  split
  · next hkey => exact absurd ⟨hkey, rfl⟩ h
  · rfl

/-- The operands of an operator are read in order. -/
theorem body_list_op {op : Op} (hop : op? key.text = some op) (hlen : items.length = 2) :
    body cx follow opened key (.list p a tag flow items) = (do
      match ← trees cx follow opened items with
      | [l, r] => return .binary (cx.span key.pos) op l r
      | _ => cx.leaf key (.list p a tag flow items)) := by
  rw [body, hop, hlen]
  rfl

theorem body_list_op_count {op : Op} (hop : op? key.text = some op) (hlen : items.length ≠ 2) :
    body cx follow opened key (.list p a tag flow items) = cx.leaf key (.list p a tag flow items) := by
  simp [hop, hlen]

theorem body_list_seq (hkey : key.text = "seq") :
    body cx follow opened key (.list p a tag flow items) =
      if items.isEmpty then cx.leaf key (.list p a tag flow items)
      else sequence cx follow opened (cx.span key.pos) items := by
  simp [hkey, op?]

theorem body_list_leaf (hkey : key.text ≠ "seq") (hop : op? key.text = none) :
    body cx follow opened key (.list p a tag flow items) = cx.leaf key (.list p a tag flow items) := by
  rw [body, hop]
  split
  · contradiction
  · contradiction
  · rfl

theorem body_dict_assign (hkey : key.text = "assign") :
    body cx follow opened key (.dict p a tag flow entries) = (do
      cx.checkFields p "assign" ["name", "value"] [] entries
      match field? "name" entries with
      | none => cx.fail p (.missingField "name" "assign")
      | some n =>
        let r ← cx.assignName opened n
        return .assign (cx.span key.pos) r.1 (← field cx follow r.2 p "assign" "value" entries)) := by
  rw [body, hkey]
  rfl

theorem body_dict_if (hkey : key.text = "if") :
    body cx follow opened key (.dict p a tag flow entries) = (do
      cx.checkFields p "if" ["cond", "then"] ["else"] entries
      let c ← field cx follow opened p "if" "cond" entries
      let t ← field cx follow opened p "if" "then" entries
      if (field? "else" entries).isSome then
        return .ite (cx.span key.pos) c t (← field cx follow opened p "if" "else" entries)
      else return .ite (cx.span key.pos) c t (.nothing (cx.span key.pos))) := by
  simp [hkey]

theorem body_dict_while (hkey : key.text = "while") :
    body cx follow opened key (.dict p a tag flow entries) = (do
      cx.checkFields p "while" ["cond", "body"] [] entries
      let c ← field cx follow opened p "while" "cond" entries
      let b ← field cx follow opened p "while" "body" entries
      return .loop (cx.span key.pos) c b) := by
  simp [hkey]

theorem body_dict_nothing (hkey : key.text = "do-nothing") :
    body cx follow opened key (.dict p a tag flow entries) =
      if entries.isEmpty then pure (.nothing (cx.span key.pos))
      else cx.leaf key (.dict p a tag flow entries) := by
  simp [hkey]

theorem body_dict_leaf (hassign : key.text ≠ "assign") (hif : key.text ≠ "if") (hwhile : key.text ≠ "while")
    (hnothing : key.text ≠ "do-nothing") :
    body cx follow opened key (.dict p a tag flow entries) = cx.leaf key (.dict p a tag flow entries) := by
  rw [body]
  split
  case h_5 => rfl
  all_goals contradiction

end Body

/-! ## Names -/

/-- The name at a node that is no alias. -/
def nameAt (cx : Context) (opened : List Nat) : Node → Decoding (String × List Nat)
  | .scalar _ _ "!!str" text => return (text, opened)
  | n => cx.fail n.pos .assignName

theorem assignName_here {n : Node} (hn : n.isAlias = false) :
    cx.assignName opened n = cx.nameAt opened n := by
  unfold assignName
  split
  · cases hn
  · rw [pure_bind]
    rfl

/-- What an alias for a name refers to is open from then on. -/
theorem assignName_alias {name : String} {i : Nat} :
    cx.assignName opened (.alias p name i) =
      (do cx.nameAt (i :: opened) (← cx.resolve opened p name i)) := by
  unfold assignName
  refine bind_congr fun n => ?_
  rw [pure_bind]
  rfl

/-! ## Environments -/

/-- The environment at a node that is no alias. -/
def envAt (cx : Context) (opened : List Nat) : Node → Decoding Env
  | .scalar p _ tag _ => if tag == "!!null" then return Env.empty else cx.fail p .envNotMapping
  | .dict _ _ _ _ entries => return Env.ofList (← cx.bindings opened entries [])
  | n => cx.fail n.pos .envNotMapping

theorem env_here {n : Node} (hn : n.isAlias = false) : cx.env n = cx.envAt [] n := by
  unfold env
  split
  · cases hn
  · rw [pure_bind]
    rfl

theorem env_alias {name : String} {i : Nat} :
    cx.env (.alias p name i) = (do cx.envAt [i] (← cx.resolve [] p name i)) := by
  unfold env
  refine bind_congr fun n => ?_
  rw [pure_bind]
  rfl

/-- The environment of a document that has these fields; it may be left out. -/
def envField (cx : Context) (entries : List (Node × Node)) : Decoding Env :=
  match field? "env" entries with
  | some n => cx.env n
  | none => pure Env.empty

/-- A document with its environment and then its program. -/
theorem document_dict {a : Option Anchor} {tag : String} {flow : Bool} {entries : List (Node × Node)}
    (hroot : cx.root = .dict p a tag flow entries) :
    cx.document = (do
      cx.checkFields p "document" ["program"] ["env"] entries
      let env ← cx.envField entries
      match field? "program" entries with
      | some n => return { file := cx.file, env := env, program := ← cx.tree [] n }
      | none => cx.fail p (.missingField "program" "document")) := by
  unfold document envField
  rw [hroot]
  refine bind_congr fun _ => ?_
  cases field? "env" entries with
  | none | some => rfl

end Context

end WhileLang.Document
