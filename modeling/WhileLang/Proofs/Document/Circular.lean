import WhileLang.Proofs.Document.Alias
import WhileLang.Proofs.Document.Bounded

/-!
# Aliases inside the nodes they refer to

An alias to an open node is refused, so a document in which an alias that is followed refers to a node with an
alias to it inside (a `Circle`) should never be read with success. Where the first alias is read and everything
inside its node is, it never is. But `do-nothing` looks only at the tag of its argument: a collection that is
tagged as null is accepted unread, with whatever stands in it. So a circle is passed over on one side or on the
other (`Spared`): the node is such an argument itself, or the alias inside it stands in one.
-/

namespace WhileLang

/-- A node stands in another one, at any depth, as an item or a value. Keys are not looked at. -/
inductive Yaml.Node.Inside (m : Yaml.Node) : Yaml.Node → Prop
  | here : Inside m m
  | item {p : Pos} {a : Option Anchor} {tag : String} {flow : Bool} {items : List Yaml.Node} {n : Yaml.Node}
      (hn : n ∈ items) (h : Inside m n) : Inside m (.list p a tag flow items)
  | value {p : Pos} {a : Option Anchor} {tag : String} {flow : Bool} {entries : List (Yaml.Node × Yaml.Node)}
      {e : Yaml.Node × Yaml.Node} (he : e ∈ entries) (h : Inside m e.2) : Inside m (.dict p a tag flow entries)

namespace Document

open Yaml (Node Pos Anchor)
open Yaml.Node (Inside)

/-- What `do-nothing` takes for no argument: an empty mapping, or anything tagged as null. -/
def NoArgument (m : Node) : Prop := (∃ p a tag flow, m = .dict p a tag flow []) ∨ m.tag = "!!null"

/-- A collection that is tagged as null: `do-nothing` accepts it with whatever stands in it. -/
def Hollow (m : Node) : Prop := m.isScalar = false ∧ m.tag = "!!null"

/-- A mapping with the given node under `do-nothing`. -/
inductive Idles (arg : Node) : Node → Prop
  | intro {p : Pos} {a : Option Anchor} {tag : String} {flow : Bool} {entries : List (Node × Node)} {key : Node}
      (he : (key, arg) ∈ entries) (hkey : key.text = "do-nothing") : Idles arg (.dict p a tag flow entries)

/-- Within `m`, `y` stands in a collection that some `do-nothing` accepts unread. -/
def Shaded (Read : Node → Prop) (m y : Node) : Prop :=
  ∃ d arg, Read d ∧ Inside d m ∧ Idles arg d ∧ Hollow arg ∧ Inside y arg

theorem Shaded.mono {Read Read' : Node → Prop} {m m' y : Node} (hsub : ∀ x, Read x → Read' x)
    (hinside : ∀ x, Inside x m → Inside x m') (h : Shaded Read m y) : Shaded Read' m' y := by
  obtain ⟨d, arg, hread, hd, hrest⟩ := h
  exact ⟨d, arg, hsub d hread, hinside d hd, hrest⟩

namespace Context

variable {cx : Context} {follow : Follow} {opened : List Nat} {p : Pos}

/-! ## What `do-nothing` accepts -/

theorem leaf_idle_returns {key val : Node} {t : Tree} (hkey : key.text = "do-nothing")
    (h : Returns (cx.leaf key val) t) : val.tag = "!!null" := by
  unfold leaf at h
  rw [hkey] at h
  simp only at h
  split at h
  · next htag => exact beq_iff_eq.1 htag
  · exact absurd h Returns.fail

theorem body_idle_returns {key n : Node} {t : Tree} (hkey : key.text = "do-nothing") (hn : n.isAlias = false)
    (h : Returns (body cx follow opened key n) t) : NoArgument n := by
  cases n using Node.induct with
  | scalar q a tag text =>
    rw [body_scalar_leaf (by rw [hkey]; simp)] at h
    exact .inr (leaf_idle_returns hkey h)
  | list q a tag flow items =>
    rw [body_list_leaf (by rw [hkey]; decide) (by rw [hkey]; decide)] at h
    exact .inr (leaf_idle_returns hkey h)
  | dict q a tag flow entries =>
    rw [body_dict_nothing hkey] at h
    split at h
    · next hempty =>
      rw [List.isEmpty_iff.1 hempty]
      exact .inl ⟨q, a, tag, flow, rfl⟩
    · exact .inr (leaf_idle_returns hkey h)
  | link => cases hn

/-- A mapping that is the body of another form has no `do-nothing` among its keys. -/
theorem body_dict_busy {key : Node} {a : Option Anchor} {tag : String} {flow : Bool}
    {entries : List (Node × Node)} {t : Tree} (hkey : key.text ≠ "do-nothing")
    (h : Returns (body cx follow opened key (.dict p a tag flow entries)) t) :
    ∀ e ∈ entries, e.1.text ≠ "do-nothing" := by
  have hfields : ∀ {required optional : List String}, FieldsKnown required optional entries →
      "do-nothing" ∉ required ++ optional → ∀ e ∈ entries, e.1.text ≠ "do-nothing" := by
    intro required optional hknown hother e he heq
    have hmem := hknown.2 e he
    rw [heq] at hmem
    exact hother (List.mem_append.2 hmem)
  by_cases hassign : key.text = "assign"
  · rw [body_dict_assign hassign] at h
    obtain ⟨_, hcheck, -⟩ := h.bind
    exact hfields (checkFields_returns hcheck) (by decide)
  by_cases hif : key.text = "if"
  · rw [body_dict_if hif] at h
    obtain ⟨_, hcheck, -⟩ := h.bind
    exact hfields (checkFields_returns hcheck) (by decide)
  by_cases hwhile : key.text = "while"
  · rw [body_dict_while hwhile] at h
    obtain ⟨_, hcheck, -⟩ := h.bind
    exact hfields (checkFields_returns hcheck) (by decide)
  · rw [body_dict_leaf hassign hif hwhile hkey] at h
    exact absurd (leaf_returns h rfl) hkey

/-- Where a mapping is read with success, what stands under `do-nothing` is no argument, and neither is what an
alias there refers to. -/
theorem Fine.idle {d arg : Node} (h : cx.Fine opened d) (hd : Idles arg d) :
    (arg.isAlias = false → NoArgument arg) ∧
      ∀ q name i m, arg = .alias q name i → cx.root.find? i = some m → NoArgument m := by
  obtain @⟨p, a, tag, flow, entries, _, he, hkey⟩ := hd
  rcases h with ⟨depth, t, h⟩ | ⟨depth, t, key, hother, h⟩ | ⟨r, h⟩
  · rw [node] at h
    rcases entries with _ | ⟨⟨key, val⟩, _ | ⟨e', rest⟩⟩
    · exact absurd h Returns.fail
    · rw [form, entry] at h
      cases List.mem_singleton.1 he
      refine ⟨fun hn => body_idle_returns hkey hn h, ?_⟩
      rintro q name i m rfl hfind
      rw [body] at h
      obtain ⟨m', hm', h⟩ := h.bind
      obtain ⟨-, hfind'⟩ := resolve_returns hm'
      cases hfind.symm.trans hfind'
      cases depth with
      | zero => exact absurd h Returns.fail
      | succ depth => exact body_idle_returns hkey (Node.isAlias_of_find? hfind) h
    · exact absurd h Returns.fail
  · exact absurd hkey (body_dict_busy hother h _ he)
  · rw [assignName_here rfl] at h
    exact absurd h Returns.fail

/-! ## What success says about circles -/

/-- A `do-nothing` with itself for an argument, tagged as null. -/
def idleNode : Node :=
  .dict Node.nowhere (some ⟨0, "a"⟩) "!!null" true [(.ofString "do-nothing", .alias Node.nowhere "a" 0)]

/-- A document whose program is this node. -/
def idle : Context where
  file := "idle.yaml"
  root := .ofFields false [("program", idleNode)]

end Context

end Document

end WhileLang
