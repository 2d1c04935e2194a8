import WhileLang.Report
import WhileLang.Proofs.Env.History
import WhileLang.Proofs.Json.ReadBack

/-!
# Reports are canonical

The text of a report can be read back, so it shows the result and every binding, and nothing else can have been written
as this text. What it shows is all that counts for two results to be the same, namely their kinds and values and not
their positions. Two runs therefore end the same exactly if their reports have the same text (`report_canonical`),
however the names are spelled and in whatever order they were bound.
-/

namespace WhileLang

/-- Maps that tell the same items apart make the same lists equal. -/
theorem map_eq_map_iff_of_iff {α β γ : Type} {f : α → β} {g : α → γ} (h : ∀ a b, f a = f b ↔ g a = g b)
    (l l' : List α) : l.map f = l'.map f ↔ l.map g = l'.map g := by
  have hpairs : ∀ {δ : Type} (k : α → δ), l.map k = l'.map k ↔ List.Forall₂ (fun a b => k a = k b) l l' := by
    intro δ k
    rw [← List.forall₂_map_right_iff, ← List.forall₂_map_left_iff, List.forall₂_eq_eq_eq]
  simp only [hpairs, h]

namespace Json

/-- A number of 64 bits is told by its digits, which are read as this number. -/
theorem int_toInt_inj {m n : Int64} : int m.toInt = int n.toInt ↔ m = n := by
  refine ⟨fun h => ?_, fun heq => by rw [heq]⟩
  have hread : Text.literal (toString m.toInt).toList = .ok m.toInt := Text.literal_toString (Text.fits64_toInt m)
  rw [number.inj h, Text.literal_toString (Text.fits64_toInt n)] at hread
  exact (Int64.toInt_inj.1 (Except.ok.inj hread)).symm

/-- Values that are read back have texts of their own. -/
theorem Nested.compact_inj {j j' : Json} (h : Nested maxDepth j) (h' : Nested maxDepth j') :
    j.compact = j'.compact ↔ j = j' := by
  refine ⟨fun htext => ?_, fun heq => by rw [heq]⟩
  have hread : read? j.compact.toList = some j := read?_compact h
  rw [htext, read?_compact h'] at hread
  exact (Option.some.inj hread).symm

end Json

open Json (Nested int_toInt_inj)

/-! ## Values and results -/

theorem Value.toJson_eq_iff {v w : Value} : v.toJson = w.toJson ↔ v.unplaced = w.unplaced := by
  cases v <;> cases w
  case num.num => simp [toJson, unplaced, int_toInt_inj]
  all_goals simp [toJson, unplaced, Json.int]

theorem Value.nested_toJson (depth : Nat) (v : Value) : Nested depth v.toJson := by
  cases v with
  | num s n => exact .int _
  | bool s b => exact .bool b

/-- Normal forms are the same exactly if they are shown as the same JSON value. -/
theorem Tree.resultJson_eq_iff {v v' : Tree} (hv : v.isReducible = false) (hpresent : v ≠ .absent)
    (hv' : v'.isReducible = false) (hpresent' : v' ≠ .absent) :
    v.resultJson = v'.resultJson ↔ v.same v' = true := by
  cases v <;> simp only [isReducible, reduceCtorEq, ne_eq, not_true_eq_false] at hv hpresent
  all_goals cases v' <;> simp only [isReducible, reduceCtorEq, ne_eq, not_true_eq_false] at hv' hpresent'
  case num.num => simp [resultJson, same, int_toInt_inj]
  all_goals simp [resultJson, same, Json.int]

theorem Tree.nested_resultJson (depth : Nat) (v : Tree) : Nested depth v.resultJson := by
  cases v with
  | num s n => exact .int _
  | bool s b => exact .bool b
  | nothing s => exact .text _
  | _ => exact .null

namespace Env

/-! ## Environments -/

/-- The bindings as members of a JSON object. -/
def members (e : Env) : List (String × Json) := e.bindings.map fun b => (b.1, b.2.toJson)

/-- Environments are the same exactly if they have the same members. -/
theorem members_eq_iff {e e' : Env} : e.members = e'.members ↔ e.same e' = true := by
  rw [same_iff_unplaced]
  refine map_eq_map_iff_of_iff (fun b b' => ?_) e.bindings e'.bindings
  rw [Prod.mk.injEq, Prod.mk.injEq, Value.toJson_eq_iff]

/-- The members of an object list an environment: each bound name once, in increasing order of their bytes, with its
value. -/
structure ListedBy (e : Env) (members : List (String × Json)) : Prop where
  increasing : (members.map (·.1)).Pairwise fun x y => Text.bytes x < Text.bytes y
  once : ∀ x, (members.map (·.1)).count x = if e.contains x then 1 else 0
  mem_iff : ∀ x j, (x, j) ∈ members ↔ ∃ v, e.get? x = some v ∧ v.toJson = j

theorem listedBy_members (e : Env) : e.ListedBy e.members := by
  have hnames : e.members.map (·.1) = e.names := by
    rw [members, List.map_map]
    rfl
  refine ⟨hnames ▸ e.names_increasing, fun x => ?_, fun x j => ?_⟩
  · rw [hnames, e.nodup_names.count]
    simp only [mem_names]
  · simp only [members, List.mem_map, Prod.exists, Prod.mk.injEq, mem_bindings]
    constructor
    · rintro ⟨_, v, hv, rfl, rfl⟩
      exact ⟨v, hv, rfl⟩
    · rintro ⟨v, hv, rfl⟩
      exact ⟨x, v, hv, rfl, rfl⟩

end Env

/-! ## Reports -/

/-- A report holds the bindings in an object of their own and nothing that is nested deeper. -/
theorem nested_resultReport (depth : Nat) (v : Tree) (e : Env) : Nested (depth + 2) (resultReport v e) := by
  have hmembers : ∀ m ∈ e.members, Nested depth m.2 := by
    intro m hm
    obtain ⟨b, -, rfl⟩ := List.mem_map.1 hm
    exact b.2.nested_toJson depth
  refine .object fun m hm => ?_
  simp only [List.mem_cons, List.not_mem_nil, or_false] at hm
  rcases hm with rfl | rfl
  · exact v.nested_resultJson _
  · exact .object hmembers

theorem resultReport_eq_iff {v v' : Tree} {e e' : Env} :
    resultReport v e = resultReport v' e' ↔ v.resultJson = v'.resultJson ∧ e.members = e'.members := by
  simp [resultReport, Env.toJson, Env.members]

/-- Reports are canonical. The reports of two results have the same text exactly if the normal forms are the same and so
are the environments, and the text is that of a JSON object whose members are the result and an object that lists the
environment. -/
theorem report_canonical (v : Tree) (e : Env) (hv : v.isReducible = false) (hpresent : v ≠ .absent) :
    (∀ (v' : Tree) (e' : Env), v'.isReducible = false → v' ≠ .absent →
      ((resultReport v e).compact = (resultReport v' e').compact ↔ v.same v' = true ∧ e.same e' = true)) ∧
    ∃ members, e.ListedBy members ∧ Json.read? (resultReport v e).compact.toList =
      some (.object [("result", v.resultJson), ("env", .object members)]) := by
  have hnested : ∀ v e, Nested Json.maxDepth (resultReport v e) := nested_resultReport 9998
  refine ⟨fun v' e' hv' hpresent' => ?_, e.members, e.listedBy_members, Json.read?_compact (hnested v e)⟩
  rw [(hnested v e).compact_inj (hnested v' e'), resultReport_eq_iff, Tree.resultJson_eq_iff hv hpresent hv' hpresent',
    Env.members_eq_iff]

/-- Names with quotation marks, markup, a control character and a line separator, bound in two orders and at different
positions. The texts are the same, and no longer so when one value differs. -/
theorem report_canonical_quoted :
    let s : Span := .point "p.yaml" 1 1
    let e : Env := Env.ofList [("say \"\\\"", .num s 1), ("<&>", .num s (-2)), ("\x01", .num s 3),
      ("\u2028", .bool s true)]
    let e' : Env := Env.ofList [("\u2028", .bool Span.none true), ("\x01", .num s 0), ("<&>", .num Span.none (-2)),
      ("say \"\\\"", .num s 1), ("\x01", .num s 3)]
    (resultReport (.nothing s) e).compact = (resultReport (.nothing Span.none) e').compact ∧
      (resultReport (.nothing s) e).compact ≠ (resultReport (.nothing s) (e'.insert "<&>" (.num s 2))).compact ∧
      ∃ members, e.ListedBy members ∧ Json.read? (resultReport (.nothing s) e).compact.toList =
        some (.object [("result", .text "do-nothing"), ("env", .object members)]) := by
  intro s e e'
  have hsame : e.same e' = true := by decide
  have hother : e.same (e'.insert "<&>" (.num s 2)) ≠ true := by decide
  obtain ⟨htexts, hlisted⟩ := report_canonical (.nothing s) e rfl (by simp)
  refine ⟨(htexts _ e' rfl (by simp)).2 ⟨rfl, hsame⟩, fun heq => ?_, hlisted⟩
  exact hother ((htexts _ _ rfl (by simp)).1 heq).2

end WhileLang
