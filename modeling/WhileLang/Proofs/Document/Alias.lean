import WhileLang.Proofs.Document.Agree
import WhileLang.Proofs.Document.Reach

/-!
# When aliases are transparent

A document should mean the same with each alias replaced by a copy of the node it refers to. It does, with one
exception: a document in which an assignment holds its name (`NameHeld`) is refused, though its unfolding is
not.
-/

namespace WhileLang.Document

open Yaml (Node Pos Anchor)

/-- The entries of an environment, which may be behind an alias. -/
def envEntries (root : Node) : Node → List (Node × Node)
  | .dict _ _ _ _ entries => entries
  | .alias _ _ i =>
    match root.find? i with
    | some (.dict _ _ _ _ entries) => entries
    | _ => []
  | _ => []

/-- The nodes of a document that are read as trees: the values of its environment, and its program. -/
def tops (root : Node) : List Node :=
  match root with
  | .dict _ _ _ _ entries =>
    ((Context.field? "env" entries).toList.flatMap fun n => (envEntries root n).map (·.2)) ++
      (Context.field? "program" entries).toList
  | _ => []

/-- Some assignment of a document uses in its value the alias that its name is given by. -/
def NameHeld (root : Node) : Prop := ∃ n ∈ tops root, HoldsName root n

namespace Context

variable {cx : Context} {P : Prop} {opened : List Nat} {entries : List (Node × Node)}

theorem bindings_blames (h : ∀ e ∈ entries, Blames P (cx.tree opened e.2)) :
    ∀ acc, Blames P (cx.bindings opened entries acc) := by
  induction entries with
  | nil => exact fun acc => .pure
  | cons e rest ih =>
    intro acc
    obtain ⟨key, val⟩ := e
    obtain ⟨hval, hrest⟩ := List.forall_mem_cons.1 h
    rw [bindings]
    refine .ite (fun _ => .fail rfl) fun _ => .ite (fun _ => .fail rfl) fun _ => ?_
    refine .bind hval fun t _ => ?_
    split
    · exact ih hrest _
    · exact .fail rfl

theorem bindings_returns {acc l : List (String × Value)} (h : Returns (cx.bindings opened entries acc) l) :
    ∀ e ∈ entries, ∃ t, Returns (cx.tree opened e.2) t := by
  induction entries generalizing acc with
  | nil => exact fun e he => absurd he List.not_mem_nil
  | cons e rest ih =>
    obtain ⟨key, val⟩ := e
    rw [bindings] at h
    split at h
    · exact absurd h Returns.fail
    · split at h
      · exact absurd h Returns.fail
      · obtain ⟨t, ht, h⟩ := h.bind
        split at h
        · exact List.forall_mem_cons.2 ⟨⟨t, ht⟩, ih h⟩
        · exact absurd h Returns.fail

theorem envAt_blames {n : Node} (hentries : ∀ p a tag flow entries, n = .dict p a tag flow entries →
      ∀ e ∈ entries, Blames P (cx.tree opened e.2)) : Blames P (cx.envAt opened n) := by
  cases n using Node.induct with
  | scalar => exact .ite (fun _ => .pure) fun _ => .fail rfl
  | list | link => exact .fail rfl
  | dict p a tag flow entries =>
    exact .bind (bindings_blames (hentries p a tag flow entries rfl) []) fun l _ => .pure

/-- An environment refuses an open node only if one of its values holds a name. -/
theorem env_blames (hroot : cx.root.Linked) (n : Node) :
    Blames (∃ e ∈ envEntries cx.root n, HoldsName cx.root e.2) (cx.env n) := by
  have htree : ∀ opened n, Blames (Clash cx.root opened n) (cx.tree opened n) :=
    fun opened n => (node_blames hroot _ n).asNode opened
  by_cases hn : n.isAlias = false
  · rw [env_here hn]
    refine envAt_blames ?_
    rintro p a tag flow entries rfl e he
    refine (htree [] e.2).imp fun hclash => ?_
    rcases hclash with ⟨i, hi, -⟩ | hheld
    · exact absurd hi List.not_mem_nil
    · exact ⟨e, he, hheld⟩
  · obtain ⟨q, name, i, rfl⟩ := Node.exists_alias_of_isAlias hn
    rw [env_alias]
    refine .bind (resolve_blames fun hi => absurd hi List.not_mem_nil) fun m hm => ?_
    obtain ⟨-, hfind⟩ := resolve_returns hm
    refine envAt_blames ?_
    rintro p a tag flow entries rfl e he
    refine (htree [i] e.2).imp fun hclash => ?_
    -- the environment's own anchor is open too, but nothing inside it leads back to it
    rcases hclash with ⟨j, hj, p', name', hread⟩ | hheld
    · rw [List.mem_singleton.1 hj] at hread
      exact absurd ((hread.contains rfl).of_part (Node.value_mem_parts he)) (hroot.acyclic i _ hfind)
    · refine ⟨e, ?_, hheld⟩
      rw [envEntries, hfind]
      exact he

theorem envAt_returns {n : Node} {e : Env} (h : Returns (cx.envAt opened n) e) {p : Pos}
    {a : Option Anchor} {tag : String} {flow : Bool} (hn : n = .dict p a tag flow entries) :
    ∀ b ∈ entries, cx.Fine opened b.2 := by
  rw [hn, envAt] at h
  obtain ⟨l, hl, -⟩ := h.bind
  exact fun b hb => .inl ⟨_, bindings_returns hl b hb⟩

/-- The values of an environment that is read with success are. -/
theorem env_returns {n : Node} {e : Env} (h : Returns (cx.env n) e) :
    ∀ b ∈ envEntries cx.root n, ∃ opened, cx.Fine opened b.2 := by
  intro b hb
  cases n using Node.induct with
  | scalar | list => exact absurd hb List.not_mem_nil
  | dict p a tag flow entries =>
    rw [env_here rfl] at h
    exact ⟨[], envAt_returns h rfl b hb⟩
  | link p name i =>
    rw [env_alias] at h
    obtain ⟨m, hm, h⟩ := h.bind
    rw [envEntries, (resolve_returns hm).2] at hb
    split at hb
    · next heq => exact ⟨[i], envAt_returns h (Option.some.inj heq) b hb⟩
    · exact absurd hb List.not_mem_nil

theorem mem_tops {p : Pos} {a : Option Anchor} {tag : String} {flow : Bool}
    (hroot : cx.root = .dict p a tag flow entries) {n : Node} :
    n ∈ tops cx.root ↔
      (∃ m, field? "env" entries = some m ∧ ∃ b ∈ envEntries cx.root m, b.2 = n) ∨
        field? "program" entries = some n := by
  rw [hroot, tops, List.mem_append, List.mem_flatMap]
  simp

/-- A document refuses an open node only if a name is held. -/
theorem document_blames (hlinked : cx.root.Linked) : Blames (NameHeld cx.root) cx.document := by
  by_cases hdict : ∃ p a tag flow entries, cx.root = .dict p a tag flow entries
  · obtain ⟨p, a, tag, flow, entries, hroot⟩ := hdict
    rw [document_dict hroot]
    refine .bind checkFields_blames fun _ _ => .bind ?_ fun e _ => ?_
    · unfold envField
      split
      · next m hm =>
        refine (env_blames hlinked m).imp ?_
        rintro ⟨b, hb, hheld⟩
        exact ⟨b.2, (mem_tops hroot).2 (.inl ⟨m, hm, b, hb, rfl⟩), hheld⟩
      · exact .pure
    · split
      · next n hn =>
        refine .bind (((node_blames hlinked _ n).asNode []).imp ?_) fun t _ => .pure
        rintro (⟨i, hi, -⟩ | hheld)
        · exact absurd hi List.not_mem_nil
        · exact ⟨n, (mem_tops hroot).2 (.inr hn), hheld⟩
      · exact .fail rfl
  · unfold document
    split
    · next hroot => exact absurd ⟨_, _, _, _, _, hroot⟩ hdict
    · exact .fail rfl

/-- A document that is read with success is a mapping, its fields are, and so is its program. -/
theorem document_dict_returns {doc : Document} (h : Returns cx.document doc) :
    ∃ p a tag flow entries, cx.root = .dict p a tag flow entries ∧ (∃ e, Returns (cx.envField entries) e) ∧
      ∃ n t, field? "program" entries = some n ∧ Returns (cx.tree [] n) t := by
  by_cases hdict : ∃ p a tag flow entries, cx.root = .dict p a tag flow entries
  · obtain ⟨p, a, tag, flow, entries, hroot⟩ := hdict
    rw [document_dict hroot] at h
    obtain ⟨_, -, h⟩ := h.bind
    obtain ⟨e, he, h⟩ := h.bind
    refine ⟨p, a, tag, flow, entries, hroot, ⟨e, he⟩, ?_⟩
    split at h
    · next n hn =>
      obtain ⟨t, ht, -⟩ := h.bind
      exact ⟨n, t, hn, ht⟩
    · exact absurd h Returns.fail
  · unfold document at h
    split at h
    · next hroot => exact absurd ⟨_, _, _, _, _, hroot⟩ hdict
    · exact absurd h Returns.fail

/-- The trees of a document that is read with success are. -/
theorem fine_of_mem_tops {doc : Document} (h : Returns cx.document doc) {n : Node} (hn : n ∈ tops cx.root) :
    ∃ opened, cx.Fine opened n := by
  obtain ⟨p, a, tag, flow, entries, hroot, ⟨e, he⟩, m, t, hm, ht⟩ := document_dict_returns h
  rcases (mem_tops hroot).1 hn with ⟨m', hm', b, hb, rfl⟩ | hprogram
  · unfold envField at he
    rw [hm'] at he
    exact env_returns he b hb
  · cases hm.symm.trans hprogram
    exact ⟨[], .inl ⟨_, t, ht⟩⟩

/-- A document that is read with success holds no name. -/
theorem document_returns {doc : Document} (h : Returns cx.document doc) : ¬ NameHeld cx.root := by
  rintro ⟨n, hn, hheld⟩
  obtain ⟨opened, hfine⟩ := fine_of_mem_tops h hn
  exact hfine.not_holdsName hheld

/-- The same document with each alias replaced by a copy of the node it refers to. -/
def unfolded (cx : Context) : Context := { cx with root := cx.root.unfolded }

/-- Aliases that are in order, and not too many, can be replaced by what they refer to: the document and its
unfolding, in which no alias is left, are read to the same environment and to the same program up to
positions. The document is refused where its unfolding is not exactly if an assignment holds its name, and
only then is an alias said to refer to itself. -/
theorem document_iff_unfolded (cx : Context) (hlinked : cx.root.Linked)
    (hcount : ∀ e, cx.document.run 0 = .error e → e.defect ≠ .tooManyAliases) :
    cx.unfolded.root.AliasFree ∧
      ((∃ doc k, cx.document.run 0 = .ok (doc, k)) ↔
        (∃ doc k, cx.unfolded.document.run 0 = .ok (doc, k)) ∧ ¬ NameHeld cx.root) ∧
      (∀ doc k doc' k', cx.document.run 0 = .ok (doc, k) → cx.unfolded.document.run 0 = .ok (doc', k') →
        doc.env.same doc'.env = true ∧ doc.program.unplaced = doc'.program.unplaced) ∧
      ∀ e name, cx.document.run 0 = .error e → e.defect = .selfReference name → NameHeld cx.root := by
  obtain ⟨hunfolds, hfree⟩ := hlinked.unfolded
  have hagree : Agree DocumentsAlike cx.document cx.unfolded.document := document_agree hunfolds
  have hblame : ∀ e name, cx.document.run 0 = .error e → e.defect = .selfReference name →
      NameHeld cx.root := by
    intro e name hrun hself
    refine document_blames hlinked 0 e hrun ?_
    rw [hself]
    rfl
  refine ⟨hfree, ⟨?_, ?_⟩, ?_, hblame⟩
  · rintro ⟨doc, k, hdoc⟩
    obtain ⟨doc', hdoc', -⟩ := (hagree 0 0).1 doc k hdoc
    exact ⟨⟨doc', 0, hdoc'⟩, document_returns ⟨0, k, hdoc⟩⟩
  · rintro ⟨⟨doc', k', hdoc'⟩, hheld⟩
    rcases hrun : cx.document.run 0 with e | ⟨doc, k⟩
    -- an error that the unfolding does not have refuses an alias, for their number or for a name
    · rcases (hagree 0 0).2 e hrun with hrefuse | ⟨e', he'⟩
      · rcases Defect.refusesAlias_iff.1 hrefuse with hmany | ⟨name, hself⟩
        · exact absurd hmany (hcount e hrun)
        · exact absurd (hblame e name hrun hself) hheld
      · rw [he'] at hdoc'
        cases hdoc'
    · exact ⟨doc, k, rfl⟩
  · intro doc k doc' k' hdoc hdoc'
    obtain ⟨doc₁, hdoc₁, halike⟩ := (hagree 0 0).1 doc k hdoc
    rw [hdoc'] at hdoc₁
    cases hdoc₁
    exact halike

/-- A document whose aliases stand for a value of the environment, for an operand, for operands, which use an
alias in turn, and for a name. -/
def shared : Context where
  file := "shared.yaml"
  root := .ofFields false [
    ("env", .ofFields true [("x", .scalar Node.nowhere (some ⟨0, "one"⟩) "!!int" "1"),
      ("y", .alias Node.nowhere "one" 0)]),
    ("program", .ofFields true [("seq", .ofList true [
      .ofFields true [("assign", .ofFields true [
        ("name", .scalar Node.nowhere (some ⟨1, "z"⟩) "!!str" "z"),
        ("value", .ofFields true [("add", .list Node.nowhere (some ⟨2, "both"⟩) "!!seq" true [
          .ofFields true [("var", .ofString "x")], .alias Node.nowhere "one" 0])])])],
      .ofFields true [("assign", .ofFields true [("name", .alias Node.nowhere "z" 1),
        ("value", .ofFields true [("mul", .alias Node.nowhere "both" 2)])])]])])]

/-- The shared document is read like its unfolding. -/
theorem shared_iff_unfolded :
    shared.root.Linked ∧ (∀ e, shared.document.run 0 = .error e → e.defect ≠ .tooManyAliases) ∧
      (∃ doc k, shared.unfolded.document.run 0 = .ok (doc, k)) ∧ ¬ NameHeld shared.root := by
  have hlinked : shared.root.Linked := by decide +kernel
  have hok : (shared.document.run 0).isOk = true := by decide +kernel
  have hread : ∃ doc k, shared.document.run 0 = .ok (doc, k) := by
    rcases hrun : shared.document.run 0 with e | ⟨doc, k⟩
    · rw [hrun] at hok
      cases hok
    · exact ⟨doc, k, rfl⟩
  have hcount : ∀ e, shared.document.run 0 = .error e → e.defect ≠ .tooManyAliases := by
    intro e he
    rw [he] at hok
    cases hok
  exact ⟨hlinked, hcount, (document_iff_unfolded shared hlinked hcount).2.1.1 hread⟩

/-- A document with an assignment that holds its name: it adds one to the variable that it assigns. -/
def counting : Context where
  file := "counting.yaml"
  root := .ofFields false [("program", .ofFields true [("seq", .ofList true [
    .ofFields true [("var", .scalar Node.nowhere (some ⟨0, "n"⟩) "!!str" "x")],
    .ofFields true [("assign", .ofFields true [("name", .alias Node.nowhere "n" 0),
      ("value", .ofFields true [("add", .ofList true [
        .ofFields true [("var", .alias Node.nowhere "n" 0)], .ofInt 1])])])]])])]

/-- No alias of this document lies inside the node it refers to, and its unfolding is read with success, but
the document itself is refused for an alias that refers to itself. -/
theorem counting_refused :
    counting.root.Linked ∧ (counting.unfolded.document.run 0).isOk = true ∧
      counting.document.run 0 =
        .error ⟨.selfReference "n", some (Span.point "counting.yaml" 0 0)⟩ := by
  refine ⟨?_, ?_, rfl⟩
  · decide +kernel
  · decide +kernel

end Context

end WhileLang.Document
