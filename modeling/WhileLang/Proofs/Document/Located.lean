import WhileLang.Proofs.Document.Format
import WhileLang.Proofs.Engine.Blame
import WhileLang.Proofs.Yaml.Counted

/-!
# Diagnostics point into the document

A text that holds a YAML document is told about by position only: what the reader, the check and a run of the
program complain about stands at some node of the document. The reader puts every construct where a node of the
document is (`Tree.Located`), the check and the run only ever blame constructs of the program, and nodes stand at
positions that no made tree has, so that none of these positions is left out of a report.
-/

namespace WhileLang

/-- What holds of every construct that stands in a good place and lacks no child holds all over a tree that is made of
such constructs. -/
theorem Tree.grown_nodes {Good : Span → Prop} {Q : Tree → Prop}
    (h : ∀ u : Tree, Good u.span → .absent ∉ u.children → Q u) :
    Grown Good fun t => t ≠ .absent ∧ ∀ u ∈ t.nodes, Q u := by
  have hleaf : ∀ t : Tree, t ≠ .absent → t.nodes = [t] → t.children = [] → Good t.span →
      t ≠ .absent ∧ ∀ u ∈ t.nodes, Q u := by
    intro t ht hnodes hchildren hgood
    refine ⟨ht, fun u hu => ?_⟩
    rw [hnodes] at hu
    rw [List.mem_singleton.1 hu]
    exact h t hgood (hchildren ▸ List.not_mem_nil)
  have hpair : ∀ (t a b : Tree), t ≠ .absent → t.nodes = t :: (a.nodes ++ b.nodes) → t.children = [a, b] →
      Good t.span → (a ≠ .absent ∧ ∀ u ∈ a.nodes, Q u) → (b ≠ .absent ∧ ∀ u ∈ b.nodes, Q u) →
      t ≠ .absent ∧ ∀ u ∈ t.nodes, Q u := by
    intro t a b ht hnodes hchildren hgood ha hb
    rw [hnodes]
    have hroot : Q t := h t hgood (by simp [hchildren, ha.1.symm, hb.1.symm])
    exact ⟨ht, List.forall_mem_cons.2 ⟨hroot, List.forall_mem_append.2 ⟨ha.2, hb.2⟩⟩⟩
  constructor
  case num => exact fun s n hs => hleaf _ Tree.noConfusion rfl rfl hs
  case bool => exact fun s b hs => hleaf _ Tree.noConfusion rfl rfl hs
  case nothing => exact fun s hs => hleaf _ Tree.noConfusion rfl rfl hs
  case var => exact fun s name hs => hleaf _ Tree.noConfusion rfl rfl hs
  case binary => exact fun s op l r hs hl hr => hpair _ l r Tree.noConfusion rfl rfl hs hl hr
  case seq | loop => exact fun s a b hs ha hb => hpair _ a b Tree.noConfusion rfl rfl hs ha hb
  case assign =>
    intro s name v hs hv
    have hroot : Q (.assign s name v) := h _ hs (by simp [children, hv.1.symm])
    exact ⟨Tree.noConfusion, List.forall_mem_cons.2 ⟨hroot, hv.2⟩⟩
  case ite =>
    intro s c t e hs hc ht he
    have hroot : Q (.ite s c t e) := h _ hs (by simp [children, hc.1.symm, ht.1.symm, he.1.symm])
    refine ⟨Tree.noConfusion, List.forall_mem_cons.2 ⟨hroot, List.forall_mem_append.2 ⟨?_, he.2⟩⟩⟩
    exact List.forall_mem_append.2 ⟨hc.2, ht.2⟩

/-- There is a tree, and all its constructs stand in good places. -/
structure Tree.Located (Good : Span → Prop) (t : Tree) : Prop where
  present : t ≠ .absent
  nodes : ∀ u ∈ t.nodes, Good u.span

/-- A tree is located if it stands in a good place and its children are located. -/
theorem Tree.grown_located (Good : Span → Prop) : Tree.Grown Good (Tree.Located Good) := by
  have hlocated : Tree.Located Good = fun t => t ≠ .absent ∧ ∀ u ∈ t.nodes, Good u.span := by
    funext t
    exact propext ⟨fun h => ⟨h.present, h.nodes⟩, fun h => ⟨h.1, h.2⟩⟩
  rw [hlocated]
  exact grown_nodes fun _ hgood _ => hgood

namespace Document

open Yaml (Node)

/-- A position in a report: it is given, and it is that of a node of the document, with the name of the file. -/
def PointsInto (file : String) (root : Node) (s : Option Span) : Prop :=
  ∃ n ∈ root.parts, 1 ≤ n.pos.line ∧ 1 ≤ n.pos.col ∧ s = some (Span.point file n.pos.line n.pos.col)

variable {file : String} {source : Yaml.Source} {root : Node} {commented : Bool}

/-- A place in a document that counts from one is reported. -/
theorem Context.IsPlace.pointsInto {s : Span} (h : Context.IsPlace ⟨file, root⟩ s) (hroot : root.Counted) :
    s.known? = some s ∧ PointsInto file root (some s) := by
  obtain ⟨n, hn, rfl⟩ := h
  obtain ⟨hline, hcol⟩ := hroot n hn
  refine ⟨?_, n, hn, hline, hcol, rfl⟩
  have hne : Context.span ⟨file, root⟩ n.pos ≠ Span.none := by
    intro heq
    -- the made position has line zero
    have hzero : (n.pos.line : Int) = 0 := congrArg Span.startLine heq
    omega
  exact if_neg hne

/-- A document that cannot be decoded is complained of at one of its nodes. -/
theorem pointsInto_of_error (hparse : Yaml.parse source = .ok ⟨some root, commented⟩) {m : Malformed}
    (h : decode file source = .error m) : PointsInto file root m.span := by
  have hrun : (Context.document ⟨file, root⟩).run 0 = .error m := by
    rcases hrun : (Context.document ⟨file, root⟩).run 0 with e | ⟨doc, k⟩
    · unfold decode read at h
      simp only [hparse, hrun] at h
      cases h
      rfl
    · rw [decode_ok.2 ⟨root, commented, k, hparse, hrun⟩] at h
      cases h
  have hlocated := Tree.grown_located (Context.IsPlace ⟨file, root⟩)
  obtain ⟨s, hs, hspan⟩ := (Context.document_yields hlocated 0).2 m hrun
  rw [hspan]
  exact (hs.pointsInto (Yaml.parse_counted hparse)).2

/-- A program that was decoded is there, and stands in its document with all its constructs. -/
theorem located_of_ok (hparse : Yaml.parse source = .ok ⟨some root, commented⟩) {doc : Document}
    (h : decode file source = .ok doc) : doc.program.Located (Context.IsPlace ⟨file, root⟩) := by
  obtain ⟨root', commented', k, hparse', hrun⟩ := decode_ok.1 h
  rw [hparse] at hparse'
  cases hparse'
  have hlocated := Tree.grown_located (Context.IsPlace ⟨file, root⟩)
  obtain ⟨-, -, hprogram⟩ := (Context.document_yields hlocated 0).1 doc k hrun
  exact hprogram

/-- A complaint about a construct of a decoded program points to a node of its document. -/
theorem pointsInto_of_node (hparse : Yaml.parse source = .ok ⟨some root, commented⟩) {doc : Document}
    (h : decode file source = .ok doc) {u : Tree} (hu : u ∈ doc.program.nodes) :
    u.span.known? = some u.span ∧ PointsInto file root (some u.span) :=
  ((located_of_ok hparse h).nodes u hu).pointsInto (Yaml.parse_counted hparse)

/-- Whatever is said about a text that holds a YAML document points to a node of that document: what is wrong with
a text that cannot be decoded, all that the check says, and every fault of the program, in any environment, under
any limits and after any number of steps. A fault stands where a construct of the program does. -/
theorem diagnostics_point_into_document (hparse : Yaml.parse source = .ok ⟨some root, commented⟩) :
    (∀ m, decode file source = .error m → PointsInto file root (m.toFailure file).span?) ∧
    (∀ d ∈ checkSource file source, PointsInto file root d.span) ∧
    ∀ doc, decode file source = .ok doc → ∀ cfg fuel env f env',
      (doc.program.execute cfg fuel env).reply = .halted (.fault f) env' →
        ∃ u ∈ doc.program.nodes, (Halt.fault f).toFailure.span? = some u.span ∧
          PointsInto file root (some u.span) := by
  have hdecode : ∀ m, decode file source = .error m → PointsInto file root (m.toFailure file).span? := by
    intro m hm
    have hpoints := pointsInto_of_error hparse hm
    have hspan : (m.toFailure file).span? = m.span := by
      unfold Malformed.toFailure
      rcases m.span with _ | s
      · rfl
      · rfl
    rw [hspan]
    exact hpoints
  refine ⟨hdecode, fun d hd => ?_, fun doc hdoc cfg fuel env f env' hfault => ?_⟩
  · unfold checkSource ofSource at hd
    rcases hdoc : decode file source with m | doc
    · rw [hdoc] at hd
      rw [List.mem_singleton.1 hd]
      exact hdecode m hdoc
    · rw [hdoc] at hd
      have hpresent := (located_of_ok hparse hdoc).present
      obtain ⟨u, hu, hcomplaint⟩ := Tree.check_complaints hpresent doc.env d hd
      obtain ⟨hknown, hpoints⟩ := pointsInto_of_node hparse hdoc hu
      rw [hcomplaint.span_eq, hknown]
      exact hpoints
  · obtain ⟨u, hu, hspan⟩ := Tree.execute_blames hfault
    obtain ⟨hknown, hpoints⟩ := pointsInto_of_node hparse hdoc hu
    exact ⟨u, hu, hspan.trans hknown, hpoints⟩

/-- A text whose program goes round a loop once before it reads a name that nothing has bound. -/
def stumbling : String :=
  "env: {x: 0}\nprogram:\n  while:\n    cond: {lt: [{var: x}, 2]}\n    body:\n      seq:\n" ++
  "      - if: {cond: {lt: [0, {var: x}]}, then: {var: y}}\n      - assign: {name: x, value: 1}\n"

/-- The fault of this program points to the form that reads the name. -/
theorem diagnostics_point_into_stumbling :
    ∃ root commented doc f env', Yaml.parse (.ofText stumbling) = .ok ⟨some root, commented⟩ ∧
      decode "stumbling.yaml" (.ofText stumbling) = .ok doc ∧
      (doc.program.execute {} 40 doc.env).reply = .halted (.fault f) env' ∧
      PointsInto "stumbling.yaml" root (Halt.fault f).toFailure.span? := by
  have hfaults : (decode "stumbling.yaml" (.ofText stumbling)).toOption.any (fun doc =>
      (doc.program.execute {} 40 doc.env).halt?.any (·.toFailure.code = .unbound)) = true := by
    decide +kernel
  rcases hdoc : decode "stumbling.yaml" (.ofText stumbling) with m | doc
  · rw [hdoc] at hfaults
    cases hfaults
  · rw [hdoc] at hfaults
    obtain ⟨root, commented, k, hparse, -⟩ := decode_ok.1 hdoc
    rcases hreply : (doc.program.execute {} 40 doc.env).reply with ⟨v, env'⟩ | ⟨halt, env'⟩ | _
    · simp [Except.toOption, Outcome.halt?, hreply] at hfaults
    · cases halt with
      | fault f =>
        obtain ⟨u, -, hspan, hpoints⟩ :=
          (diagnostics_point_into_document hparse).2.2 doc hdoc {} 40 doc.env f env' hreply
        exact ⟨root, commented, doc, f, env', hparse, rfl, hreply, hspan ▸ hpoints⟩
      | _ => simp [Except.toOption, Outcome.halt?, hreply, Halt.toFailure, Failure.code] at hfaults
    · simp [Except.toOption, Outcome.halt?, hreply] at hfaults

end Document

end WhileLang
