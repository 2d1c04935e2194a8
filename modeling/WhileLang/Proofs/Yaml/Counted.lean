import WhileLang.Proofs.Yaml.Unfold

/-!
# Where nodes stand

The lines and columns of all nodes of a document that was read count from one. A node takes its position from the
event that starts it, and marks count from zero; so the nodes under construction keep the property from one event
to the next, down to the root that is left in the end.
-/

namespace WhileLang.Yaml

/-- A position that counts from one. -/
def Pos.Counted (p : Pos) : Prop := 1 ≤ p.line ∧ 1 ≤ p.col

theorem Mark.counted_pos (m : Mark) : m.pos.Counted := ⟨Nat.le_add_left 1 m.line, Nat.le_add_left 1 m.column⟩

namespace Node

/-- All parts of a node have positions that count from one. -/
def Counted (n : Node) : Prop := ∀ m ∈ n.parts, m.pos.Counted

section

variable {p : Pos} {a : Option Anchor} {tag : String} {flow : Bool} {items : List Node}
  {entries : List (Node × Node)}

theorem counted_scalar {text : String} (hp : p.Counted) : (Node.scalar p a tag text).Counted := by
  intro m hm
  rw [mem_parts_scalar.1 hm]
  exact hp

theorem counted_alias {name : String} {i : Nat} (hp : p.Counted) : (Node.alias p name i).Counted := by
  intro m hm
  rw [mem_parts_alias.1 hm]
  exact hp

theorem counted_list (hp : p.Counted) (h : ∀ n ∈ items, n.Counted) : (Node.list p a tag flow items).Counted := by
  intro m hm
  rcases mem_parts_list.1 hm with rfl | ⟨n, hn, hm⟩
  · exact hp
  · exact h n hn m hm

theorem counted_dict (hp : p.Counted) (h : ∀ e ∈ entries, e.1.Counted ∧ e.2.Counted) :
    (Node.dict p a tag flow entries).Counted := by
  intro m hm
  rcases mem_parts_dict.1 hm with rfl | ⟨e, he, hm | hm⟩
  · exact hp
  · exact (h e he).1 m hm
  · exact (h e he).2 m hm

end

/-- A collection under construction counts from one, and so does all that it holds already. -/
def Frame.Counted : Frame → Prop
  | .list p _ _ _ items => p.Counted ∧ ∀ n ∈ items, n.Counted
  | .dict p _ _ _ entries key =>
    p.Counted ∧ (∀ e ∈ entries, e.1.Counted ∧ e.2.Counted) ∧ ∀ k ∈ key, k.Counted

namespace Builder

/-- All nodes under construction count from one. -/
structure Counted (b : Builder) : Prop where
  frames : ∀ f ∈ b.frames, f.Counted
  root : ∀ n ∈ b.root, n.Counted

variable {b b' : Builder}

theorem Counted.empty : ({} : Builder).Counted where
  frames _ h := absurd h List.not_mem_nil
  root := by simp

theorem Counted.add {n : Node} (h : b.Counted) (hn : n.Counted) : (b.add n).Counted := by
  unfold Builder.add
  split
  · exact ⟨h.frames, fun m hm => Option.mem_some.1 hm ▸ hn⟩
  · next p a t f items rest hframes =>
    have hall := hframes ▸ h.frames
    obtain ⟨⟨hp, hitems⟩, hrest⟩ := List.forall_mem_cons.1 hall
    exact ⟨List.forall_mem_cons.2 ⟨⟨hp, List.forall_mem_cons.2 ⟨hn, hitems⟩⟩, hrest⟩, h.root⟩
  · next p a t f entries rest hframes =>
    have hall := hframes ▸ h.frames
    obtain ⟨⟨hp, hentries, -⟩, hrest⟩ := List.forall_mem_cons.1 hall
    have hkey : ∀ k ∈ some n, k.Counted := fun k hk => Option.mem_some.1 hk ▸ hn
    exact ⟨List.forall_mem_cons.2 ⟨⟨hp, hentries, hkey⟩, hrest⟩, h.root⟩
  · next p a t f entries k rest hframes =>
    have hall := hframes ▸ h.frames
    obtain ⟨⟨hp, hentries, hkey⟩, hrest⟩ := List.forall_mem_cons.1 hall
    have hentry : k.Counted ∧ n.Counted := ⟨hkey k rfl, hn⟩
    have hnone : ∀ k ∈ (none : Option Node), k.Counted := by simp
    exact ⟨List.forall_mem_cons.2 ⟨⟨hp, List.forall_mem_cons.2 ⟨hentry, hentries⟩, hnone⟩, hrest⟩, h.root⟩

theorem Counted.push {f : Frame} (h : b.Counted) (hf : f.Counted) :
    ({ b with frames := f :: b.frames } : Builder).Counted :=
  ⟨List.forall_mem_cons.2 ⟨hf, h.frames⟩, h.root⟩

theorem Counted.close (h : b.Counted) : b.close.Counted := by
  unfold Builder.close
  split
  · exact h
  · next p a t f items rest hframes =>
    have hall := hframes ▸ h.frames
    obtain ⟨⟨hp, hitems⟩, hrest⟩ := List.forall_mem_cons.1 hall
    have hbelow : ({ b with frames := rest } : Builder).Counted := ⟨hrest, h.root⟩
    exact hbelow.add (counted_list hp fun n hn => hitems n (List.mem_reverse.1 hn))
  · next p a t f entries key rest hframes =>
    have hall := hframes ▸ h.frames
    obtain ⟨⟨hp, hentries, -⟩, hrest⟩ := List.forall_mem_cons.1 hall
    have hbelow : ({ b with frames := rest } : Builder).Counted := ⟨hrest, h.root⟩
    exact hbelow.add (counted_dict hp fun e he => hentries e (List.mem_reverse.1 he))

theorem Counted.remark (h : b.Counted) (present : Bool) : (b.remark present).Counted := ⟨h.frames, h.root⟩

theorem Counted.declare (h : b.Counted) (name : Option String) : (b.declare name).2.Counted := by
  cases name with
  | none => exact h
  | some name => exact ⟨h.frames, h.root⟩

/-- An event keeps all nodes counted: the one it adds stands at its mark. -/
theorem Counted.event {e : Event} (h : b.Counted) (he : b.event e = .ok b') : b'.Counted := by
  have hp : e.start.pos.Counted := e.start.counted_pos
  unfold Builder.event at he
  split at he
  · cases he
    exact h
  · cases he
    exact h
  · cases he
    exact h.remark _
  · cases he
    exact h.remark _
  · split at he
    · cases he
      exact (h.remark _).add (counted_alias hp)
    · cases he
  · cases he
    exact ((h.declare _).remark _).add (counted_scalar hp)
  · cases he
    exact ((h.declare _).remark _).push ⟨hp, fun n hn => absurd hn List.not_mem_nil⟩
  · cases he
    have hnone : ∀ k ∈ (none : Option Node), k.Counted := by simp
    exact ((h.declare _).remark _).push ⟨hp, fun e he => absurd he List.not_mem_nil, hnone⟩
  · cases he
    exact (h.remark _).close
  · cases he
    exact (h.remark _).close

end Builder

/-- Building keeps all nodes counted. -/
theorem build_counted (fuel : Nat) : ∀ {r : EventStream} {b b' : Builder}, b.Counted →
    build fuel r b = .ok b' → b'.Counted := by
  induction fuel with
  | zero =>
    intro r b b' hb h
    cases h
    exact hb
  | succ fuel ih =>
    intro r b b' hb h
    rw [build] at h
    rcases hnext : EventStream.next.run r with err | ⟨e, r'⟩
    · rw [hnext] at h
      cases h
    · rcases hevent : b.event e with err | b₁
      · rw [hnext] at h
        simp only [bind, Except.bind, hevent] at h
        cases h
      · have hb₁ := hb.event hevent
        rw [hnext] at h
        simp only [bind, Except.bind, hevent] at h
        split at h
        · cases h
          exact hb₁
        · cases h
          exact hb₁
        · exact ih hb₁ h

end Node

/-- All nodes of a document that was read have positions that count from one. -/
theorem parse_counted {source : Source} {root : Node} {commented : Bool}
    (h : parse source = .ok ⟨some root, commented⟩) : root.Counted := by
  unfold parse at h
  rcases hbuild : Node.build (16 * (source.chars.length + 4)) (EventStream.ofSource source) {} with e | b
  · rw [hbuild] at h
    cases h
  · have hb := Node.build_counted _ Node.Builder.Counted.empty hbuild
    rw [hbuild] at h
    simp only [bind, Except.bind] at h
    split at h
    · next n hroot =>
      cases h
      exact hb.root root hroot
    · cases h

end WhileLang.Yaml
