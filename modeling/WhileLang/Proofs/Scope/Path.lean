import Mathlib.Computability.Language
import WhileLang.Proofs.Env
import WhileLang.Proofs.Scope.Complaint
import WhileLang.Proofs.Scope.Walk

/-!
# Paths through a program

The check walks over a tree once, but what it warns about is a matter of all paths: a read is too early if some
path reaches it before it has bound the name. The paths of a tree are a regular language of reads and bindings,
which `Tree.paths` reads off the constructs: a conditional is a sum, a loop an iteration. For trees that are well
formed the check warns of exactly the reads that are too early (`check_eq_early`).

Both directions come from two facts about every construct. A name is bound after a walk if it was bound before or no
path through the construct avoids binding it (`Tree.mem_walk_iff`); and a read of a construct is early in a whole if it is
early in its own part and the parts before it can be passed without binding its name. No turn of a loop is worse than
the first one (`Paths.early_kstar`), which is why one walk over its body is enough.
-/

namespace WhileLang

open Computability

/-! ## Occurrences of variables -/

/-- Where a part stands in a tree: the numbers of the children that lead to it. -/
abbrev Place := List Nat

/-- An occurrence of a variable. -/
structure Read where
  place : Place
  span : Span
  name : String

/-- An occurrence in a child is one in the whole. -/
def Read.under (i : Nat) (r : Read) : Read := { r with place := i :: r.place }

/-- What the check says of an occurrence that may come too early. -/
def Read.warning (r : Read) : Diagnostic := Tree.mayBeUnbound r.span r.name

namespace Tree

/-- The part of a tree at a place. -/
def part? (t : Tree) : Place → Option Tree
  | [] => some t
  | i :: place =>
    match t.children[i]? with
    | some a => a.part? place
    | none => none

/-- All occurrences of variables, in the order of the program. -/
def reads : Tree → List Read
  | .absent | .num _ _ | .bool _ _ | .nothing _ => []
  | .var s name => [⟨[], s, name⟩]
  | .assign _ _ value => value.reads.map (·.under 0)
  | .binary _ _ a b | .seq _ a b | .loop _ a b => a.reads.map (·.under 0) ++ b.reads.map (·.under 1)
  | .ite _ c t e => c.reads.map (·.under 0) ++ t.reads.map (·.under 1) ++ e.reads.map (·.under 2)

end Tree

/-! ## Paths -/

/-- What happens on a path, as far as names are concerned. -/
inductive Action
  | read (r : Read)
  | bind (name : String)

/-- What happens in a child happens in the whole. -/
def Action.under (i : Nat) : Action → Action
  | .read r => .read (r.under i)
  | .bind name => .bind name

/-- Paths, each one with all that happens on it in order. -/
abbrev Paths := Language Action

/-- The paths through a child as parts of paths through the whole. -/
def Paths.under (l : Paths) (i : Nat) : Paths := Language.map (Action.under i) l

/-- The paths through a tree. A conditional takes either branch after its condition, and nothing happens in one that
is absent; a loop evaluates its condition, and then any number of times its body and its condition again. Operands go
from left to right, and a name is bound after its value. Whether a condition holds, and whether anything fails, is not
looked at. -/
def Tree.paths : Tree → Paths
  | .absent | .num _ _ | .bool _ _ | .nothing _ => 1
  | .var s name => {[.read ⟨[], s, name⟩]}
  | .assign _ name value => value.paths.under 0 * {[.bind name]}
  | .binary _ _ a b | .seq _ a b => a.paths.under 0 * b.paths.under 1
  | .ite _ c t e => c.paths.under 0 * (t.paths.under 1 + e.paths.under 2)
  | .loop _ c b => c.paths.under 0 * (b.paths.under 1 * c.paths.under 0)∗

/-- The names that are bound after the first part of a path, if some were bound before. -/
def boundAfter (start : List String) : List Action → List String
  | [] => start
  | .read _ :: before => boundAfter start before
  | .bind name :: before => boundAfter (name :: start) before

/-- Some path of a tree reaches an occurrence before its name is bound. Only whole paths are looked at, but every part
of a tree can be passed, so wherever a path has come it can be completed. -/
def Tree.ReadsEarly (t : Tree) (start : List String) (r : Read) : Prop :=
  ∃ before after, before ++ .read r :: after ∈ t.paths ∧ r.name ∉ boundAfter start before

theorem mem_boundAfter {x : String} (before : List Action) :
    ∀ start : List String, x ∈ boundAfter start before ↔ x ∈ start ∨ .bind x ∈ before := by
  induction before with
  | nil => simp [boundAfter]
  | cons a before ih =>
    intro start
    cases a with
    | read r => simp [boundAfter, ih]
    | bind name =>
      simp only [boundAfter, ih, List.mem_cons, Action.bind.injEq]
      tauto

/-! ## A single path -/

/-- A path reaches an occurrence and has not bound its name before. -/
def ReachedEarly (r : Read) (p : List Action) : Prop :=
  ∃ before after, p = before ++ .read r :: after ∧ .bind r.name ∉ before

/-- On a path in two parts, the second part counts if the first does not bind the name. -/
theorem reachedEarly_append {r : Read} {u v : List Action} :
    ReachedEarly r (u ++ v) ↔ ReachedEarly r u ∨ .bind r.name ∉ u ∧ ReachedEarly r v := by
  constructor
  · rintro ⟨before, after, heq, hbefore⟩
    rcases List.append_eq_append_iff.1 heq with ⟨rest, rfl, rfl⟩ | ⟨rest, rfl, hrest⟩
    · rw [List.mem_append, not_or] at hbefore
      exact .inr ⟨hbefore.1, rest, after, rfl, hbefore.2⟩
    · cases rest with
      | nil =>
        rw [List.append_nil]
        exact .inr ⟨hbefore, [], after, hrest.symm, List.not_mem_nil⟩
      | cons a rest =>
        obtain ⟨rfl, -⟩ := List.cons.inj hrest
        exact .inl ⟨before, rest, rfl, hbefore⟩
  · rintro (⟨before, after, rfl, hbefore⟩ | ⟨hu, before, after, rfl, hbefore⟩)
    · exact ⟨before, after ++ v, by simp, hbefore⟩
    · exact ⟨u ++ before, after, by simp, by simp [hu, hbefore]⟩

theorem bind_mem_map_under {i : Nat} {x : String} {p : List Action} :
    .bind x ∈ p.map (Action.under i) ↔ .bind x ∈ p := by
  constructor
  · intro h
    obtain ⟨a, ha, heq⟩ := List.mem_map.1 h
    cases a with
    | read r => cases heq
    | bind name =>
      cases heq
      exact ha
  · exact fun h => List.mem_map.2 ⟨.bind x, h, rfl⟩

/-- Paths through a child reach the occurrences of this child only. -/
theorem reachedEarly_map_under {i j : Nat} {r : Read} {p : List Action} :
    ReachedEarly (r.under j) (p.map (Action.under i)) ↔ j = i ∧ ReachedEarly r p := by
  constructor
  · rintro ⟨before, after, heq, hbefore⟩
    obtain ⟨p₁, p₂, rfl, rfl, hrest⟩ := List.map_eq_append_iff.1 heq
    obtain ⟨a, p₃, rfl, ha, -⟩ := List.map_eq_cons_iff.1 hrest
    cases a with
    | bind name => cases ha
    | read r' =>
      have hr : r'.under i = r.under j := Action.read.inj ha
      simp only [Read.under, Read.mk.injEq, List.cons.injEq] at hr
      obtain ⟨⟨rfl, hplace⟩, hspan, hname⟩ := hr
      have hsame : r' = r := by cases r'; cases r; simp_all
      rw [hsame]
      exact ⟨rfl, p₁, p₃, rfl, fun h => hbefore (bind_mem_map_under.2 h)⟩
  · rintro ⟨rfl, before, after, rfl, hbefore⟩
    exact ⟨before.map (.under j), after.map (.under j), by simp [Action.under],
      fun h => hbefore (bind_mem_map_under.1 h)⟩

/-! ## All paths of a construct -/

namespace Paths

/-- There is a path at all. -/
def Passable (l : Paths) : Prop := ∃ p, p ∈ l

/-- Some path does not bind the name. -/
def Skips (l : Paths) (x : String) : Prop := ∃ p ∈ l, .bind x ∉ p

/-- Some path reaches an occurrence and has not bound its name before. -/
def Early (l : Paths) (r : Read) : Prop := ∃ p ∈ l, ReachedEarly r p

variable {l m : Paths} {x : String} {r : Read} {i j : Nat}

theorem mem_under {p : List Action} : p ∈ l.under i ↔ ∃ q ∈ l, q.map (Action.under i) = p := Iff.rfl

theorem Passable.mul (hl : l.Passable) (hm : m.Passable) : Passable (l * m) := by
  obtain ⟨u, hu⟩ := hl
  obtain ⟨v, hv⟩ := hm
  exact ⟨u ++ v, Language.append_mem_mul hu hv⟩

theorem Passable.add (hl : l.Passable) : Passable (l + m) := by
  obtain ⟨u, hu⟩ := hl
  exact ⟨u, .inl hu⟩

theorem Passable.under (hl : l.Passable) : (l.under i).Passable := by
  obtain ⟨u, hu⟩ := hl
  exact ⟨_, mem_under.2 ⟨u, hu, rfl⟩⟩

theorem passable_singleton {p : List Action} : Passable {p} := ⟨p, rfl⟩

theorem passable_kstar : Passable (l∗) := ⟨[], Language.nil_mem_kstar l⟩

@[simp] theorem skips_one : Skips 1 x := ⟨[], rfl, List.not_mem_nil⟩

@[simp] theorem skips_kstar : Skips (l∗) x := ⟨[], Language.nil_mem_kstar l, List.not_mem_nil⟩

@[simp] theorem skips_singleton {p : List Action} : Skips {p} x ↔ .bind x ∉ p := by
  constructor
  · rintro ⟨q, rfl, hq⟩
    exact hq
  · exact fun h => ⟨p, rfl, h⟩

@[simp] theorem skips_mul : Skips (l * m) x ↔ l.Skips x ∧ m.Skips x := by
  constructor
  · rintro ⟨p, hp, hx⟩
    obtain ⟨u, hu, v, hv, rfl⟩ := Language.mem_mul.1 hp
    rw [List.mem_append, not_or] at hx
    exact ⟨⟨u, hu, hx.1⟩, v, hv, hx.2⟩
  · rintro ⟨⟨u, hu, hxu⟩, v, hv, hxv⟩
    exact ⟨u ++ v, Language.append_mem_mul hu hv, by simp [hxu, hxv]⟩

@[simp] theorem skips_add : Skips (l + m) x ↔ l.Skips x ∨ m.Skips x := by
  constructor
  · rintro ⟨p, hp | hp, hx⟩
    · exact .inl ⟨p, hp, hx⟩
    · exact .inr ⟨p, hp, hx⟩
  · rintro (⟨p, hp, hx⟩ | ⟨p, hp, hx⟩)
    · exact ⟨p, .inl hp, hx⟩
    · exact ⟨p, .inr hp, hx⟩

@[simp] theorem skips_under : (l.under i).Skips x ↔ l.Skips x := by
  constructor
  · rintro ⟨p, hp, hx⟩
    obtain ⟨q, hq, rfl⟩ := mem_under.1 hp
    exact ⟨q, hq, fun h => hx (bind_mem_map_under.2 h)⟩
  · rintro ⟨q, hq, hx⟩
    exact ⟨_, mem_under.2 ⟨q, hq, rfl⟩, fun h => hx (bind_mem_map_under.1 h)⟩

theorem early_mul (hm : m.Passable) : Early (l * m) r ↔ l.Early r ∨ l.Skips r.name ∧ m.Early r := by
  constructor
  · rintro ⟨p, hp, hr⟩
    obtain ⟨u, hu, v, hv, rfl⟩ := Language.mem_mul.1 hp
    rcases reachedEarly_append.1 hr with hr | ⟨hskips, hr⟩
    · exact .inl ⟨u, hu, hr⟩
    · exact .inr ⟨⟨u, hu, hskips⟩, v, hv, hr⟩
  · rintro (⟨u, hu, hr⟩ | ⟨⟨u, hu, hskips⟩, v, hv, hr⟩)
    · obtain ⟨v, hv⟩ := hm
      exact ⟨u ++ v, Language.append_mem_mul hu hv, reachedEarly_append.2 (.inl hr)⟩
    · exact ⟨u ++ v, Language.append_mem_mul hu hv, reachedEarly_append.2 (.inr ⟨hskips, hr⟩)⟩

theorem early_add : Early (l + m) r ↔ l.Early r ∨ m.Early r := by
  constructor
  · rintro ⟨p, hp | hp, hr⟩
    · exact .inl ⟨p, hp, hr⟩
    · exact .inr ⟨p, hp, hr⟩
  · rintro (⟨p, hp, hr⟩ | ⟨p, hp, hr⟩)
    · exact ⟨p, .inl hp, hr⟩
    · exact ⟨p, .inr hp, hr⟩

theorem early_bind {name : String} : ¬ Early {[.bind name]} r := by
  rintro ⟨p, rfl, before, after, heq, -⟩
  cases before with
  | nil => cases heq
  | cons a before =>
    obtain ⟨-, hrest⟩ := List.cons.inj heq
    simp at hrest

/-- What is reached early in some turn is reached early in a first one. -/
theorem early_kstar : Early (l∗) r ↔ l.Early r := by
  constructor
  · rintro ⟨p, ⟨turns, rfl, hturns⟩, hr⟩
    induction turns with
    | nil =>
      obtain ⟨before, after, heq, -⟩ := hr
      simp at heq
    | cons u turns ih =>
      obtain ⟨hu, hturns⟩ := List.forall_mem_cons.1 hturns
      rcases reachedEarly_append.1 hr with hr | ⟨-, hr⟩
      · exact ⟨u, hu, hr⟩
      · exact ih hturns hr
  · rintro ⟨u, hu, hr⟩
    exact ⟨u, ⟨[u], by simp, by simpa using hu⟩, hr⟩

theorem early_under : (l.under i).Early (r.under j) ↔ j = i ∧ l.Early r := by
  constructor
  · rintro ⟨p, hp, hr⟩
    obtain ⟨q, hq, rfl⟩ := mem_under.1 hp
    obtain ⟨hij, hr⟩ := reachedEarly_map_under.1 hr
    exact ⟨hij, q, hq, hr⟩
  · rintro ⟨hij, q, hq, hr⟩
    exact ⟨_, mem_under.2 ⟨q, hq, rfl⟩, reachedEarly_map_under.2 ⟨hij, hr⟩⟩

/-- In a first part that can be left, and whose occurrences are its own. -/
theorem early_first (hm : m.Passable) (hown : ¬ m.Early (r.under i)) :
    Early (l.under i * m) (r.under i) ↔ l.Early r := by
  rw [early_mul hm, early_under]
  simp [hown]

/-- After a first part that has other occurrences. -/
theorem early_later (hm : m.Passable) (hij : j ≠ i) :
    Early (l.under i * m) (r.under j) ↔ l.Skips r.name ∧ m.Early (r.under j) := by
  rw [early_mul hm, early_under, skips_under]
  simp [hij, Read.under]

/-- A loop reaches early what its first turn does. -/
theorem early_loop (hl : l.Passable) (hm : m.Passable) : Early (l * (m * l)∗) r ↔ Early (l * m) r := by
  rw [early_mul passable_kstar, early_kstar, early_mul hl, early_mul hm]
  tauto

end Paths

namespace Tree

open Paths
open Diagnostics (Harmless)

/-- Every tree can be passed. -/
theorem passable_paths (t : Tree) : t.paths.Passable := by
  induction t with
  | absent | num | bool | nothing => exact ⟨[], rfl⟩
  | var s name => exact passable_singleton
  | binary s op l r ihl ihr => exact ihl.under.mul ihr.under
  | assign s name v ih => exact ih.under.mul passable_singleton
  | ite s c t e ihc iht ihe => exact ihc.under.mul iht.under.add
  | seq s a b iha ihb => exact iha.under.mul ihb.under
  | loop s c b ihc ihb => exact ihc.under.mul passable_kstar

/-- A name is bound after a walk if it was bound before, or if there is no path that does not bind it. -/
theorem mem_walk_iff {x : String} {t : Tree} :
    ∀ {s : Scope}, Harmless (t.walk s).1 → (x ∈ (t.walk s).2 ↔ x ∈ s ∨ ¬ t.paths.Skips x) := by
  induction t with
  | absent | num | bool | nothing =>
    intro s _
    simp [walk, paths]
  | var sp name =>
    intro s h
    simp [walk_var h, paths]
  | binary sp op l r ihl ihr =>
    intro s h
    obtain ⟨hl, hr, hwalk⟩ := walk_binary h
    rw [hwalk, ihr hr, ihl hl, paths, skips_mul, skips_under, skips_under]
    tauto
  | assign sp name v ih =>
    intro s h
    obtain ⟨hv, hwalk⟩ := walk_assign h
    rw [hwalk, Scope.mem_insert, ih hv, paths, skips_mul, skips_under, skips_singleton, List.mem_singleton,
      Action.bind.injEq]
    tauto
  | ite sp c t e ihc iht ihe =>
    intro s h
    obtain ⟨hc, ht, he, hwalk⟩ := walk_ite h
    rw [hwalk, Scope.mem_inter, iht ht, ihe he, ihc hc, paths, skips_mul, skips_add, skips_under, skips_under,
      skips_under]
    tauto
  | seq sp a b iha ihb =>
    intro s h
    obtain ⟨ha, hb, hwalk⟩ := walk_seq h
    rw [hwalk, ihb hb, iha ha, paths, skips_mul, skips_under, skips_under]
    tauto
  | loop sp c b ihc ihb =>
    intro s h
    obtain ⟨hc, -, hwalk⟩ := walk_loop h
    rw [hwalk, ihc hc, paths, skips_mul, skips_under]
    simp

end Tree

/-- An occurrence comes early in a program if its name is not bound at the start and some path reaches it early. -/
theorem Tree.readsEarly_iff {t : Tree} {start : List String} {r : Read} :
    t.ReadsEarly start r ↔ r.name ∉ start ∧ t.paths.Early r := by
  constructor
  · rintro ⟨before, after, hpath, hname⟩
    rw [mem_boundAfter, not_or] at hname
    exact ⟨hname.1, _, hpath, before, after, rfl, hname.2⟩
  · rintro ⟨hstart, p, hpath, before, after, rfl, hname⟩
    refine ⟨before, after, hpath, ?_⟩
    rw [mem_boundAfter, not_or]
    exact ⟨hstart, hname⟩

/-! ## What the check warns of -/

namespace Paths

variable {l m : Paths} {s s' : Scope}

open Classical in
/-- The warnings about those of some occurrences that are reached early and not bound at the start. -/
noncomputable def warnings (l : Paths) (s : Scope) (rs : List Read) : List Diagnostic :=
  (rs.filter fun r => r.name ∉ s ∧ l.Early r).map Read.warning

theorem warnings_append (rs rs' : List Read) :
    l.warnings s (rs ++ rs') = l.warnings s rs ++ l.warnings s rs' := by
  rw [warnings, List.filter_append, List.map_append]
  rfl

/-- The warnings about occurrences in a child, if those are reached early in the whole that are so in the child. -/
theorem warnings_under {i : Nat} (h : ∀ r : Read, r.name ∉ s ∧ m.Early (r.under i) ↔ r.name ∉ s' ∧ l.Early r)
    (rs : List Read) : m.warnings s (rs.map (·.under i)) = l.warnings s' rs := by
  classical
  have hsame : (fun r : Read => decide (r.name ∉ s ∧ m.Early r)) ∘ (fun r : Read => r.under i) =
      fun r => decide (r.name ∉ s' ∧ l.Early r) := by
    funext r
    exact decide_eq_decide.2 (h r)
  rw [warnings, List.filter_map, List.map_map, warnings, ← hsame]
  rfl

end Paths

namespace Tree

open Paths
open Diagnostics (Harmless)

/-- After a part that was walked, those occurrences come early that do so once its names are bound. -/
theorem early_after_walk {a : Tree} {s : Scope} {l m : Paths} {r : Read} {i j : Nat} (ha : Harmless (a.walk s).1)
    (hm : m.Passable) (hij : j ≠ i) (hr : m.Early (r.under j) ↔ l.Early r) :
    r.name ∉ s ∧ Early (a.paths.under i * m) (r.under j) ↔ r.name ∉ (a.walk s).2 ∧ l.Early r := by
  rw [early_later hm hij, hr, mem_walk_iff ha]
  tauto

/-- What a walk over one part after another warns of. -/
theorem warnings_pair {a b : Tree} {s : Scope} {m : Paths} (ha : Harmless (a.walk s).1)
    (hm : ∀ r, m.Early r ↔ Early (a.paths.under 0 * b.paths.under 1) r) :
    m.warnings s (a.reads.map (·.under 0) ++ b.reads.map (·.under 1)) =
      a.paths.warnings s a.reads ++ b.paths.warnings (a.walk s).2 b.reads := by
  have hfirst : ∀ r : Read, r.name ∉ s ∧ m.Early (r.under 0) ↔ r.name ∉ s ∧ a.paths.Early r := by
    intro r
    rw [hm, early_first b.passable_paths.under (by simp [early_under])]
  have hsecond : ∀ r : Read, r.name ∉ s ∧ m.Early (r.under 1) ↔ r.name ∉ (a.walk s).2 ∧ b.paths.Early r := by
    intro r
    rw [hm]
    exact early_after_walk ha b.passable_paths.under (by decide) (by simp [early_under])
  rw [warnings_append, warnings_under hfirst, warnings_under hsecond]

/-- A walk that finds no error warns of the occurrences that come early, in the order of the program. -/
theorem walk_eq_warnings {t : Tree} :
    ∀ {s : Scope}, Harmless (t.walk s).1 → (t.walk s).1 = t.paths.warnings s t.reads := by
  induction t with
  | absent | num | bool | nothing => exact fun _ => rfl
  | var sp name =>
    intro s h
    have hearly : (paths (.var sp name)).Early ⟨[], sp, name⟩ := ⟨_, rfl, [], [], rfl, List.not_mem_nil⟩
    rw [walk_var h, warnings, reads, List.filter_cons, List.filter_nil]
    by_cases hx : name ∈ s
    · simp [hx]
    · simp [hx, hearly, Read.warning]
  | binary sp op l r ihl ihr =>
    intro s h
    obtain ⟨hl, hr, hwalk⟩ := walk_binary h
    rw [hwalk, ihl hl, ihr hr]
    exact (warnings_pair hl fun _ => Iff.rfl).symm
  | seq sp a b iha ihb =>
    intro s h
    obtain ⟨ha, hb, hwalk⟩ := walk_seq h
    rw [hwalk, iha ha, ihb hb]
    exact (warnings_pair ha fun _ => Iff.rfl).symm
  | loop sp c b ihc ihb =>
    intro s h
    obtain ⟨hc, hb, hwalk⟩ := walk_loop h
    rw [hwalk, ihc hc, ihb hb]
    exact (warnings_pair hc fun _ => early_loop c.passable_paths.under b.passable_paths.under).symm
  | assign sp name v ih =>
    intro s h
    obtain ⟨hv, hwalk⟩ := walk_assign h
    have hpart : ∀ r : Read, r.name ∉ s ∧ (paths (.assign sp name v)).Early (r.under 0) ↔
        r.name ∉ s ∧ v.paths.Early r := by
      intro r
      rw [paths, early_first passable_singleton early_bind]
    rw [hwalk, ih hv, reads, warnings_under hpart]
  | ite sp c t e ihc iht ihe =>
    intro s h
    obtain ⟨hc, ht, he, hwalk⟩ := walk_ite h
    have hbranches : Passable (t.paths.under 1 + e.paths.under 2) := t.passable_paths.under.add
    have hbranch : ∀ (j : Nat) (r : Read), Early (t.paths.under 1 + e.paths.under 2) (r.under j) ↔
        j = 1 ∧ t.paths.Early r ∨ j = 2 ∧ e.paths.Early r := by
      intro j r
      rw [early_add, early_under, early_under]
    have hcond : ∀ r : Read, r.name ∉ s ∧ (paths (.ite sp c t e)).Early (r.under 0) ↔
        r.name ∉ s ∧ c.paths.Early r := by
      intro r
      rw [paths, early_first hbranches (by rw [hbranch]; simp)]
    have hthen : ∀ r : Read, r.name ∉ s ∧ (paths (.ite sp c t e)).Early (r.under 1) ↔
        r.name ∉ (c.walk s).2 ∧ t.paths.Early r := by
      intro r
      exact early_after_walk hc hbranches (by decide) (by rw [hbranch]; simp)
    have helse : ∀ r : Read, r.name ∉ s ∧ (paths (.ite sp c t e)).Early (r.under 2) ↔
        r.name ∉ (c.walk s).2 ∧ e.paths.Early r := by
      intro r
      exact early_after_walk hc hbranches (by decide) (by rw [hbranch]; simp)
    rw [hwalk, ihc hc, iht ht, ihe he, reads, warnings_append, warnings_append, warnings_under hcond,
      warnings_under hthen, warnings_under helse]

/-! ## Occurrences and their places -/

theorem mem_map_under {i : Nat} {r : Read} {rs : List Read} :
    r ∈ rs.map (·.under i) ↔ ∃ place, r.place = i :: place ∧ ⟨place, r.span, r.name⟩ ∈ rs := by
  rw [List.mem_map]
  constructor
  · rintro ⟨r', hr', rfl⟩
    exact ⟨r'.place, rfl, hr'⟩
  · rintro ⟨place, hplace, hr'⟩
    refine ⟨_, hr', ?_⟩
    rw [Read.under, ← hplace]

/-- The reads of a tree are its variables, each one at its place. -/
theorem mem_reads_iff {t : Tree} : ∀ {place : Place} {s : Span} {name : String},
    ⟨place, s, name⟩ ∈ t.reads ↔ t.part? place = some (.var s name) := by
  induction t with
  | absent | num | bool | nothing =>
    intro place s name
    cases place <;> simp [reads, part?, children]
  | var sp x =>
    intro place s name
    cases place with
    | nil => simp [reads, part?, eq_comm]
    | cons i place => simp [reads, part?, children]
  | assign sp x v ih =>
    intro place s name
    rcases place with _ | ⟨_ | i, place⟩ <;> simp [reads, mem_map_under, part?, children, ih]
  | binary sp op a b iha ihb | seq sp a b iha ihb | loop sp a b iha ihb =>
    intro place s name
    rcases place with _ | ⟨_ | _ | i, place⟩ <;> simp [reads, mem_map_under, part?, children, iha, ihb]
  | ite sp c t e ihc iht ihe =>
    intro place s name
    rcases place with _ | ⟨_ | _ | _ | i, place⟩ <;> simp [reads, mem_map_under, part?, children, ihc, iht, ihe]

theorem map_place_under (i : Nat) (rs : List Read) :
    (rs.map (·.under i)).map Read.place = (rs.map Read.place).map (i :: ·) := by
  rw [List.map_map, List.map_map]
  rfl

theorem nodup_map_cons {i : Nat} {ps : List Place} (h : ps.Nodup) : (ps.map (i :: ·)).Nodup :=
  h.map fun _ _ heq => (List.cons.inj heq).2

/-- Places in different children are different. -/
theorem disjoint_map_cons {i j : Nat} (hij : i ≠ j) (ps qs : List Place) :
    (ps.map (i :: ·)).Disjoint (qs.map (j :: ·)) := by
  intro place hp hq
  obtain ⟨p, -, rfl⟩ := List.mem_map.1 hp
  obtain ⟨q, -, heq⟩ := List.mem_map.1 hq
  exact hij (List.cons.inj heq).1.symm

/-- No two reads stand at the same place. -/
theorem nodup_places (t : Tree) : (t.reads.map Read.place).Nodup := by
  induction t with
  | absent | num | bool | nothing => exact List.nodup_nil
  | var sp x => exact List.nodup_singleton _
  | assign sp x v ih =>
    rw [reads, map_place_under]
    exact nodup_map_cons ih
  | binary sp op a b iha ihb | seq sp a b iha ihb | loop sp a b iha ihb =>
    rw [reads, List.map_append, map_place_under, map_place_under]
    exact (nodup_map_cons iha).append (nodup_map_cons ihb) (disjoint_map_cons (by decide) _ _)
  | ite sp c t e ihc iht ihe =>
    rw [reads, List.map_append, List.map_append, map_place_under, map_place_under, map_place_under]
    have hct := (nodup_map_cons ihc).append (nodup_map_cons iht) (disjoint_map_cons Nat.zero_ne_one _ _)
    refine hct.append (nodup_map_cons ihe) (List.disjoint_append_left.2 ⟨?_, ?_⟩)
    · exact disjoint_map_cons (by decide) _ _
    · exact disjoint_map_cons (by decide) _ _

end Tree

section

open Classical

/-- The check is exact for the paths of a program. If it finds no error, its diagnostics are one warning for each
variable that some path reaches before its name is bound, in the order of the program, and nothing else. The reads of
the program are its variables, each of them once. -/
theorem check_eq_early (t : Tree) (env : Env) (h : Diagnostics.hasErrors (t.check env) = false) :
    t.check env =
        (t.reads.filter fun r => t.ReadsEarly env.names r).map (fun r => Tree.mayBeUnbound r.span r.name) ∧
      (∀ place s name, ⟨place, s, name⟩ ∈ t.reads ↔ t.part? place = some (.var s name)) ∧
      (t.reads.map Read.place).Nodup := by
  refine ⟨?_, fun _ _ _ => Tree.mem_reads_iff, t.nodup_places⟩
  have hwalk := Tree.check_eq_walk (Tree.ne_absent_of_clean h) env
  rw [hwalk] at h ⊢
  rw [Tree.walk_eq_warnings h, Paths.warnings]
  simp only [Tree.readsEarly_iff]
  rfl

/-- What the body of a loop binds can be read in the body, but not yet after the loop. -/
theorem check_eq_early_after_loop :
    let s : Span := .point "p.yaml" 1 1
    let body : Tree :=
      .seq s (.assign s "y" (.var s "x")) (.assign s "x" (.binary s .add (.var s "y") (.num s 1)))
    let t : Tree := .seq s (.loop s (.binary s .lt (.var s "x") (.num s 3)) body) (.var s "y")
    let env := Env.empty.insert "x" (.num s 0)
    Diagnostics.hasErrors (t.check env) = false ∧ t.check env = [Tree.mayBeUnbound s "y"] ∧
      t.check env =
        (t.reads.filter fun r => t.ReadsEarly env.names r).map fun r => Tree.mayBeUnbound r.span r.name := by
  intro s body t env
  have hwarnings : t.check env = [Tree.mayBeUnbound s "y"] := by decide
  have hclean : Diagnostics.hasErrors (t.check env) = false := by rw [hwarnings]; rfl
  exact ⟨hclean, hwarnings, (check_eq_early t env hclean).1⟩

end

end WhileLang
