import Mathlib.Order.Bounds.Defs
import WhileLang.Proofs.Engine.Story

/-!
# How deep evaluations are nested

An evaluation starts another one, a level deeper, for an operand, an assigned value, a condition, a first
statement and the body of a loop; branches and second statements are handed back and go on on the same level. So
the levels of a run are bounded by how often one has to go down in this way on a path through the program
(`Tree.nesting`), whatever the environment and however long the run.

A loop is replaced by a conditional that holds the loop again, which changes nothing here: the condition and the
body are a level deeper in both, and the loop itself is the second statement of a branch (`nesting_unroll_le`).
-/

namespace WhileLang

namespace Tree

/-- The children that are evaluated on their own, a level deeper. -/
def inner : Tree → List Tree
  | .binary _ _ l r => [l, r]
  | .assign _ _ value => [value]
  | .ite _ c _ _ => [c]
  | .seq _ a _ => [a]
  | .loop _ c b => [c, b]
  | _ => []

/-- The children that evaluation goes on with on the same level. -/
def tails : Tree → List Tree
  | .ite _ _ t e => [t, e]
  | .seq _ _ b => [b]
  | _ => []

/-- A path from a tree down to a descendant, which may be absent, goes a level deeper so many times. -/
inductive Nests : Tree → Nat → Tree → Prop
  | here (t : Tree) : Nests t 0 t
  | inner {t a u : Tree} {k : Nat} (ha : a ∈ t.inner) (h : Nests a k u) : Nests t (k + 1) u
  | tail {t a u : Tree} {k : Nat} (ha : a ∈ t.tails) (h : Nests a k u) : Nests t k u

/-- The most levels that a path through a tree goes down. -/
def nesting : Tree → Nat
  | .absent | .num _ _ | .bool _ _ | .nothing _ | .var _ _ => 0
  | .binary _ _ l r => max l.nesting r.nesting + 1
  | .assign _ _ value => value.nesting + 1
  | .ite _ c t e => max (c.nesting + 1) (max t.nesting e.nesting)
  | .seq _ a b => max (a.nesting + 1) b.nesting
  | .loop _ c b => max c.nesting b.nesting + 1

theorem nesting_of_mem_inner {t a : Tree} (h : a ∈ t.inner) : a.nesting + 1 ≤ t.nesting := by
  cases t with
  | absent | num | bool | nothing | var => exact absurd h List.not_mem_nil
  | binary s op l r | loop s l r =>
    have ha : a = l ∨ a = r := by simpa [inner] using h
    rw [nesting]
    rcases ha with rfl | rfl
    · omega
    · omega
  | assign s name value =>
    rw [List.mem_singleton.1 h]
    exact Nat.le_refl _
  | ite s c t e =>
    rw [List.mem_singleton.1 h]
    exact Nat.le_max_left _ _
  | seq s b c =>
    rw [List.mem_singleton.1 h]
    exact Nat.le_max_left _ _

theorem nesting_of_mem_tails {t a : Tree} (h : a ∈ t.tails) : a.nesting ≤ t.nesting := by
  cases t with
  | absent | num | bool | nothing | var | binary | assign | loop => exact absurd h List.not_mem_nil
  | ite s c t e =>
    have ha : a = t ∨ a = e := by simpa [tails] using h
    rw [nesting]
    rcases ha with rfl | rfl
    · omega
    · omega
  | seq s b c =>
    rw [List.mem_singleton.1 h]
    exact Nat.le_max_right _ _

/-- What a path goes down, and what is below its end, is no more than what is below its start. -/
theorem Nests.add_nesting_le {t u : Tree} {k : Nat} (h : Nests t k u) : k + u.nesting ≤ t.nesting := by
  induction h with
  | here t => exact Nat.le_of_eq (Nat.zero_add t.nesting)
  | inner ha _ ih =>
    have hdown := nesting_of_mem_inner ha
    omega
  | tail ha _ ih =>
    have hsame := nesting_of_mem_tails ha
    omega

/-- Some path goes down so many levels. -/
theorem exists_nests_nesting (t : Tree) : ∃ u, Nests t t.nesting u := by
  induction t with
  | absent | num | bool | nothing | var => exact ⟨_, .here _⟩
  | binary s op l r ihl ihr | loop s l r ihl ihr =>
    obtain ⟨u, hu⟩ := ihl
    obtain ⟨v, hv⟩ := ihr
    rw [nesting]
    rcases Nat.le_total l.nesting r.nesting with hle | hle
    · rw [Nat.max_eq_right hle]
      exact ⟨v, .inner (by simp [inner]) hv⟩
    · rw [Nat.max_eq_left hle]
      exact ⟨u, .inner (by simp [inner]) hu⟩
  | assign s name value ih =>
    obtain ⟨u, hu⟩ := ih
    exact ⟨u, .inner (List.mem_singleton_self value) hu⟩
  | ite s c t e ihc iht ihe =>
    obtain ⟨u, hu⟩ := ihc
    have hbranch : ∃ v, Nests (.ite s c t e) (max t.nesting e.nesting) v := by
      rcases Nat.le_total t.nesting e.nesting with hle | hle
      · obtain ⟨v, hv⟩ := ihe
        rw [Nat.max_eq_right hle]
        exact ⟨v, .tail (by simp [tails]) hv⟩
      · obtain ⟨v, hv⟩ := iht
        rw [Nat.max_eq_left hle]
        exact ⟨v, .tail (by simp [tails]) hv⟩
    rw [nesting]
    rcases Nat.le_total (c.nesting + 1) (max t.nesting e.nesting) with hle | hle
    · rw [Nat.max_eq_right hle]
      exact hbranch
    · rw [Nat.max_eq_left hle]
      exact ⟨u, .inner (List.mem_singleton_self c) hu⟩
  | seq s a b iha ihb =>
    obtain ⟨u, hu⟩ := iha
    obtain ⟨v, hv⟩ := ihb
    rw [nesting]
    rcases Nat.le_total (a.nesting + 1) b.nesting with hle | hle
    · rw [Nat.max_eq_right hle]
      exact ⟨v, .tail (List.mem_singleton_self b) hv⟩
    · rw [Nat.max_eq_left hle]
      exact ⟨u, .inner (List.mem_singleton_self a) hu⟩

/-- The nesting of a tree is the largest number of levels that a path through it goes down. -/
theorem isGreatest_nesting (t : Tree) : IsGreatest {k | ∃ u, Nests t k u} t.nesting := by
  refine ⟨exists_nests_nesting t, ?_⟩
  rintro k ⟨u, hu⟩
  exact Nat.le_trans (Nat.le_add_right k u.nesting) hu.add_nesting_le

/-! ## What comes next is nested no deeper -/

theorem mem_inner_of_first? {t a : Tree} (h : t.first? = some a) : a ∈ t.inner := by
  cases t <;> simp only [first?, Option.some.injEq, reduceCtorEq] at h
  all_goals
    rw [← h]
    exact List.mem_cons_self

theorem nesting_toTree (v : Value) : v.toTree.nesting = 0 := by
  cases v <;> rfl

theorem nesting_apply (op : Op) (s : Span) (a b : Int64) : (op.apply s a b).nesting = 0 := by
  cases op <;> rfl

theorem nesting_orNothing (t : Tree) : t.orNothing.nesting = t.nesting := by
  cases t <;> rfl

/-- A loop may be unrolled without going deeper. -/
theorem nesting_unroll_le (s : Span) (c b : Tree) : (unroll s c b).nesting ≤ (Tree.loop s c b).nesting := by
  simp only [unroll, nesting]
  omega

end Tree

/-! ## Steps within a bound -/

namespace Event

/-- Every step of a log, and all that its tree holds, stays within a number of levels. -/
def Within (bound : Nat) (log : List Event) : Prop :=
  ∀ u d, .step u d ∈ log → d + u.nesting ≤ bound

namespace Within

variable {bound bound' : Nat} {log log' : List Event}

theorem nil : Within bound [] := fun _ _ h => absurd h List.not_mem_nil

theorem mono (h : Within bound log) (hle : bound ≤ bound') : Within bound' log :=
  fun u d hmem => Nat.le_trans (h u d hmem) hle

theorem step {t : Tree} {depth : Nat} (ht : depth + t.nesting ≤ bound) (h : Within bound log) :
    Within bound (.step t depth :: log) := by
  intro u d hmem
  rcases List.mem_cons.1 hmem with heq | hmem
  · cases heq
    exact ht
  · exact h u d hmem

theorem append (h : Within bound log) (h' : Within bound log') : Within bound (log ++ log') := by
  intro u d hmem
  rcases List.mem_append.1 hmem with hmem | hmem
  · exact h u d hmem
  · exact h' u d hmem

theorem assign {name : String} {v : Value} : Within bound [.assign name v] := by
  intro u d hmem
  cases List.mem_singleton.1 hmem

end Within

end Event

open Event (Within)

/-- An evaluation stays within its own level and those that its tree goes down. -/
theorem Tells.within {cfg : Settings} {depth n : Nat} {t : Tree} {env : Env} {log : List Event} {r : Reply}
    (h : Tells cfg depth t env n log r) : Within (depth + t.nesting) log := by
  -- the story of a part that is a level deeper is within the bound of the whole
  have hinner : ∀ {depth : Nat} {t a : Tree} {log : List Event}, a ∈ t.inner →
      Within (depth + 1 + a.nesting) log → Within (depth + t.nesting) log := by
    intro depth t a log ha hlog
    have hdown := Tree.nesting_of_mem_inner ha
    exact hlog.mono (by omega)
  have htail : ∀ {depth : Nat} {t a : Tree} {log : List Event}, a.nesting ≤ t.nesting →
      Within (depth + a.nesting) log → Within (depth + t.nesting) log := by
    intro depth t a log hle hlog
    exact hlog.mono (by omega)
  induction h with
  | pause | stopped => exact .nil
  | @normal depth t =>
    rw [← Tree.nesting_orNothing t]
    exact .step (Nat.le_refl _) .nil
  | first _ hfirst _ _ ih => exact .step (Nat.le_refl _) (hinner (Tree.mem_inner_of_first? hfirst) ih)
  | unbound => exact .step (Nat.le_refl _) .nil
  | @var _ _ _ _ _ v _ _ _ _ _ ih =>
    exact .step (Nat.le_refl _) (htail (by rw [Tree.nesting_toTree]; exact Nat.zero_le _) ih)
  | right _ _ _ _ ihl ihr | operands _ _ _ _ ihl ihr =>
    apply Within.step (Nat.le_refl _)
    apply Within.append
    · exact hinner List.mem_cons_self ihl
    · exact hinner (List.mem_cons_of_mem _ List.mem_cons_self) ihr
  | binary _ _ _ _ ihl ihr ih =>
    apply Within.step (Nat.le_refl _)
    apply Within.append
    · apply Within.append
      · exact hinner List.mem_cons_self ihl
      · exact hinner (List.mem_cons_of_mem _ List.mem_cons_self) ihr
    · apply htail _ ih
      rw [Tree.nesting_apply]
      exact Nat.zero_le _
  | assigned _ _ _ ih =>
    apply Within.step (Nat.le_refl _)
    exact hinner List.mem_cons_self ih
  | assign _ _ _ _ iht ih =>
    apply Within.step (Nat.le_refl _)
    apply Within.append
    · exact .append (hinner List.mem_cons_self iht) .assign
    · exact htail (Nat.zero_le _) ih
  | condition _ _ _ ih =>
    apply Within.step (Nat.le_refl _)
    exact hinner List.mem_cons_self ih
  | @ite _ _ _ _ s _ c t e b _ _ _ _ _ _ ihc ih =>
    have hbranch : (if b then t else e).nesting ≤ (Tree.ite s c t e).nesting := by
      apply Tree.nesting_of_mem_tails
      cases b with
      | true => exact List.mem_cons_self
      | false => exact List.mem_cons_of_mem _ List.mem_cons_self
    apply Within.step (Nat.le_refl _)
    exact .append (hinner List.mem_cons_self ihc) (htail hbranch ih)
  | seq _ _ _ iha ih =>
    apply Within.step (Nat.le_refl _)
    apply Within.append
    · exact hinner List.mem_cons_self iha
    · exact htail (Tree.nesting_of_mem_tails List.mem_cons_self) ih
  | loop _ _ ih => exact .step (Nat.le_refl _) (htail (Tree.nesting_unroll_le _ _ _) ih)

/-- Loops run in constant stack. How deep the evaluations of a run are nested is bounded by how many levels a
path through the program goes down, in every environment, under any limits, and for as long as the run is
followed, be it for ever. -/
theorem execute_depth_le (t : Tree) :
    ∃ k, IsGreatest {k | ∃ u, t.Nests k u} k ∧
      ∀ (cfg : Settings) (fuel : Nat) (env : Env) (u : Tree) (d : Nat),
        .step u d ∈ (t.execute { cfg with traced := true } fuel env).events → d ≤ 1 + k := by
  refine ⟨t.nesting, t.isGreatest_nesting, fun cfg fuel env u d hmem => ?_⟩
  obtain ⟨log, htells, -, hevents⟩ := t.execute_told { cfg with traced := true } fuel env
  rw [hevents rfl] at hmem
  -- what opens and closes a run is no step
  have hlog : .step u d ∈ log := by
    rcases List.mem_append.1 hmem with hmem | hmem
    · rcases List.mem_cons.1 hmem with heq | hmem
      · cases heq
      · exact hmem
    · rcases hr : (t.execute { cfg with traced := true } fuel env).reply with ⟨v, env'⟩ | ⟨halt, env'⟩ | _ <;>
        rw [hr] at hmem
      · cases List.mem_singleton.1 hmem
      · have hclose := List.mem_singleton.1 hmem
        unfold Halt.event at hclose
        split at hclose
        · cases hclose
        · cases hclose
      · exact absurd hmem List.not_mem_nil
  exact Nat.le_trans (Nat.le_add_right d u.nesting) (htells.within u d hlog)

end WhileLang
