import WhileLang.Proofs.Text.Bytes
import WhileLang.Proofs.Unplaced

/-!
# Environments and their histories

An environment is what its own history makes it: the bindings that it was made from, and those that were added on the
way to it. Environments branch, since any number of them may be made from one and the same environment. A script of
changes tells how a pool of environments comes about, and it is carried out twice: with environments, and with plain
lists of bindings in their places, which are the histories (`Env.environments_eq`). What an environment answers is then
read off its history, in which the last binding of a name counts (`Env.Records`), and no change to the pool reaches an
environment that is there already.
-/

namespace WhileLang

/-! ## Histories -/

namespace Bindings

/-- The value most recently bound to a name in a history, the oldest binding of which comes first. -/
def Latest (own : List (String × Value)) (x : String) (v : Value) : Prop :=
  ∃ before after, own = before ++ (x, v) :: after ∧ ∀ b ∈ after, b.1 ≠ x

/-- The most recent binding is the first one that a search from the end comes to. -/
theorem lookup_reverse_eq_some_iff {own : List (String × Value)} {x : String} {v : Value} :
    own.reverse.lookup x = some v ↔ Latest own x v := by
  rw [List.lookup_eq_some_iff]
  constructor
  · rintro ⟨after, before, hown, hafter⟩
    refine ⟨before.reverse, after.reverse, ?_, fun b hb => ?_⟩
    · rw [← List.reverse_reverse own, hown]
      simp
    · exact (bne_iff_ne.1 (hafter b (List.mem_reverse.1 hb))).symm
  · rintro ⟨before, after, rfl, hafter⟩
    refine ⟨after.reverse, before.reverse, by simp, fun b hb => ?_⟩
    exact bne_iff_ne.2 (hafter b (List.mem_reverse.1 hb)).symm

theorem lookup_reverse_eq_none_iff {own : List (String × Value)} {x : String} :
    own.reverse.lookup x = none ↔ ∀ b ∈ own, b.1 ≠ x := by
  rw [List.lookup_eq_none_iff]
  constructor
  · exact fun h b hb => (bne_iff_ne.1 (h b (List.mem_reverse.2 hb))).symm
  · exact fun h b hb => bne_iff_ne.2 (h b (List.mem_reverse.1 hb)).symm

/-- Bindings of other names play no part in a lookup. -/
theorem lookup_filter_name (x : String) (l : List (String × Value)) :
    (l.filter fun b => b.1 = x).lookup x = l.lookup x := by
  induction l with
  | nil => rfl
  | cons b rest ih =>
    obtain ⟨k, w⟩ := b
    by_cases hk : k = x
    · subst hk
      simp
    · have hne : (x == k) = false := beq_eq_false_iff_ne.2 fun h => hk h.symm
      rw [List.filter_cons_of_neg (by simpa using hk), ih, List.lookup_cons, hne]

end Bindings

open Bindings (Latest lookup_reverse_eq_some_iff lookup_reverse_eq_none_iff lookup_filter_name)

namespace Env

theorem get?_foldl_insert (x : String) (l : List (String × Value)) :
    ∀ e : Env, (l.foldl (fun e b => e.insert b.1 b.2) e).get? x = (l.reverse.lookup x).or (e.get? x) := by
  induction l with
  | nil => exact fun e => rfl
  | cons b rest ih =>
    intro e
    obtain ⟨k, w⟩ := b
    rw [List.foldl_cons, ih, get?_insert, List.reverse_cons, List.lookup_append, Option.or_assoc]
    by_cases hx : x = k
    · simp [hx]
    · simp [hx, List.lookup_cons, beq_eq_false_iff_ne.2 hx]

/-- Of bindings taken in order the last one of a name counts. -/
theorem get?_ofList (own : List (String × Value)) (x : String) : (ofList own).get? x = own.reverse.lookup x := by
  rw [ofList, get?_foldl_insert]
  exact Option.or_none

/-- One more binding at the end of a history. -/
theorem ofList_append_singleton (own : List (String × Value)) (x : String) (v : Value) :
    ofList (own ++ [(x, v)]) = (ofList own).insert x v := by
  rw [ofList, List.foldl_append]
  rfl

/-- The names of an environment in the order of their bytes. -/
theorem names_increasing (e : Env) : e.names.Pairwise fun x y => Text.bytes x < Text.bytes y := by
  refine List.pairwise_map.2 (e.sorted.imp fun hlt => ?_)
  exact Text.lt_iff_bytes_lt.1 hlt

theorem nodup_names (e : Env) : e.names.Nodup := by
  refine e.names_increasing.imp fun hlt heq => ?_
  rw [heq] at hlt
  exact List.lt_irrefl _ hlt

/-- The environment is the finite map that a history of bindings makes. -/
structure Records (e : Env) (own : List (String × Value)) : Prop where
  get?_iff : ∀ x v, e.get? x = some v ↔ Latest own x v
  absent_iff : ∀ x, e.get? x = none ↔ ∀ b ∈ own, b.1 ≠ x
  contains_eq : ∀ x, e.contains x = (e.get? x).isSome
  increasing : e.names.Pairwise fun x y => Text.bytes x < Text.bytes y
  nodup : e.names.Nodup
  mem_names_iff : ∀ x, x ∈ e.names ↔ ∃ b ∈ own, b.1 = x
  size_eq : e.size = e.names.length

theorem records_ofList (own : List (String × Value)) : (ofList own).Records own where
  get?_iff x v := by rw [get?_ofList, lookup_reverse_eq_some_iff]
  absent_iff x := by rw [get?_ofList, lookup_reverse_eq_none_iff]
  contains_eq x := rfl
  increasing := names_increasing _
  nodup := nodup_names _
  mem_names_iff x := by
    rw [mem_names, contains, get?_ofList, Option.isSome_iff_ne_none, ne_eq, lookup_reverse_eq_none_iff]
    simp
  size_eq := (List.length_map _).symm

/-- Two histories that bind each name to the same values in the same order make the same environment, in whatever order
they bind different names. -/
theorem Records.unique {e e' : Env} {own own' : List (String × Value)} (h : e.Records own) (h' : e'.Records own')
    (heach : ∀ x, (own.filter fun b => b.1 = x) = own'.filter fun b => b.1 = x) : e = e' := by
  have hlatest : ∀ x, own.reverse.lookup x = own'.reverse.lookup x := by
    intro x
    rw [← lookup_filter_name x own.reverse, ← lookup_filter_name x own'.reverse, List.filter_reverse,
      List.filter_reverse, heach x]
  refine ext_get? fun x => Option.ext fun v => ?_
  rw [h.get?_iff, h'.get?_iff, ← lookup_reverse_eq_some_iff, ← lookup_reverse_eq_some_iff, hlatest]

/-! ## Pools of environments -/

/-- A change to a pool, whose members are known by their numbers: a new member is made from bindings, or from a member
and one more binding. -/
inductive Change
  | make (bindings : List (String × Value))
  | extend (source : Nat) (name : String) (v : Value)

section

variable {α β : Type} (make : List (String × Value) → α) (extend : α → String → Value → α)

/-- The pool after a change. A change that asks for a member that is not there is passed over. -/
def Change.perform (pool : List α) : Change → List α
  | .make bindings => pool ++ [make bindings]
  | .extend source name v =>
    match pool[source]? with
    | some a => pool ++ [extend a name v]
    | none => pool

/-- The members that a script makes, each one after those it may come from. -/
def pool (script : List Change) : List α := script.foldl (Change.perform make extend) []

theorem Change.prefix_perform (p : List α) (c : Change) : p <+: c.perform make extend p := by
  cases c with
  | make bindings => exact List.prefix_append _ _
  | extend source name v =>
    rcases hsource : p[source]? with _ | a
    · simp only [perform, hsource]
      exact List.prefix_refl _
    · simp only [perform, hsource]
      exact List.prefix_append _ _

theorem prefix_foldl_perform (script : List Change) :
    ∀ p : List α, p <+: script.foldl (Change.perform make extend) p := by
  induction script with
  | nil => exact List.prefix_refl
  | cons c rest ih => exact fun p => (c.prefix_perform make extend p).trans (ih _)

/-- Whatever is done later, the members that were made stay as they are. -/
theorem pool_grows (script later : List Change) : pool make extend script <+: pool make extend (script ++ later) := by
  rw [pool, pool, List.foldl_append]
  exact prefix_foldl_perform make extend later _

variable {make extend} {make' : List (String × Value) → β} {extend' : β → String → Value → β} {f : α → β}

/-- A map that goes with each change goes with a script. -/
theorem pool_map (hmake : ∀ l, make' l = f (make l)) (hextend : ∀ a x v, extend' (f a) x v = f (extend a x v))
    (script : List Change) : pool make' extend' script = (pool make extend script).map f := by
  have hperform : ∀ (p : List α) (c : Change),
      c.perform make' extend' (p.map f) = (c.perform make extend p).map f := by
    intro p c
    cases c with
    | make bindings => simp [Change.perform, hmake]
    | extend source name v =>
      simp only [Change.perform, List.getElem?_map]
      rcases p[source]? with _ | a
      · rfl
      · simp [hextend]
  have hfoldl : ∀ p : List α, script.foldl (Change.perform make' extend') (p.map f) =
      (script.foldl (Change.perform make extend) p).map f := by
    induction script with
    | nil => exact fun p => rfl
    | cons c rest ih =>
      intro p
      rw [List.foldl_cons, List.foldl_cons, hperform, ih]
  exact hfoldl []

end

/-- The environments that a script makes. -/
def environments (script : List Change) : List Env := pool ofList insert script

/-- The history of each environment that a script makes: the bindings it was made from, and those added on the way. -/
def histories (script : List Change) : List (List (String × Value)) :=
  pool id (fun own x v => own ++ [(x, v)]) script

/-- The environments are those that their histories make. -/
theorem environments_eq (script : List Change) : environments script = (histories script).map ofList :=
  pool_map (fun _ => rfl) (fun own x v => (ofList_append_singleton own x v).symm) script

/-- Whatever is done later, an environment answers by the history that it has when it is made. -/
theorem records_after (script later : List Change) {i : Nat} {own : List (String × Value)}
    (hown : (histories script)[i]? = some own) :
    ∃ e, (environments (script ++ later))[i]? = some e ∧ e.Records own := by
  have hlater : (histories (script ++ later))[i]? = some own := by
    obtain ⟨hi, rfl⟩ := List.getElem?_eq_some_iff.1 hown
    exact List.prefix_iff_getElem?.1 (pool_grows _ _ script later) i hi
  refine ⟨ofList own, ?_, records_ofList own⟩
  rw [environments_eq, List.getElem?_map, hlater, Option.map_some]

/-- Two environments are made from the first one, which stays as it was. -/
example :
    let s := Span.none
    (environments [.make [("x", .num s 1)], .extend 0 "y" (.num s 2), .extend 0 "x" (.num s 3)]).map text =
      ["\x7bx: 1\x7d", "\x7bx: 1, y: 2\x7d", "\x7bx: 3\x7d"] := by
  decide

/-! ## Equality -/

/-- Environments are the same if they bind the same names, and each name to values that are the same. -/
theorem same_iff {e e' : Env} : e.same e' = true ↔
    e.names = e'.names ∧ ∀ x v v', e.get? x = some v → e'.get? x = some v' → v.same v' = true := by
  constructor
  · intro h
    rw [same_iff_unplaced] at h
    constructor
    · have hnames : ∀ e : Env, e.names = (Bindings.unplaced e.bindings).map (·.1) := by
        intro e
        rw [Bindings.unplaced, List.map_map]
        rfl
      rw [hnames e, hnames e', h]
    · intro x v v' hv hv'
      have hboth := get?_of_unplaced h x
      rw [hv, hv'] at hboth
      exact Value.same_of_unplaced (Option.some.inj hboth)
  · rintro ⟨hnames, hvalues⟩
    refine same_of_unplaced (unplaced_of_get? fun x => ?_)
    have hbound : (e.get? x).isSome = (e'.get? x).isSome := by
      rw [Bool.eq_iff_iff]
      show e.contains x = true ↔ e'.contains x = true
      rw [← mem_names, ← mem_names, hnames]
    rcases hv : e.get? x with _ | v
    · rw [hv, Option.isSome_none, eq_comm, Option.isSome_eq_false_iff, Option.isNone_iff_eq_none] at hbound
      rw [hbound]
    · rw [hv, Option.isSome_some, eq_comm, Option.isSome_iff_exists] at hbound
      obtain ⟨v', hv'⟩ := hbound
      rw [hv', Option.map_some, Option.map_some, Value.unplaced_of_same (hvalues x v v' hv hv')]

theorem equivalence_same : Equivalence fun e e' : Env => e.same e' = true where
  refl _ := same_of_unplaced rfl
  symm h := same_of_unplaced (unplaced_of_same h).symm
  trans h h' := same_of_unplaced ((unplaced_of_same h).trans (unplaced_of_same h'))

end Env

open Env in
/-- Environments are persistent finite maps. Each environment of a pool answers by its own history: a name has the value
most recently bound to it there and none if there is no binding of it, and the names that are bound are listed once each
in the order of their bytes. What is done to the pool later changes neither an environment nor its history: the
environment goes on to answer by the history that it had before. Two environments are the same exactly if they bind the
same names to values that are the same, which is an equivalence, and it does not matter for them in which order
different names were bound. -/
theorem environments_persist :
    (∀ script, List.Forall₂ Records (environments script) (histories script)) ∧
    (∀ script later, environments script <+: environments (script ++ later) ∧
      histories script <+: histories (script ++ later) ∧
      ∀ (i : Nat) (own : List (String × Value)), (histories script)[i]? = some own →
        ∃ e, (environments (script ++ later))[i]? = some e ∧ Records e own) ∧
    (∀ e e' : Env, e.same e' = true ↔
      e.names = e'.names ∧ ∀ x v v', e.get? x = some v → e'.get? x = some v' → v.same v' = true) ∧
    (Equivalence fun e e' : Env => e.same e' = true) ∧
    ∀ (e e' : Env) (own own' : List (String × Value)), e.Records own → e'.Records own' →
      (∀ x, (own.filter fun b => b.1 = x) = own'.filter fun b => b.1 = x) → e = e' := by
  refine ⟨fun script => ?_, fun script later => ?_, fun e e' => same_iff, equivalence_same,
    fun e e' own own' h h' => h.unique h'⟩
  · rw [environments_eq, List.forall₂_map_left_iff, List.forall₂_same]
    exact fun own _ => records_ofList own
  · exact ⟨pool_grows _ _ script later, pool_grows _ _ script later, fun _ _ => records_after script later⟩

end WhileLang
