import WhileLang.Proofs.Engine.BigStep
import WhileLang.Proofs.Engine.Parallel
import WhileLang.Proofs.Unplaced

/-!
# Trees that mean the same

Two changes to a tree that do not change what it means. A tree that is *straight* has `do-nothing` wherever
nothing stands, and its sequences nest to the right: `Tree.straight` makes it so, and ends exactly as the tree
does from every environment (`Tree.straight_equivalent`). Meaning is kept by every construct, so this is an
induction on the tree; that it is kept by loops is an induction on the derivation.

A tree that is *moved* has its parts at other positions. Run side by side with the tree it matches it step by step,
so it ends in the same value and the same environment up to positions, or in an error of the same kind and wording
(`BigStep.moved`).
-/

namespace WhileLang

/-! ## Meaning is kept by every construct -/

namespace Tree

/-- However the first tree ends, the second ends so too. -/
def Refines (t t' : Tree) : Prop := ∀ env o, BigStep t env o → BigStep t' env o

/-- Both trees end alike from every environment. -/
def Equivalent (t t' : Tree) : Prop := ∀ env o, BigStep t env o ↔ BigStep t' env o

section

variable {s s' : Span} {a a' b b' c c' : Tree}

theorem Refines.binary {op : Op} (ha : Refines a a') (hb : Refines b b') :
    Refines (.binary s op a b) (.binary s op a' b') := by
  intro env o h
  cases h with
  | add hl hr => exact .add (ha _ _ hl) (hb _ _ hr)
  | mul hl hr => exact .mul (ha _ _ hl) (hb _ _ hr)
  | lt hl hr => exact .lt (ha _ _ hl) (hb _ _ hr)
  | operands hl hr hne => exact .operands (ha _ _ hl) (hb _ _ hr) hne
  | leftError hl => exact .leftError (ha _ _ hl)
  | rightError hl hr => exact .rightError (ha _ _ hl) (hb _ _ hr)

theorem Refines.assign {name : String} (ha : Refines a a') :
    Refines (.assign s name a) (.assign s name a') := by
  intro env o h
  cases h with
  | assign hv => exact .assign (ha _ _ hv)
  | assigned hv hne => exact .assigned (ha _ _ hv) hne
  | assignError hv => exact .assignError (ha _ _ hv)

theorem Refines.ite (hc : Refines c c') (ha : Refines a a') (hb : Refines b b') :
    Refines (.ite s c a b) (.ite s c' a' b') := by
  intro env o h
  cases h with
  | ifTrue hcond ht => exact .ifTrue (hc _ _ hcond) (ha _ _ ht)
  | ifFalse hcond he => exact .ifFalse (hc _ _ hcond) (hb _ _ he)
  | ifCondition hcond hne => exact .ifCondition (hc _ _ hcond) hne
  | ifError hcond => exact .ifError (hc _ _ hcond)

/-- The position of a sequence does not matter. -/
theorem Refines.seq (ha : Refines a a') (hb : Refines b b') : Refines (.seq s a b) (.seq s' a' b') := by
  intro env o h
  cases h with
  | seq hfirst hsecond => exact .seq (ha _ _ hfirst) (hb _ _ hsecond)
  | seqError hfirst => exact .seqError (ha _ _ hfirst)

/-- The turns of a loop are those of the other loop. -/
theorem Refines.loop (hc : Refines c c') (hb : Refines b b') : Refines (.loop s c b) (.loop s c' b') := by
  intro env o h
  generalize ht : Tree.loop s c b = t at h
  induction h with
  | loopTrue hcond hbody _ _ _ ih =>
    cases ht
    exact .loopTrue (hc _ _ hcond) (hb _ _ hbody) (ih rfl)
  | loopFalse hcond =>
    cases ht
    exact .loopFalse (hc _ _ hcond)
  | loopCondition hcond hne =>
    cases ht
    exact .loopCondition (hc _ _ hcond) hne
  | loopError hcond =>
    cases ht
    exact .loopError (hc _ _ hcond)
  | loopBodyError hcond hbody =>
    cases ht
    exact .loopBodyError (hc _ _ hcond) (hb _ _ hbody)
  | _ => cases ht

theorem Equivalent.refl (t : Tree) : Equivalent t t := fun _ _ => Iff.rfl

theorem Equivalent.symm (h : Equivalent a b) : Equivalent b a := fun env o => (h env o).symm

theorem Equivalent.trans (hab : Equivalent a b) (hbc : Equivalent b c) : Equivalent a c :=
  fun env o => (hab env o).trans (hbc env o)

theorem Equivalent.refines (h : Equivalent a b) : Refines a b := fun env o => (h env o).1

theorem Refines.equivalent (h : Refines a b) (h' : Refines b a) : Equivalent a b :=
  fun env o => ⟨h env o, h' env o⟩

theorem Equivalent.binary {op : Op} (ha : Equivalent a a') (hb : Equivalent b b') :
    Equivalent (.binary s op a b) (.binary s op a' b') :=
  (ha.refines.binary hb.refines).equivalent (ha.symm.refines.binary hb.symm.refines)

theorem Equivalent.assign {name : String} (ha : Equivalent a a') :
    Equivalent (.assign s name a) (.assign s name a') :=
  ha.refines.assign.equivalent ha.symm.refines.assign

theorem Equivalent.ite (hc : Equivalent c c') (ha : Equivalent a a') (hb : Equivalent b b') :
    Equivalent (.ite s c a b) (.ite s c' a' b') :=
  (hc.refines.ite ha.refines hb.refines).equivalent (hc.symm.refines.ite ha.symm.refines hb.symm.refines)

theorem Equivalent.seq (ha : Equivalent a a') (hb : Equivalent b b') :
    Equivalent (.seq s a b) (.seq s' a' b') :=
  (ha.refines.seq hb.refines).equivalent (ha.symm.refines.seq hb.symm.refines)

theorem Equivalent.loop (hc : Equivalent c c') (hb : Equivalent b b') :
    Equivalent (.loop s c b) (.loop s c' b') :=
  (hc.refines.loop hb.refines).equivalent (hc.symm.refines.loop hb.symm.refines)

/-- Statements run in order, however their sequence is nested. -/
theorem Equivalent.seq_assoc {s₁ s₂ s₃ s₄ : Span} :
    Equivalent (.seq s₁ (.seq s₂ a b) c) (.seq s₃ a (.seq s₄ b c)) := by
  intro env o
  constructor
  · intro h
    cases h with
    | seq hfirst hc =>
      cases hfirst with
      | seq ha hb => exact .seq ha (.seq hb hc)
    | seqError hfirst =>
      cases hfirst with
      | seq ha hb => exact .seq ha (.seqError hb)
      | seqError ha => exact .seqError ha
  · intro h
    cases h with
    | seq ha hsecond =>
      cases hsecond with
      | seq hb hc => exact .seq (.seq ha hb) hc
      | seqError hb => exact .seqError (.seq ha hb)
    | seqError ha => exact .seqError (.seqError ha)

end

/-! ## Straight trees -/

/-- A statement after the statements of another tree. -/
def andThen : Tree → Tree → Tree
  | .seq s a b, t => .seq s a (b.andThen t)
  | a, t => .seq Span.none a t

/-- The tree with `do-nothing` wherever nothing stands, and with sequences that nest to the right. -/
def straight : Tree → Tree
  | .absent => .nothing Span.none
  | .num s n => .num s n
  | .bool s b => .bool s b
  | .nothing s => .nothing s
  | .binary s op l r => .binary s op l.straight r.straight
  | .var s name => .var s name
  | .assign s name v => .assign s name v.straight
  | .ite s c t e => .ite s c.straight t.straight e.straight
  | .seq _ a b => a.straight.andThen b.straight
  | .loop s c b => .loop s c.straight b.straight

theorem andThen_equivalent (s : Span) (a b : Tree) : Equivalent (a.andThen b) (.seq s a b) := by
  induction a with
  | seq s' a₁ a₂ _ ih =>
    have hinner : Equivalent (.seq s' a₁ (a₂.andThen b)) (.seq s' a₁ (.seq s a₂ b)) :=
      (Equivalent.refl a₁).seq ih
    exact hinner.trans Equivalent.seq_assoc.symm
  | _ => exact (Equivalent.refl _).seq (Equivalent.refl b)

/-- A tree ends as it does once it is straight. -/
theorem straight_equivalent (t : Tree) : Equivalent t.straight t := by
  induction t with
  | absent =>
    intro env o
    constructor
    · intro h
      cases h
      exact .absent
    · intro h
      cases h
      exact .nothing
  | num | bool | nothing | var => exact Equivalent.refl _
  | binary s op l r ihl ihr => exact ihl.binary ihr
  | assign s name v ih => exact ih.assign
  | ite s c t e ihc iht ihe => exact ihc.ite iht ihe
  | seq s a b iha ihb => exact (andThen_equivalent s _ _).trans (iha.seq ihb)
  | loop s c b ihc ihb => exact ihc.loop ihb

end Tree

/-! ## Moved trees -/

/-- The same tree with its parts at other positions. -/
inductive Tree.Moved : Tree → Tree → Prop
  | absent : Moved .absent .absent
  | num {s s' : Span} {n : Int64} : Moved (.num s n) (.num s' n)
  | bool {s s' : Span} {b : Bool} : Moved (.bool s b) (.bool s' b)
  | nothing {s s' : Span} : Moved (.nothing s) (.nothing s')
  | binary {s s' : Span} {op : Op} {l l' r r' : Tree} (hl : Moved l l') (hr : Moved r r') :
    Moved (.binary s op l r) (.binary s' op l' r')
  | var {s s' : Span} {name : String} : Moved (.var s name) (.var s' name)
  | assign {s s' : Span} {name : String} {v v' : Tree} (hv : Moved v v') :
    Moved (.assign s name v) (.assign s' name v')
  | ite {s s' : Span} {c c' t t' e e' : Tree} (hc : Moved c c') (ht : Moved t t') (he : Moved e e') :
    Moved (.ite s c t e) (.ite s' c' t' e')
  | seq {s s' : Span} {a a' b b' : Tree} (ha : Moved a a') (hb : Moved b b') :
    Moved (.seq s a b) (.seq s' a' b')
  | loop {s s' : Span} {c c' b b' : Tree} (hc : Moved c c') (hb : Moved b b') :
    Moved (.loop s c b) (.loop s' c' b')

/-- Trees that agree up to positions are moved. -/
theorem Tree.moved_of_unplaced {t : Tree} : ∀ {t' : Tree}, t.unplaced = t'.unplaced → Moved t t' := by
  induction t with
  | absent =>
    intro t' h
    cases t' <;> simp only [unplaced, reduceCtorEq] at h
    exact .absent
  | num s n =>
    intro t' h
    cases t' <;> simp only [unplaced, reduceCtorEq, num.injEq, true_and] at h
    rw [h]
    exact .num
  | bool s b =>
    intro t' h
    cases t' <;> simp only [unplaced, reduceCtorEq, bool.injEq, true_and] at h
    rw [h]
    exact .bool
  | nothing s =>
    intro t' h
    cases t' <;> simp only [unplaced, reduceCtorEq] at h
    exact .nothing
  | var s name =>
    intro t' h
    cases t' <;> simp only [unplaced, reduceCtorEq, var.injEq, true_and] at h
    rw [h]
    exact .var
  | binary s op l r ihl ihr =>
    intro t' h
    cases t' <;> simp only [unplaced, reduceCtorEq, binary.injEq, true_and] at h
    rw [h.1]
    exact .binary (ihl h.2.1) (ihr h.2.2)
  | assign s name v ih =>
    intro t' h
    cases t' <;> simp only [unplaced, reduceCtorEq, assign.injEq, true_and] at h
    rw [h.1]
    exact .assign (ih h.2)
  | ite s c t e ihc iht ihe =>
    intro t' h
    cases t' <;> simp only [unplaced, reduceCtorEq, ite.injEq, true_and] at h
    exact .ite (ihc h.1) (iht h.2.1) (ihe h.2.2)
  | seq s a b iha ihb =>
    intro t' h
    cases t' <;> simp only [unplaced, reduceCtorEq, seq.injEq, true_and] at h
    exact .seq (iha h.1) (ihb h.2)
  | loop s c b ihc ihb =>
    intro t' h
    cases t' <;> simp only [unplaced, reduceCtorEq, loop.injEq, true_and] at h
    exact .loop (ihc h.1) (ihb h.2)

/-- The same bindings with values from other positions. -/
def Env.Moved (env env' : Env) : Prop := Bindings.unplaced env.bindings = Bindings.unplaced env'.bindings

/-- The same end, up to positions: values and environments are moved, errors are of one kind and wording. -/
inductive Ending.Moved : Ending → Ending → Prop
  | value {v v' : Tree} {env env' : Env} (hv : v.Moved v') (henv : env.Moved env') :
    Moved (.value v env) (.value v' env')
  | error {e e' : Failure} (hcode : e.code = e'.code) (hmessage : e.message = e'.message) :
    Moved (.error e) (.error e')

section

variable {env env' : Env} {t t' : Tree} {v v' : Value}

/-- Moved trees match at any positions, and no other trees do. -/
theorem Tree.moved_iff_matches : t.Moved t' ↔ Tree.Matches (fun _ _ => True) (fun _ => True) t t' := by
  constructor
  · intro h
    induction h with
    | absent => exact .absent
    | num => exact .num trivial
    | bool => exact .bool trivial
    | nothing => exact .nothing trivial
    | var => exact .var trivial trivial
    | binary _ _ ihl ihr => exact .binary trivial ihl ihr
    | assign _ ih => exact .assign trivial ih
    | ite _ _ _ ihc iht ihe => exact .ite trivial ihc iht ihe
    | seq _ _ iha ihb => exact .seq trivial iha ihb
    | loop _ _ ihc ihb => exact .loop trivial ihc ihb
  · intro h
    induction h with
    | absent => exact .absent
    | num => exact .num
    | bool => exact .bool
    | nothing => exact .nothing
    | var => exact .var
    | binary _ _ _ ihl ihr => exact .binary ihl ihr
    | assign _ _ ih => exact .assign ih
    | ite _ _ _ _ ihc iht ihe => exact .ite ihc iht ihe
    | seq _ _ _ iha ihb => exact .seq iha ihb
    | loop _ _ _ ihc ihb => exact .loop ihc ihb

theorem Value.matches_iff : Value.Matches (fun _ _ => True) v v' ↔ v.unplaced = v'.unplaced := by
  constructor
  · intro h
    cases h <;> rfl
  · intro h
    cases v <;> cases v' <;> simp only [unplaced, reduceCtorEq, num.injEq, bool.injEq, true_and] at h
    · rw [h]
      exact .num trivial
    · rw [h]
      exact .bool trivial

/-- Environments that agree up to positions match, and no others do. -/
theorem Env.moved_iff_matches :
    env.Moved env' ↔ Env.Matches (fun _ _ => True) (fun _ => True) env env' := by
  have hlookup : ∀ o o' : Option Value, Option.Rel (Value.Matches fun _ _ => True) o o' ↔
      o.map Value.unplaced = o'.map Value.unplaced := by
    intro o o'
    cases o <;> cases o' <;> simp [Value.matches_iff]
  constructor
  · exact fun h x _ => (hlookup _ _).2 (get?_of_unplaced h x)
  · exact fun h => unplaced_of_get? fun x => (hlookup _ _).1 (h x trivial)

/-- Matching answers are endings that agree up to positions. -/
theorem Reply.Matches.ending? {r r' : Reply} {o : Ending}
    (h : Reply.Matches (fun _ _ => True) (fun _ => True) r r') (ho : r.ending? = some o) :
    ∃ o', r'.ending? = some o' ∧ o.Moved o' := by
  cases h with
  | done hv henv =>
    cases ho
    exact ⟨_, rfl, .value (Tree.moved_iff_matches.2 hv) (Env.moved_iff_matches.2 henv)⟩
  | halted hhalt _ =>
    cases ho
    obtain ⟨hcode, hmessage, -⟩ := hhalt.report
    exact ⟨_, rfl, .error hcode hmessage⟩
  | unfinished => cases ho

/-- A moved tree ends as the tree does, up to positions, if their environments agree up to positions. -/
theorem BigStep.moved {o : Ending} (h : BigStep t env o) (ht : t.Moved t') (henv : env.Moved env') :
    ∃ o', BigStep t' env' o' ∧ o.Moved o' := by
  obtain ⟨fuel, ho⟩ := exists_ending?_iff_bigStep.2 h
  have hstart : Progress.Matches (fun _ _ => True) (fun _ => True) {} {} {} {} := ⟨rfl, fun _ => .nil⟩
  -- the two runs go side by side with the same fuel
  have hruns : Reply.Matches (fun _ _ => True) (fun _ => True) (t.run fuel env) (t'.run fuel env') :=
    (Engine.eval_matches (fun _ => trivial) {} false fuel 1 (Tree.moved_iff_matches.1 ht)
      (Env.moved_iff_matches.1 henv) hstart).reply
  obtain ⟨o', ho', hmoved⟩ := hruns.ending? ho
  exact ⟨o', exists_ending?_iff_bigStep.1 ⟨fuel, ho'⟩, hmoved⟩

end

end WhileLang
