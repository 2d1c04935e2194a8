import WhileLang.Proofs.Engine.Eval
import WhileLang.Proofs.Tree

/-!
# Where evaluation stops

`Engine.eval` asks of a tree whether it can be reduced. A loop can do without the question: it reduces whatever it
holds, and stops when a reduction hands its own tree back. The two are the same (`drive_eq_eval`), because a reduction
that succeeds hands its tree back exactly if this is a number, a truth value or `do-nothing`. It does not matter by
which test the loop knows its own tree: the comparison of whole trees does not stop it any earlier than a finer test,
which tells equal trees apart by where they are kept.

`Tree.Next` says once what a reduction leads to. A selected branch and a second statement are parts of the tree, and
a part is smaller than the whole. The one tree that grows, a loop that is unrolled, becomes a conditional with the loop
inside it.
-/

namespace WhileLang

namespace Tree

/-! ## Normal forms -/

/-- A number, a truth value or `do-nothing`. -/
inductive Normal : Tree → Prop
  | num (s : Span) (n : Int64) : Normal (.num s n)
  | bool (s : Span) (b : Bool) : Normal (.bool s b)
  | nothing (s : Span) : Normal (.nothing s)

/-- These are the trees that cannot be reduced, except that an absent tree is none of them. -/
theorem normal_iff {t : Tree} : t.Normal ↔ t.isReducible = false ∧ t ≠ .absent := by
  constructor
  · intro h
    cases h <;> exact ⟨rfl, Tree.noConfusion⟩
  · rintro ⟨ht, hpresent⟩
    cases t with
    | absent => exact absurd rfl hpresent
    | num s n => exact .num s n
    | bool s b => exact .bool s b
    | nothing s => exact .nothing s
    | _ => cases ht

/-- An absent tree runs as `do-nothing`, which is one of them. -/
theorem normal_orNothing {t : Tree} (ht : t.isReducible = false) : t.orNothing.Normal := by
  refine normal_iff.2 ⟨by rw [isReducible_orNothing, ht], ?_⟩
  cases t <;> exact Tree.noConfusion

/-- What cannot be reduced is handed back, whatever the machine, and nothing else happens. -/
theorem reduce_of_not_isReducible {σ : Type} {t : Tree} (ht : t.isReducible = false) (m : Machine σ) (env : Env)
    (s : σ) : t.reduce m env s = (.done t env, s) := by
  cases t with
  | absent | num | bool | nothing => rfl
  | _ => cases ht

/-! ## What a reduction leads to -/

/-- The tree that follows on a successful reduction. -/
inductive Next : Tree → Tree → Prop
  | same {t : Tree} (ht : t.isReducible = false) : Next t t
  | result {t v : Tree} (ht : t.isReducible = true) (hv : v.isReducible = false) : Next t v
  | part {t a : Tree} (ha : a ∈ t.children) : Next t a
  | unrolled (s : Span) (c b : Tree) : Next (.loop s c b) (.unroll s c b)

section

variable {σ : Type} {m : Machine σ} {t next : Tree} {env env' : Env} {s s' : σ}

/-- A reduction that succeeds has brought its first part to a normal form. -/
theorem first_done {a : Tree} (hfirst : t.first? = some a) (h : t.reduce m env s = (.done next env', s')) :
    ∃ v env₁ s₁, m.eval a env s = (.done v env₁, s₁) := by
  rcases reduce_first t hfirst m env s with hdone | hsame
  · exact hdone
  · exact ⟨next, env', s', hsame.symm.trans h⟩

/-- So has an operator with its right operand. -/
theorem right_done {span : Span} {op : Op} {l r lv : Tree} {env₁ : Env} {s₁ : σ}
    (hl : m.eval l env s = (.done lv env₁, s₁)) (h : (binary span op l r).reduce m env s = (.done next env', s')) :
    ∃ rv env₂ s₂, m.eval r env₁ s₁ = (.done rv env₂, s₂) := by
  rcases reduce_right hl span op r with hdone | hsame
  · exact hdone
  · exact ⟨next, env', s', hsame.symm.trans h⟩

/-- A successful reduction leads to one of these trees. -/
theorem reduce_next (h : t.reduce m env s = (.done next env', s')) : t.Next next := by
  cases t with
  | absent | num | bool | nothing =>
    cases h
    exact .same rfl
  | var span name =>
    simp only [reduce] at h
    split at h
    · cases h
      exact .result rfl (Value.isReducible_toTree _)
    · cases h
  | binary span op l r =>
    obtain ⟨lv, env₁, s₁, hl⟩ := first_done rfl h
    obtain ⟨rv, env₂, s₂, hr⟩ := right_done hl h
    simp only [reduce, hl, hr, combine] at h
    split at h
    · cases h
      exact .result rfl (Op.isReducible_apply _ _ _ _)
    · cases h
  | assign span name value =>
    obtain ⟨v, env₁, s₁, hv⟩ := first_done rfl h
    simp only [reduce, hv] at h
    split at h
    · cases h
      exact .result rfl rfl
    · cases h
  | ite span c t e =>
    obtain ⟨cv, env₁, s₁, hc⟩ := first_done rfl h
    simp only [reduce, hc, choose] at h
    split at h
    · cases h
      exact .part (by simp [children])
    · cases h
      exact .part (by simp [children])
    · cases h
  | seq span first second =>
    obtain ⟨v, env₁, s₁, hf⟩ := first_done rfl h
    simp only [reduce, hf] at h
    cases h
    exact .part (by simp [children])
  | loop span c b =>
    cases h
    exact .unrolled span c b

/-- What follows is the tree itself only if there is nothing to reduce. A part is too small for that, and the
conditional around a loop is not the loop. -/
theorem Next.eq_iff (h : t.Next next) : next = t ↔ t.isReducible = false := by
  cases h with
  | same ht => exact iff_of_true rfl ht
  | result ht hv =>
    have hne : next ≠ t := by
      rintro rfl
      rw [ht] at hv
      cases hv
    exact iff_of_false hne (by simp [ht])
  | part ha => exact iff_of_false (ne_of_mem_children ha) (by simp [isReducible_of_mem_children ha])
  | unrolled s c b => exact iff_of_false Tree.noConfusion (by simp [isReducible])

end

end Tree

/-- If an answer names a tree, it is in normal form. -/
def Reply.Normal : Reply → Prop
  | .done v _ => v.Normal
  | _ => True

namespace Engine

/-! ## The loop that stops on its own tree -/

/-- A test by which a loop finds out whether the step with a given number has handed its own tree back. It may tell
equal trees apart, say by where they are kept. But trees that it takes for one are equal, and a tree that cannot be
reduced passes, since it is handed back as it was. -/
structure SelfTest where
  passes : Nat → Tree → Tree → Bool
  passes_self : ∀ n t, t.isReducible = false → passes n t t = true
  eq_of_passes : ∀ n t next, passes n t next = true → next = t

namespace SelfTest

/-- The comparison of whole trees, positions included. -/
def comparison : SelfTest where
  passes _ t next := next == t
  passes_self _ t _ := beq_self_eq_true t
  eq_of_passes _ _ _ h := eq_of_beq h

/-- Every test passes what cannot be reduced and nothing else. -/
theorem passes_iff (test : SelfTest) (n : Nat) {t next : Tree} (h : t.Next next) :
    test.passes n t next = true ↔ t.isReducible = false := by
  constructor
  · intro hpasses
    exact h.eq_iff.1 (test.eq_of_passes n t next hpasses)
  · intro ht
    rw [h.eq_iff.2 ht]
    exact test.passes_self n t ht

end SelfTest

/-- Reduce whatever the loop holds, until a reduction hands its own tree back. -/
def drive (test : SelfTest) (cfg : Settings) (fuel depth : Nat) (t : Tree) (env : Env) (p : Progress) :
    Reply × Progress :=
  match fuel with
  | 0 => (.unfinished, p)
  | fuel + 1 =>
    let t := t.orNothing
    match stopBefore? cfg p.steps with
    | some halt => (.halted halt env, p)
    | none =>
      let m : Machine Progress :=
        { eval := fun t env p => drive test cfg fuel (depth + 1) t env p
          assigned := fun name v p => p.note cfg (.assign name v) }
      match t.reduce m env (p.step cfg t depth) with
      | (.done next env', q) =>
        if test.passes p.steps t next then (.done t env', q) else drive test cfg fuel depth next env' q
      | (.halted halt _, q) => (.halted halt env, q)
      | (.unfinished, q) => (.unfinished, q)

section

variable {test : SelfTest} {cfg : Settings} {fuel depth : Nat} {t : Tree} {env : Env} {p : Progress}
  (hgo : stopBefore? cfg p.steps = none)
  (hoperand : ∀ a env p, drive test cfg fuel (depth + 1) a env p = eval cfg fuel (depth + 1) a env p)

include hoperand in
/-- Where the operands are evaluated alike, the reductions are the same. -/
theorem drive_machine :
    { eval := drive test cfg fuel (depth + 1), assigned := fun name v p => p.note cfg (.assign name v) } =
      machine cfg fuel depth := by
  have heval : drive test cfg fuel (depth + 1) = eval cfg fuel (depth + 1) := by
    funext a env p
    exact hoperand a env p
  rw [heval]
  rfl

include hgo hoperand

/-- The loop stops on what cannot be reduced. -/
theorem drive_normal (ht : t.isReducible = false) :
    drive test cfg (fuel + 1) depth t env p = (.done t.orNothing env, p.step cfg t.orNothing depth) := by
  have ho : t.orNothing.isReducible = false := by rw [Tree.isReducible_orNothing, ht]
  have hpasses := test.passes_self p.steps t.orNothing ho
  simp only [drive, hgo, drive_machine hoperand, Tree.reduce_of_not_isReducible ho, hpasses, if_true]

/-- It goes on from everything else, to whatever the reduction leads to. -/
theorem drive_reducible (ht : t.isReducible = true)
    (hnext : ∀ next env p, drive test cfg fuel depth next env p = eval cfg fuel depth next env p) :
    drive test cfg (fuel + 1) depth t env p =
      resume cfg fuel depth env (t.reduce (machine cfg fuel depth) env (p.step cfg t depth)) := by
  simp only [drive, hgo, drive_machine hoperand, Tree.orNothing_of_isReducible ht]
  rcases hr : t.reduce (machine cfg fuel depth) env (p.step cfg t depth) with
    ⟨⟨next, env'⟩ | ⟨halt, env'⟩ | _, q⟩
  · have hfails : ¬ test.passes p.steps t next = true := by
      rw [test.passes_iff p.steps (Tree.reduce_next hr), ht]
      exact Bool.noConfusion
    simp only [if_neg hfails]
    exact hnext next env' q
  · rfl
  · rfl

end

/-- Both loops answer alike, with the same events after as many steps, whatever the test. -/
theorem drive_eq_eval (test : SelfTest) (cfg : Settings) (fuel : Nat) :
    ∀ (depth : Nat) (t : Tree) (env : Env) (p : Progress),
      drive test cfg fuel depth t env p = eval cfg fuel depth t env p := by
  induction fuel with
  | zero => exact fun _ _ _ _ => rfl
  | succ fuel ih =>
    intro depth t env p
    rcases hs : stopBefore? cfg p.steps with _ | halt
    · rcases ht : t.isReducible with _ | _
      · rw [eval_normal hs ht, drive_normal hs (ih (depth + 1)) ht]
      · rw [eval_reducible hs ht, drive_reducible hs (ih (depth + 1)) ht (ih depth)]
    · rw [eval_stopped hs]
      simp only [drive, hs]

/-- Whatever an evaluation returns is a number, a truth value or `do-nothing`. -/
theorem normal_eval (cfg : Settings) : ∀ (fuel depth : Nat) (t : Tree) (env : Env) (p : Progress),
    (eval cfg fuel depth t env p).1.Normal := by
  refine eval_induct (motive := fun _ _ _ _ r => r.1.Normal) (fun _ _ _ _ => trivial) (fun _ _ _ _ _ _ => trivial)
    ?_ ?_
  · intro depth t env p _ ht
    exact Tree.normal_orNothing ht
  · intro fuel depth t env p _ _ _ hnext
    rcases t.reduce (machine cfg fuel depth) env (p.step cfg t depth) with ⟨⟨next, env'⟩ | ⟨halt, env'⟩ | _, q⟩
    · exact hnext next env' q
    · trivial
    · trivial

end Engine

open Engine

/-- A reduction hands its own tree back exactly if the tree cannot be reduced, which is to say that it is a number, a
truth value or `do-nothing`. This holds of every machine for the operands, and of trees that are compared with all
their positions; the environment is then the one that was given. So an evaluation may stop by any test for its own
tree, and answers as if it had asked whether the tree can be reduced: it returns a normal form, and no machine takes it
any further. -/
theorem reduces_to_itself_iff_normal (t : Tree) (env : Env) :
    (t ≠ .absent → (t.isReducible = false ↔ t.Normal)) ∧
    (∀ (σ : Type) (m : Machine σ) (s : σ),
      (t.isReducible = false → t.reduce m env s = (.done t env, s)) ∧
      ∀ next env' s', t.reduce m env s = (.done next env', s') →
        (next = t ↔ t.isReducible = false) ∧ (next = t → env' = env ∧ s' = s)) ∧
    ∀ (test : SelfTest) (cfg : Settings) (fuel depth : Nat) (p : Progress),
      drive test cfg fuel depth t env p = eval cfg fuel depth t env p ∧
      ∀ v env' q, eval cfg fuel depth t env p = (.done v env', q) →
        v.Normal ∧ ∀ (σ : Type) (m : Machine σ) (env₁ : Env) (s : σ), v.reduce m env₁ s = (.done v env₁, s) := by
  refine ⟨fun hpresent => ?_, fun σ m s => ⟨fun ht => ?_, fun next env' s' h => ?_⟩, fun test cfg fuel depth p => ?_⟩
  · rw [Tree.normal_iff]
    exact (and_iff_left hpresent).symm
  · exact Tree.reduce_of_not_isReducible ht m env s
  · have hself := (Tree.reduce_next h).eq_iff
    refine ⟨hself, fun heq => ?_⟩
    rw [Tree.reduce_of_not_isReducible (hself.1 heq)] at h
    cases h
    exact ⟨rfl, rfl⟩
  · refine ⟨drive_eq_eval test cfg fuel depth t env p, fun v env' q h => ?_⟩
    have hv : v.Normal := by
      have hreply := normal_eval cfg fuel depth t env p
      rwa [h] at hreply
    exact ⟨hv, fun σ m env₁ s => Tree.reduce_of_not_isReducible (Tree.normal_iff.1 hv).1 m env₁ s⟩

/-- A loop that clears its own flag. Its reduction leads to a conditional with the same loop inside, the loop that
compares trees runs it as the other one does, and it returns `do-nothing`, which reduces to itself. -/
theorem reduces_to_itself_iff_normal_loop :
    let s : Span := .point "p.yaml" 1 1
    let body : Tree := .assign s "go" (.bool s false)
    let t : Tree := .loop s (.var s "go") body
    let env := Env.empty.insert "go" (.bool s true)
    ¬ t.Normal ∧ Tree.unroll s (.var s "go") body ≠ t ∧
      drive .comparison {} 20 1 t env {} =
        (.done (.nothing s) (Env.empty.insert "go" (.bool s false)), { steps := 13 }) ∧
      (Tree.nothing s).Normal ∧
      (Tree.nothing s).reduce (machine {} 9 1) env {} = (.done (.nothing s) env, {}) := by
  intro s body t env
  obtain ⟨hnormal, hreduce, hdrive⟩ := reduces_to_itself_iff_normal t env
  have hunrolled : t.reduce (machine {} 9 1) env {} = (.done (.unroll s (.var s "go") body) env, {}) := rfl
  have hself := ((hreduce _ _ _).2 _ _ _ hunrolled).1
  obtain ⟨hsame, hends⟩ := hdrive .comparison {} 20 1 {}
  have hrun : eval {} 20 1 t env {} =
      (.done (.nothing s) (Env.empty.insert "go" (.bool s false)), { steps := 13 }) := rfl
  refine ⟨fun h => ?_, fun h => ?_, hsame.trans hrun, (hends _ _ _ hrun).1, ?_⟩
  · exact absurd ((hnormal Tree.noConfusion).2 h) (by decide)
  · exact absurd (hself.1 h) (by decide)
  · exact ((reduces_to_itself_iff_normal (.nothing s) env).2.1 _ _ _).1 rfl

end WhileLang
