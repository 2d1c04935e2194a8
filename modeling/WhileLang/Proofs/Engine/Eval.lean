import WhileLang.Engine.Run

/-!
# Evaluation, one step at a time

`Engine.eval` stops, returns a normal form, or reduces its tree once and goes on with what comes next. The
three equations below say so, and later proofs use them in place of the definition; `eval_induct` is the
induction that goes with them. The operands of a reduction are evaluated by the `machine` with one unit of fuel
less. `Tree.Course` says once what a reduction can do with the answers it gets, and `reduce_congr` lets a machine
be replaced by any other that gives the same finished answers, which makes `eval` monotone in its fuel.
-/

namespace WhileLang

namespace Value

/-- The tree of a value is in normal form. -/
@[simp] theorem isReducible_toTree (v : Value) : v.toTree.isReducible = false := by
  cases v <;> rfl

@[simp] theorem orNothing_toTree (v : Value) : v.toTree.orNothing = v.toTree := by
  cases v <;> rfl

end Value

namespace Op

/-- An operator's result is in normal form. -/
@[simp] theorem isReducible_apply (op : Op) (s : Span) (a b : Int64) :
    (op.apply s a b).isReducible = false := by
  cases op <;> rfl

@[simp] theorem orNothing_apply (op : Op) (s : Span) (a b : Int64) :
    (op.apply s a b).orNothing = op.apply s a b := by
  cases op <;> rfl

end Op

namespace Tree

/-- An absent tree and `do-nothing` are both in normal form. -/
@[simp] theorem isReducible_orNothing (t : Tree) : t.orNothing.isReducible = t.isReducible := by
  cases t <;> rfl

/-- Only an absent tree is replaced before it runs. -/
theorem orNothing_of_isReducible {t : Tree} (h : t.isReducible = true) : t.orNothing = t := by
  cases t with
  | absent => simp [isReducible] at h
  | _ => rfl

/-- The part that a reduction evaluates before all else. -/
def first? : Tree → Option Tree
  | .binary _ _ l _ => some l
  | .assign _ _ value => some value
  | .ite _ c _ _ => some c
  | .seq _ a _ => some a
  | _ => none

/-- A tree with a part to evaluate first is not in normal form. -/
theorem isReducible_of_first? {t a : Tree} (h : t.first? = some a) : t.isReducible = true := by
  cases t <;> simp only [first?, reduceCtorEq] at h
  all_goals rfl

/-- Where the first part does not come to a normal form, neither does the reduction. -/
theorem reduce_of_first {σ : Type} {m : Machine σ} {t a : Tree} {env : Env} {s s' : σ} {r : Reply}
    (hfirst : t.first? = some a) (ha : m.eval a env s = (r, s')) (hr : ∀ v env', r ≠ .done v env') :
    t.reduce m env s = (r, s') := by
  cases r with
  | done v env' => exact absurd rfl (hr v env')
  | _ =>
    cases t <;> simp only [first?, Option.some.injEq, reduceCtorEq] at hfirst
    all_goals rw [← hfirst] at ha; simp only [reduce, ha]

/-- The first part comes to a normal form, or the reduction answers as it does. -/
theorem reduce_first {σ : Type} (t : Tree) {a : Tree} (hfirst : t.first? = some a) (m : Machine σ) (env : Env)
    (s : σ) :
    (∃ v env₁ s₁, m.eval a env s = (.done v env₁, s₁)) ∨ t.reduce m env s = m.eval a env s := by
  rcases ha : m.eval a env s with ⟨⟨v, env₁⟩ | ⟨halt, env₁⟩ | _, s₁⟩
  · exact .inl ⟨v, env₁, s₁, rfl⟩
  · exact .inr (reduce_of_first hfirst ha (by simp))
  · exact .inr (reduce_of_first hfirst ha (by simp))

/-- After the left operand, the right one comes to a normal form, or the reduction answers as it does. -/
theorem reduce_right {σ : Type} {m : Machine σ} {l lv : Tree} {env env₁ : Env} {s s₁ : σ}
    (hl : m.eval l env s = (.done lv env₁, s₁)) (span : Span) (op : Op) (r : Tree) :
    (∃ rv env₂ s₂, m.eval r env₁ s₁ = (.done rv env₂, s₂)) ∨
      (Tree.binary span op l r).reduce m env s = m.eval r env₁ s₁ := by
  rcases hr : m.eval r env₁ s₁ with ⟨⟨rv, env₂⟩ | ⟨halt, env₂⟩ | _, s₂⟩
  · exact .inl ⟨rv, env₂, s₂, rfl⟩
  · exact .inr (by simp only [reduce, hl, hr])
  · exact .inr (by simp only [reduce, hl, hr])

/-- The course that a reduction can take. Operands are evaluated one after the other, each where the one before
it ended. Either the answer of an operand is the answer of the whole, or the reduction goes on, halts, or binds a
name when all of them have come to normal forms. -/
inductive Course {σ : Type} (m : Machine σ) : Env → σ → Reply × σ → Prop
  | done {env : Env} {s : σ} (next : Tree) : Course m env s (.done next env, s)
  | halted {env : Env} {s : σ} (halt : Halt) : Course m env s (.halted halt env, s)
  | bound {env : Env} {s : σ} (next : Tree) (name : String) (v : Value) :
      Course m env s (.done next (env.insert name v), m.assigned name v s)
  | operand {env : Env} {s : σ} (a : Tree) : Course m env s (m.eval a env s)
  | after {env env₁ : Env} {s s₁ : σ} {a v : Tree} {r : Reply × σ} (ha : m.eval a env s = (.done v env₁, s₁))
      (h : Course m env₁ s₁ r) : Course m env s r

/-- Every reduction takes such a course. -/
theorem reduce_course {σ : Type} (m : Machine σ) (t : Tree) (env : Env) (s : σ) :
    Course m env s (t.reduce m env s) := by
  -- a first part that is not done is the last operand; otherwise the rule of the root says how it goes on
  have hafter : ∀ {a : Tree}, t.first? = some a → (∀ v env₁ s₁, m.eval a env s = (.done v env₁, s₁) →
      Course m env₁ s₁ (t.reduce m env s)) → Course m env s (t.reduce m env s) := by
    intro a hfirst hrest
    rcases reduce_first t hfirst m env s with ⟨v, env₁, s₁, ha⟩ | ha
    · exact .after ha (hrest v env₁ s₁ ha)
    · rw [ha]
      exact .operand a
  cases t with
  | absent | num | bool | nothing | loop => exact .done _
  | var span name =>
    simp only [reduce]
    split
    · exact .done _
    · exact .halted _
  | binary span op l r =>
    refine hafter rfl fun lv env₁ s₁ hl => ?_
    rcases reduce_right hl span op r with ⟨rv, env₂, s₂, hr⟩ | hr
    · simp only [reduce, hl, hr]
      refine .after hr ?_
      unfold combine
      split
      · exact .done _
      · exact .halted _
    · rw [hr]
      exact .operand r
  | assign span name value =>
    refine hafter rfl fun w env₁ s₁ hw => ?_
    simp only [reduce, hw]
    split
    · exact .bound _ _ _
    · exact .halted _
  | ite span c t e =>
    refine hafter rfl fun cv env₁ s₁ hc => ?_
    simp only [reduce, hc, choose]
    split
    · exact .done _
    · exact .done _
    · exact .halted _
  | seq span first second =>
    refine hafter rfl fun w env₁ s₁ hf => ?_
    simp only [reduce, hf]
    exact .done _

section

variable {σ : Type} {m m' : Machine σ}
  (heval : ∀ t env s, (m.eval t env s).1 ≠ .unfinished → m'.eval t env s = m.eval t env s)

include heval in
/-- Two machines agree on an operand without which the whole step could not have finished. -/
theorem eval_eq_of_needed {step : Reply} {t : Tree} {env : Env} {s : σ} (h : step ≠ .unfinished)
    (hneeded : ∀ s', m.eval t env s = (.unfinished, s') → step = .unfinished) :
    m'.eval t env s = m.eval t env s := by
  refine heval t env s fun hu => h ?_
  exact hneeded (m.eval t env s).2 (Prod.ext hu rfl)

include heval in
/-- A reduction depends on its machine only through finished answers: a machine that repeats all of them, and
notes assignments alike, takes the same step. -/
theorem reduce_congr (hassigned : m'.assigned = m.assigned) (t : Tree) (env : Env) (s : σ)
    (h : (t.reduce m env s).1 ≠ .unfinished) : t.reduce m' env s = t.reduce m env s := by
  cases t with
  | absent | num | bool | nothing | var | loop => rfl
  | binary span op l r =>
    have hl : m'.eval l env s = m.eval l env s :=
      eval_eq_of_needed heval h fun s' hs => by rw [reduce_of_first rfl hs (by simp)]
    simp only [reduce, hl]
    rcases hm : m.eval l env s with ⟨⟨lv, env₁⟩ | _ | _, s₁⟩ <;> simp only
    have hr : m'.eval r env₁ s₁ = m.eval r env₁ s₁ :=
      eval_eq_of_needed heval h fun s' hs => by simp only [reduce, hm, hs]
    rw [hr]
  | assign span name value =>
    have hv : m'.eval value env s = m.eval value env s :=
      eval_eq_of_needed heval h fun s' hs => by rw [reduce_of_first rfl hs (by simp)]
    simp only [reduce, hv, hassigned]
  | ite span c t e =>
    have hc : m'.eval c env s = m.eval c env s :=
      eval_eq_of_needed heval h fun s' hs => by rw [reduce_of_first rfl hs (by simp)]
    simp only [reduce, hc]
  | seq span first second =>
    have hf : m'.eval first env s = m.eval first env s :=
      eval_eq_of_needed heval h fun s' hs => by rw [reduce_of_first rfl hs (by simp)]
    simp only [reduce, hf]

end

end Tree

namespace Engine

variable {cfg : Settings} {fuel depth : Nat} {t : Tree} {env : Env} {p : Progress}

/-- The machine that evaluates the operands of a reduction at a given depth. -/
def machine (cfg : Settings) (fuel depth : Nat) : Machine Progress where
  eval := eval cfg fuel (depth + 1)
  assigned name v p := p.note cfg (.assign name v)

/-- What an evaluation that began its step in `env` does with the outcome of a reduction. -/
def resume (cfg : Settings) (fuel depth : Nat) (env : Env) : Reply × Progress → Reply × Progress
  | (.done next env', p) => eval cfg fuel depth next env' p
  | (.halted halt _, p) => (.halted halt env, p)
  | (.unfinished, p) => (.unfinished, p)

/-- A run that must not take its next step keeps the environment it has. -/
theorem eval_stopped {halt : Halt} (h : stopBefore? cfg p.steps = some halt) :
    eval cfg (fuel + 1) depth t env p = (.halted halt env, p) := by
  simp only [eval, h]

/-- A normal form takes one step to be recognised. -/
theorem eval_normal (h : stopBefore? cfg p.steps = none) (ht : t.isReducible = false) :
    eval cfg (fuel + 1) depth t env p = (.done t.orNothing env, p.step cfg t.orNothing depth) := by
  simp [eval, h, ht]

/-- Any other tree is reduced once, and evaluation resumes with what comes next. -/
theorem eval_reducible (h : stopBefore? cfg p.steps = none) (ht : t.isReducible = true) :
    eval cfg (fuel + 1) depth t env p =
      resume cfg fuel depth env (t.reduce (machine cfg fuel depth) env (p.step cfg t depth)) := by
  have ho := Tree.orNothing_of_isReducible ht
  simp only [eval, h, ho, ht, if_true]
  rfl

/-- Evaluation does not tell an absent tree from `do-nothing`. -/
theorem eval_orNothing : eval cfg fuel depth t.orNothing env p = eval cfg fuel depth t env p := by
  cases fuel with
  | zero => rfl
  | succ fuel => cases t <;> rfl

/-- Induction along an evaluation. What holds of the evaluations of the operands, and of the one that goes on with
the next tree, is carried over to the evaluation at hand. -/
theorem eval_induct {motive : Nat → Tree → Env → Progress → Reply × Progress → Prop}
    (exhausted : ∀ depth t env p, motive depth t env p (.unfinished, p))
    (stopped : ∀ depth t env p halt, stopBefore? cfg p.steps = some halt →
      motive depth t env p (.halted halt env, p))
    (normal : ∀ depth t env p, stopBefore? cfg p.steps = none → t.isReducible = false →
      motive depth t env p (.done t.orNothing env, p.step cfg t.orNothing depth))
    (step : ∀ fuel depth t env p, stopBefore? cfg p.steps = none → t.isReducible = true →
      (∀ a env p, motive (depth + 1) a env p ((machine cfg fuel depth).eval a env p)) →
      (∀ next env p, motive depth next env p (eval cfg fuel depth next env p)) →
      motive depth t env p
        (resume cfg fuel depth env (t.reduce (machine cfg fuel depth) env (p.step cfg t depth)))) :
    ∀ fuel depth t env p, motive depth t env p (eval cfg fuel depth t env p) := by
  intro fuel
  induction fuel with
  | zero => exact exhausted
  | succ fuel ih =>
    intro depth t env p
    rcases hs : stopBefore? cfg p.steps with _ | halt
    · rcases ht : t.isReducible with _ | _
      · rw [eval_normal hs ht]
        exact normal depth t env p hs ht
      · rw [eval_reducible hs ht]
        exact step fuel depth t env p hs ht (ih (depth + 1)) (ih depth)
    · rw [eval_stopped hs]
      exact stopped depth t env p halt hs

/-- One more unit of fuel does not change a finished answer. -/
theorem eval_succ_fuel (cfg : Settings) (fuel : Nat) : ∀ (depth : Nat) (t : Tree) (env : Env) (p : Progress),
    (eval cfg fuel depth t env p).1 ≠ .unfinished →
      eval cfg (fuel + 1) depth t env p = eval cfg fuel depth t env p := by
  induction fuel with
  | zero =>
    intro depth t env p h
    exact absurd rfl h
  | succ fuel ih =>
    intro depth t env p h
    rcases hs : stopBefore? cfg p.steps with _ | halt
    · rcases ht : t.isReducible with _ | _
      · rw [eval_normal hs ht, eval_normal hs ht]
      · rw [eval_reducible hs ht] at h
        rw [eval_reducible hs ht, eval_reducible hs ht]
        -- the operands' machine gains a unit of fuel too, and keeps its finished answers
        have hmachine : ∀ t env p, ((machine cfg fuel depth).eval t env p).1 ≠ .unfinished →
            (machine cfg (fuel + 1) depth).eval t env p = (machine cfg fuel depth).eval t env p :=
          fun t env p => ih (depth + 1) t env p
        have hstep := Tree.reduce_congr hmachine rfl t env (p.step cfg t depth)
        rcases hr : t.reduce (machine cfg fuel depth) env (p.step cfg t depth) with
          ⟨⟨next, env'⟩ | ⟨halt, env'⟩ | _, p'⟩
        · rw [hr] at h hstep
          rw [hstep (by simp)]
          exact ih depth next env' p' h
        · rw [hr] at hstep
          rw [hstep (by simp)]
          rfl
        · rw [hr] at h
          exact absurd rfl h
    · rw [eval_stopped hs, eval_stopped hs]

/-- A finished answer stays the same with any larger amount of fuel. -/
theorem eval_mono {fuel' : Nat} (hle : fuel ≤ fuel') (h : (eval cfg fuel depth t env p).1 ≠ .unfinished) :
    eval cfg fuel' depth t env p = eval cfg fuel depth t env p := by
  induction hle with
  | refl => rfl
  | step _ ih => rw [eval_succ_fuel _ _ _ _ _ _ (by rw [ih]; exact h), ih]

end Engine

/-- A whole run answers as its outermost evaluation does. -/
theorem Tree.execute_reply (cfg : Settings) (fuel : Nat) (t : Tree) (env : Env) :
    (t.execute cfg fuel env).reply =
      (Engine.eval cfg (cfg.limits.fuel fuel) 1 t env
        (({} : Progress).note cfg (.runStart t.orNothing))).1 := by
  rw [← Engine.eval_orNothing]
  rfl

end WhileLang
