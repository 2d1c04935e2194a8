import WhileLang.Proofs.Engine.Limit

/-!
# What an evaluation answers, and after how many steps

`Answers cfg t env n r n'` says that an evaluation of `t` which starts in `env` when `n` steps are counted
answers `r` when `n'` are counted. There is one rule for each way in which a step can go on, limits included.
The rules say what is left when a part halts: whatever the part has bound is lost, and the environment before
the step stands. A part that completes hands its environment on to what comes next.

The engine gives exactly these answers (`eval_iff_answers`). The other way to look at it is the loop that
drives a tree to normal form, turn by turn: the environment that survives is the one with which the last turn
began (`eval_halted_iff_turns`).
-/

namespace WhileLang

open Engine (stopBefore?)

/-- The answers of evaluations. Every step is counted if nothing stops it. -/
inductive Answers (cfg : Settings) : Tree → Env → Nat → Reply → Nat → Prop
  | stopped {t : Tree} {env : Env} {n : Nat} {halt : Halt} :
      stopBefore? cfg n = some halt → Answers cfg t env n (.halted halt env) n
  | normal {t : Tree} {env : Env} {n : Nat} :
      stopBefore? cfg n = none → t.isReducible = false → Answers cfg t env n (.done t.orNothing env) (n + 1)
  | firstHalted {t a : Tree} {env env₁ : Env} {n n' : Nat} {halt : Halt} :
      stopBefore? cfg n = none → t.first? = some a →
      Answers cfg a env (n + 1) (.halted halt env₁) n' → Answers cfg t env n (.halted halt env) n'
  | var {env : Env} {n n' : Nat} {s : Span} {x : String} {v : Value} {o : Reply} :
      stopBefore? cfg n = none → env.get? x = some v →
      Answers cfg v.toTree env (n + 1) o n' → Answers cfg (.var s x) env n o n'
  | unbound {env : Env} {n : Nat} {s : Span} {x : String} :
      stopBefore? cfg n = none → env.get? x = none →
      Answers cfg (.var s x) env n (.halted (.fault ⟨.unbound x, s⟩) env) (n + 1)
  | binary {env env₁ env₂ : Env} {n n₁ n₂ n' : Nat} {s s₁ s₂ : Span} {op : Op} {l r : Tree} {a b : Int64}
      {o : Reply} :
      stopBefore? cfg n = none → Answers cfg l env (n + 1) (.done (.num s₁ a) env₁) n₁ →
      Answers cfg r env₁ n₁ (.done (.num s₂ b) env₂) n₂ →
      Answers cfg (op.apply s a b) env₂ n₂ o n' → Answers cfg (.binary s op l r) env n o n'
  | rightHalted {env env₁ env₂ : Env} {n n₁ n' : Nat} {s : Span} {op : Op} {l r lv : Tree} {halt : Halt} :
      stopBefore? cfg n = none → Answers cfg l env (n + 1) (.done lv env₁) n₁ →
      Answers cfg r env₁ n₁ (.halted halt env₂) n' → Answers cfg (.binary s op l r) env n (.halted halt env) n'
  | operands {env env₁ env₂ : Env} {n n₁ n' : Nat} {s : Span} {op : Op} {l r lv rv : Tree} :
      stopBefore? cfg n = none → Answers cfg l env (n + 1) (.done lv env₁) n₁ →
      Answers cfg r env₁ n₁ (.done rv env₂) n' → (∀ s₁ s₂ a b, lv = .num s₁ a → rv ≠ .num s₂ b) →
      Answers cfg (.binary s op l r) env n
        (.halted (.fault ⟨.operands op lv.typeName rv.typeName, s⟩) env) n'
  | assign {env env₁ : Env} {n n₁ n' : Nat} {s : Span} {x : String} {t w : Tree} {v : Value} {o : Reply} :
      stopBefore? cfg n = none → Answers cfg t env (n + 1) (.done w env₁) n₁ → w.value? = some v →
      Answers cfg (.nothing s) (env₁.insert x v) n₁ o n' → Answers cfg (.assign s x t) env n o n'
  | assigned {env env₁ : Env} {n n' : Nat} {s : Span} {x : String} {t w : Tree} :
      stopBefore? cfg n = none → Answers cfg t env (n + 1) (.done w env₁) n' → w.value? = none →
      Answers cfg (.assign s x t) env n (.halted (.fault ⟨.assigned w.typeName x, s⟩) env) n'
  | ite {env env₁ : Env} {n n₁ n' : Nat} {s s₁ : Span} {c t e : Tree} {b : Bool} {o : Reply} :
      stopBefore? cfg n = none → Answers cfg c env (n + 1) (.done (.bool s₁ b) env₁) n₁ →
      Answers cfg (if b then t else e) env₁ n₁ o n' → Answers cfg (.ite s c t e) env n o n'
  | condition {env env₁ : Env} {n n' : Nat} {s : Span} {c t e w : Tree} :
      stopBefore? cfg n = none → Answers cfg c env (n + 1) (.done w env₁) n' → (∀ s₁ b, w ≠ .bool s₁ b) →
      Answers cfg (.ite s c t e) env n (.halted (.fault ⟨.condition w.typeName, s⟩) env) n'
  | seq {env env₁ : Env} {n n₁ n' : Nat} {s : Span} {a b w : Tree} {o : Reply} :
      stopBefore? cfg n = none → Answers cfg a env (n + 1) (.done w env₁) n₁ →
      Answers cfg b env₁ n₁ o n' → Answers cfg (.seq s a b) env n o n'
  | loop {env : Env} {n n' : Nat} {s : Span} {c b : Tree} {o : Reply} :
      stopBefore? cfg n = none → Answers cfg (.unroll s c b) env (n + 1) o n' →
      Answers cfg (.loop s c b) env n o n'

namespace Engine

/-! ## Every answer has a derivation -/

/-- The rules derive an answer, if it is one. -/
def Derived (cfg : Settings) (t : Tree) (env : Env) (n : Nat) : Reply × Progress → Prop
  | (.done v env', q) => Answers cfg t env n (.done v env') q.steps
  | (.halted halt env', q) => Answers cfg t env n (.halted halt env') q.steps
  | (.unfinished, _) => True

/-- The rules derive what comes of one reduction: all answers of its result are answers of the tree. -/
def Stepped (cfg : Settings) (t : Tree) (env : Env) (n : Nat) : Reply × Progress → Prop
  | (.done next env', q) => ∀ o n', Answers cfg next env' q.steps o n' → Answers cfg t env n o n'
  | (.halted halt _, q) => Answers cfg t env n (.halted halt env) q.steps
  | (.unfinished, _) => True

section

variable {cfg : Settings} {n : Nat} (hgo : stopBefore? cfg n = none)

include hgo in
theorem combine_stepped {env env₁ env₂ : Env} {n₁ : Nat} {q : Progress} {s : Span} {op : Op} {l r lv rv : Tree}
    (hl : Answers cfg l env (n + 1) (.done lv env₁) n₁) (hr : Answers cfg r env₁ n₁ (.done rv env₂) q.steps) :
    Stepped cfg (.binary s op l r) env n (Tree.combine op s lv rv env₂, q) := by
  unfold Tree.combine
  split
  · exact fun o n' ho => .binary hgo hl hr ho
  · next hne => exact .operands hgo hl hr fun s₁ s₂ a b hlv hrv => hne s₁ a s₂ b hlv hrv

include hgo in
theorem choose_stepped {env env₁ : Env} {q : Progress} {s : Span} {c t e cv : Tree}
    (hc : Answers cfg c env (n + 1) (.done cv env₁) q.steps) :
    Stepped cfg (.ite s c t e) env n (Tree.choose s cv t e env₁, q) := by
  unfold Tree.choose
  split
  · exact fun o n' ho => .ite hgo hc (by rw [if_pos rfl]; exact ho)
  · exact fun o n' ho => .ite hgo hc (by rw [if_neg Bool.false_ne_true]; exact ho)
  · next htrue hfalse =>
    refine .condition hgo hc fun s₁ b hcv => ?_
    cases b with
    | true => exact htrue s₁ hcv
    | false => exact hfalse s₁ hcv

variable {m : Machine Progress} (hm : ∀ t env p, Derived cfg t env p.steps (m.eval t env p))

include hgo hm in
/-- A first part that does not complete leaves the environment as it was; it remains to look at one that
does. -/
theorem stepped_of_first {t a : Tree} (hfirst : t.first? = some a) {env : Env} {p : Progress}
    (hp : p.steps = n + 1)
    (hdone : ∀ v env₁ p₁, m.eval a env p = (.done v env₁, p₁) →
      Answers cfg a env (n + 1) (.done v env₁) p₁.steps → Stepped cfg t env n (t.reduce m env p)) :
    Stepped cfg t env n (t.reduce m env p) := by
  have hderived := hm a env p
  rw [hp] at hderived
  rcases ha : m.eval a env p with ⟨⟨v, env₁⟩ | ⟨halt, env₁⟩ | _, p₁⟩ <;> rw [ha] at hderived
  · exact hdone v env₁ p₁ ha hderived
  · rw [Tree.reduce_of_first hfirst ha (by simp)]
    exact .firstHalted hgo hfirst hderived
  · rw [Tree.reduce_of_first hfirst ha (by simp)]
    trivial

include hgo hm in
theorem reduce_stepped (hassigned : ∀ name v p, (m.assigned name v p).steps = p.steps) {t : Tree}
    (ht : t.isReducible = true) (env : Env) {p : Progress} (hp : p.steps = n + 1) :
    Stepped cfg t env n (t.reduce m env p) := by
  cases t with
  | absent | num | bool | nothing => cases ht
  | var span name =>
    rcases hv : env.get? name with _ | v
    · simp only [Tree.reduce, hv, Stepped, hp]
      exact .unbound hgo hv
    · simp only [Tree.reduce, hv, Stepped, hp]
      exact fun o n' ho => .var hgo hv ho
  | binary span op l r =>
    refine stepped_of_first hgo hm rfl hp fun lv env₁ p₁ hml hl => ?_
    have hderived := hm r env₁ p₁
    rcases hmr : m.eval r env₁ p₁ with ⟨⟨rv, env₂⟩ | ⟨halt, env₂⟩ | _, p₂⟩ <;> rw [hmr] at hderived
    · simp only [Tree.reduce, hml, hmr]
      exact combine_stepped hgo hl hderived
    · simp only [Tree.reduce, hml, hmr]
      exact .rightHalted hgo hl hderived
    · simp only [Tree.reduce, hml, hmr, Stepped]
  | assign span name value =>
    refine stepped_of_first hgo hm rfl hp fun w env₁ p₁ hmv hv => ?_
    rcases hw : w.value? with _ | v
    · simp only [Tree.reduce, hmv, hw]
      exact .assigned hgo hv hw
    · simp only [Tree.reduce, hmv, hw, Stepped, hassigned]
      exact fun o n' ho => .assign hgo hv hw ho
  | ite span c t e =>
    refine stepped_of_first hgo hm rfl hp fun cv env₁ p₁ hmc hc => ?_
    simp only [Tree.reduce, hmc]
    exact choose_stepped hgo hc
  | seq span first second =>
    refine stepped_of_first hgo hm rfl hp fun w env₁ p₁ hmf hf => ?_
    simp only [Tree.reduce, hmf]
    exact fun o n' ho => .seq hgo hf ho
  | loop span c b =>
    simp only [Tree.reduce, Stepped, hp]
    exact fun o n' ho => .loop hgo ho

end

/-- What comes next answers for the tree before the step. -/
theorem Stepped.derived {cfg : Settings} {t next : Tree} {env env' : Env} {n : Nat} {q : Progress}
    {r : Reply × Progress} (h : Stepped cfg t env n (.done next env', q))
    (hr : Derived cfg next env' q.steps r) :
    Derived cfg t env n r := by
  obtain ⟨⟨v, env''⟩ | ⟨halt, env''⟩ | _, q'⟩ := r
  · exact h _ _ hr
  · exact h _ _ hr
  · trivial

/-- Whatever an evaluation answers, the rules derive. -/
theorem eval_derived (cfg : Settings) : ∀ (fuel depth : Nat) (t : Tree) (env : Env) (p : Progress),
    Derived cfg t env p.steps (eval cfg fuel depth t env p) := by
  refine eval_induct (fun depth t env p => trivial) (fun depth t env p halt hs => .stopped hs) ?_ ?_
  · intro depth t env p hs ht
    simp only [Derived, Progress.steps_step]
    exact .normal hs ht
  · intro fuel depth t env p hs ht hoperand hnext
    have hstep := reduce_stepped hs hoperand (fun name v p => p.steps_note cfg _) ht env
      (p.steps_step cfg t depth)
    rcases hr : t.reduce (machine cfg fuel depth) env (p.step cfg t depth) with
      ⟨⟨next, env'⟩ | ⟨halt, env'⟩ | _, q⟩ <;> rw [hr] at hstep
    · exact hstep.derived (hnext next env' q)
    · exact hstep
    · trivial

/-! ## Every derivation is run -/

/-- With enough fuel an evaluation answers as told, at any depth and whatever was noted before it. -/
def Delivers (cfg : Settings) (t : Tree) (env : Env) (n : Nat) (o : Reply) (n' : Nat) : Prop :=
  ∃ k, ∀ fuel, k ≤ fuel → ∀ depth p, p.steps = n →
    ∃ q, eval cfg fuel depth t env p = (o, q) ∧ q.steps = n'

/-- With enough fuel for its operands one reduction comes out as told. -/
def Comes (cfg : Settings) (t : Tree) (env : Env) (n : Nat) (o : Reply) (n' : Nat) : Prop :=
  ∃ k, ∀ fuel, k ≤ fuel → ∀ depth p, p.steps = n →
    ∃ q, t.reduce (machine cfg fuel depth) env p = (o, q) ∧ q.steps = n'

section

variable {cfg : Settings} {t a : Tree} {env env₁ : Env} {n n₁ n' : Nat} {o : Reply} {halt : Halt}

theorem Delivers.stopped (hs : stopBefore? cfg n = some halt) :
    Delivers cfg t env n (.halted halt env) n := by
  refine ⟨1, fun fuel hfuel depth p hp => ?_⟩
  obtain ⟨fuel, rfl⟩ := Nat.exists_eq_add_of_le' hfuel
  exact ⟨p, eval_stopped (hp ▸ hs), hp⟩

theorem Delivers.normal (hgo : stopBefore? cfg n = none) (ht : t.isReducible = false) :
    Delivers cfg t env n (.done t.orNothing env) (n + 1) := by
  refine ⟨1, fun fuel hfuel depth p hp => ?_⟩
  obtain ⟨fuel, rfl⟩ := Nat.exists_eq_add_of_le' hfuel
  exact ⟨_, eval_normal (hp ▸ hgo) ht, by rw [Progress.steps_step, hp]⟩

/-- An evaluation answers as what comes next does. -/
theorem Comes.delivers (hgo : stopBefore? cfg n = none) (ht : t.isReducible = true) {next : Tree}
    (hstep : Comes cfg t env (n + 1) (.done next env₁) n₁) (hnext : Delivers cfg next env₁ n₁ o n') :
    Delivers cfg t env n o n' := by
  obtain ⟨k₁, hstep⟩ := hstep
  obtain ⟨k₂, hnext⟩ := hnext
  -- one unit for the step itself, and the same rest for its operands and for what comes next
  refine ⟨max k₁ k₂ + 1, fun fuel hfuel depth p hp => ?_⟩
  obtain ⟨fuel, rfl⟩ : ∃ k, fuel = k + 1 := ⟨fuel - 1, by omega⟩
  have hcount : (p.step cfg t depth).steps = n + 1 := by rw [Progress.steps_step, hp]
  obtain ⟨q, hq, hsteps⟩ := hstep fuel (by omega) depth _ hcount
  rw [eval_reducible (hp ▸ hgo) ht, hq]
  exact hnext fuel (by omega) depth q hsteps

/-- An evaluation whose reduction halts falls back on its environment. -/
theorem Comes.halts (hgo : stopBefore? cfg n = none) (ht : t.isReducible = true)
    (hstep : Comes cfg t env (n + 1) (.halted halt env₁) n') : Delivers cfg t env n (.halted halt env) n' := by
  obtain ⟨k, hstep⟩ := hstep
  refine ⟨k + 1, fun fuel hfuel depth p hp => ?_⟩
  obtain ⟨fuel, rfl⟩ : ∃ k, fuel = k + 1 := ⟨fuel - 1, by omega⟩
  have hcount : (p.step cfg t depth).steps = n + 1 := by rw [Progress.steps_step, hp]
  obtain ⟨q, hq, hsteps⟩ := hstep fuel (by omega) depth _ hcount
  rw [eval_reducible (hp ▸ hgo) ht, hq]
  exact ⟨q, rfl, hsteps⟩

/-- A reduction that evaluates nothing comes out at once. -/
theorem Comes.of_eq (h : ∀ (m : Machine Progress) p, t.reduce m env p = (o, p)) : Comes cfg t env n o n :=
  ⟨0, fun _ _ _ p hp => ⟨p, h _ p, hp⟩⟩

/-- A first part that halts halts the reduction. -/
theorem Delivers.comes_halted (ha : Delivers cfg a env n (.halted halt env₁) n') (hfirst : t.first? = some a) :
    Comes cfg t env n (.halted halt env₁) n' := by
  obtain ⟨k, ha⟩ := ha
  refine ⟨k, fun fuel hfuel depth p hp => ?_⟩
  obtain ⟨q, hq, hsteps⟩ := ha fuel hfuel (depth + 1) p hp
  exact ⟨q, Tree.reduce_of_first hfirst hq (by simp), hsteps⟩

/-- A first part that completes leaves the reduction to what the rule of the tree makes of its result. -/
theorem Delivers.comes {v : Tree} (ha : Delivers cfg a env n (.done v env₁) n')
    (h : ∀ fuel depth p q, (machine cfg fuel depth).eval a env p = (.done v env₁, q) → q.steps = n' →
      ∃ q', t.reduce (machine cfg fuel depth) env p = (o, q') ∧ q'.steps = n') :
    Comes cfg t env n o n' := by
  obtain ⟨k, ha⟩ := ha
  refine ⟨k, fun fuel hfuel depth p hp => ?_⟩
  obtain ⟨q, hq, hsteps⟩ := ha fuel hfuel (depth + 1) p hp
  exact h fuel depth p q hq hsteps

theorem Delivers.comes_right {s : Span} {op : Op} {l r lv : Tree} (hl : Delivers cfg l env n (.done lv env₁) n₁)
    {env₂ : Env} (hr : Delivers cfg r env₁ n₁ (.halted halt env₂) n') :
    Comes cfg (.binary s op l r) env n (.halted halt env₂) n' := by
  obtain ⟨k₁, hl⟩ := hl
  obtain ⟨k₂, hr⟩ := hr
  refine ⟨max k₁ k₂, fun fuel hfuel depth p hp => ?_⟩
  obtain ⟨p₁, hl, hp₁⟩ := hl fuel (by omega) (depth + 1) p hp
  obtain ⟨q, hr, hsteps⟩ := hr fuel (by omega) (depth + 1) p₁ hp₁
  exact ⟨q, by simp only [Tree.reduce, machine, hl, hr], hsteps⟩

theorem Delivers.comes_binary {s : Span} {op : Op} {l r lv rv : Tree}
    (hl : Delivers cfg l env n (.done lv env₁) n₁) {env₂ : Env}
    (hr : Delivers cfg r env₁ n₁ (.done rv env₂) n') :
    Comes cfg (.binary s op l r) env n (Tree.combine op s lv rv env₂) n' := by
  obtain ⟨k₁, hl⟩ := hl
  obtain ⟨k₂, hr⟩ := hr
  refine ⟨max k₁ k₂, fun fuel hfuel depth p hp => ?_⟩
  obtain ⟨p₁, hl, hp₁⟩ := hl fuel (by omega) (depth + 1) p hp
  obtain ⟨q, hr, hsteps⟩ := hr fuel (by omega) (depth + 1) p₁ hp₁
  exact ⟨q, by simp only [Tree.reduce, machine, hl, hr], hsteps⟩

end

end Engine

open Engine

/-- What the rules derive, the engine answers. -/
theorem Answers.delivers {cfg : Settings} {t : Tree} {env : Env} {n n' : Nat} {o : Reply}
    (h : Answers cfg t env n o n') : Delivers cfg t env n o n' := by
  induction h with
  | stopped hs => exact .stopped hs
  | normal hgo ht => exact .normal hgo ht
  | firstHalted hgo hfirst _ ih =>
    exact (ih.comes_halted hfirst).halts hgo (Tree.isReducible_of_first? hfirst)
  | @var env n n' s x v o hgo hv _ ih =>
    have hstep : Comes cfg (.var s x) env (n + 1) (.done v.toTree env) (n + 1) :=
      .of_eq fun m p => by simp only [Tree.reduce, hv]
    exact hstep.delivers hgo rfl ih
  | @unbound env n s x hgo hv =>
    have hstep : Comes cfg (.var s x) env (n + 1) (.halted (.fault ⟨.unbound x, s⟩) env) (n + 1) :=
      .of_eq fun m p => by simp only [Tree.reduce, hv]
    exact hstep.halts hgo rfl
  | binary hgo _ _ _ ihl ihr ih => exact (ihl.comes_binary ihr).delivers hgo rfl ih
  | rightHalted hgo _ _ ihl ihr => exact (ihl.comes_right ihr).halts hgo rfl
  | @operands env env₁ env₂ n n₁ n' s op l r lv rv hgo _ _ hne ihl ihr =>
    -- both operands have come to normal forms, but not to two numbers
    have hstep : Comes cfg (.binary s op l r) env (n + 1) (Tree.combine op s lv rv env₂) n' :=
      ihl.comes_binary ihr
    have hcombine : Tree.combine op s lv rv env₂ =
        .halted (.fault ⟨.operands op lv.typeName rv.typeName, s⟩) env₂ := by
      unfold Tree.combine
      split
      · exact absurd rfl (hne _ _ _ _ rfl)
      · rfl
    rw [hcombine] at hstep
    exact hstep.halts hgo rfl
  | @assign env env₁ n n₁ n' s x t w v o hgo _ hw _ iht ih =>
    have hstep : Comes cfg (.assign s x t) env (n + 1) (.done (.nothing s) (env₁.insert x v)) n₁ := by
      refine iht.comes fun fuel depth p q hq hsteps => ?_
      simp only [Tree.reduce, hq, hw]
      exact ⟨_, rfl, (q.steps_note cfg _).trans hsteps⟩
    exact hstep.delivers hgo rfl ih
  | @assigned env env₁ n n' s x t w hgo _ hw iht =>
    have hstep : Comes cfg (.assign s x t) env (n + 1)
        (.halted (.fault ⟨.assigned w.typeName x, s⟩) env₁) n' := by
      refine iht.comes fun fuel depth p q hq hsteps => ?_
      simp only [Tree.reduce, hq, hw]
      exact ⟨q, rfl, hsteps⟩
    exact hstep.halts hgo rfl
  | @ite env env₁ n n₁ n' s s₁ c t e b o hgo _ _ ihc ih =>
    have hstep : Comes cfg (.ite s c t e) env (n + 1) (.done (if b then t else e) env₁) n₁ := by
      refine ihc.comes fun fuel depth p q hq hsteps => ⟨q, ?_, hsteps⟩
      simp only [Tree.reduce, hq]
      cases b with
      | true => rfl
      | false => rfl
    exact hstep.delivers hgo rfl ih
  | @condition env env₁ n n' s c t e w hgo _ hne ihc =>
    have hstep : Comes cfg (.ite s c t e) env (n + 1)
        (.halted (.fault ⟨.condition w.typeName, s⟩) env₁) n' := by
      refine ihc.comes fun fuel depth p q hq hsteps => ⟨q, ?_, hsteps⟩
      simp only [Tree.reduce, hq, Tree.choose]
      split
      · exact absurd rfl (hne _ _)
      · exact absurd rfl (hne _ _)
      · rfl
    exact hstep.halts hgo rfl
  | @seq env env₁ n n₁ n' s a b w o hgo _ _ iha ih =>
    have hstep : Comes cfg (.seq s a b) env (n + 1) (.done b env₁) n₁ := by
      refine iha.comes fun fuel depth p q hq hsteps => ⟨q, ?_, hsteps⟩
      simp only [Tree.reduce, hq]
    exact hstep.delivers hgo rfl ih
  | @loop env n n' s c b o hgo _ ih =>
    have hstep : Comes cfg (.loop s c b) env (n + 1) (.done (.unroll s c b) env) (n + 1) :=
      .of_eq fun m p => rfl
    exact hstep.delivers hgo rfl ih

/-- An answer is a normal form or a halt. -/
theorem Answers.ne_unfinished {cfg : Settings} {t : Tree} {env : Env} {n n' : Nat} {o : Reply}
    (h : Answers cfg t env n o n') : o ≠ .unfinished := by
  induction h with
  | stopped | normal | firstHalted | unbound | rightHalted | operands | assigned | condition =>
    exact Reply.noConfusion
  | var _ _ _ ih | binary _ _ _ _ _ _ ih | assign _ _ _ _ _ ih | ite _ _ _ _ ih | seq _ _ _ _ ih
  | loop _ _ ih => exact ih

/-- The rules derive exactly the answers of the engine, with the steps they are counted after. -/
theorem Engine.eval_iff_answers {cfg : Settings} {depth : Nat} {t : Tree} {env : Env} {p : Progress} {o : Reply}
    {n : Nat} :
    (∃ fuel q, eval cfg fuel depth t env p = (o, q) ∧ o ≠ .unfinished ∧ q.steps = n) ↔
      Answers cfg t env p.steps o n := by
  constructor
  · rintro ⟨fuel, q, hq, ho, rfl⟩
    have h := eval_derived cfg fuel depth t env p
    rw [hq] at h
    cases o with
    | done v env' => exact h
    | halted halt env' => exact h
    | unfinished => exact absurd rfl ho
  · intro h
    obtain ⟨k, hk⟩ := h.delivers
    obtain ⟨q, hq, hsteps⟩ := hk k (Nat.le_refl k) depth p rfl
    exact ⟨k, q, hq, h.ne_unfinished, hsteps⟩

/-! ## Turn by turn -/

namespace Engine

/-- What the loop that drives a tree to normal form holds between two of its turns. -/
structure Held where
  tree : Tree
  env : Env
  progress : Progress

/-- A turn of the loop: the step is allowed, and a reduction leads to what is held next. -/
def Turn (cfg : Settings) (depth : Nat) (a b : Held) : Prop :=
  stopBefore? cfg a.progress.steps = none ∧ a.tree.isReducible = true ∧
    ∃ fuel, a.tree.reduce (machine cfg fuel depth) a.env (a.progress.step cfg a.tree depth) =
      (.done b.tree b.env, b.progress)

/-- The turn in which a halt arises: before its step, or in its reduction. What the reduction held by then
does not matter. -/
def Breaks (cfg : Settings) (depth : Nat) (a : Held) (halt : Halt) (q : Progress) : Prop :=
  (stopBefore? cfg a.progress.steps = some halt ∧ q = a.progress) ∨
  (stopBefore? cfg a.progress.steps = none ∧ a.tree.isReducible = true ∧
    ∃ fuel env', a.tree.reduce (machine cfg fuel depth) a.env (a.progress.step cfg a.tree depth) =
      (.halted halt env', q))

section

variable {cfg : Settings} {depth : Nat}

/-- More fuel for its operands does not change a reduction that has come out. -/
theorem reduce_mono {fuel fuel' : Nat} (hle : fuel ≤ fuel') {t : Tree} {env : Env} {p : Progress}
    (h : (t.reduce (machine cfg fuel depth) env p).1 ≠ .unfinished) :
    t.reduce (machine cfg fuel' depth) env p = t.reduce (machine cfg fuel depth) env p := by
  have hmachine : ∀ t env p, ((machine cfg fuel depth).eval t env p).1 ≠ .unfinished →
      (machine cfg fuel' depth).eval t env p = (machine cfg fuel depth).eval t env p :=
    fun t env p hended => eval_mono hle hended
  exact Tree.reduce_congr hmachine rfl t env p h

/-- An evaluation that halts has made turns up to the one in which the halt arose. -/
theorem exists_turns_of_halted {halt : Halt} {env' : Env} {q : Progress} (fuel : Nat) :
    ∀ (t : Tree) (env : Env) (p : Progress), eval cfg fuel depth t env p = (.halted halt env', q) →
      ∃ t' p', Relation.ReflTransGen (Turn cfg depth) ⟨t, env, p⟩ ⟨t', env', p'⟩ ∧
        Breaks cfg depth ⟨t', env', p'⟩ halt q := by
  induction fuel with
  | zero =>
    intro t env p h
    cases h
  | succ fuel ih =>
    intro t env p h
    rcases hs : stopBefore? cfg p.steps with _ | stop
    · rcases ht : t.isReducible with _ | _
      · rw [eval_normal hs ht] at h
        cases h
      · rw [eval_reducible hs ht] at h
        rcases hr : t.reduce (machine cfg fuel depth) env (p.step cfg t depth) with
          ⟨⟨next, env₁⟩ | ⟨stop, env₁⟩ | _, p₁⟩ <;> rw [hr] at h
        · obtain ⟨t', p', hturns, hbreaks⟩ := ih next env₁ p₁ h
          have hturn : Turn cfg depth ⟨t, env, p⟩ ⟨next, env₁, p₁⟩ := ⟨hs, ht, fuel, hr⟩
          exact ⟨t', p', .head hturn hturns, hbreaks⟩
        · cases h
          exact ⟨t, p, .refl, .inr ⟨hs, ht, fuel, env₁, hr⟩⟩
        · cases h
    · rw [eval_stopped hs] at h
      cases h
      exact ⟨t, _, .refl, .inl ⟨hs, rfl⟩⟩

/-- The loop halts in a turn in which a halt arises, and keeps what it held at its start. -/
theorem Breaks.halted {a : Held} {halt : Halt} {q : Progress} (h : Breaks cfg depth a halt q) :
    ∃ fuel, eval cfg fuel depth a.tree a.env a.progress = (.halted halt a.env, q) := by
  rcases h with ⟨hs, rfl⟩ | ⟨hs, ht, fuel, env', hr⟩
  · exact ⟨1, eval_stopped hs⟩
  · refine ⟨fuel + 1, ?_⟩
    rw [eval_reducible hs ht, hr]
    rfl

/-- A turn does not change what the loop comes to. -/
theorem Turn.eval {a b : Held} {o : Reply} {q : Progress} (h : Turn cfg depth a b) (ho : o ≠ .unfinished)
    (hb : ∃ fuel, eval cfg fuel depth b.tree b.env b.progress = (o, q)) :
    ∃ fuel, eval cfg fuel depth a.tree a.env a.progress = (o, q) := by
  obtain ⟨hs, ht, k₁, hr⟩ := h
  obtain ⟨k₂, hb⟩ := hb
  -- the reduction and what comes after it may take the same fuel
  refine ⟨max k₁ k₂ + 1, ?_⟩
  have hreduce : a.tree.reduce (machine cfg (max k₁ k₂) depth) a.env (a.progress.step cfg a.tree depth) =
      (.done b.tree b.env, b.progress) := by
    rw [reduce_mono (Nat.le_max_left k₁ k₂) (by rw [hr]; exact Reply.noConfusion), hr]
  rw [eval_reducible hs ht, hreduce]
  exact (eval_mono (Nat.le_max_right k₁ k₂) (by rw [hb]; exact ho)).trans hb

theorem Breaks.halted_of_turns {a b : Held} {halt : Halt} {q : Progress} (h : Breaks cfg depth b halt q)
    (hturns : Relation.ReflTransGen (Turn cfg depth) a b) :
    ∃ fuel, eval cfg fuel depth a.tree a.env a.progress = (.halted halt b.env, q) := by
  induction hturns using Relation.ReflTransGen.head_induction_on with
  | refl => exact h.halted
  | head hturn _ ih => exact hturn.eval Reply.noConfusion ih

/-- The environment that survives a halt is the one with which the loop began the turn in which it arose. -/
theorem eval_halted_iff_turns {t : Tree} {env env' : Env} {p q : Progress} {halt : Halt} :
    (∃ fuel, eval cfg fuel depth t env p = (.halted halt env', q)) ↔
      ∃ t' p', Relation.ReflTransGen (Turn cfg depth) ⟨t, env, p⟩ ⟨t', env', p'⟩ ∧
        Breaks cfg depth ⟨t', env', p'⟩ halt q := by
  constructor
  · rintro ⟨fuel, h⟩
    exact exists_turns_of_halted fuel t env p h
  · rintro ⟨t', p', hturns, hbreaks⟩
    exact hbreaks.halted_of_turns hturns

/-! ## Whole runs -/

/-- A run comes to what its outermost evaluation comes to with enough fuel. -/
theorem exists_outermost_iff {t : Tree} {env : Env} {o : Reply} {q : Progress} (ho : o ≠ .unfinished) :
    (∃ fuel, outermost cfg fuel t env = (o, q)) ↔ ∃ fuel, eval cfg fuel 1 t env (opening cfg t) = (o, q) := by
  constructor
  · rintro ⟨fuel, h⟩
    exact ⟨_, h⟩
  · rintro ⟨fuel, h⟩
    refine ⟨fuel, ?_⟩
    rcases hmax : cfg.limits.maxSteps with _ | m
    · rw [outermost, Limits.fuel, hmax]
      exact h
    · -- a limited run has the fuel it needs, so more would not change it
      have hended := outermost_ne_unfinished hmax t env fuel
      have hmore : eval cfg (max (cfg.limits.fuel fuel) fuel) 1 t env (opening cfg t) =
          outermost cfg fuel t env :=
        eval_mono (Nat.le_max_left _ _) hended
      rw [← hmore, eval_mono (Nat.le_max_right _ fuel) (by rw [h]; exact ho), h]

end

end Engine

/-- What a halt leaves behind. A run halts with an environment exactly if its outermost loop, turn after turn,
comes to hold this environment and then breaks, be it before the next step or anywhere inside the next
reduction. By the rules for the constructs this is the environment at the root, with all that completed
conditions and first statements have bound, and with nothing that was bound inside the part that failed. The
same holds of runs without limits. -/
theorem execute_halted_iff (cfg : Settings) (t : Tree) (env : Env) :
    (∀ halt env', (∃ fuel, (t.execute cfg fuel env).reply = .halted halt env') ↔
      ∃ t' p q, Relation.ReflTransGen (Turn cfg 1) ⟨t, env, opening cfg t⟩ ⟨t', env', p⟩ ∧
        Breaks cfg 1 ⟨t', env', p⟩ halt q) ∧
    (∀ o n, (∃ fuel, (t.execute cfg fuel env).reply = o ∧ o ≠ .unfinished ∧
      (t.execute cfg fuel env).steps = n) ↔ Answers cfg t env 0 o n) ∧
    ∀ fuel, t.run fuel env = (t.execute {} fuel env).reply := by
  refine ⟨fun halt env' => ?_, fun o n => ?_, fun fuel => ?_⟩
  · simp only [Tree.execute_eq]
    constructor
    · rintro ⟨fuel, h⟩
      have houtermost : outermost cfg fuel t env = (.halted halt env', (outermost cfg fuel t env).2) :=
        Prod.ext h rfl
      obtain ⟨t', p, hturns⟩ := eval_halted_iff_turns.1 ⟨_, houtermost⟩
      exact ⟨t', p, _, hturns⟩
    · rintro ⟨t', p, q, hturns⟩
      obtain ⟨fuel, h⟩ := (exists_outermost_iff Reply.noConfusion).2 (eval_halted_iff_turns.2 ⟨t', p, hturns⟩)
      exact ⟨fuel, by rw [h]⟩
  · simp only [Tree.execute_eq]
    constructor
    · rintro ⟨fuel, h, ho, hsteps⟩
      have houtermost : outermost cfg fuel t env = (o, (outermost cfg fuel t env).2) := Prod.ext h rfl
      have hanswers := eval_iff_answers.1 ⟨_, _, houtermost, ho, hsteps⟩
      rw [steps_opening] at hanswers
      exact hanswers
    · intro h
      rw [← steps_opening cfg t] at h
      have heval : ∃ fuel q, eval cfg fuel 1 t env (opening cfg t) = (o, q) ∧ o ≠ .unfinished ∧ q.steps = n :=
        eval_iff_answers.2 h
      obtain ⟨fuel, q, hq, ho, hsteps⟩ := heval
      obtain ⟨fuel, hrun⟩ := (exists_outermost_iff ho).2 ⟨fuel, hq⟩
      exact ⟨fuel, by rw [hrun], ho, by rw [hrun, hsteps]⟩
  · rw [Tree.execute_reply]
    rfl

-- the same two statements keep the binding on their own and lose it as the first part of a sequence
example (s : Span) : (Tree.seq s (.assign s "x" (.num s 1)) (.var s "y")).run 9 Env.empty =
    .halted (.fault ⟨.unbound "y", s⟩) (Env.ofList [("x", .num s 1)]) := rfl

example (s : Span) : (Tree.seq s (.seq s (.assign s "x" (.num s 1)) (.var s "y")) .absent).run 9 Env.empty =
    .halted (.fault ⟨.unbound "y", s⟩) Env.empty := rfl

end WhileLang
