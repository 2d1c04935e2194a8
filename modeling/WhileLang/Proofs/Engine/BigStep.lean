import WhileLang.Diagnostic
import WhileLang.Proofs.Engine.Eval

/-!
# What a program means

`BigStep t env o` says that `t`, started in `env`, ends as `o`: in a normal form with the environment after
it, or in an error as it is reported. There is one rule for each way in which a construct can go on. Programs
that do not end have no derivation.

The engine takes a loop apart into conditionals and sequences and goes on with the pieces, so the two are
joined from both sides:

* `Engine.eval_accounted`: whatever an evaluation returns, limited or not, has a derivation. One reduction
  keeps all meanings (`reduce_reduced`), and the induction is on the fuel;
* `BigStep.ends`: what has a derivation is returned by an unlimited evaluation with enough fuel, by induction
  on the derivation.
-/

namespace WhileLang

/-- How an evaluation ends: in a normal form with the environment after it, or in an error. -/
inductive Ending
  | value (result : Tree) (env : Env)
  | error (e : Failure)

/-- The meaning of a program. Operands, conditions and first statements are evaluated in the environment that
is left behind by what was evaluated before them. -/
inductive BigStep : Tree → Env → Ending → Prop
  | absent {env : Env} : BigStep .absent env (.value (.nothing Span.none) env)
  | num {env : Env} {s : Span} {n : Int64} : BigStep (.num s n) env (.value (.num s n) env)
  | bool {env : Env} {s : Span} {b : Bool} : BigStep (.bool s b) env (.value (.bool s b) env)
  | nothing {env : Env} {s : Span} : BigStep (.nothing s) env (.value (.nothing s) env)
  | var {env : Env} {s : Span} {x : String} {v : Value} :
      env.get? x = some v → BigStep (.var s x) env (.value v.toTree env)
  | unbound {env : Env} {s : Span} {x : String} :
      env.get? x = none →
      BigStep (.var s x) env (.error (.unbound s!"unbound variable '{x}'" s.known?))
  | add {env env₁ env₂ : Env} {s s₁ s₂ : Span} {l r : Tree} {a b : Int64} :
      BigStep l env (.value (.num s₁ a) env₁) → BigStep r env₁ (.value (.num s₂ b) env₂) →
      BigStep (.binary s .add l r) env (.value (.num s (a + b)) env₂)
  | mul {env env₁ env₂ : Env} {s s₁ s₂ : Span} {l r : Tree} {a b : Int64} :
      BigStep l env (.value (.num s₁ a) env₁) → BigStep r env₁ (.value (.num s₂ b) env₂) →
      BigStep (.binary s .mul l r) env (.value (.num s (a * b)) env₂)
  | lt {env env₁ env₂ : Env} {s s₁ s₂ : Span} {l r : Tree} {a b : Int64} :
      BigStep l env (.value (.num s₁ a) env₁) → BigStep r env₁ (.value (.num s₂ b) env₂) →
      BigStep (.binary s .lt l r) env (.value (.bool s (decide (a < b))) env₂)
  | operands {env env₁ env₂ : Env} {s : Span} {op : Op} {l r lv rv : Tree} :
      BigStep l env (.value lv env₁) → BigStep r env₁ (.value rv env₂) →
      (∀ s₁ s₂ a b, lv = .num s₁ a → rv ≠ .num s₂ b) →
      BigStep (.binary s op l r) env (.error (.mismatch
        s!"operator '{op.symbol}' requires two numbers, got {lv.typeName} and {rv.typeName}" s.known?))
  | leftError {env : Env} {s : Span} {op : Op} {l r : Tree} {e : Failure} :
      BigStep l env (.error e) → BigStep (.binary s op l r) env (.error e)
  | rightError {env env₁ : Env} {s : Span} {op : Op} {l r lv : Tree} {e : Failure} :
      BigStep l env (.value lv env₁) → BigStep r env₁ (.error e) →
      BigStep (.binary s op l r) env (.error e)
  | assign {env env₁ : Env} {s : Span} {x : String} {t : Tree} {v : Value} :
      BigStep t env (.value v.toTree env₁) →
      BigStep (.assign s x t) env (.value (.nothing s) (env₁.insert x v))
  | assigned {env env₁ : Env} {s : Span} {x : String} {t r : Tree} :
      BigStep t env (.value r env₁) → (∀ v : Value, r ≠ v.toTree) →
      BigStep (.assign s x t) env (.error (.mismatch
        s!"cannot assign {r.typeName} to '{x}'" s.known?))
  | assignError {env : Env} {s : Span} {x : String} {t : Tree} {e : Failure} :
      BigStep t env (.error e) → BigStep (.assign s x t) env (.error e)
  | ifTrue {env env₁ : Env} {s s₁ : Span} {c t e : Tree} {o : Ending} :
      BigStep c env (.value (.bool s₁ true) env₁) → BigStep t env₁ o → BigStep (.ite s c t e) env o
  | ifFalse {env env₁ : Env} {s s₁ : Span} {c t e : Tree} {o : Ending} :
      BigStep c env (.value (.bool s₁ false) env₁) → BigStep e env₁ o → BigStep (.ite s c t e) env o
  | ifCondition {env env₁ : Env} {s : Span} {c t e r : Tree} :
      BigStep c env (.value r env₁) → (∀ s₁ b, r ≠ .bool s₁ b) →
      BigStep (.ite s c t e) env (.error (.mismatch
        s!"if condition must be a boolean, got {r.typeName}" s.known?))
  | ifError {env : Env} {s : Span} {c t e : Tree} {err : Failure} :
      BigStep c env (.error err) → BigStep (.ite s c t e) env (.error err)
  | seq {env env₁ : Env} {s : Span} {a b r : Tree} {o : Ending} :
      BigStep a env (.value r env₁) → BigStep b env₁ o → BigStep (.seq s a b) env o
  | seqError {env : Env} {s : Span} {a b : Tree} {e : Failure} :
      BigStep a env (.error e) → BigStep (.seq s a b) env (.error e)
  | loopTrue {env env₁ env₂ : Env} {s s₁ : Span} {c b r : Tree} {o : Ending} :
      BigStep c env (.value (.bool s₁ true) env₁) → BigStep b env₁ (.value r env₂) →
      BigStep (.loop s c b) env₂ o → BigStep (.loop s c b) env o
  | loopFalse {env env₁ : Env} {s s₁ : Span} {c b : Tree} :
      BigStep c env (.value (.bool s₁ false) env₁) →
      BigStep (.loop s c b) env (.value (.nothing s) env₁)
  | loopCondition {env env₁ : Env} {s : Span} {c b r : Tree} :
      BigStep c env (.value r env₁) → (∀ s₁ v, r ≠ .bool s₁ v) →
      BigStep (.loop s c b) env (.error (.mismatch
        s!"if condition must be a boolean, got {r.typeName}" s.known?))
  | loopError {env : Env} {s : Span} {c b : Tree} {e : Failure} :
      BigStep c env (.error e) → BigStep (.loop s c b) env (.error e)
  | loopBodyError {env env₁ : Env} {s s₁ : Span} {c b : Tree} {e : Failure} :
      BigStep c env (.value (.bool s₁ true) env₁) → BigStep b env₁ (.error e) →
      BigStep (.loop s c b) env (.error e)

namespace BigStep

/-- An operator's result on two numbers, whichever operator it is. -/
theorem binary {env env₁ env₂ : Env} {s s₁ s₂ : Span} {op : Op} {l r : Tree} {a b : Int64}
    (hl : BigStep l env (.value (.num s₁ a) env₁)) (hr : BigStep r env₁ (.value (.num s₂ b) env₂)) :
    BigStep (.binary s op l r) env (.value (op.apply s a b) env₂) := by
  cases op with
  | add => exact .add hl hr
  | mul => exact .mul hl hr
  | lt => exact .lt hl hr

/-- A normal form means itself. -/
theorem normal {t : Tree} (env : Env) (ht : t.isReducible = false) :
    BigStep t env (.value t.orNothing env) := by
  cases t with
  | absent => exact .absent
  | num => exact .num
  | bool => exact .bool
  | nothing => exact .nothing
  | _ => simp [Tree.isReducible] at ht

/-- A normal form means nothing else. -/
theorem eq_of_normal {t : Tree} {env : Env} {o : Ending} (ht : t.isReducible = false)
    (h : BigStep t env o) : o = .value t.orNothing env := by
  cases h <;> first | rfl | simp [Tree.isReducible] at ht

/-- A loop means what it means unrolled once. -/
theorem of_unroll {env : Env} {s : Span} {c b : Tree} {o : Ending}
    (h : BigStep (Tree.unroll s c b) env o) : BigStep (.loop s c b) env o := by
  cases h with
  | ifTrue hc ht =>
    cases ht with
    | seq hb hloop => exact .loopTrue hc hb hloop
    | seqError hb => exact .loopBodyError hc hb
  | ifFalse hc he =>
    cases he
    exact .loopFalse hc
  | ifCondition hc hr => exact .loopCondition hc hr
  | ifError hc => exact .loopError hc

/-- What a tree returns is a normal form. -/
theorem same_self {t : Tree} {env : Env} {o : Ending} (h : BigStep t env o) :
    ∀ {v : Tree} {env' : Env}, o = .value v env' → v.same v = true := by
  induction h with
  | absent | num | bool | nothing | add | mul | lt | assign | loopFalse =>
    intro v env' ho
    cases ho
    simp [Tree.same]
  | @var _ _ _ w =>
    intro v env' ho
    cases ho
    cases w <;> simp [Value.toTree, Tree.same]
  | ifTrue _ _ _ ih | ifFalse _ _ _ ih | seq _ _ _ ih | loopTrue _ _ _ _ _ ih => exact ih
  | _ =>
    intro v env' ho
    cases ho

end BigStep

/-! ## Every answer has a derivation -/

/-- The rules account for an answer, unless a limit has stopped the run from outside. -/
def Accounted (cfg : Settings) (t : Tree) (env : Env) : Reply → Prop
  | .done v env' => BigStep t env (.value v env')
  | .halted halt _ =>
    BigStep t env (.error halt.toFailure) ∨ ∃ steps, Engine.stopBefore? cfg steps = some halt
  | .unfinished => True

/-- The rules account for one reduction: all that its result means, the tree meant before. -/
def Reduced (cfg : Settings) (t : Tree) (env : Env) : Reply → Prop
  | .done next env' => ∀ o, BigStep next env' o → BigStep t env o
  | .halted halt _ =>
    BigStep t env (.error halt.toFailure) ∨ ∃ steps, Engine.stopBefore? cfg steps = some halt
  | .unfinished => True

theorem combine_reduced {cfg : Settings} {env env₁ env₂ : Env} {s : Span} {op : Op} {l r lv rv : Tree}
    (hl : BigStep l env (.value lv env₁)) (hr : BigStep r env₁ (.value rv env₂)) :
    Reduced cfg (.binary s op l r) env (Tree.combine op s lv rv env₂) := by
  unfold Tree.combine
  split
  · next s₁ a s₂ b =>
    intro o ho
    rw [ho.eq_of_normal (by simp), Op.orNothing_apply]
    exact .binary hl hr
  · next hne =>
    refine .inl (.operands hl hr ?_)
    intro s₁ s₂ a b hlv hrv
    exact hne s₁ a s₂ b hlv hrv

theorem choose_reduced {cfg : Settings} {env env₁ : Env} {s : Span} {c t e cv : Tree}
    (hc : BigStep c env (.value cv env₁)) :
    Reduced cfg (.ite s c t e) env (Tree.choose s cv t e env₁) := by
  unfold Tree.choose
  split
  · exact fun o ho => .ifTrue hc ho
  · exact fun o ho => .ifFalse hc ho
  · next htrue hfalse =>
    refine .inl (.ifCondition hc ?_)
    intro s₁ b hcv
    cases b with
    | true => exact htrue s₁ hcv
    | false => exact hfalse s₁ hcv

/-- A tree that stands for no value is not the tree of any value. -/
theorem Tree.ne_toTree_of_value? {t : Tree} (h : t.value? = none) (v : Value) : t ≠ v.toTree := by
  intro ht
  rw [ht] at h
  cases v <;> simp [Value.toTree, Tree.value?] at h

/-- A tree that stands for a value is the tree of that value. -/
theorem Tree.eq_toTree_of_value? {t : Tree} {v : Value} (h : t.value? = some v) : t = v.toTree := by
  cases t <;> simp only [Tree.value?, Option.some.injEq, reduceCtorEq] at h
  all_goals rw [← h]; rfl

/-- A part that halts halts the whole, where the rules hand its errors on. -/
theorem Accounted.reduced_of_halted {cfg : Settings} {t t₁ : Tree} {env env₁ env₂ env₃ : Env} {halt : Halt}
    (h : Accounted cfg t₁ env₁ (.halted halt env₂))
    (herror : ∀ e, BigStep t₁ env₁ (.error e) → BigStep t env (.error e)) :
    Reduced cfg t env (.halted halt env₃) :=
  h.imp_left (herror _)

section

variable {cfg : Settings} {σ : Type} {m : Machine σ}
  (hm : ∀ t env s, Accounted cfg t env (m.eval t env s).1)

include hm in
theorem reduce_binary_reduced (span : Span) (op : Op) (l r : Tree) (env : Env) (s : σ) :
    Reduced cfg (.binary span op l r) env ((Tree.binary span op l r).reduce m env s).1 := by
  have hl := hm l env s
  rcases hml : m.eval l env s with ⟨⟨lv, env₁⟩ | ⟨halt, env₁⟩ | _, s₁⟩ <;> rw [hml] at hl
  · -- the right operand starts where the left one ended
    have hr := hm r env₁ s₁
    rcases hmr : m.eval r env₁ s₁ with ⟨⟨rv, env₂⟩ | ⟨halt, env₂⟩ | _, s₂⟩ <;> rw [hmr] at hr
    · simp only [Tree.reduce, hml, hmr]
      exact combine_reduced hl hr
    · simp only [Tree.reduce, hml, hmr]
      exact hr.reduced_of_halted fun e he => .rightError hl he
    · simp only [Tree.reduce, hml, hmr, Reduced]
  · simp only [Tree.reduce, hml]
    exact hl.reduced_of_halted fun e he => .leftError he
  · simp only [Tree.reduce, hml, Reduced]

include hm in
theorem reduce_assign_reduced (span : Span) (name : String) (value : Tree) (env : Env) (s : σ) :
    Reduced cfg (.assign span name value) env ((Tree.assign span name value).reduce m env s).1 := by
  have hv := hm value env s
  rcases hmv : m.eval value env s with ⟨⟨r, env₁⟩ | ⟨halt, env₁⟩ | _, s₁⟩ <;> rw [hmv] at hv
  · rcases hr : r.value? with _ | v
    · simp only [Tree.reduce, hmv, hr]
      exact .inl (.assigned hv (Tree.ne_toTree_of_value? hr))
    · simp only [Tree.reduce, hmv, hr]
      intro o ho
      rw [ho.eq_of_normal rfl]
      rw [Tree.eq_toTree_of_value? hr] at hv
      exact .assign hv
  · simp only [Tree.reduce, hmv]
    exact hv.reduced_of_halted fun e he => .assignError he
  · simp only [Tree.reduce, hmv, Reduced]

include hm in
/-- One reduction whose operands the rules account for is accounted for itself. -/
theorem reduce_reduced (t : Tree) (env : Env) (s : σ) (ht : t.isReducible = true) :
    Reduced cfg t env (t.reduce m env s).1 := by
  cases t with
  | absent | num | bool | nothing => simp [Tree.isReducible] at ht
  | var span name =>
    simp only [Tree.reduce]
    rcases hv : env.get? name with _ | v
    · exact .inl (.unbound hv)
    · intro o ho
      rw [ho.eq_of_normal (by simp), Value.orNothing_toTree]
      exact .var hv
  | binary span op l r => exact reduce_binary_reduced hm span op l r env s
  | assign span name value => exact reduce_assign_reduced hm span name value env s
  | ite span c t e =>
    have hc := hm c env s
    rcases hmc : m.eval c env s with ⟨⟨cv, env₁⟩ | ⟨halt, env₁⟩ | _, s₁⟩ <;> rw [hmc] at hc
    · simp only [Tree.reduce, hmc]
      exact choose_reduced hc
    · simp only [Tree.reduce, hmc]
      exact hc.reduced_of_halted fun e he => .ifError he
    · simp only [Tree.reduce, hmc, Reduced]
  | seq span first second =>
    have hf := hm first env s
    rcases hmf : m.eval first env s with ⟨⟨r, env₁⟩ | ⟨halt, env₁⟩ | _, s₁⟩ <;> rw [hmf] at hf
    · simp only [Tree.reduce, hmf]
      exact fun o ho => .seq hf ho
    · simp only [Tree.reduce, hmf]
      exact hf.reduced_of_halted fun e he => .seqError he
    · simp only [Tree.reduce, hmf, Reduced]
  | loop span c b => exact fun o ho => .of_unroll ho

end

/-- The answer of what comes next is an answer of the tree before the step. -/
theorem Reduced.accounted {cfg : Settings} {t next : Tree} {env env' : Env} {r : Reply}
    (h : Reduced cfg t env (.done next env')) (hr : Accounted cfg next env' r) :
    Accounted cfg t env r := by
  cases r with
  | done v env'' => exact h _ hr
  | halted halt env'' => exact hr.imp_left (h _)
  | unfinished => trivial

/-- Whatever an evaluation returns, under any limits, the rules or the limits account for. -/
theorem Engine.eval_accounted (cfg : Settings) (fuel : Nat) :
    ∀ (depth : Nat) (t : Tree) (env : Env) (p : Progress),
      Accounted cfg t env (eval cfg fuel depth t env p).1 := by
  induction fuel with
  | zero => intros; trivial
  | succ fuel ih =>
    intro depth t env p
    rcases hs : stopBefore? cfg p.steps with _ | halt
    · rcases ht : t.isReducible with _ | _
      · rw [eval_normal hs ht]
        exact .normal env ht
      · rw [eval_reducible hs ht]
        -- operands are evaluated with one unit of fuel less, so the induction covers them
        have hm : ∀ t env p, Accounted cfg t env ((machine cfg fuel depth).eval t env p).1 :=
          fun t env p => ih (depth + 1) t env p
        have hstep := reduce_reduced hm t env (p.step cfg t depth) ht
        rcases hr : t.reduce (machine cfg fuel depth) env (p.step cfg t depth) with
          ⟨⟨next, env'⟩ | ⟨halt, env'⟩ | _, p'⟩ <;> rw [hr] at hstep
        · exact hstep.accounted (ih depth next env' p')
        · exact hstep
        · trivial
    · rw [eval_stopped hs]
      exact .inr ⟨p.steps, hs⟩

/-- So is the answer of a whole run. -/
theorem Tree.execute_accounted (cfg : Settings) (fuel : Nat) (t : Tree) (env : Env) :
    Accounted cfg t env (t.execute cfg fuel env).reply := by
  rw [execute_reply]
  exact Engine.eval_accounted cfg (cfg.limits.fuel fuel) 1 t env _

/-! ## Every derivation is run -/

/-- The ending that an answer tells of. -/
def Reply.ending? : Reply → Option Ending
  | .done v env => some (.value v env)
  | .halted halt _ => some (.error halt.toFailure)
  | .unfinished => none

theorem Reply.eq_done_of_ending? {r : Reply} {v : Tree} {env : Env}
    (h : r.ending? = some (.value v env)) : r = .done v env := by
  cases r <;> simp only [ending?, Option.some.injEq, reduceCtorEq, Ending.value.injEq] at h
  rw [h.1, h.2]

theorem Reply.eq_halted_of_ending? {r : Reply} {e : Failure} (h : r.ending? = some (.error e)) :
    ∃ halt env, r = .halted halt env ∧ halt.toFailure = e := by
  cases r <;> simp only [ending?, Option.some.injEq, reduceCtorEq, Ending.error.injEq] at h
  exact ⟨_, _, rfl, h⟩

theorem Reply.eq_unfinished_of_ending? {r : Reply} (h : r.ending? = none) : r = .unfinished := by
  cases r <;> simp only [ending?, reduceCtorEq] at h
  rfl

/-- Nothing stops a run from outside. -/
def Settings.Free (cfg : Settings) : Prop := ∀ steps, Engine.stopBefore? cfg steps = none

/-- With enough fuel evaluation ends as told, at any depth and after any progress. -/
def Ends (cfg : Settings) (t : Tree) (env : Env) (o : Ending) : Prop :=
  ∃ n, ∀ fuel, n ≤ fuel → ∀ depth p, (Engine.eval cfg fuel depth t env p).1.ending? = some o

/-- With enough fuel for its operands, one reduction comes out as told. -/
def Takes (cfg : Settings) (t : Tree) (env : Env) (o : Ending) : Prop :=
  ∃ n, ∀ fuel, n ≤ fuel → ∀ depth p,
    (t.reduce (Engine.machine cfg fuel depth) env p).1.ending? = some o

section

variable {cfg : Settings} {env env₁ env₂ : Env} {s : Span} {o : Ending}

/-- An operand that ends in a value does so in the machine of every reduction with enough fuel. -/
theorem Ends.value {t v : Tree} (h : Ends cfg t env (.value v env₁)) :
    ∃ n, ∀ fuel, n ≤ fuel → ∀ depth p, ∃ p',
      (Engine.machine cfg fuel depth).eval t env p = (.done v env₁, p') := by
  obtain ⟨n, hn⟩ := h
  refine ⟨n, fun fuel hfuel depth p => ?_⟩
  have hdone := Reply.eq_done_of_ending? (hn fuel hfuel (depth + 1) p)
  exact ⟨_, Prod.ext hdone rfl⟩

/-- An operand that ends in an error does so in the machine of every reduction with enough fuel. -/
theorem Ends.error {t : Tree} {e : Failure} (h : Ends cfg t env (.error e)) :
    ∃ n, ∀ fuel, n ≤ fuel → ∀ depth p, ∃ halt env' p',
      (Engine.machine cfg fuel depth).eval t env p = (.halted halt env', p') ∧ halt.toFailure = e := by
  obtain ⟨n, hn⟩ := h
  refine ⟨n, fun fuel hfuel depth p => ?_⟩
  obtain ⟨halt, env', hhalt, he⟩ := Reply.eq_halted_of_ending? (hn fuel hfuel (depth + 1) p)
  exact ⟨halt, env', _, Prod.ext hhalt rfl, he⟩

/-- A normal form ends at once. -/
theorem Ends.of_normal (hfree : cfg.Free) {t : Tree} (ht : t.isReducible = false) :
    Ends cfg t env (.value t.orNothing env) := by
  refine ⟨1, fun fuel hfuel depth p => ?_⟩
  obtain ⟨n, rfl⟩ : ∃ n, fuel = n + 1 := ⟨fuel - 1, by omega⟩
  rw [Engine.eval_normal (hfree p.steps) ht]
  rfl

/-- A tree ends as what comes next does. -/
theorem Takes.ends (hfree : cfg.Free) {t next : Tree} (ht : t.isReducible = true)
    (hstep : Takes cfg t env (.value next env₁)) (hnext : Ends cfg next env₁ o) : Ends cfg t env o := by
  obtain ⟨n₁, hstep⟩ := hstep
  obtain ⟨n₂, hnext⟩ := hnext
  -- one unit for the step itself, and the same rest for its operands and for what comes next
  refine ⟨max n₁ n₂ + 1, fun fuel hfuel depth p => ?_⟩
  obtain ⟨n, rfl⟩ : ∃ n, fuel = n + 1 := ⟨fuel - 1, by omega⟩
  rw [Engine.eval_reducible (hfree p.steps) ht]
  have hdone := Reply.eq_done_of_ending? (hstep n (by omega) depth (p.step cfg t depth))
  rcases hr : t.reduce (Engine.machine cfg n depth) env (p.step cfg t depth) with ⟨r, p'⟩
  rw [hr] at hdone
  simp only at hdone
  rw [hdone]
  exact hnext n (by omega) depth p'

/-- A tree whose reduction fails ends in that error. -/
theorem Takes.ends_error (hfree : cfg.Free) {t : Tree} {e : Failure} (ht : t.isReducible = true)
    (hstep : Takes cfg t env (.error e)) : Ends cfg t env (.error e) := by
  obtain ⟨n₁, hstep⟩ := hstep
  refine ⟨n₁ + 1, fun fuel hfuel depth p => ?_⟩
  obtain ⟨n, rfl⟩ : ∃ n, fuel = n + 1 := ⟨fuel - 1, by omega⟩
  rw [Engine.eval_reducible (hfree p.steps) ht]
  obtain ⟨halt, env', hhalt, he⟩ :=
    Reply.eq_halted_of_ending? (hstep n (by omega) depth (p.step cfg t depth))
  rcases hr : t.reduce (Engine.machine cfg n depth) env (p.step cfg t depth) with ⟨r, p'⟩
  rw [hr] at hhalt
  simp only at hhalt
  rw [hhalt, ← he]
  rfl

/-! ### One reduction, from its operands -/

/-- An error in the first part is the error of the whole. -/
theorem Ends.takes_error {t a : Tree} {e : Failure} (hfirst : t.first? = some a)
    (ha : Ends cfg a env (.error e)) : Takes cfg t env (.error e) := by
  obtain ⟨n, ha⟩ := ha.error
  refine ⟨n, fun fuel hfuel depth p => ?_⟩
  obtain ⟨halt, env', p', ha, he⟩ := ha fuel hfuel depth p
  rw [Tree.reduce_of_first hfirst ha (by simp), ← he]
  rfl

theorem Ends.takes_binary {op : Op} {l r lv rv : Tree} (hl : Ends cfg l env (.value lv env₁))
    (hr : Ends cfg r env₁ (.value rv env₂))
    (ho : (Tree.combine op s lv rv env₂).ending? = some o) :
    Takes cfg (.binary s op l r) env o := by
  obtain ⟨n₁, hl⟩ := hl.value
  obtain ⟨n₂, hr⟩ := hr.value
  refine ⟨max n₁ n₂, fun fuel hfuel depth p => ?_⟩
  obtain ⟨p₁, hl⟩ := hl fuel (by omega) depth p
  obtain ⟨p₂, hr⟩ := hr fuel (by omega) depth p₁
  simp only [Tree.reduce, hl, hr, ho]

theorem Ends.takes_right_error {op : Op} {l r lv : Tree} {e : Failure}
    (hl : Ends cfg l env (.value lv env₁)) (hr : Ends cfg r env₁ (.error e)) :
    Takes cfg (.binary s op l r) env (.error e) := by
  obtain ⟨n₁, hl⟩ := hl.value
  obtain ⟨n₂, hr⟩ := hr.error
  refine ⟨max n₁ n₂, fun fuel hfuel depth p => ?_⟩
  obtain ⟨p₁, hl⟩ := hl fuel (by omega) depth p
  obtain ⟨halt, env', p', hr, he⟩ := hr fuel (by omega) depth p₁
  simp only [Tree.reduce, hl, hr, Reply.ending?, he]

theorem Ends.takes_assign {x : String} {t r : Tree} {v : Value} (ht : Ends cfg t env (.value r env₁))
    (hv : r.value? = some v) :
    Takes cfg (.assign s x t) env (.value (.nothing s) (env₁.insert x v)) := by
  obtain ⟨n, ht⟩ := ht.value
  refine ⟨n, fun fuel hfuel depth p => ?_⟩
  obtain ⟨p', ht⟩ := ht fuel hfuel depth p
  simp only [Tree.reduce, ht, hv, Reply.ending?]

theorem Ends.takes_assigned {x : String} {t r : Tree} (ht : Ends cfg t env (.value r env₁))
    (hv : r.value? = none) :
    Takes cfg (.assign s x t) env (.error (Halt.fault ⟨.assigned r.typeName x, s⟩).toFailure) := by
  obtain ⟨n, ht⟩ := ht.value
  refine ⟨n, fun fuel hfuel depth p => ?_⟩
  obtain ⟨p', ht⟩ := ht fuel hfuel depth p
  simp only [Tree.reduce, ht, hv, Reply.ending?]

theorem Ends.takes_ite {c t e cv : Tree} (hc : Ends cfg c env (.value cv env₁))
    (ho : (Tree.choose s cv t e env₁).ending? = some o) : Takes cfg (.ite s c t e) env o := by
  obtain ⟨n, hc⟩ := hc.value
  refine ⟨n, fun fuel hfuel depth p => ?_⟩
  obtain ⟨p', hc⟩ := hc fuel hfuel depth p
  simp only [Tree.reduce, hc, ho]

theorem Ends.takes_seq {a b r : Tree} (ha : Ends cfg a env (.value r env₁)) :
    Takes cfg (.seq s a b) env (.value b env₁) := by
  obtain ⟨n, ha⟩ := ha.value
  refine ⟨n, fun fuel hfuel depth p => ?_⟩
  obtain ⟨p', ha⟩ := ha fuel hfuel depth p
  simp only [Tree.reduce, ha, Reply.ending?]

/-- A loop ends as it does unrolled once. -/
theorem Ends.of_unroll (hfree : cfg.Free) {c b : Tree} (h : Ends cfg (.unroll s c b) env o) :
    Ends cfg (.loop s c b) env o := by
  have hstep : Takes cfg (.loop s c b) env (.value (.unroll s c b) env) := ⟨0, fun _ _ _ _ => rfl⟩
  exact hstep.ends hfree rfl h

/-- A condition that is not a truth value selects no branch. -/
theorem choose_of_ne_bool {r t e : Tree} (hne : ∀ s₁ b, r ≠ .bool s₁ b) :
    (Tree.choose s r t e env).ending? = some (.error (.mismatch
      s!"if condition must be a boolean, got {r.typeName}" s.known?)) := by
  unfold Tree.choose
  split
  · next s₁ => exact absurd rfl (hne s₁ true)
  · next s₁ => exact absurd rfl (hne s₁ false)
  · rfl

end

/-- What has a derivation is what an unlimited evaluation comes to. -/
theorem BigStep.ends {cfg : Settings} (hfree : cfg.Free) {t : Tree} {env : Env} {o : Ending}
    (h : BigStep t env o) : Ends cfg t env o := by
  induction h with
  | absent | num | bool | nothing => exact .of_normal hfree rfl
  | @var env s x v hv =>
    have hstep : Takes cfg (.var s x) env (.value v.toTree env) :=
      ⟨0, fun fuel _ depth p => by simp only [Tree.reduce, hv, Reply.ending?]⟩
    have hvalue : Ends cfg v.toTree env (.value v.toTree.orNothing env) := .of_normal hfree (by simp)
    rw [Value.orNothing_toTree] at hvalue
    exact hstep.ends hfree rfl hvalue
  | unbound hv =>
    exact Takes.ends_error hfree rfl
      ⟨0, fun fuel _ depth p => by simp only [Tree.reduce, hv, Reply.ending?]; rfl⟩
  | add _ _ ihl ihr => exact (ihl.takes_binary ihr rfl).ends hfree rfl (.of_normal hfree rfl)
  | mul _ _ ihl ihr => exact (ihl.takes_binary ihr rfl).ends hfree rfl (.of_normal hfree rfl)
  | lt _ _ ihl ihr => exact (ihl.takes_binary ihr rfl).ends hfree rfl (.of_normal hfree rfl)
  | operands _ _ hne ihl ihr =>
    -- both operands have come to normal forms, but not to two numbers
    refine (ihl.takes_binary ihr ?_).ends_error hfree rfl
    unfold Tree.combine
    split
    · exact absurd rfl (hne _ _ _ _ rfl)
    · rfl
  | leftError _ ih => exact (Ends.takes_error rfl ih).ends_error hfree rfl
  | rightError _ _ ihl ihr => exact (ihl.takes_right_error ihr).ends_error hfree rfl
  | @assign _ _ _ _ _ v _ ih =>
    have hv : v.toTree.value? = some v := by cases v <;> rfl
    exact (ih.takes_assign hv).ends hfree rfl (.of_normal hfree rfl)
  | @assigned _ _ _ _ _ r _ hne ih =>
    have hv : r.value? = none := by
      rcases hr : r.value? with _ | v
      · rfl
      · exact absurd (Tree.eq_toTree_of_value? hr) (hne v)
    exact (ih.takes_assigned hv).ends_error hfree rfl
  | assignError _ ih => exact (Ends.takes_error rfl ih).ends_error hfree rfl
  | ifTrue _ _ ihc iht => exact (ihc.takes_ite rfl).ends hfree rfl iht
  | ifFalse _ _ ihc ihe => exact (ihc.takes_ite rfl).ends hfree rfl ihe
  | ifCondition _ hne ihc =>
    exact (ihc.takes_ite (choose_of_ne_bool hne)).ends_error hfree rfl
  | ifError _ ih => exact (Ends.takes_error rfl ih).ends_error hfree rfl
  | seq _ _ iha ihb => exact iha.takes_seq.ends hfree rfl ihb
  | seqError _ ih => exact (Ends.takes_error rfl ih).ends_error hfree rfl
  | loopTrue _ _ _ ihc ihb ihloop =>
    -- unrolled: the condition, then the body, then the same loop again
    refine .of_unroll hfree ((ihc.takes_ite rfl).ends hfree rfl ?_)
    exact ihb.takes_seq.ends hfree rfl ihloop
  | loopFalse _ ihc =>
    exact .of_unroll hfree ((ihc.takes_ite rfl).ends hfree rfl (.of_normal hfree rfl))
  | loopCondition _ hne ihc =>
    exact .of_unroll hfree ((ihc.takes_ite (choose_of_ne_bool hne)).ends_error hfree rfl)
  | loopError _ ih =>
    exact .of_unroll hfree ((Ends.takes_error rfl ih).ends_error hfree rfl)
  | loopBodyError _ _ ihc ihb =>
    refine .of_unroll hfree ((ihc.takes_ite rfl).ends hfree rfl ?_)
    exact (Ends.takes_error rfl ihb).ends_error hfree rfl

/-! ## Runs -/

/-- The rules derive exactly the endings of unlimited runs. -/
theorem exists_ending?_iff_bigStep {t : Tree} {env : Env} {o : Ending} :
    (∃ fuel, (t.run fuel env).ending? = some o) ↔ BigStep t env o := by
  have hfree : Settings.Free {} := fun _ => rfl
  constructor
  · rintro ⟨fuel, ho⟩
    have h : Accounted {} t env (t.run fuel env) := Engine.eval_accounted {} fuel 1 t env {}
    rcases hr : t.run fuel env with ⟨v, env'⟩ | ⟨halt, env'⟩ | _ <;> rw [hr] at h ho
    · rw [← Option.some.inj ho]
      exact h
    · rw [← Option.some.inj ho]
      -- no limit is set, so the halt is the program's own error
      rcases h with h | ⟨steps, hsteps⟩
      · exact h
      · rw [hfree steps] at hsteps
        exact absurd hsteps (by simp)
    · exact absurd ho (by simp [Reply.ending?])
  · intro h
    obtain ⟨n, hn⟩ := h.ends hfree
    exact ⟨n, hn n (Nat.le_refl n) 1 {}⟩

/-- Running without limits computes the meaning of a program: a run returns a normal form or reports an error
exactly if the rules derive it, and it goes on for ever exactly if they derive nothing. How much fuel a run
is given beyond what it needs does not matter. -/
theorem run_iff_bigStep (t : Tree) (env : Env) :
    (∀ v env', (∃ fuel, t.run fuel env = .done v env') ↔ BigStep t env (.value v env')) ∧
    (∀ e, (∃ fuel halt env', t.run fuel env = .halted halt env' ∧ halt.toFailure = e) ↔
      BigStep t env (.error e)) ∧
    ((∀ fuel, t.run fuel env = .unfinished) ↔ ∀ o, ¬ BigStep t env o) ∧
    (∀ fuel fuel', fuel ≤ fuel' → t.run fuel env ≠ .unfinished →
      t.run fuel' env = t.run fuel env) := by
  refine ⟨fun v env' => ?_, fun e => ?_, ?_, ?_⟩
  · rw [← exists_ending?_iff_bigStep]
    refine exists_congr fun fuel => ⟨fun h => by rw [h]; rfl, Reply.eq_done_of_ending?⟩
  · rw [← exists_ending?_iff_bigStep]
    refine exists_congr fun fuel => ⟨?_, Reply.eq_halted_of_ending?⟩
    rintro ⟨halt, env', h, rfl⟩
    rw [h]
    rfl
  · constructor
    · intro h o ho
      obtain ⟨fuel, hfuel⟩ := exists_ending?_iff_bigStep.2 ho
      rw [h fuel] at hfuel
      exact absurd hfuel (by simp [Reply.ending?])
    · intro h fuel
      rcases hr : (t.run fuel env).ending? with _ | o
      · exact Reply.eq_unfinished_of_ending? hr
      · exact absurd (exists_ending?_iff_bigStep.1 ⟨fuel, hr⟩) (h o)
  · intro fuel fuel' hle h
    unfold Tree.run at h ⊢
    rw [Engine.eval_mono hle h]

end WhileLang
