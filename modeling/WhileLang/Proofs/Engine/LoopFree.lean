import WhileLang.Proofs.Engine.Limit
import WhileLang.Proofs.Engine.Story
import WhileLang.Proofs.Tree

/-!
# Programs without loops

A program without loops takes at most two steps for each of its nodes, absent children included: one that reduces the
node, and one that recognises the normal form which a variable, an operator or an assignment leaves in its place. An
evaluation that is broken off from outside, by a limit or for want of fuel, has a step to spare
(`Tells.countSteps_add_le`).

So such a program ends with fuel for these steps, since an evaluation that is out of fuel has taken a step for each
unit of it (`Engine.eval_unfinished_le`). And it never meets a step limit that allows so many, since a limit that
stops a run does so at the count which the run has reached (`Tells.stoppedAt`).
-/

namespace WhileLang

open Engine (stopBefore?)
open Event (countSteps)

/-! ## Trees without loops -/

namespace Tree

/-- No loop is among the constructs of a tree. -/
def LoopFree (t : Tree) : Prop := ∀ s c b, .loop s c b ∉ t.nodes

theorem LoopFree.child {t a : Tree} (h : t.LoopFree) (ha : a ∈ t.children) : a.LoopFree :=
  fun s c b hloop => h s c b (nodes_subset_of_mem_children ha hloop)

theorem size_pos (t : Tree) : 1 ≤ t.size := by
  cases t <;> simp only [size] <;> omega

theorem mem_children_of_first? {t a : Tree} (h : t.first? = some a) : a ∈ t.children := by
  cases t <;> simp only [first?, Option.some.injEq, reduceCtorEq] at h
  all_goals
    rw [← h]
    exact List.mem_cons_self

end Tree

/-! ## How a run is stopped from outside -/

/-- The evaluation was broken off before its tree was done with: it ran out of fuel, or something other than a fault
of the program halted it. -/
def Reply.isCut : Reply → Bool
  | .done _ _ | .halted (.fault _) _ => false
  | _ => true

theorem Reply.isCut_keeping (r : Reply) (env : Env) : (r.keeping env).isCut = r.isCut := by
  cases r with
  | halted halt => cases halt <;> rfl
  | _ => rfl

/-- A halt is a fault of the program, or what stops a run before the step with the given number. -/
def Reply.StoppedAt (cfg : Settings) (n : Nat) : Reply → Prop
  | .halted halt _ => (∃ f, halt = .fault f) ∨ stopBefore? cfg n = some halt
  | _ => True

/-- Where the step limit is the only one, no budget is used up below it. -/
theorem Engine.le_of_stopped_by_budget {cfg : Settings} {m : Int} {n : Nat} {halt : Halt}
    (hmax : cfg.limits.maxSteps = some m) (htime : cfg.limits.timeMs = none)
    (h : stopBefore? cfg n = some halt) (hbudget : halt.isBudget = true) : m ≤ n := by
  unfold stopBefore? stopBefore?.overtime? at h
  rw [hmax, htime] at h
  split at h
  · cases h
    cases hbudget
  · cases h
    cases hbudget
  · simp only at h
    split at h
    · assumption
    · cases h

theorem Reply.StoppedAt.keeping {cfg : Settings} {n : Nat} {r : Reply} (h : r.StoppedAt cfg n) (env : Env) :
    (r.keeping env).StoppedAt cfg n := by
  cases r with
  | halted => exact h
  | _ => trivial

/-- A run that is stopped from outside is stopped at the count that it has reached. -/
theorem Tells.stoppedAt {cfg : Settings} {depth n : Nat} {t : Tree} {env : Env} {log : List Event} {r : Reply}
    (h : Tells cfg depth t env n log r) : r.StoppedAt cfg (n + countSteps log) := by
  -- a story ends at the count at which its last part does
  have hlast : ∀ {k k' : Nat} {r : Reply}, r.StoppedAt cfg k → k = k' → r.StoppedAt cfg k' := by
    rintro k k' r hr rfl
    exact hr
  induction h with
  | pause | normal => trivial
  | stopped hs => exact .inr hs
  | unbound | operands | assigned | condition => exact .inl ⟨_, rfl⟩
  | first _ _ _ _ ih | right _ _ _ _ _ ih =>
    have hpart := ih.keeping
    refine hlast (hpart _) ?_
    simp only [Event.countSteps_step, Event.countSteps_append]
    omega
  | var _ _ _ ih | binary _ _ _ _ _ _ ih | assign _ _ _ _ _ ih | ite _ _ _ _ ih | seq _ _ _ _ ih | loop _ _ ih =>
    refine hlast ih ?_
    simp only [Event.countSteps_step, Event.countSteps_append, Event.countSteps_assign, Event.countSteps_nil]
    omega

/-! ## Steps of programs without loops -/

namespace Tells

variable {cfg : Settings} {depth n : Nat} {t : Tree} {env : Env} {log : List Event} {r : Reply}

/-- One step recognises a normal form. -/
theorem countSteps_add_le_of_normal (h : Tells cfg depth t env n log r) (ht : t.isReducible = false) :
    countSteps log + r.isCut.toNat ≤ 1 := by
  cases h with
  | pause => exact Nat.le_refl 1
  | stopped => exact Nat.zero_add _ ▸ Bool.toNat_le _
  | normal => exact Nat.le_refl 1
  | first _ hfirst =>
    rw [Tree.isReducible_of_first? hfirst] at ht
    cases ht
  | _ => cases ht

/-- Without loops there are at most two steps for each node, and one less if the evaluation is broken off. -/
theorem countSteps_add_le (h : Tells cfg depth t env n log r) :
    t.LoopFree → countSteps log + r.isCut.toNat ≤ 2 * t.size := by
  induction h with
  | @pause _ t =>
    intro _
    have hsize := t.size_pos
    rw [Event.countSteps_nil]
    show 0 + 1 ≤ 2 * t.size
    omega
  | @stopped _ t env _ halt =>
    intro _
    have hsize := t.size_pos
    have hcut := Bool.toNat_le (Reply.halted halt env).isCut
    rw [Event.countSteps_nil]
    omega
  | @normal _ t =>
    intro _
    have hsize := t.size_pos
    rw [Event.countSteps_step, Event.countSteps_nil]
    show 0 + 1 + 0 ≤ 2 * t.size
    omega
  | @first _ t a _ _ _ _ _ hfirst _ _ ih =>
    intro hfree
    have ha := Tree.mem_children_of_first? hfirst
    have hpart := ih (hfree.child ha)
    have hsize := Tree.size_lt_of_mem_children ha
    rw [Event.countSteps_step, Reply.isCut_keeping]
    omega
  | unbound =>
    intro _
    exact (by decide : 0 + 1 + 0 ≤ 2 * 1)
  | var _ _ hvalue =>
    intro _
    have hresult := hvalue.countSteps_add_le_of_normal (Value.isReducible_toTree _)
    rw [Event.countSteps_step, Tree.size]
    omega
  | right _ _ _ _ ihl ihr =>
    intro hfree
    have hl := ihl (hfree.child (by simp [Tree.children]))
    have hr := ihr (hfree.child (by simp [Tree.children]))
    rw [Event.countSteps_step, Event.countSteps_append, Reply.isCut_keeping, Tree.size]
    omega
  | operands _ _ _ _ ihl ihr =>
    intro hfree
    have hl := ihl (hfree.child (by simp [Tree.children]))
    have hr := ihr (hfree.child (by simp [Tree.children]))
    rw [Event.countSteps_step, Event.countSteps_append, Tree.size]
    simp only [Reply.isCut, Bool.toNat_false] at hl hr ⊢
    omega
  | binary _ _ _ hresult ihl ihr =>
    intro hfree
    have hl := ihl (hfree.child (by simp [Tree.children]))
    have hr := ihr (hfree.child (by simp [Tree.children]))
    have hlast := hresult.countSteps_add_le_of_normal (Op.isReducible_apply _ _ _ _)
    simp only [Event.countSteps_step, Event.countSteps_append, Tree.size]
    omega
  | assigned _ _ _ ih | condition _ _ _ ih =>
    intro hfree
    have hpart := ih (hfree.child (by simp [Tree.children]))
    rw [Event.countSteps_step, Tree.size]
    simp only [Reply.isCut, Bool.toNat_false] at hpart ⊢
    omega
  | assign _ _ _ hresult iht =>
    intro hfree
    have hvalue := iht (hfree.child (by simp [Tree.children]))
    have hlast := hresult.countSteps_add_le_of_normal rfl
    simp only [Event.countSteps_step, Event.countSteps_append, Event.countSteps_assign, Event.countSteps_nil,
      Tree.size]
    omega
  | @ite _ _ _ _ _ _ _ t e b _ _ _ _ _ _ ihc ih =>
    intro hfree
    have hcond := ihc (hfree.child (by simp [Tree.children]))
    have hbranch := ih (hfree.child (by cases b <;> simp [Tree.children]))
    have hsize : (if b then t else e).size ≤ t.size + e.size := by
      split <;> omega
    rw [Event.countSteps_step, Event.countSteps_append, Tree.size]
    omega
  | seq _ _ _ iha ih =>
    intro hfree
    have hfirst := iha (hfree.child (by simp [Tree.children]))
    have hsecond := ih (hfree.child (by simp [Tree.children]))
    rw [Event.countSteps_step, Event.countSteps_append, Tree.size]
    omega
  | loop =>
    intro hfree
    exact absurd List.mem_cons_self (hfree _ _ _)

end Tells

/-- Without loops, fuel for two steps a node is enough. -/
theorem Engine.eval_ne_unfinished_of_loopFree {t : Tree} (ht : t.LoopFree) (cfg : Settings) {fuel : Nat}
    (hfuel : 2 * t.size ≤ fuel) (depth : Nat) (env : Env) (p : Progress) :
    (eval cfg fuel depth t env p).1 ≠ .unfinished := by
  intro hout
  obtain ⟨log, htells, hadds⟩ := eval_told cfg fuel depth t env p
  have htaken := eval_unfinished_le cfg fuel depth t env p hout
  have hcount := htells.countSteps_add_le ht
  rw [hout] at hcount
  rw [hadds.steps] at htaken
  change countSteps log + 1 ≤ 2 * t.size at hcount
  omega

/-- A program without loops ends after at most two steps for each of its nodes, absent children included, in every
environment. No step limit that allows so many steps is ever used up by it. -/
theorem execute_loopFree (t : Tree) (ht : t.LoopFree) (env : Env) :
    (∀ fuel, 2 * t.size ≤ fuel → t.run fuel env ≠ .unfinished) ∧
    ∀ (cfg : Settings) (fuel : Nat),
      let o := t.execute cfg fuel env
      o.steps ≤ 2 * t.size ∧
      (2 * t.size ≤ fuel → o.reply ≠ .unfinished) ∧
      ∀ m : Int, cfg.limits.maxSteps = some m → cfg.limits.timeMs = none → 2 * t.size ≤ m →
        o.reply ≠ .unfinished ∧ ∀ halt env', o.reply = .halted halt env' → halt.isBudget = false := by
  refine ⟨fun fuel hfuel => Engine.eval_ne_unfinished_of_loopFree ht {} hfuel 1 env {}, fun cfg fuel => ?_⟩
  intro o
  obtain ⟨log, htells, hsteps, -⟩ := t.execute_told cfg fuel env
  have hcount := htells.countSteps_add_le ht
  refine ⟨?_, ?_, ?_⟩
  · show (t.execute cfg fuel env).steps ≤ 2 * t.size
    omega
  · intro hfuel
    rcases hmax : cfg.limits.maxSteps with _ | m
    · have hgiven : cfg.limits.fuel fuel = fuel := by rw [Limits.fuel, hmax]
      have hends := Engine.eval_ne_unfinished_of_loopFree ht cfg hfuel 1 env (Engine.opening cfg t)
      rwa [← hgiven, Engine.opening, ← Tree.execute_reply] at hends
    · exact t.execute_ne_unfinished cfg fuel env (by simp [hmax])
  · intro m hmax htime hm
    refine ⟨t.execute_ne_unfinished cfg fuel env (by simp [hmax]), fun halt env' ho => ?_⟩
    rcases hbudget : halt.isBudget with _ | _
    · rfl
    · -- a limit that stops the run at its last count would be below the bound
      have hcut : o.reply.isCut = true := by
        rw [ho]
        cases halt <;> first | rfl | cases hbudget
      have hstopped : o.reply.StoppedAt cfg (0 + countSteps log) := htells.stoppedAt
      rw [hcut, Bool.toNat_true] at hcount
      rw [ho] at hstopped
      rcases hstopped with ⟨f, rfl⟩ | hstop
      · cases hbudget
      · have hreached := Engine.le_of_stopped_by_budget hmax htime hstop hbudget
        omega

/-- A condition on a variable, with an assignment in one branch and a variable in the other: seven nodes, one of them
absent. A limit of fourteen steps is never used up. -/
theorem execute_loopFree_branching :
    let s : Span := .point "p.yaml" 1 1
    let t : Tree := .ite s (.var s "x") (.assign s "y" (.binary s .add .absent (.num s 1))) (.var s "z")
    let cfg : Settings := { limits := { maxSteps := some 14 } }
    t.LoopFree ∧ t.size = 7 ∧
      ∀ env, (t.run 14 env ≠ .unfinished) ∧ (t.execute cfg 0 env).steps ≤ 14 ∧
        ∀ halt env', (t.execute cfg 0 env).reply = .halted halt env' → halt.isBudget = false := by
  intro s t cfg
  have hfree : t.LoopFree := by
    intro s' c b hloop
    simp [t, Tree.nodes] at hloop
  refine ⟨hfree, rfl, fun env => ?_⟩
  obtain ⟨hruns, hexecutes⟩ := execute_loopFree t hfree env
  obtain ⟨hsteps, -, hlimit⟩ := hexecutes cfg 0
  have hallowed : ((2 * t.size : Nat) : Int) ≤ 14 := by decide
  exact ⟨hruns 14 (by decide), hsteps, (hlimit 14 rfl rfl hallowed).2⟩

-- a bound variable takes as many steps as it may: the step that looks it up, and the one that takes its value
example (s : Span) (n : Int64) :
    ((Tree.var s "x").execute {} 9 (Env.ofList [("x", .num s n)])).steps = 2 * (Tree.var s "x").size := rfl

end WhileLang
