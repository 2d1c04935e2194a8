import WhileLang.Proofs.Engine.Moves

/-!
# The story of an evaluation

`Tells cfg depth t env n log r` says that an evaluation of `t` at a depth, started in `env` when `n` steps are
counted, takes the steps and makes the assignments of `log`, in this order, and comes to `r`. The rules name the
tree and the depth of every step, and an assignment is told where a value is bound and nowhere else; an operand
is evaluated one level deeper, and what comes next on the same level. An evaluation that is not followed to its
end comes to `unfinished` with what has been told by then.

Whatever the engine does, the rules tell (`eval_told`), and the log of a traced run is the story of its outermost
evaluation between an opening and a closing event (`execute_told`).
-/

namespace WhileLang

open Engine (stopBefore?)

namespace Event

/-- How many steps a log tells of. -/
def countSteps (log : List Event) : Nat := log.countP isStep

@[simp] theorem countSteps_nil : countSteps [] = 0 := rfl

@[simp] theorem countSteps_step (t : Tree) (depth : Nat) (log : List Event) :
    countSteps (.step t depth :: log) = countSteps log + 1 := List.countP_cons_of_pos rfl

@[simp] theorem countSteps_assign (name : String) (v : Value) (log : List Event) :
    countSteps (.assign name v :: log) = countSteps log := List.countP_cons_of_neg Bool.false_ne_true

@[simp] theorem countSteps_append (log log' : List Event) :
    countSteps (log ++ log') = countSteps log + countSteps log' := List.countP_append

end Event

open Event (countSteps)

namespace Reply

/-- Whether a normal form was reached. -/
def isDone : Reply → Bool
  | .done _ _ => true
  | _ => false

/-- The reply of a whole whose part broke off: the environment is the one that the whole began its step with. -/
def keeping (env : Env) : Reply → Reply
  | .halted halt _ => .halted halt env
  | r => r

end Reply

/-- The stories of evaluations. -/
inductive Tells (cfg : Settings) : Nat → Tree → Env → Nat → List Event → Reply → Prop
  | pause {depth : Nat} {t : Tree} {env : Env} {n : Nat} : Tells cfg depth t env n [] .unfinished
  | stopped {depth : Nat} {t : Tree} {env : Env} {n : Nat} {halt : Halt} :
      stopBefore? cfg n = some halt → Tells cfg depth t env n [] (.halted halt env)
  | normal {depth : Nat} {t : Tree} {env : Env} {n : Nat} :
      stopBefore? cfg n = none → t.isReducible = false →
      Tells cfg depth t env n [.step t.orNothing depth] (.done t.orNothing env)
  | first {depth : Nat} {t a : Tree} {env : Env} {n : Nat} {log : List Event} {r : Reply} :
      stopBefore? cfg n = none → t.first? = some a → Tells cfg (depth + 1) a env (n + 1) log r →
      r.isDone = false → Tells cfg depth t env n (.step t depth :: log) (r.keeping env)
  | unbound {depth : Nat} {env : Env} {n : Nat} {s : Span} {x : String} :
      stopBefore? cfg n = none → env.get? x = none →
      Tells cfg depth (.var s x) env n [.step (.var s x) depth] (.halted (.fault ⟨.unbound x, s⟩) env)
  | var {depth : Nat} {env : Env} {n : Nat} {s : Span} {x : String} {v : Value} {log : List Event} {r : Reply} :
      stopBefore? cfg n = none → env.get? x = some v → Tells cfg depth v.toTree env (n + 1) log r →
      Tells cfg depth (.var s x) env n (.step (.var s x) depth :: log) r
  | right {depth : Nat} {env env₁ : Env} {n : Nat} {s : Span} {op : Op} {l r lv : Tree}
      {log₁ log₂ : List Event} {o : Reply} :
      stopBefore? cfg n = none → Tells cfg (depth + 1) l env (n + 1) log₁ (.done lv env₁) →
      Tells cfg (depth + 1) r env₁ (n + 1 + countSteps log₁) log₂ o → o.isDone = false →
      Tells cfg depth (.binary s op l r) env n (.step (.binary s op l r) depth :: (log₁ ++ log₂)) (o.keeping env)
  | operands {depth : Nat} {env env₁ env₂ : Env} {n : Nat} {s : Span} {op : Op} {l r lv rv : Tree}
      {log₁ log₂ : List Event} :
      stopBefore? cfg n = none → Tells cfg (depth + 1) l env (n + 1) log₁ (.done lv env₁) →
      Tells cfg (depth + 1) r env₁ (n + 1 + countSteps log₁) log₂ (.done rv env₂) →
      (∀ s₁ s₂ a b, lv = .num s₁ a → rv ≠ .num s₂ b) →
      Tells cfg depth (.binary s op l r) env n (.step (.binary s op l r) depth :: (log₁ ++ log₂))
        (.halted (.fault ⟨.operands op lv.typeName rv.typeName, s⟩) env)
  | binary {depth : Nat} {env env₁ env₂ : Env} {n : Nat} {s s₁ s₂ : Span} {op : Op} {l r : Tree} {a b : Int64}
      {log₁ log₂ log : List Event} {o : Reply} :
      stopBefore? cfg n = none → Tells cfg (depth + 1) l env (n + 1) log₁ (.done (.num s₁ a) env₁) →
      Tells cfg (depth + 1) r env₁ (n + 1 + countSteps log₁) log₂ (.done (.num s₂ b) env₂) →
      Tells cfg depth (op.apply s a b) env₂ (n + 1 + countSteps (log₁ ++ log₂)) log o →
      Tells cfg depth (.binary s op l r) env n
        (.step (.binary s op l r) depth :: (log₁ ++ log₂ ++ log)) o
  | assigned {depth : Nat} {env env₁ : Env} {n : Nat} {s : Span} {x : String} {t w : Tree} {log₁ : List Event} :
      stopBefore? cfg n = none → Tells cfg (depth + 1) t env (n + 1) log₁ (.done w env₁) → w.value? = none →
      Tells cfg depth (.assign s x t) env n (.step (.assign s x t) depth :: log₁)
        (.halted (.fault ⟨.assigned w.typeName x, s⟩) env)
  | assign {depth : Nat} {env env₁ : Env} {n : Nat} {s : Span} {x : String} {t w : Tree} {v : Value}
      {log₁ log : List Event} {o : Reply} :
      stopBefore? cfg n = none → Tells cfg (depth + 1) t env (n + 1) log₁ (.done w env₁) → w.value? = some v →
      Tells cfg depth (.nothing s) (env₁.insert x v) (n + 1 + countSteps log₁) log o →
      Tells cfg depth (.assign s x t) env n
        (.step (.assign s x t) depth :: (log₁ ++ [.assign x v] ++ log)) o
  | condition {depth : Nat} {env env₁ : Env} {n : Nat} {s : Span} {c t e w : Tree} {log₁ : List Event} :
      stopBefore? cfg n = none → Tells cfg (depth + 1) c env (n + 1) log₁ (.done w env₁) →
      (∀ s₁ b, w ≠ .bool s₁ b) →
      Tells cfg depth (.ite s c t e) env n (.step (.ite s c t e) depth :: log₁)
        (.halted (.fault ⟨.condition w.typeName, s⟩) env)
  | ite {depth : Nat} {env env₁ : Env} {n : Nat} {s s₁ : Span} {c t e : Tree} {b : Bool}
      {log₁ log : List Event} {o : Reply} :
      stopBefore? cfg n = none → Tells cfg (depth + 1) c env (n + 1) log₁ (.done (.bool s₁ b) env₁) →
      Tells cfg depth (if b then t else e) env₁ (n + 1 + countSteps log₁) log o →
      Tells cfg depth (.ite s c t e) env n (.step (.ite s c t e) depth :: (log₁ ++ log)) o
  | seq {depth : Nat} {env env₁ : Env} {n : Nat} {s : Span} {a b w : Tree} {log₁ log : List Event} {o : Reply} :
      stopBefore? cfg n = none → Tells cfg (depth + 1) a env (n + 1) log₁ (.done w env₁) →
      Tells cfg depth b env₁ (n + 1 + countSteps log₁) log o →
      Tells cfg depth (.seq s a b) env n (.step (.seq s a b) depth :: (log₁ ++ log)) o
  | loop {depth : Nat} {env : Env} {n : Nat} {s : Span} {c b : Tree} {log : List Event} {o : Reply} :
      stopBefore? cfg n = none → Tells cfg depth (.unroll s c b) env (n + 1) log o →
      Tells cfg depth (.loop s c b) env n (.step (.loop s c b) depth :: log) o

namespace Engine

/-! ## The account of a run, event by event -/

/-- A log is what one account of a run has beyond another. -/
structure Adds (cfg : Settings) (p : Progress) (log : List Event) (q : Progress) : Prop where
  steps : q.steps = p.steps + countSteps log
  events : cfg.traced = true → q.events = log.reverse ++ p.events

namespace Adds

variable {cfg : Settings} {p q q' : Progress} {log log' : List Event}

theorem refl : Adds cfg p [] p := ⟨rfl, fun _ => rfl⟩

theorem trans (h : Adds cfg p log q) (h' : Adds cfg q log' q') : Adds cfg p (log ++ log') q' := by
  constructor
  · rw [h'.steps, h.steps, Event.countSteps_append, Nat.add_assoc]
  · intro htraced
    rw [h'.events htraced, h.events htraced, List.reverse_append, List.append_assoc]

/-- A step is counted and noted. -/
theorem step (t : Tree) (depth : Nat) : Adds cfg p [.step t depth] (p.step cfg t depth) := by
  constructor
  · rw [Progress.steps_step]
    rfl
  · intro htraced
    rw [Progress.events_step, if_pos htraced]
    rfl

/-- An assignment is noted. -/
theorem assign (name : String) (v : Value) : Adds cfg p [.assign name v] (p.note cfg (.assign name v)) := by
  constructor
  · rw [Progress.steps_note]
    rfl
  · intro htraced
    rw [Progress.events_note, if_pos htraced]
    rfl

end Adds

/-! ## Whatever happens is told -/

/-- The rules tell what an evaluation has added to the account of its run. -/
def Told (cfg : Settings) (depth : Nat) (t : Tree) (env : Env) (p : Progress) (x : Reply × Progress) : Prop :=
  ∃ log, Tells cfg depth t env p.steps log x.1 ∧ Adds cfg p log x.2

/-- The rules tell what a reduction has added after its step was counted; where it goes on, they do so with any
story of what comes next. -/
def ToldStep (cfg : Settings) (depth : Nat) (t : Tree) (env : Env) (n : Nat) (p : Progress)
    (x : Reply × Progress) : Prop :=
  ∃ log, Adds cfg p log x.2 ∧
    match x.1 with
    | .done next env' => ∀ log' o, Tells cfg depth next env' (n + 1 + countSteps log) log' o →
        Tells cfg depth t env n (.step t depth :: (log ++ log')) o
    | r => Tells cfg depth t env n (.step t depth :: log) (r.keeping env)

section

variable {cfg : Settings} {depth n : Nat} {env env₁ env₂ : Env} {p q : Progress} {s : Span}
  (hgo : stopBefore? cfg n = none)

include hgo in
/-- A part that breaks off ends the story of the whole. -/
theorem toldStep_of_first {t a : Tree} {log : List Event} {r : Reply} (hfirst : t.first? = some a)
    (htells : Tells cfg (depth + 1) a env (n + 1) log r) (hadds : Adds cfg p log q) (hr : r.isDone = false) :
    ToldStep cfg depth t env n p (r, q) := by
  have hwhole := Tells.first hgo hfirst htells hr
  refine ⟨log, hadds, ?_⟩
  cases r with
  | done v env' => cases hr
  | halted | unfinished => exact hwhole

include hgo in
theorem combine_toldStep {op : Op} {l r lv rv : Tree} {log₁ log₂ : List Event}
    (hl : Tells cfg (depth + 1) l env (n + 1) log₁ (.done lv env₁))
    (hr : Tells cfg (depth + 1) r env₁ (n + 1 + countSteps log₁) log₂ (.done rv env₂))
    (hadds : Adds cfg p (log₁ ++ log₂) q) :
    ToldStep cfg depth (.binary s op l r) env n p (Tree.combine op s lv rv env₂, q) := by
  unfold Tree.combine
  split
  · exact ⟨log₁ ++ log₂, hadds, fun log' o hnext => .binary hgo hl hr hnext⟩
  · next hne =>
    exact ⟨log₁ ++ log₂, hadds, .operands hgo hl hr fun s₁ s₂ a b hlv hrv => hne s₁ a s₂ b hlv hrv⟩

include hgo in
theorem choose_toldStep {c t e cv : Tree} {log : List Event}
    (hc : Tells cfg (depth + 1) c env (n + 1) log (.done cv env₁)) (hadds : Adds cfg p log q) :
    ToldStep cfg depth (.ite s c t e) env n p (Tree.choose s cv t e env₁, q) := by
  unfold Tree.choose
  split
  · exact ⟨log, hadds, fun log' o hnext => .ite hgo hc (by rw [if_pos rfl]; exact hnext)⟩
  · exact ⟨log, hadds, fun log' o hnext => .ite hgo hc (by rw [if_neg Bool.false_ne_true]; exact hnext)⟩
  · next htrue hfalse =>
    have hne : ∀ s₁ b, cv ≠ .bool s₁ b := by
      intro s₁ b hcv
      cases b with
      | true => exact htrue s₁ hcv
      | false => exact hfalse s₁ hcv
    exact ⟨log, hadds, .condition hgo hc hne⟩

variable {m : Machine Progress} (hm : ∀ a env p, Told cfg (depth + 1) a env p (m.eval a env p))

include hgo hm in
/-- The story of the first part begins the story of the whole; it remains to look at a part that completes. -/
theorem toldStep_of_done {t a : Tree} (hfirst : t.first? = some a) (hp : p.steps = n + 1)
    (hdone : ∀ v env₁ p₁ log, m.eval a env p = (.done v env₁, p₁) →
      Tells cfg (depth + 1) a env (n + 1) log (.done v env₁) → Adds cfg p log p₁ →
      ToldStep cfg depth t env n p (t.reduce m env p)) :
    ToldStep cfg depth t env n p (t.reduce m env p) := by
  obtain ⟨log, htells, hadds⟩ := hm a env p
  rw [hp] at htells
  rcases Tree.reduce_first t hfirst m env p with ⟨v, env₁, p₁, ha⟩ | ha
  · rw [ha] at htells hadds
    exact hdone v env₁ p₁ log ha htells hadds
  · by_cases hend : (m.eval a env p).1.isDone = true
    · rcases hr : m.eval a env p with ⟨⟨v, env₁⟩ | ⟨halt, env₁⟩ | _, p₁⟩ <;> rw [hr] at htells hadds hend
      · exact hdone v env₁ p₁ log hr htells hadds
      · cases hend
      · cases hend
    · rw [ha]
      exact toldStep_of_first hgo hfirst htells hadds (Bool.not_eq_true _ ▸ hend)

include hgo hm in
/-- Every reduction is told, if its operands are. -/
theorem reduce_told (hassigned : ∀ name v p, m.assigned name v p = p.note cfg (.assign name v)) {t : Tree}
    (ht : t.isReducible = true) (hp : p.steps = n + 1) :
    ToldStep cfg depth t env n p (t.reduce m env p) := by
  cases t with
  | absent | num | bool | nothing => cases ht
  | var s x =>
    refine ⟨[], ?_⟩
    rcases hv : env.get? x with _ | v
    · simp only [Tree.reduce, hv]
      exact ⟨.refl, .unbound hgo hv⟩
    · simp only [Tree.reduce, hv]
      exact ⟨.refl, fun log' o hnext => .var hgo hv hnext⟩
  | binary s op l r =>
    apply toldStep_of_done hgo hm rfl hp
    intro lv env₁ p₁ log₁ hml hl hadds₁
    obtain ⟨log₂, hr, hadds₂⟩ := hm r env₁ p₁
    have hboth : Adds cfg p (log₁ ++ log₂) (m.eval r env₁ p₁).2 := hadds₁.trans hadds₂
    rw [hadds₁.steps, hp] at hr
    rcases hmr : m.eval r env₁ p₁ with ⟨⟨rv, env₂⟩ | ⟨halt, env₂⟩ | _, p₂⟩ <;> rw [hmr] at hr hboth
    · simp only [Tree.reduce, hml, hmr]
      exact combine_toldStep hgo hl hr hboth
    · simp only [Tree.reduce, hml, hmr]
      exact ⟨log₁ ++ log₂, hboth, .right hgo hl hr rfl⟩
    · simp only [Tree.reduce, hml, hmr]
      exact ⟨log₁ ++ log₂, hboth, .right hgo hl hr rfl⟩
  | assign s x t =>
    apply toldStep_of_done hgo hm rfl hp
    intro w env₁ p₁ log₁ hmt ht hadds₁
    rcases hw : w.value? with _ | v
    · simp only [Tree.reduce, hmt, hw]
      exact ⟨log₁, hadds₁, .assigned hgo ht hw⟩
    · simp only [Tree.reduce, hmt, hw, hassigned]
      refine ⟨log₁ ++ [.assign x v], hadds₁.trans (.assign x v), fun log' o hnext => ?_⟩
      rw [Event.countSteps_append] at hnext
      exact .assign hgo ht hw hnext
  | ite s c t e =>
    apply toldStep_of_done hgo hm rfl hp
    intro cv env₁ p₁ log₁ hmc hc hadds₁
    simp only [Tree.reduce, hmc]
    exact choose_toldStep hgo hc hadds₁
  | seq s a b =>
    apply toldStep_of_done hgo hm rfl hp
    intro w env₁ p₁ log₁ hma ha hadds₁
    simp only [Tree.reduce, hma]
    exact ⟨log₁, hadds₁, fun log' o hnext => .seq hgo ha hnext⟩
  | loop s c b => exact ⟨[], .refl, fun log' o hnext => .loop hgo hnext⟩

end

/-- Whatever an evaluation does, the rules tell. -/
theorem eval_told (cfg : Settings) : ∀ (fuel depth : Nat) (t : Tree) (env : Env) (p : Progress),
    Told cfg depth t env p (eval cfg fuel depth t env p) := by
  refine eval_induct (fun depth t env p => ⟨[], .pause, .refl⟩)
    (fun depth t env p halt hs => ⟨[], .stopped hs, .refl⟩)
    (fun depth t env p hs ht => ⟨_, .normal hs ht, .step _ depth⟩) ?_
  intro fuel depth t env p hs ht hoperand hnext
  have hcounted : Adds cfg p [.step t depth] (p.step cfg t depth) := .step t depth
  have hreduce : ToldStep cfg depth t env p.steps (p.step cfg t depth)
      (t.reduce (machine cfg fuel depth) env (p.step cfg t depth)) :=
    reduce_told hs hoperand (fun _ _ _ => rfl) ht (p.steps_step cfg t depth)
  obtain ⟨log, hadds, hstep⟩ := hreduce
  have hsofar := hcounted.trans hadds
  rcases hr : t.reduce (machine cfg fuel depth) env (p.step cfg t depth) with
    ⟨⟨next, env'⟩ | ⟨halt, env'⟩ | _, q⟩ <;> rw [hr] at hstep hsofar
  · -- the story of what comes next follows that of the reduction
    obtain ⟨log', htells, hadds'⟩ := hnext next env' q
    have hq : q.steps = p.steps + 1 + countSteps log := by
      rw [hsofar.steps, Event.countSteps_append]
      simp only [Event.countSteps_step, Event.countSteps_nil]
      omega
    rw [hq] at htells
    have hwhole : Adds cfg p (.step t depth :: (log ++ log')) (eval cfg fuel depth next env' q).2 := by
      simpa using hsofar.trans hadds'
    exact ⟨_, hstep log' _ htells, hwhole⟩
  · exact ⟨_, hstep, hsofar⟩
  · exact ⟨_, hstep, hsofar⟩

end Engine

open Engine

/-- The log of a run is the story of its outermost evaluation, after the event that opens it and before the one
that closes it. -/
theorem Tree.execute_told (cfg : Settings) (fuel : Nat) (t : Tree) (env : Env) :
    let o := t.execute cfg fuel env
    ∃ log, Tells cfg 1 t env 0 log o.reply ∧ o.steps = countSteps log ∧
      (cfg.traced = true → o.events = .runStart t.orNothing :: log ++ closing true o.steps o.reply) := by
  simp only [Tree.execute_eq]
  obtain ⟨log, htells, hadds⟩ := eval_told cfg (cfg.limits.fuel fuel) 1 t env (opening cfg t)
  rw [steps_opening] at htells
  have hsteps := hadds.steps
  rw [steps_opening, Nat.zero_add] at hsteps
  refine ⟨log, htells, hsteps, fun htraced => ?_⟩
  have hevents := hadds.events htraced
  rw [events_opening htraced] at hevents
  unfold outermost
  rw [hevents, htraced, List.reverse_append, List.reverse_reverse]
  rfl

end WhileLang
