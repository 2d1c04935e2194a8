import Mathlib.Logic.Relation
import WhileLang.Proofs.Engine.Eval

/-!
# What an evaluation does on its way

However deep evaluations are nested, only two things ever happen: a step is counted, or a name is bound and
the binding is noted. `Move` says so once, and every answer of the engine lies at the end of a series of moves
(`eval_along`). What a single move keeps, a whole run keeps, and the environment is always the initial one after the
assignments that were noted (`Moves.env_eq_after`).

An evaluation that halts has made its moves too, but it falls back on an environment that it held before the
last of them.
-/

namespace WhileLang

/-- Whether an event is a step. -/
def Event.isStep : Event → Bool
  | .step _ _ => true
  | _ => false

/-- Whether an event is an assignment. -/
def Event.isAssign : Event → Bool
  | .assign _ _ => true
  | _ => false

/-- The binding that an event tells of. -/
def Event.assignment? : Event → Option (String × Value)
  | .assign name v => some (name, v)
  | _ => none

/-- The environment with the bindings that a log tells of, in the order of the log. -/
def Env.after (env : Env) (log : List Event) : Env :=
  (log.filterMap Event.assignment?).foldl (fun env b => env.insert b.1 b.2) env

theorem Env.after_append (env : Env) (l l' : List Event) : env.after (l ++ l') = (env.after l).after l' := by
  rw [after, List.filterMap_append, List.foldl_append]
  rfl

namespace Progress

variable (p : Progress) (cfg : Settings)

@[simp] theorem steps_note (e : Event) : (p.note cfg e).steps = p.steps := by
  unfold note
  split <;> rfl

@[simp] theorem steps_step (t : Tree) (depth : Nat) : (p.step cfg t depth).steps = p.steps + 1 := by
  rw [step, steps_note]

theorem events_note (e : Event) :
    (p.note cfg e).events = if cfg.traced then e :: p.events else p.events := by
  unfold note
  split <;> rfl

theorem events_step (t : Tree) (depth : Nat) :
    (p.step cfg t depth).events = if cfg.traced then .step t depth :: p.events else p.events := by
  rw [step, events_note]

end Progress

namespace Engine

/-- From one moment of a run to the next: a step is allowed and counted, or a name is bound. -/
inductive Move (cfg : Settings) : Env × Progress → Env × Progress → Prop
  | step {env : Env} {p : Progress} (t : Tree) (depth : Nat) (h : stopBefore? cfg p.steps = none) :
      Move cfg (env, p) (env, p.step cfg t depth)
  | assign {env : Env} {p : Progress} (name : String) (v : Value) :
      Move cfg (env, p) (env.insert name v, p.note cfg (.assign name v))

/-- A series of moves. -/
abbrev Moves (cfg : Settings) : Env × Progress → Env × Progress → Prop := Relation.ReflTransGen (Move cfg)

/-- Moves lead to an answer. One that halted names an environment from somewhere on the way. -/
def Along (cfg : Settings) (env : Env) (p : Progress) : Reply × Progress → Prop
  | (.done _ env', q) => Moves cfg (env, p) (env', q)
  | (.halted _ env', q) =>
    ∃ p₁ env₁, Moves cfg (env, p) (env', p₁) ∧ Moves cfg (env', p₁) (env₁, q)
  | (.unfinished, q) => ∃ env₁, Moves cfg (env, p) (env₁, q)

section

variable {cfg : Settings} {env env₁ : Env} {p p₁ : Progress} {r : Reply × Progress}

/-- Some moves lead to an answer, whatever environment it names. -/
theorem Along.moves (h : Along cfg env p r) : ∃ env₁, Moves cfg (env, p) (env₁, r.2) := by
  obtain ⟨⟨v, env'⟩ | ⟨halt, env'⟩ | _, q⟩ := r
  · exact ⟨env', h⟩
  · obtain ⟨p₁, env₁, h₁, h₂⟩ := h
    exact ⟨env₁, h₁.trans h₂⟩
  · exact h

/-- An answer that follows some moves. -/
theorem Along.after (hmoves : Moves cfg (env, p) (env₁, p₁)) (h : Along cfg env₁ p₁ r) :
    Along cfg env p r := by
  obtain ⟨⟨v, env'⟩ | ⟨halt, env'⟩ | _, q⟩ := r
  · exact hmoves.trans h
  · obtain ⟨p₂, env₂, h₁, h₂⟩ := h
    exact ⟨p₂, env₂, hmoves.trans h₁, h₂⟩
  · obtain ⟨env₂, h₂⟩ := h
    exact ⟨env₂, hmoves.trans h₂⟩

/-- An answer that names the environment at hand. -/
theorem Along.done {t : Tree} : Along cfg env p (.done t env, p) := Relation.ReflTransGen.refl

theorem Along.halted {halt : Halt} : Along cfg env p (.halted halt env, p) :=
  ⟨p, env, .refl, .refl⟩

/-- A reduction whose operands are evaluated along moves is made of moves itself. -/
theorem Along.of_course {m : Machine Progress} (hm : ∀ t env p, Along cfg env p (m.eval t env p))
    (hassigned : ∀ name v p, m.assigned name v p = p.note cfg (.assign name v))
    (h : Tree.Course m env p r) : Along cfg env p r := by
  induction h with
  | done => exact .done
  | halted => exact .halted
  | bound next name v =>
    rw [hassigned]
    exact .after (.single (.assign name v)) .done
  | operand a => exact hm a _ _
  | @after env _ p _ a _ _ ha _ ih =>
    have hmoves := hm a env p
    rw [ha] at hmoves
    exact .after hmoves ih

end

/-- Every evaluation comes to its answer along moves. -/
theorem eval_along (cfg : Settings) : ∀ (fuel depth : Nat) (t : Tree) (env : Env) (p : Progress),
    Along cfg env p (eval cfg fuel depth t env p) := by
  refine eval_induct (fun depth t env p => ⟨env, .refl⟩) (fun depth t env p halt _ => .halted) ?_ ?_
  · intro depth t env p hs ht
    exact .single (.step _ _ hs)
  · intro fuel depth t env p hs ht hoperand hnext
    have hfirst : Moves cfg (env, p) (env, p.step cfg t depth) := .single (.step _ _ hs)
    have hstep := Along.of_course hoperand (fun _ _ _ => rfl)
      (t.reduce_course (machine cfg fuel depth) env (p.step cfg t depth))
    rcases hr : t.reduce (machine cfg fuel depth) env (p.step cfg t depth) with
      ⟨⟨next, env'⟩ | ⟨halt, env'⟩ | _, q⟩ <;> rw [hr] at hstep
    · exact .after (hfirst.trans hstep) (hnext next env' q)
    · -- whatever the reduction held when it halted, the environment before the step is named
      obtain ⟨env₁, hmoves⟩ := hstep.moves
      exact ⟨p, env₁, .refl, hfirst.trans hmoves⟩
    · exact .after hfirst hstep

/-- So does every reduction that the engine makes. -/
theorem machine_along (cfg : Settings) (fuel depth : Nat) (t : Tree) (env : Env) (p : Progress) :
    Along cfg env p (t.reduce (machine cfg fuel depth) env p) :=
  .of_course (eval_along cfg fuel (depth + 1)) (fun _ _ _ => rfl) (t.reduce_course _ env p)

/-! ## What moves keep -/

section

variable {cfg : Settings} {a b : Env × Progress}

/-- Moves add to the log, and nothing but steps and assignments. A traced run logs as many steps as it
counts. -/
theorem Moves.log (h : Moves cfg a b) :
    ∃ l, b.2.events = l ++ a.2.events ∧ (∀ e ∈ l, e.isStep = true ∨ e.isAssign = true) ∧
      (cfg.traced = true → b.2.steps = a.2.steps + l.countP Event.isStep) := by
  induction h with
  | refl => exact ⟨[], rfl, by simp, by simp⟩
  | tail _ hmove ih =>
    obtain ⟨l, hevents, hall, hsteps⟩ := ih
    cases hmove with
    | @step env p t depth _ =>
      by_cases htraced : cfg.traced = true
      · refine ⟨.step t depth :: l, ?_, List.forall_mem_cons.2 ⟨.inl rfl, hall⟩, fun _ => ?_⟩
        · rw [Progress.events_step, if_pos htraced, hevents, List.cons_append]
        · rw [Progress.steps_step, hsteps htraced, List.countP_cons_of_pos rfl, Nat.add_assoc]
      · refine ⟨l, ?_, hall, fun h => absurd h htraced⟩
        rw [Progress.events_step, if_neg htraced, hevents]
    | @assign env p name v =>
      by_cases htraced : cfg.traced = true
      · refine ⟨.assign name v :: l, ?_, List.forall_mem_cons.2 ⟨.inr rfl, hall⟩, fun _ => ?_⟩
        · rw [Progress.events_note, if_pos htraced, hevents, List.cons_append]
        · rw [Progress.steps_note, hsteps htraced, List.countP_cons_of_neg (by simp [Event.isStep])]
      · refine ⟨l, ?_, hall, fun h => absurd h htraced⟩
        rw [Progress.events_note, if_neg htraced, hevents]

/-- Moves do to the environment what their log tells. -/
theorem Moves.env_eq_after (htraced : cfg.traced = true) (h : Moves cfg a b) :
    ∀ l, b.2.events = l ++ a.2.events → b.1 = a.1.after l.reverse := by
  induction h with
  | refl =>
    intro l hl
    rw [List.self_eq_append_left.1 hl]
    rfl
  | tail hmoves hmove ih =>
    intro l hl
    obtain ⟨l₀, hlog, -⟩ := Moves.log hmoves
    have hbefore := ih l₀ hlog
    -- the move adds one event to the log so far
    cases hmove with
    | @step env p t depth _ =>
      rw [Progress.events_step, if_pos htraced, hlog, ← List.cons_append] at hl
      rw [← List.append_cancel_right hl, List.reverse_cons, Env.after_append, ← hbefore]
      rfl
    | @assign env p name v =>
      rw [Progress.events_note, if_pos htraced, hlog, ← List.cons_append] at hl
      rw [← List.append_cancel_right hl, List.reverse_cons, Env.after_append, ← hbefore]
      rfl

theorem Moves.steps_le (h : Moves cfg a b) : a.2.steps ≤ b.2.steps := by
  induction h with
  | refl => exact Nat.le_refl _
  | tail _ hmove ih =>
    cases hmove with
    | step t depth _ =>
      rw [Progress.steps_step]
      exact Nat.le_succ_of_le ih
    | assign name v =>
      rw [Progress.steps_note]
      exact ih

/-- A step is taken only below the limit. -/
theorem lt_of_stopBefore?_none {m : Int} {steps : Nat} (hmax : cfg.limits.maxSteps = some m)
    (h : stopBefore? cfg steps = none) : (steps : Int) < m := by
  unfold stopBefore? at h
  rw [hmax] at h
  split at h
  · cases h
  · cases h
  · simp only at h
    split at h
    · cases h
    · omega

/-- Moves do not go beyond the step limit. -/
theorem Moves.steps_le_limit {m : Int} (hmax : cfg.limits.maxSteps = some m) (h : Moves cfg a b) :
    a.2.steps ≤ m.toNat → b.2.steps ≤ m.toNat := by
  intro hstart
  induction h with
  | refl => exact hstart
  | tail _ hmove ih =>
    cases hmove with
    | step t depth hfree =>
      have hlt := lt_of_stopBefore?_none hmax hfree
      rw [Progress.steps_step]
      omega
    | assign name v =>
      rw [Progress.steps_note]
      exact ih

end

/-! ## Whole runs -/

/-- The account of a run before its outermost evaluation. -/
def opening (cfg : Settings) (t : Tree) : Progress := ({} : Progress).note cfg (.runStart t.orNothing)

@[simp] theorem steps_opening (cfg : Settings) (t : Tree) : (opening cfg t).steps = 0 := by
  rw [opening, Progress.steps_note]

theorem events_opening {cfg : Settings} (htraced : cfg.traced = true) (t : Tree) :
    (opening cfg t).events = [.runStart t.orNothing] := by
  rw [opening, Progress.events_note, if_pos htraced]

/-- The event that closes a run, if it is traced and has come to an end. -/
def closing (traced : Bool) (steps : Nat) : Reply → List Event
  | .done v env => if traced then [.runEnd v env steps] else []
  | .halted halt _ => if traced then [halt.event] else []
  | .unfinished => []

/-- The outermost evaluation of a run. -/
def outermost (cfg : Settings) (fuel : Nat) (t : Tree) (env : Env) : Reply × Progress :=
  eval cfg (cfg.limits.fuel fuel) 1 t env (opening cfg t)

theorem outermost_along (cfg : Settings) (fuel : Nat) (t : Tree) (env : Env) :
    Along cfg env (opening cfg t) (outermost cfg fuel t env) :=
  eval_along cfg (cfg.limits.fuel fuel) 1 t env (opening cfg t)

/-- The log of a traced run, the latest event first: after its opening, steps and assignments only, and as
many steps as are counted. -/
theorem outermost_log (cfg : Settings) (htraced : cfg.traced = true) (fuel : Nat) (t : Tree) (env : Env) :
    ∃ l, (outermost cfg fuel t env).2.events = l ++ [.runStart t.orNothing] ∧
      (∀ e ∈ l, e.isStep = true ∨ e.isAssign = true) ∧
      l.countP Event.isStep = (outermost cfg fuel t env).2.steps := by
  obtain ⟨env₁, hmoves⟩ := (outermost_along cfg fuel t env).moves
  obtain ⟨l, hevents, hall, hsteps⟩ := hmoves.log
  have hcount := hsteps htraced
  simp only at hevents hcount
  rw [events_opening htraced] at hevents
  rw [steps_opening, Nat.zero_add] at hcount
  exact ⟨l, hevents, hall, hcount.symm⟩

end Engine

open Engine in
/-- A run is its outermost evaluation between the event that opens it and the one that closes it. -/
theorem Tree.execute_eq (cfg : Settings) (fuel : Nat) (t : Tree) (env : Env) :
    t.execute cfg fuel env =
      { reply := (outermost cfg fuel t env).1
        steps := (outermost cfg fuel t env).2.steps
        events := (outermost cfg fuel t env).2.events.reverse ++
          closing cfg.traced (outermost cfg fuel t env).2.steps (outermost cfg fuel t env).1 } := by
  have hclose : ∀ (p : Progress) (e : Event), (p.note cfg e).events.reverse =
      p.events.reverse ++ if cfg.traced then [e] else [] := by
    intro p e
    rw [Progress.events_note]
    split
    · rw [List.reverse_cons]
    · rw [List.append_nil]
  have hsame : outermost cfg fuel t env =
      eval cfg (cfg.limits.fuel fuel) 1 t.orNothing env (({} : Progress).note cfg (.runStart t.orNothing)) :=
    eval_orNothing.symm
  rw [hsame]
  rcases hq : eval cfg (cfg.limits.fuel fuel) 1 t.orNothing env
      (({} : Progress).note cfg (.runStart t.orNothing)) with ⟨⟨v, env'⟩ | ⟨halt, env'⟩ | _, p⟩
  · simp only [Tree.execute, hq, hclose, Progress.steps_note, closing]
  · simp only [Tree.execute, hq, hclose, Progress.steps_note, closing]
  · simp only [Tree.execute, hq, closing, List.append_nil]

end WhileLang
