import WhileLang.Proofs.Engine.Limit
import WhileLang.Proofs.Unplaced
import WhileLang.Proofs.Yaml.Plain

/-!
# Replaying the log of a run

The log of a traced run tells all that happened to the environment. `Env.replay` reads the assignments back
from what is written of them, a name and a text, and makes them once more. Over the environment that the run
started from this leads to the one that it returns, and to the one that survives a halt if it is broken off in
time.
-/

namespace WhileLang

/-- The value that a text denotes, at no position. -/
def Value.ofText? (s : String) : Option Value :=
  match Yaml.Plain.resolve false s with
  | .int n => some (.num Span.none (Int64.ofInt n))
  | .bool b => some (.bool Span.none b)
  | _ => none

/-- The text of a value denotes it. -/
theorem Value.ofText?_text (v : Value) : ofText? v.text = some v.unplaced := by
  cases v with
  | num span n =>
    have hresolve := Yaml.Plain.resolve_toString (Text.fits64_toInt n)
    simp only [ofText?, text, hresolve, Int64.ofInt_toInt]
    rfl
  | bool span b =>
    cases b with
    | false =>
      show ofText? "false" = some (.bool Span.none false)
      decide +kernel
    | true =>
      show ofText? "true" = some (.bool Span.none true)
      decide +kernel

/-- The binding that an event tells of, as far as its details say. -/
def Event.binding? (e : Event) : Option (String × Value) :=
  if e.name = "assign" then do
    let name ← e.data.lookup "name"
    let text ← e.data.lookup "value"
    let v ← Value.ofText? text
    return (name, v)
  else none

/-- What is written of an event tells its binding, up to positions. -/
theorem Event.binding?_eq (e : Event) : e.binding? = e.assignment?.map fun b => (b.1, b.2.unplaced) := by
  cases e with
  | assign name v =>
    have hvalue : (Event.assign name v).data.lookup "value" = some v.text := rfl
    simp only [binding?, hvalue]
    show (Value.ofText? v.text).bind _ = _
    rw [Value.ofText?_text]
    rfl
  | _ => rfl

/-- The environment with the bindings that are written in a log, in the order of the log. -/
def Env.replay (env : Env) (log : List Event) : Env :=
  (log.filterMap Event.binding?).foldl (fun env b => env.insert b.1 b.2) env

open Bindings (unplaced)

/-- What is written of the assignments leads to the same environment, up to positions, as the assignments do. -/
theorem Env.unplaced_replay (env : Env) (log : List Event) :
    unplaced (env.replay log).bindings = unplaced (env.after log).bindings := by
  have hbindings : log.filterMap Event.binding? = unplaced (log.filterMap Event.assignment?) := by
    rw [unplaced, List.map_filterMap]
    exact List.filterMap_congr fun e _ => e.binding?_eq
  rw [replay, after, hbindings]
  have hwritten := unplaced_foldl_insert (unplaced (log.filterMap Event.assignment?)) env
    ⟨unplaced env.bindings, env.sorted_unplaced⟩ rfl
  have hmade := unplaced_foldl_insert (log.filterMap Event.assignment?) env
    ⟨unplaced env.bindings, env.sorted_unplaced⟩ rfl
  rw [hwritten, hmade, Bindings.unplaced_unplaced]

namespace Engine

/-- Up to positions, moves do to the environment what is written of them. -/
theorem Moves.replay {cfg : Settings} (htraced : cfg.traced = true) {a b : Env × Progress}
    (h : Moves cfg a b) {l : List Event} (hl : b.2.events = l ++ a.2.events) :
    unplaced b.1.bindings = unplaced (a.1.replay l.reverse).bindings := by
  rw [Env.unplaced_replay, ← h.env_eq_after htraced l hl]

/-- The log of a traced run, in order: an opening, then steps and assignments only, and as many steps as are
counted. Replayed in full it leads to what the run returns; where the run halts, a beginning of it leads to
what survives. -/
theorem outermost_replay (cfg : Settings) (htraced : cfg.traced = true) (fuel : Nat) (t : Tree) (env : Env) :
    ∃ log : List Event, (outermost cfg fuel t env).2.events.reverse = .runStart t.orNothing :: log ∧
      (∀ e ∈ log, e.isStep = true ∨ e.isAssign = true) ∧
      log.countP Event.isStep = (outermost cfg fuel t env).2.steps ∧
      match (outermost cfg fuel t env).1 with
      | .done _ env' => (env.replay log).same env' = true
      | .halted _ env' => ∃ part, part <+: log ∧ (env.replay part).same env' = true
      | .unfinished => True := by
  obtain ⟨l, hevents, hall, hcount⟩ := outermost_log cfg htraced fuel t env
  have halong := outermost_along cfg fuel t env
  refine ⟨l.reverse, ?_, ?_, ?_, ?_⟩
  · rw [hevents, List.reverse_append]
    rfl
  · intro e he
    exact hall e (List.mem_reverse.1 he)
  · rw [List.countP_reverse, hcount]
  · rcases hq : outermost cfg fuel t env with ⟨⟨v, env'⟩ | ⟨halt, env'⟩ | _, q⟩ <;>
      rw [hq] at halong hevents <;> simp only at hevents ⊢
    · have hsame := Moves.replay htraced halong (events_opening htraced t ▸ hevents)
      exact Env.same_of_unplaced hsame.symm
    · -- the log is cut where the environment that survives was left behind
      obtain ⟨p₁, env₁, hbefore, hafter⟩ := halong
      obtain ⟨l₁, hlog₁, -⟩ := hbefore.log
      obtain ⟨l₂, hlog₂, -⟩ := hafter.log
      simp only at hlog₁ hlog₂
      have hl : l = l₂ ++ l₁ := by
        rw [hlog₂, hlog₁, events_opening htraced, ← List.append_assoc] at hevents
        exact (List.append_cancel_right hevents).symm
      refine ⟨l₁.reverse, ?_, Env.same_of_unplaced (Moves.replay htraced hbefore hlog₁).symm⟩
      rw [hl, List.reverse_append]
      exact List.prefix_append _ _

end Engine

open Engine

/-- The log of a run is faithful. One event opens it, one closes it according to how the run ended, and
between them there are only steps, as many as the run counts, and assignments. Made once more over the initial
environment, the assignments lead to the environment that the run returns, and some of the first of them lead
to the one that is left when it halts. What is added to events when they are written, a time and the name of
the run, plays no part in this. A run with a step limit always ends. -/
theorem execute_log (cfg : Settings) (fuel : Nat) (t : Tree) (env : Env) :
    let o := t.execute { cfg with traced := true } fuel env
    (cfg.limits.maxSteps ≠ none → o.reply ≠ .unfinished) ∧
    ∃ log : List Event, (∀ e ∈ log, e.isStep = true ∨ e.isAssign = true) ∧
      log.countP Event.isStep = o.steps ∧
      match o.reply with
      | .done v env' =>
        o.events = .runStart t.orNothing :: log ++ [.runEnd v env' o.steps] ∧
          (env.replay log).same env' = true
      | .halted halt env' =>
        o.events = .runStart t.orNothing :: log ++
            [if halt.isBudget then .budgetExceeded halt.message else .error halt.message] ∧
          ∃ part, part <+: log ∧ (env.replay part).same env' = true
      | .unfinished => o.events = .runStart t.orNothing :: log := by
  simp only [Tree.execute_eq]
  refine ⟨fun hlimited => ?_, ?_⟩
  · obtain ⟨m, hm⟩ := Option.ne_none_iff_exists'.1 hlimited
    have hmax : { cfg with traced := true }.limits.maxSteps = some m := hm
    exact outermost_ne_unfinished hmax t env fuel
  · obtain ⟨log, hevents, hall, hcount, hreplay⟩ :=
      outermost_replay { cfg with traced := true } rfl fuel t env
    refine ⟨log, hall, hcount, ?_⟩
    rcases hq : outermost { cfg with traced := true } fuel t env with ⟨⟨v, env'⟩ | ⟨halt, env'⟩ | _, q⟩ <;>
      rw [hq] at hevents hreplay <;> simp only at hevents hreplay ⊢
    · refine ⟨?_, hreplay⟩
      rw [hevents]
      rfl
    · refine ⟨?_, hreplay⟩
      rw [hevents]
      rfl
    · rw [hevents, closing, List.append_nil]

end WhileLang
