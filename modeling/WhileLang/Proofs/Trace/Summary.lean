import Mathlib.Algebra.GroupWithZero.Nat
import WhileLang.Proofs.Engine.Depth
import WhileLang.Proofs.Engine.Limit
import WhileLang.Proofs.Trace.Line

/-!
# A summary agrees with its run

The summary of a trace is worked out from texts alone, line by line, and yet says of the run what the rules of
evaluation say: how many steps it took and on what, how many values it bound, how deep it went, and how it ended.
`Tally` is what holds of a summary while the lines of a run are taken in; one step or assignment more keeps it
(`Tally.step`, `Tally.assign`), so all of them do (`Tally.moves`), and the event that closes the run adds its end.
-/

namespace WhileLang

open Event (countSteps)

/-- The text of a number below 2^63 is read as this number. -/
theorem Text.int64?_toString {n : Nat} (hn : n < 9223372036854775808) :
    int64? (toString n).toList = some (n : Int) := by
  have hdigit : ∀ c ∈ Nat.toDigits 10 n, c.isDigit = true :=
    fun c hc => Nat.isDigit_of_mem_toDigits (by omega) (by omega) hc
  have hdigits : digits? (Nat.toDigits 10 n) = some n := by
    have hempty : (Nat.toDigits 10 n).isEmpty = false := by simp [Nat.toDigits_ne_nil]
    have hother : (Nat.toDigits 10 n).any (fun c => !c.isDigit) = false := by
      rw [List.any_eq_false]
      intro c hc
      simp [hdigit c hc]
    rw [digits?, hempty, hother]
    exact congrArg some Nat.ofDigitChars_ten_toDigits
  have hinteger : integer? (Nat.toDigits 10 n) = some (n : Int) := by
    unfold integer?
    split
    · next heq => exact absurd (hdigit '-' (heq ▸ List.mem_cons_self)) (by decide)
    · next heq => exact absurd (hdigit '+' (heq ▸ List.mem_cons_self)) (by decide)
    · rw [hdigits]
      rfl
  have htext : (toString n).toList = Nat.toDigits 10 n := Nat.toList_repr
  have hfits : fits64 (n : Int) = true := by
    rw [fits64, Bool.and_eq_true, decide_eq_true_eq, decide_eq_true_eq]
    omega
  rw [int64?, htext, hinteger, Option.filter_some, if_pos hfits]

namespace Event

/-- Whether an event is a step on a kind of tree. -/
def isStepOn (kind : String) : Event → Bool
  | .step t _ => t.kind == kind
  | _ => false

/-- The largest depth of the steps of a log; zero if there are none. -/
def Deepest (log : List Event) (d : Int) : Prop :=
  IsGreatest {k : Int | k = 0 ∨ ∃ (u : Tree) (n : Nat), .step u n ∈ log ∧ k = n} d

theorem deepest_nil : Deepest [] 0 := by
  refine ⟨.inl rfl, ?_⟩
  rintro k (rfl | ⟨u, n, hmem, -⟩)
  · exact Int.le_refl 0
  · exact absurd hmem List.not_mem_nil

theorem Deepest.step {log : List Event} {d : Int} (h : Deepest log d) (t : Tree) (depth : Nat) :
    Deepest (log ++ [.step t depth]) (max d depth) := by
  constructor
  · rcases Int.le_total d depth with hle | hle
    · rw [Int.max_eq_right hle]
      exact .inr ⟨t, depth, by simp, rfl⟩
    · rw [Int.max_eq_left hle]
      exact h.1.imp_right fun ⟨u, n, hmem, hn⟩ => ⟨u, n, List.mem_append_left _ hmem, hn⟩
  · rintro k (rfl | ⟨u, n, hmem, rfl⟩)
    · exact Int.le_trans (h.2 (.inl rfl)) (Int.le_max_left d depth)
    · rcases List.mem_append.1 hmem with hmem | hmem
      · exact Int.le_trans (h.2 (.inr ⟨u, n, hmem, rfl⟩)) (Int.le_max_left d depth)
      · cases List.mem_singleton.1 hmem
        exact Int.le_max_right d depth

theorem Deepest.assign {log : List Event} {d : Int} (h : Deepest log d) (name : String) (v : Value) :
    Deepest (log ++ [.assign name v]) d := by
  have hsame : ∀ u n, .step u n ∈ log ++ [.assign name v] ↔ .step u n ∈ log := by simp
  simp only [Deepest, hsame]
  exact h

end Event

namespace Trace.Summary

/-! ## Counting by kind -/

/-- The counts are in increasing order of their kinds. -/
def Ordered (l : List (String × Nat)) : Prop := l.Pairwise fun a b => a.1 < b.1

theorem sum_count (kind : String) (l : List (String × Nat)) :
    ((count kind l).map Prod.snd).sum = (l.map Prod.snd).sum + 1 := by
  induction l with
  | nil => rfl
  | cons p rest ih =>
    obtain ⟨k, n⟩ := p
    rw [count]
    split
    · simp only [List.map_cons, List.sum_cons]
      omega
    · split
      · simp only [List.map_cons, List.sum_cons]
        omega
      · simp only [List.map_cons, List.sum_cons, ih]
        omega

theorem mem_count {kind : String} {l : List (String × Nat)} {b : String × Nat} (h : b ∈ count kind l) :
    b.1 = kind ∨ ∃ b' ∈ l, b'.1 = b.1 := by
  induction l with
  | nil =>
    rw [List.mem_singleton.1 h]
    exact .inl rfl
  | cons p rest ih =>
    obtain ⟨k, n⟩ := p
    rw [count] at h
    split at h
    · rcases List.mem_cons.1 h with rfl | h
      · exact .inl rfl
      · exact .inr ⟨b, h, rfl⟩
    · split at h
      · next heq =>
        rcases List.mem_cons.1 h with rfl | h
        · exact .inl heq.symm
        · exact .inr ⟨b, List.mem_cons_of_mem _ h, rfl⟩
      · rcases List.mem_cons.1 h with rfl | h
        · exact .inr ⟨(k, n), List.mem_cons_self, rfl⟩
        · exact (ih h).imp_right fun ⟨b', hmem, heq⟩ => ⟨b', List.mem_cons_of_mem _ hmem, heq⟩

/-- Counting keeps the order. -/
theorem Ordered.count {l : List (String × Nat)} (h : Ordered l) (kind : String) : Ordered (count kind l) := by
  induction l with
  | nil => exact List.pairwise_singleton _ _
  | cons p rest ih =>
    obtain ⟨k, n⟩ := p
    obtain ⟨hk, hrest⟩ := List.pairwise_cons.1 h
    rw [Summary.count]
    split
    · next hlt =>
      refine List.pairwise_cons.2 ⟨fun b hb => ?_, h⟩
      rcases List.mem_cons.1 hb with rfl | hb
      · exact hlt
      · exact String.lt_trans hlt (hk b hb)
    · split
      · exact List.pairwise_cons.2 ⟨hk, hrest⟩
      · next hlt hne =>
        refine List.pairwise_cons.2 ⟨fun b hb => ?_, ih hrest⟩
        rcases mem_count hb with heq | ⟨b', hmem, heq⟩
        · have hgt : k < kind := Std.lt_of_le_of_ne (Std.not_lt.1 hlt) (Ne.symm hne)
          rw [heq]
          exact hgt
        · rw [← heq]
          exact hk b' hmem

/-- What comes after all counts is not among them. -/
theorem lookup_eq_none {kind : String} {l : List (String × Nat)} (h : ∀ b ∈ l, kind < b.1) :
    l.lookup kind = none := by
  rw [List.lookup_eq_none_iff]
  intro b hb
  rw [bne_iff_ne]
  rintro rfl
  exact String.lt_irrefl _ (h b hb)

/-- Counting one of a kind adds one to that kind and leaves the others. -/
theorem lookup_count {l : List (String × Nat)} (h : Ordered l) (kind x : String) :
    ((count kind l).lookup x).getD 0 = (l.lookup x).getD 0 + if kind = x then 1 else 0 := by
  induction l with
  | nil =>
    by_cases hx : kind = x
    · simp [count, hx]
    · simp [count, hx, List.lookup_cons, beq_eq_false_iff_ne.2 (Ne.symm hx)]
  | cons p rest ih =>
    obtain ⟨k, n⟩ := p
    obtain ⟨hk, hrest⟩ := List.pairwise_cons.1 h
    by_cases hx : kind = x
    · subst hx
      rw [count]
      split
      · next hlt =>
        -- all that was counted comes later
        have hnone : ((k, n) :: rest).lookup kind = none := by
          refine lookup_eq_none fun b hb => ?_
          rcases List.mem_cons.1 hb with rfl | hb
          · exact hlt
          · exact String.lt_trans hlt (hk b hb)
        rw [hnone, List.lookup_cons_self, if_pos rfl]
        rfl
      · split
        · next heq => simp [heq]
        · next hne =>
          have hbeq : (kind == k) = false := beq_eq_false_iff_ne.2 hne
          simp only [List.lookup_cons, hbeq, ih hrest]
    · have hbeq : (x == kind) = false := beq_eq_false_iff_ne.2 (Ne.symm hx)
      rw [count, if_neg hx, Nat.add_zero]
      split
      · simp [List.lookup_cons, hbeq]
      · split
        · next heq => simp [List.lookup_cons, ← heq, hbeq]
        · by_cases hxk : x = k
          · simp [hxk]
          · have hxk : (x == k) = false := beq_eq_false_iff_ne.2 hxk
            simp only [List.lookup_cons, hxk, ih hrest, if_neg hx, Nat.add_zero]

/-! ## Line by line -/

/-- A summary has counted the steps and assignments of a log, and so many other events of the run. -/
structure Counts (runId : String) (log : List Event) (others : Nat) (s : Summary) : Prop where
  runId : s.runId = runId
  totalEvents : s.totalEvents = s.steps + s.assignments + others
  steps : s.steps = countSteps log
  assignments : s.assignments = log.countP Event.isAssign
  ordered : Ordered s.stepsByKind
  byKind : ∀ kind, (s.stepsByKind.lookup kind).getD 0 = log.countP (Event.isStepOn kind)
  kinds : (s.stepsByKind.map Prod.snd).sum = s.steps
  maxDepth : (∀ u d, .step u d ∈ log → d < 9223372036854775808) → Event.Deepest log s.maxDepth

/-- What holds of a summary when the start of a run and the steps and assignments of a log have been taken in. -/
structure Tally (runId : String) (log : List Event) (s : Summary) : Prop extends Counts runId log 1 s where
  errors : s.errors = 0
  budgetExceeded : s.budgetExceeded = 0
  result : s.result = ""

namespace Tally

variable {runId : String} {log : List Event} {s : Summary}

theorem start (time runId : String) (program : Tree) :
    Tally runId [] (add {} (Entry.ofEvent time runId (.runStart program))) where
  runId := rfl
  totalEvents := rfl
  steps := rfl
  assignments := rfl
  ordered := List.Pairwise.nil
  byKind _ := rfl
  kinds := rfl
  maxDepth _ := Event.deepest_nil
  errors := rfl
  budgetExceeded := rfl
  result := rfl

/-- The name of the run stays what it is. -/
theorem runId_add (h : Tally runId log s) : (if s.runId = "" then runId else s.runId) = runId := by
  split
  · rfl
  · exact h.runId

/-- A step is counted, by its kind too, and its depth is noted. -/
theorem step (h : Tally runId log s) (time : String) (t : Tree) (depth : Nat) :
    Tally runId (log ++ [.step t depth]) (s.add (Entry.ofEvent time runId (.step t depth))) where
  runId := h.runId_add
  totalEvents := by
    have htotal := h.totalEvents
    show s.totalEvents + 1 = s.steps + 1 + s.assignments + 1
    omega
  steps := by
    rw [Event.countSteps_append]
    exact congrArg (· + 1) h.steps
  assignments := by
    rw [List.countP_append]
    exact h.assignments
  ordered := h.ordered.count t.kind
  byKind kind := by
    have hcount := lookup_count h.ordered t.kind kind
    show ((count t.kind s.stepsByKind).lookup kind).getD 0 = _
    rw [hcount, h.byKind, List.countP_append, List.countP_singleton]
    simp [Event.isStepOn]
  kinds := by
    show ((count t.kind s.stepsByKind).map Prod.snd).sum = s.steps + 1
    rw [sum_count, h.kinds]
  maxDepth hfits := by
    have hdepth := Text.int64?_toString (hfits t depth (by simp))
    have hread : ((Entry.ofEvent time runId (.step t depth)).get? "depth").getD "" = toString depth := rfl
    have hadd : (s.add (Entry.ofEvent time runId (.step t depth))).maxDepth =
        (s.addStep (Entry.ofEvent time runId (.step t depth))).maxDepth := rfl
    simp only [hadd, addStep, hread, hdepth]
    exact (h.maxDepth fun u d hmem => hfits u d (List.mem_append_left _ hmem)).step t depth
  errors := h.errors
  budgetExceeded := h.budgetExceeded
  result := h.result

/-- An assignment is counted. -/
theorem assign (h : Tally runId log s) (time name : String) (v : Value) :
    Tally runId (log ++ [.assign name v]) (s.add (Entry.ofEvent time runId (.assign name v))) where
  runId := h.runId_add
  totalEvents := by
    have htotal := h.totalEvents
    show s.totalEvents + 1 = s.steps + (s.assignments + 1) + 1
    omega
  steps := by
    rw [Event.countSteps_append]
    exact h.steps
  assignments := by
    rw [List.countP_append]
    exact congrArg (· + 1) h.assignments
  ordered := h.ordered
  byKind kind := by
    rw [List.countP_append]
    exact h.byKind kind
  kinds := h.kinds
  maxDepth hfits := (h.maxDepth fun u d hmem => hfits u d (List.mem_append_left _ hmem)).assign name v
  errors := h.errors
  budgetExceeded := h.budgetExceeded
  result := h.result

/-- All steps and assignments of a run are taken in, one line after the other. -/
theorem moves (stamped : List (String × Event)) : ∀ {log : List Event} {s : Summary}, Tally runId log s →
    (∀ p ∈ stamped, p.2.isStep = true ∨ p.2.isAssign = true) →
    Tally runId (log ++ stamped.map Prod.snd)
      ((stamped.map fun p => Entry.ofEvent p.1 runId p.2).foldl add s) := by
  induction stamped with
  | nil =>
    intro log s h _
    rw [List.map_nil, List.append_nil]
    exact h
  | cons p rest ih =>
    intro log s h hmoves
    obtain ⟨hp, hrest⟩ := List.forall_mem_cons.1 hmoves
    obtain ⟨time, e⟩ := p
    have hnext : Tally runId (log ++ [e]) (s.add (Entry.ofEvent time runId e)) := by
      cases e with
      | step t depth => exact h.step time t depth
      | assign name v => exact h.assign time name v
      | _ => exact absurd hp (by simp [Event.isStep, Event.isAssign])
    rw [List.map_cons, List.map_cons, List.foldl_cons, List.append_cons]
    exact ih hnext hrest

end Tally

/-! ## The end of a run -/

/-- A summary says how a run ended: with the texts of its result and environment, with a limit that was used up, or
with another error. -/
def EndsAs (s : Summary) : Reply → Prop
  | .done v env => s.result = v.text ∧ s.env = env.text ∧ s.errors = 0 ∧ s.budgetExceeded = 0
  | .halted halt _ =>
    s.result = "" ∧
      if halt.isBudget then s.budgetExceeded = 1 ∧ s.errors = 0 else s.errors = 1 ∧ s.budgetExceeded = 0
  | .unfinished => False

/-- The closing event adds the end of the run, and nothing that was counted changes. -/
theorem Tally.close {runId : String} {log : List Event} {s : Summary} (h : Tally runId log s) (time : String)
    {steps : Nat} {r : Reply} {e : Event} (he : Engine.closing true steps r = [e]) :
    Counts runId log 2 (s.add (Entry.ofEvent time runId e)) ∧ (s.add (Entry.ofEvent time runId e)).EndsAs r := by
  -- every event that closes a run leaves alone what was counted before
  have hcounts : ∀ s' : Summary, s'.runId = (if s.runId = "" then runId else s.runId) →
      s'.totalEvents = s.totalEvents + 1 → s'.steps = s.steps → s'.assignments = s.assignments →
      s'.stepsByKind = s.stepsByKind → s'.maxDepth = s.maxDepth → Counts runId log 2 s' := by
    intro s' hrun htotal hsteps hassign hkinds hdepth
    constructor
    · rw [hrun, h.runId_add]
    · rw [htotal, hsteps, hassign, h.totalEvents]
    · rw [hsteps, h.steps]
    · rw [hassign, h.assignments]
    · rw [hkinds]
      exact h.ordered
    · rw [hkinds]
      exact h.byKind
    · rw [hkinds, hsteps, h.kinds]
    · rw [hdepth]
      exact h.maxDepth
  cases r with
  | done v env =>
    cases he
    exact ⟨hcounts _ rfl rfl rfl rfl rfl rfl, rfl, rfl, h.errors, h.budgetExceeded⟩
  | halted halt env =>
    cases he
    cases hbudget : halt.isBudget with
    | true =>
      have hevent : halt.event = .budgetExceeded halt.message := by rw [Halt.event, if_pos hbudget]
      rw [hevent]
      refine ⟨hcounts _ rfl rfl rfl rfl rfl rfl, h.result, ?_⟩
      rw [if_pos hbudget]
      exact ⟨congrArg (· + 1) h.budgetExceeded, h.errors⟩
    | false =>
      have hother : ¬ halt.isBudget = true := by simp [hbudget]
      have hevent : halt.event = .error halt.message := by rw [Halt.event, if_neg hother]
      rw [hevent]
      refine ⟨hcounts _ rfl rfl rfl rfl rfl rfl, h.result, ?_⟩
      rw [if_neg hother]
      exact ⟨congrArg (· + 1) h.errors, h.budgetExceeded⟩
  | unfinished => cases he

/-- All events of a run are taken in, from the one that opens it to the one that closes it. -/
theorem Counts.run {stamped : List (String × Event)} {program : Tree} {log : List Event} {last : Event} {steps : Nat}
    {r : Reply} (runId : String) (hstamped : stamped.map Prod.snd = .runStart program :: log ++ [last])
    (hmoves : ∀ e ∈ log, e.isStep = true ∨ e.isAssign = true) (hlast : Engine.closing true steps r = [last]) :
    let s := (stamped.map fun p => Entry.ofEvent p.1 runId p.2).foldl add {}
    Counts runId log 2 s ∧ s.EndsAs r := by
  rw [List.cons_append] at hstamped
  obtain ⟨first, rest, rfl, hfirst, hrest⟩ := List.map_eq_cons_iff.1 hstamped
  obtain ⟨between, ends, rfl, hbetween, hends⟩ := List.map_eq_append_iff.1 hrest
  obtain ⟨final, tail, rfl, hfinal, htail⟩ := List.map_eq_cons_iff.1 hends
  rw [List.map_eq_nil_iff] at htail
  subst htail
  have hinside : ∀ p ∈ between, p.2.isStep = true ∨ p.2.isAssign = true :=
    fun p hp => hmoves p.2 (hbetween ▸ List.mem_map_of_mem hp)
  have hall := (Tally.start first.1 runId program).moves between hinside
  rw [List.nil_append, hbetween] at hall
  have hclosed := hall.close final.1 hlast
  simp only [List.map_cons, List.map_append, List.map_nil, List.foldl_cons, List.foldl_append, List.foldl_nil,
    hfirst, hfinal]
  exact hclosed

/-- Working out the duration changes nothing else. -/
theorem exists_timed (s : Summary) : ∃ ms, s.timed = { s with durationMs := ms } := by
  unfold timed
  split
  · exact ⟨_, rfl⟩
  · exact ⟨s.durationMs, rfl⟩

theorem Counts.timed {runId : String} {log : List Event} {others : Nat} {s : Summary}
    (h : Counts runId log others s) : Counts runId log others s.timed := by
  obtain ⟨ms, htimed⟩ := s.exists_timed
  rw [htimed]
  exact ⟨h.runId, h.totalEvents, h.steps, h.assignments, h.ordered, h.byKind, h.kinds, h.maxDepth⟩

theorem EndsAs.timed {s : Summary} {r : Reply} (h : s.EndsAs r) : s.timed.EndsAs r := by
  obtain ⟨ms, htimed⟩ := s.exists_timed
  rw [htimed]
  cases r with
  | done v env | halted halt env | unfinished => exact h

end Summary

/-- What is summed up of a trace are the entries of its events. -/
theorem Written.ofLines_eq {runId : String} {stamped : List (String × Event)} {text : List Char}
    (h : Written runId stamped text) :
    Summary.ofLines text = (stamped.map fun p => Entry.ofEvent p.1 runId p.2).foldl Summary.add {} := by
  rw [Summary.ofLines, h.entries]

end Trace

open Trace

/-- The events of a run between its start and its end are steps and assignments. -/
theorem Tells.moves {cfg : Settings} {depth n : Nat} {t : Tree} {env : Env} {log : List Event} {r : Reply}
    (h : Tells cfg depth t env n log r) : ∀ e ∈ log, e.isStep = true ∨ e.isAssign = true := by
  induction h with
  | pause | stopped => exact fun e he => absurd he List.not_mem_nil
  | normal | unbound => simp [Event.isStep]
  | first _ _ _ _ ih | var _ _ _ ih | assigned _ _ _ ih | condition _ _ _ ih | loop _ _ ih =>
    exact List.forall_mem_cons.2 ⟨.inl rfl, ih⟩
  | right _ _ _ _ ih₁ ih₂ | operands _ _ _ _ ih₁ ih₂ | ite _ _ _ ih₁ ih₂ | seq _ _ _ ih₁ ih₂ =>
    exact List.forall_mem_cons.2 ⟨.inl rfl, List.forall_mem_append.2 ⟨ih₁, ih₂⟩⟩
  | binary _ _ _ _ ihl ihr ih =>
    have hoperands := List.forall_mem_append.2 ⟨ihl, ihr⟩
    exact List.forall_mem_cons.2 ⟨.inl rfl, List.forall_mem_append.2 ⟨hoperands, ih⟩⟩
  | assign _ _ _ _ iht ih =>
    refine List.forall_mem_cons.2 ⟨.inl rfl, List.forall_mem_append.2 ⟨List.forall_mem_append.2 ⟨iht, ?_⟩, ih⟩⟩
    exact List.forall_mem_singleton.2 (.inr rfl)

/-- A run that has come to an end is closed by one event. -/
theorem Engine.exists_closing {r : Reply} (h : r ≠ .unfinished) (steps : Nat) : ∃ e, closing true steps r = [e] := by
  cases r with
  | done v env => exact ⟨_, rfl⟩
  | halted halt env => exact ⟨_, rfl⟩
  | unfinished => exact absurd rfl h

/-- The summary of a trace agrees with the run that wrote it. Between the events that open and close the run stand
the steps and assignments of its story by the rules of evaluation; the summary has as many of each as the story, the
steps on every kind of tree included, the depth of the deepest step, as long as a tree has fewer levels than 64 bits
can count, and the end of the run. Lines in the trace that are blank or hold no entry change nothing: all traces of
the same events have one summary. A run with a step limit always ends. -/
theorem summary_agrees (cfg : Settings) (fuel : Nat) (t : Tree) (env : Env) {runId : String}
    {stamped : List (String × Event)} {text : List Char}
    (hstamped : stamped.map Prod.snd = (t.execute { cfg with traced := true } fuel env).events)
    (htext : Written runId stamped text) :
    let o := t.execute { cfg with traced := true } fuel env
    let s := (Summary.ofLines text).timed
    (cfg.limits.maxSteps ≠ none → o.reply ≠ .unfinished) ∧
    (o.reply ≠ .unfinished →
      ∃ log last, o.events = .runStart t.orNothing :: log ++ [last] ∧
        Tells { cfg with traced := true } 1 t env 0 log o.reply ∧
        s.runId = runId ∧ s.steps = o.steps ∧ (s.stepsByKind.map Prod.snd).sum = s.steps ∧
        (∀ kind, (s.stepsByKind.lookup kind).getD 0 = log.countP (Event.isStepOn kind)) ∧
        s.assignments = log.countP Event.isAssign ∧ s.totalEvents = s.steps + s.assignments + 2 ∧
        (1 + t.nesting < 2 ^ 63 → Event.Deepest log s.maxDepth) ∧ s.EndsAs o.reply) ∧
    ∀ other, Written runId stamped other → (Summary.ofLines other).timed = s := by
  intro o s
  have hsame : ∀ other, Written runId stamped other → (Summary.ofLines other).timed = s := by
    intro other hother
    show _ = (Summary.ofLines text).timed
    rw [hother.ofLines_eq, htext.ofLines_eq]
  refine ⟨t.execute_ne_unfinished { cfg with traced := true } fuel env, fun hend => ?_, hsame⟩
  obtain ⟨log, htells, hsteps, hevents⟩ := t.execute_told { cfg with traced := true } fuel env
  obtain ⟨last, hlast⟩ := Engine.exists_closing hend o.steps
  have hlog := hevents rfl
  rw [hlast] at hlog
  obtain ⟨hcounts, hends⟩ := Summary.Counts.run runId (hstamped.trans hlog) htells.moves hlast
  rw [← htext.ofLines_eq] at hcounts hends
  have hs := hcounts.timed
  have hfits : 1 + t.nesting < 2 ^ 63 → ∀ u d, .step u d ∈ log → d < 9223372036854775808 := by
    intro hlevels u d hmem
    have hbound := htells.within u d hmem
    omega
  exact ⟨log, last, hlog, htells, hs.runId, hs.steps.trans hsteps.symm, hs.kinds, hs.byKind, hs.assignments,
    hs.totalEvents, fun hlevels => hs.maxDepth (hfits hlevels), hends.timed⟩

/-- A loop that counts to five. -/
def counting : Tree :=
  let here : Span := ⟨"", 0, 0, 0, 0⟩
  .seq here (.assign here "x" (.num here 0)) <| .loop here (.binary here .lt (.var here "x") (.num here 5)) <|
    .assign here "x" (.binary here .add (.var here "x") (.num here 1))

/-- The trace of a run that has ten steps to count to five, with a line that is no entry and a blank one before it.
The summary says that the steps have been used up. -/
theorem summary_agrees_counting :
    let cfg : Settings := { limits := { maxSteps := some 10 } }
    ∃ (o : Outcome) (stamped : List (String × Event)) (text : List Char),
      counting.execute { cfg with traced := true } 0 .empty = o ∧ stamped.map Prod.snd = o.events ∧
      Written "cli" stamped ("oops".toList ++ '\n' :: ([] ++ '\n' :: text)) ∧
      (Summary.ofLines ("oops".toList ++ '\n' :: ([] ++ '\n' :: text))).timed.steps = 10 ∧
      (Summary.ofLines ("oops".toList ++ '\n' :: ([] ++ '\n' :: text))).timed.EndsAs o.reply := by
  intro cfg
  have hten : (counting.execute { cfg with traced := true } 0 .empty).steps = 10 := by decide +kernel
  obtain ⟨o, ho⟩ : ∃ o, counting.execute { cfg with traced := true } 0 .empty = o := ⟨_, rfl⟩
  obtain ⟨stamped, hstamped⟩ : ∃ stamped : List (String × Event), stamped.map Prod.snd = o.events := by
    refine ⟨o.events.map fun e => ("2024-05-01T00:00:00Z", e), ?_⟩
    rw [List.map_map]
    exact List.map_id _
  have hnoise : Noise "oops".toList ∧ Noise [] := by
    refine ⟨⟨by decide, .inr ?_⟩, List.not_mem_nil, .inl fun c hc => absurd hc List.not_mem_nil⟩
    rw [← Option.isNone_iff_eq_none]
    decide +kernel
  have htext := Written.noise hnoise.1 (.noise hnoise.2 (written_join "cli" stamped))
  obtain ⟨hends, hagrees, -⟩ := summary_agrees cfg 0 counting .empty (ho ▸ hstamped) htext
  obtain ⟨log, last, -, -, -, hsteps, -, -, -, -, -, hreply⟩ := hagrees (hends (Option.some_ne_none 10))
  exact ⟨o, stamped, _, ho, hstamped, htext, hsteps.trans hten, ho ▸ hreply⟩

end WhileLang
