import WhileLang.Proofs.Engine.Answers
import WhileLang.Tree.Layout

/-!
# Sequences that nest differently

A sequence is a list of statements to its reader, and to the engine it is a tree: statements that nest to the left
are run by evaluations inside evaluations, and those that nest to the right by one evaluation, turn after turn. The
nesting decides what a failing run leaves behind and how many steps it counts, but nothing else
(`run_regrouped`).

Without limits an evaluation does not look at the count with which it starts (`Answers.moved`), so a sequence takes
as many steps as its two parts and one more (`Tree.finishes_seq_iff`). For three statements that makes two more,
however they are grouped (`Tree.Alike.seq_assoc`), and a step limit then cuts both runs at the same count.
-/

namespace WhileLang

open Engine

/-! ## Answers of unlimited evaluations -/

namespace Answers

variable {t : Tree} {env : Env} {n n' : Nat} {o : Reply}

/-- An unlimited evaluation does the same whatever is counted when it starts. -/
theorem moved (h : Answers {} t env n o n') :
    ∃ k, n' = n + k ∧ ∀ m m', m' = m + k → Answers {} t env m o m' := by
  induction h with
  | stopped hs => cases hs
  | normal _ ht =>
    refine ⟨1, rfl, ?_⟩
    rintro m m' rfl
    exact .normal rfl ht
  | unbound _ hv =>
    refine ⟨1, rfl, ?_⟩
    rintro m m' rfl
    exact .unbound rfl hv
  | firstHalted _ hfirst _ ih =>
    obtain ⟨k, rfl, ih⟩ := ih
    exact ⟨1 + k, by omega, fun m m' hm => .firstHalted rfl hfirst (ih _ m' (by omega))⟩
  | var _ hv _ ih =>
    obtain ⟨k, rfl, ih⟩ := ih
    exact ⟨1 + k, by omega, fun m m' hm => .var rfl hv (ih _ m' (by omega))⟩
  | binary _ _ _ _ ihl ihr ih =>
    obtain ⟨k₁, rfl, ihl⟩ := ihl
    obtain ⟨k₂, rfl, ihr⟩ := ihr
    obtain ⟨k₃, rfl, ih⟩ := ih
    exact ⟨1 + k₁ + k₂ + k₃, by omega, fun m m' hm =>
      .binary rfl (ihl _ _ rfl) (ihr _ _ rfl) (ih _ m' (by omega))⟩
  | rightHalted _ _ _ ihl ihr =>
    obtain ⟨k₁, rfl, ihl⟩ := ihl
    obtain ⟨k₂, rfl, ihr⟩ := ihr
    exact ⟨1 + k₁ + k₂, by omega, fun m m' hm => .rightHalted rfl (ihl _ _ rfl) (ihr _ m' (by omega))⟩
  | operands _ _ _ hne ihl ihr =>
    obtain ⟨k₁, rfl, ihl⟩ := ihl
    obtain ⟨k₂, rfl, ihr⟩ := ihr
    exact ⟨1 + k₁ + k₂, by omega, fun m m' hm => .operands rfl (ihl _ _ rfl) (ihr _ m' (by omega)) hne⟩
  | assign _ _ hw _ iht ih =>
    obtain ⟨k₁, rfl, iht⟩ := iht
    obtain ⟨k₂, rfl, ih⟩ := ih
    exact ⟨1 + k₁ + k₂, by omega, fun m m' hm => .assign rfl (iht _ _ rfl) hw (ih _ m' (by omega))⟩
  | assigned _ _ hw iht =>
    obtain ⟨k, rfl, iht⟩ := iht
    exact ⟨1 + k, by omega, fun m m' hm => .assigned rfl (iht _ m' (by omega)) hw⟩
  | ite _ _ _ ihc ih =>
    obtain ⟨k₁, rfl, ihc⟩ := ihc
    obtain ⟨k₂, rfl, ih⟩ := ih
    exact ⟨1 + k₁ + k₂, by omega, fun m m' hm => .ite rfl (ihc _ _ rfl) (ih _ m' (by omega))⟩
  | condition _ _ hne ihc =>
    obtain ⟨k, rfl, ihc⟩ := ihc
    exact ⟨1 + k, by omega, fun m m' hm => .condition rfl (ihc _ m' (by omega)) hne⟩
  | seq _ _ _ iha ih =>
    obtain ⟨k₁, rfl, iha⟩ := iha
    obtain ⟨k₂, rfl, ih⟩ := ih
    exact ⟨1 + k₁ + k₂, by omega, fun m m' hm => .seq rfl (iha _ _ rfl) (ih _ m' (by omega))⟩
  | loop _ _ ih =>
    obtain ⟨k, rfl, ih⟩ := ih
    exact ⟨1 + k, by omega, fun m m' hm => .loop rfl (ih _ m' (by omega))⟩

/-- Settings matter to an answer only in what they stop. -/
theorem of_stops {cfg cfg' : Settings} (hcfg : ∀ n, stopBefore? cfg' n = stopBefore? cfg n)
    (h : Answers cfg t env n o n') : Answers cfg' t env n o n' := by
  have hgo : ∀ {n : Nat}, stopBefore? cfg n = none → stopBefore? cfg' n = none := fun hs => (hcfg _).trans hs
  induction h with
  | stopped hs => exact .stopped ((hcfg _).trans hs)
  | normal hs ht => exact .normal (hgo hs) ht
  | firstHalted hs hfirst _ ih => exact .firstHalted (hgo hs) hfirst ih
  | var hs hv _ ih => exact .var (hgo hs) hv ih
  | unbound hs hv => exact .unbound (hgo hs) hv
  | binary hs _ _ _ ihl ihr ih => exact .binary (hgo hs) ihl ihr ih
  | rightHalted hs _ _ ihl ihr => exact .rightHalted (hgo hs) ihl ihr
  | operands hs _ _ hne ihl ihr => exact .operands (hgo hs) ihl ihr hne
  | assign hs _ hw _ iht ih => exact .assign (hgo hs) iht hw ih
  | assigned hs _ hw iht => exact .assigned (hgo hs) iht hw
  | ite hs _ _ ihc ih => exact .ite (hgo hs) ihc ih
  | condition hs _ hne ihc => exact .condition (hgo hs) ihc hne
  | seq hs _ _ iha ih => exact .seq (hgo hs) iha ih
  | loop hs _ ih => exact .loop (hgo hs) ih

end Answers

namespace Tree

/-! ## Finishing and failing -/

/-- Without limits the tree comes to a normal form, and this takes so many steps. -/
def Finishes (t : Tree) (env : Env) (v : Tree) (env' : Env) (k : Nat) : Prop :=
  Answers {} t env 0 (.done v env') k

/-- Without limits the tree halts so, after whatever steps and with whatever is then bound. -/
def Fails (t : Tree) (env : Env) (halt : Halt) : Prop := ∃ env' k, Answers {} t env 0 (.halted halt env') k

section

variable {s : Span} {a b t v : Tree} {env env' : Env} {k n : Nat} {halt : Halt}

theorem Finishes.answers (h : t.Finishes env v env' k) (n : Nat) : Answers {} t env n (.done v env') (n + k) := by
  obtain ⟨k', hk, hmoved⟩ := Answers.moved h
  exact hmoved n (n + k) (by omega)

theorem Fails.answers (h : t.Fails env halt) (n : Nat) : ∃ env' n', Answers {} t env n (.halted halt env') n' := by
  obtain ⟨env', k, h⟩ := h
  obtain ⟨k', -, hmoved⟩ := h.moved
  exact ⟨env', n + k', hmoved n _ rfl⟩

theorem exists_finishes {n' : Nat} (h : Answers {} t env n (.done v env') n') :
    ∃ k, n' = n + k ∧ t.Finishes env v env' k := by
  obtain ⟨k, rfl, hmoved⟩ := h.moved
  exact ⟨k, rfl, hmoved 0 k (Nat.zero_add k).symm⟩

theorem fails_of_answers {n' : Nat} (h : Answers {} t env n (.halted halt env') n') : t.Fails env halt := by
  obtain ⟨k, -, hmoved⟩ := h.moved
  exact ⟨env', 0 + k, hmoved 0 _ rfl⟩

/-- A sequence takes the steps of its two parts and one of its own. -/
theorem finishes_seq_iff : (Tree.seq s a b).Finishes env v env' k ↔
    ∃ w env₁ k₁ k₂, a.Finishes env w env₁ k₁ ∧ b.Finishes env₁ v env' k₂ ∧ k = 1 + k₁ + k₂ := by
  constructor
  · intro h
    cases h with
    | normal _ ht => cases ht
    | seq _ ha hb =>
      obtain ⟨k₁, rfl, hfirst⟩ := exists_finishes ha
      obtain ⟨k₂, rfl, hsecond⟩ := exists_finishes hb
      exact ⟨_, _, k₁, k₂, hfirst, hsecond, by omega⟩
  · rintro ⟨w, env₁, k₁, k₂, ha, hb, rfl⟩
    exact .seq rfl (ha.answers 1) (hb.answers (1 + k₁))

/-- A sequence fails as its first part does, or as its second does once the first is done. -/
theorem fails_seq_iff : (Tree.seq s a b).Fails env halt ↔
    a.Fails env halt ∨ ∃ w env₁ k, a.Finishes env w env₁ k ∧ b.Fails env₁ halt := by
  constructor
  · rintro ⟨env', k, h⟩
    cases h with
    | stopped hs => cases hs
    | firstHalted _ hfirst ha =>
      cases hfirst
      exact .inl (fails_of_answers ha)
    | seq _ ha hb =>
      obtain ⟨k₁, -, hdone⟩ := exists_finishes ha
      exact .inr ⟨_, _, k₁, hdone, fails_of_answers hb⟩
  · rintro (ha | ⟨w, env₁, k, ha, hb⟩)
    · obtain ⟨env', n', ha⟩ := ha.answers 1
      exact ⟨env, n', .firstHalted rfl rfl ha⟩
    · obtain ⟨env', n', hb⟩ := hb.answers (1 + k)
      exact ⟨env', n', .seq rfl (ha.answers 1) hb⟩

end

/-! ## Trees that run alike -/

/-- Both trees come to the same normal forms, after as many steps, and fail in the same ways. -/
structure Alike (t t' : Tree) : Prop where
  finishes : ∀ env v env' k, t.Finishes env v env' k ↔ t'.Finishes env v env' k
  fails : ∀ env halt, t.Fails env halt ↔ t'.Fails env halt

section

variable {s s' s₁ s₂ s₃ s₄ : Span} {a a' b b' c : Tree}

theorem Alike.refl (t : Tree) : Alike t t := ⟨fun _ _ _ _ => Iff.rfl, fun _ _ => Iff.rfl⟩

theorem Alike.symm (h : Alike a b) : Alike b a :=
  ⟨fun env v env' k => (h.finishes env v env' k).symm, fun env halt => (h.fails env halt).symm⟩

theorem Alike.trans (hab : Alike a b) (hbc : Alike b c) : Alike a c :=
  ⟨fun env v env' k => (hab.finishes env v env' k).trans (hbc.finishes env v env' k),
    fun env halt => (hab.fails env halt).trans (hbc.fails env halt)⟩

theorem Alike.seq (ha : Alike a a') (hb : Alike b b') : Alike (.seq s a b) (.seq s' a' b') where
  finishes env v env' k := by simp only [finishes_seq_iff, ha.finishes, hb.finishes]
  fails env halt := by simp only [fails_seq_iff, ha.finishes, ha.fails, hb.fails]

/-- Three statements in a row take their own steps and two more, however they are grouped. -/
theorem Alike.seq_assoc : Alike (.seq s₁ (.seq s₂ a b) c) (.seq s₃ a (.seq s₄ b c)) where
  finishes env v env' k := by
    simp only [finishes_seq_iff]
    constructor
    · rintro ⟨w, env₂, k', k₃, ⟨u, env₁, k₁, k₂, ha, hb, rfl⟩, hc, rfl⟩
      exact ⟨u, env₁, k₁, 1 + k₂ + k₃, ha, ⟨w, env₂, k₂, k₃, hb, hc, rfl⟩, by omega⟩
    · rintro ⟨u, env₁, k₁, k', ha, ⟨w, env₂, k₂, k₃, hb, hc, rfl⟩, rfl⟩
      exact ⟨w, env₂, 1 + k₁ + k₂, k₃, ⟨u, env₁, k₁, k₂, ha, hb, rfl⟩, hc, by omega⟩
  fails env halt := by
    simp only [fails_seq_iff, finishes_seq_iff]
    constructor
    · rintro ((ha | ⟨u, env₁, k₁, ha, hb⟩) | ⟨w, env₂, k', ⟨u, env₁, k₁, k₂, ha, hb, -⟩, hc⟩)
      · exact .inl ha
      · exact .inr ⟨u, env₁, k₁, ha, .inl hb⟩
      · exact .inr ⟨u, env₁, k₁, ha, .inr ⟨w, env₂, k₂, hb, hc⟩⟩
    · rintro (ha | ⟨u, env₁, k₁, ha, hb | ⟨w, env₂, k₂, hb, hc⟩⟩)
      · exact .inl (.inl ha)
      · exact .inl (.inr ⟨u, env₁, k₁, ha, hb⟩)
      · exact .inr ⟨w, env₂, 1 + k₁ + k₂, ⟨u, env₁, k₁, k₂, ha, hb, rfl⟩, hc⟩

end

/-! ## The statements of a sequence -/

/-- The statements of a sequence in order, however it nests. Any other tree is one statement. -/
def leaves : Tree → List Tree
  | .seq _ a b => a.leaves ++ b.leaves
  | t => [t]

theorem leaves_ne_nil (t : Tree) : t.leaves ≠ [] := by
  induction t with
  | seq s a b iha _ => exact List.append_ne_nil_of_left_ne_nil iha _
  | _ => exact List.cons_ne_nil _ _

/-- The layout of a tree is that of its statements, one after another. -/
theorem layout_eq_intercalate (depth : Nat) (t : Tree) :
    t.layout depth = (";\n" ++ pad depth).intercalate (t.leaves.map (layout depth)) := by
  induction t with
  | seq s a b iha ihb =>
    have hlines : ∀ t : Tree, t.leaves.map (layout depth) ≠ [] :=
      fun t hnil => t.leaves_ne_nil (List.map_eq_nil_iff.1 hnil)
    rw [leaves, List.map_append, String.intercalate_append_of_ne_nil (hlines a) (hlines b), ← iha, ← ihb,
      ← String.append_assoc]
    rfl
  | _ => exact String.intercalate_singleton.symm

/-- Two lists of statements in a row are a sequence of the two sequences. -/
theorem ofList_append_alike (s : Span) {us : List Tree} (hus : us ≠ []) :
    ∀ {ts : List Tree}, ts ≠ [] → Alike (ofList (ts ++ us)) (.seq s (ofList ts) (ofList us))
  | [], hts => absurd rfl hts
  | [t], _ => by
    obtain ⟨u, us, rfl⟩ := List.exists_cons_of_ne_nil hus
    exact (Alike.refl t).seq (Alike.refl _)
  | t :: t' :: ts, _ => by
    have hrest : Alike (ofList (t' :: ts ++ us)) (.seq s (ofList (t' :: ts)) (ofList us)) :=
      ofList_append_alike s hus (List.cons_ne_nil t' ts)
    have hfirst : Alike (ofList (t :: t' :: ts ++ us)) (.seq s t (.seq s (ofList (t' :: ts)) (ofList us))) :=
      (Alike.refl t).seq hrest
    exact hfirst.trans Alike.seq_assoc.symm

/-- A sequence runs like the one that nests its statements to the right. -/
theorem alike_ofList_leaves (t : Tree) : Alike t (ofList t.leaves) := by
  induction t with
  | seq s a b iha ihb => exact (iha.seq ihb).trans (ofList_append_alike s b.leaves_ne_nil a.leaves_ne_nil).symm
  | _ => exact Alike.refl _

theorem alike_of_leaves {t t' : Tree} (h : t.leaves = t'.leaves) : Alike t t' := by
  have hlist := t'.alike_ofList_leaves
  rw [← h] at hlist
  exact t.alike_ofList_leaves.trans hlist.symm

/-! ## Whole runs -/

section

variable {t t' v : Tree} {env env' : Env} {k : Nat} {halt : Halt}

theorem exists_run_iff {o : Reply} (ho : o ≠ .unfinished) :
    (∃ fuel, t.run fuel env = o) ↔ ∃ n, Answers {} t env 0 o n := by
  constructor
  · rintro ⟨fuel, rfl⟩
    exact ⟨_, Engine.eval_iff_answers.1 ⟨fuel, _, rfl, ho, rfl⟩⟩
  · rintro ⟨n, h⟩
    have heval : ∃ fuel q, Engine.eval {} fuel 1 t env {} = (o, q) ∧ o ≠ .unfinished ∧ q.steps = n :=
      Engine.eval_iff_answers.2 h
    obtain ⟨fuel, q, hq, -⟩ := heval
    exact ⟨fuel, by rw [run, hq]⟩

theorem exists_run_done_iff :
    (∃ fuel, t.run fuel env = .done v env') ↔ ∃ k, t.Finishes env v env' k :=
  exists_run_iff Reply.noConfusion

theorem exists_run_halted_iff :
    (∃ fuel env', t.run fuel env = .halted halt env') ↔ t.Fails env halt := by
  rw [exists_comm]
  exact exists_congr fun env' => exists_run_iff Reply.noConfusion

/-- A run goes on for ever if it neither finishes nor fails. -/
theorem run_unfinished_iff : (∀ fuel, t.run fuel env = .unfinished) ↔
    (∀ v env' k, ¬ t.Finishes env v env' k) ∧ ∀ halt, ¬ t.Fails env halt := by
  constructor
  · refine fun h => ⟨fun v env' k hdone => ?_, fun halt hfails => ?_⟩
    · obtain ⟨fuel, hrun⟩ := exists_run_done_iff.2 ⟨k, hdone⟩
      exact Reply.noConfusion ((h fuel).symm.trans hrun)
    · obtain ⟨fuel, env', hrun⟩ := exists_run_halted_iff.2 hfails
      exact Reply.noConfusion ((h fuel).symm.trans hrun)
  · rintro ⟨hdone, hfails⟩ fuel
    rcases hrun : t.run fuel env with ⟨v, env'⟩ | ⟨halt, env'⟩ | _
    · obtain ⟨k, hk⟩ := exists_run_done_iff.1 ⟨fuel, hrun⟩
      exact absurd hk (hdone v env' k)
    · exact absurd (exists_run_halted_iff.1 ⟨fuel, env', hrun⟩) (hfails halt)
    · rfl

/-- An unlimited run of what finishes ends, given fuel, and has taken its steps whenever it ends. -/
theorem Finishes.unlimited (h : t.Finishes env v env' k) {free : Settings} (hfree : free.Free)
    (hnone : free.limits.maxSteps = none) :
    (∃ fuel, (outermost free fuel t env).1 ≠ .unfinished) ∧
      ∀ fuel, (outermost free fuel t env).1 ≠ .unfinished → (outermost free fuel t env).2.steps = k := by
  have hstops : ∀ n, stopBefore? free n = stopBefore? {} n := hfree
  have hanswers : Answers free t env (opening free t).steps (.done v env') k := by
    rw [steps_opening]
    exact Answers.of_stops hstops h
  obtain ⟨fuel₁, q, hq, ho, hsteps⟩ := eval_iff_answers.2 hanswers
  obtain ⟨fuel₀, hrun⟩ := (exists_outermost_iff ho).2 ⟨fuel₁, hq⟩
  have hends₀ : (outermost free fuel₀ t env).1 ≠ .unfinished := by
    rw [hrun]
    exact ho
  refine ⟨⟨fuel₀, hends₀⟩, fun fuel hends => ?_⟩
  have hsame : outermost free fuel t env = outermost free fuel₀ t env := by
    rcases Nat.le_total fuel fuel₀ with hle | hle
    · exact (outermost_mono hnone t env hle hends).symm
    · exact outermost_mono hnone t env hle hends₀
  rw [hsame, hrun, hsteps]

/-- The program ends under these settings, and has counted so many steps whenever it does. -/
def EndsAfter (cfg : Settings) (t : Tree) (env : Env) (n : Nat) : Prop :=
  (∃ fuel, (t.execute cfg fuel env).reply ≠ .unfinished) ∧
    ∀ fuel, (t.execute cfg fuel env).reply ≠ .unfinished → (t.execute cfg fuel env).steps = n

/-- What finishes ends after its steps, or after as many of them as a step limit allows. -/
theorem Finishes.endsAfter (h : t.Finishes env v env' k) {cfg : Settings} (hlive : ∀ n, cfg.demand n = .live)
    (htime : cfg.limits.timeMs = none) :
    EndsAfter cfg t env (cfg.limits.maxSteps.elim k fun m => min m.toNat k) := by
  unfold EndsAfter
  simp only [Tree.execute_eq]
  rcases hmax : cfg.limits.maxSteps with _ | m
  · have hfree : cfg.Free := by
      intro n
      simp only [stopBefore?, hlive, hmax, stopBefore?.overtime?, htime]
    exact h.unlimited hfree hmax
  · let free : Settings := { cfg with limits := {} }
    have hfree : free.Free := by
      intro n
      simp only [free, stopBefore?, hlive, stopBefore?.overtime?]
    have hlim : ∀ n : Nat, stopBefore? cfg n = if m ≤ n then some (.steps m) else none := by
      intro n
      simp only [stopBefore?, hlive, hmax, stopBefore?.overtime?, htime]
    obtain ⟨⟨fuel₀, hends₀⟩, hcount⟩ := h.unlimited hfree rfl
    have hcount₀ := hcount fuel₀ hends₀
    refine ⟨⟨0, outermost_ne_unfinished hmax t env 0⟩, fun fuel _ => ?_⟩
    show (outermost cfg fuel t env).2.steps = min m.toNat k
    by_cases hwithin : (k : Int) ≤ m
    · rw [outermost_eq_of_steps_le hlim hfree rfl hmax rfl t env fuel hends₀ (by omega), hcount₀]
      omega
    · have hbeyond : ∀ fuel, (outermost free fuel t env).1 ≠ .unfinished →
          m < (outermost free fuel t env).2.steps := by
        intro fuel hends
        have hcount₁ := hcount fuel hends
        omega
      obtain ⟨-, hsteps⟩ := outermost_stopped hlim hfree rfl hmax rfl t env fuel hbeyond
      omega

end

/-- Both programs run alike from an environment, but for what is left behind when they fail and how many steps are
counted until then. -/
structure SameRuns (t t' : Tree) (env : Env) : Prop where
  /-- They return the same value and the same environment. -/
  done : ∀ v env', (∃ fuel, t.run fuel env = .done v env') ↔ ∃ fuel, t'.run fuel env = .done v env'
  /-- If they return, they take the same number of steps, with a step limit or without one. -/
  steps : ∀ fuel v env', t.run fuel env = .done v env' → ∀ cfg : Settings, (∀ n, cfg.demand n = .live) →
    cfg.limits.timeMs = none → ∃ n, EndsAfter cfg t env n ∧ EndsAfter cfg t' env n
  /-- They fail with the same fault, at the same position. -/
  halted : ∀ halt, (∃ fuel env', t.run fuel env = .halted halt env') ↔
    ∃ fuel env', t'.run fuel env = .halted halt env'
  /-- They go on for ever alike. -/
  unfinished : (∀ fuel, t.run fuel env = .unfinished) ↔ ∀ fuel, t'.run fuel env = .unfinished

theorem Alike.sameRuns {t t' : Tree} (h : Alike t t') (env : Env) : SameRuns t t' env where
  done v env' := by simp only [exists_run_done_iff, h.finishes]
  steps fuel v env' hrun cfg hlive htime := by
    obtain ⟨k, hk⟩ := exists_run_done_iff.1 ⟨fuel, hrun⟩
    have hk' : t'.Finishes env v env' k := (h.finishes env v env' k).1 hk
    exact ⟨_, hk.endsAfter hlive htime, hk'.endsAfter hlive htime⟩
  halted halt := by simp only [exists_run_halted_iff, h.fails]
  unfinished := by simp only [run_unfinished_iff, h.finishes, h.fails]

end Tree

/-- Sequencing is associative. Trees that sequence the same statements in the same order run alike from every
environment, however they nest. In particular a tree runs like the sequence of the statements that its layout puts
one after another. -/
theorem run_regrouped (t t' : Tree) (h : t.leaves = t'.leaves) (env : Env) :
    t.SameRuns t' env ∧ t.SameRuns (.ofList t.leaves) env ∧
      ∀ depth, t.layout depth = (";\n" ++ Tree.pad depth).intercalate (t.leaves.map (Tree.layout depth)) :=
  ⟨(Tree.alike_of_leaves h).sameRuns env, t.alike_ofList_leaves.sameRuns env,
    fun depth => t.layout_eq_intercalate depth⟩

/-- Four statements, one of them absent, in pairs and one after another. -/
theorem run_regrouped_pairs :
    let s : Span := .point "p.yaml" 2 1
    let first : Tree := .assign s "x" (.num s 1)
    let last : Tree := .loop s (.binary s .lt (.var s "x") (.var s "y")) (.var s "z")
    let pairs : Tree := .seq s (.seq s first .absent) (.seq s (.var s "x") last)
    let row : Tree := .seq s first (.seq Span.none .absent (.seq s (.var s "x") last))
    pairs.leaves = row.leaves ∧ ∀ env, pairs.SameRuns row env := by
  intro s first last pairs row
  have hleaves : pairs.leaves = row.leaves := rfl
  exact ⟨hleaves, fun env => (run_regrouped pairs row hleaves env).1⟩

-- the steps until a failure do depend on the nesting
example (s : Span) (a b : Tree) :
    ((Tree.seq s (.seq s (.var s "x") a) b).execute {} 9 Env.empty).steps = 3 := rfl

example (s : Span) (a b : Tree) :
    ((Tree.seq s (.var s "x") (.seq s a b)).execute {} 9 Env.empty).steps = 2 := rfl

end WhileLang
