import WhileLang.Proofs.Env
import WhileLang.Proofs.Engine.BigStep
import WhileLang.Proofs.Scope.Walk

/-!
# The scope check is sound

The walk visits a loop body once and keeps of two branches what both bind, while a run may go round any number
of times and take any branch. What ties them together is one invariant: the scope that the walk carries is
bound in the environment of the run, at every point both come to. A run never unbinds a name
(`BigStep.keeps`), so a further round of a loop starts in an environment in which the scope of the first one
still holds, and the walk of the loop foresees that round too.
-/

namespace WhileLang

open Diagnostics (Harmless)

/-- All names of a scope are bound. -/
def Scope.Holds (s : Scope) (env : Env) : Prop := ∀ x ∈ s, env.contains x = true

/-- The end of an evaluation leaves every name bound that was bound. -/
def Ending.Keeps (env : Env) : Ending → Prop
  | .value _ env' => ∀ x, env.contains x = true → env'.contains x = true
  | .error _ => True

/-- The environment that an evaluation ends in binds at least the names it started with. -/
theorem BigStep.keeps {t : Tree} {env : Env} {o : Ending} (h : BigStep t env o) : o.Keeps env := by
  -- what one part binds, the next one keeps
  have trans : ∀ {env env₁ : Env} {v : Tree} {o : Ending},
      (Ending.value v env₁).Keeps env → o.Keeps env₁ → o.Keeps env := by
    intro env env₁ v o h₁ h₂
    cases o with
    | value v' env' => exact fun x hx => h₂ x (h₁ x hx)
    | error e => trivial
  induction h with
  | absent | num | bool | nothing | var => exact fun x hx => hx
  | add _ _ ihl ihr | mul _ _ ihl ihr | lt _ _ ihl ihr => exact fun x hx => ihr x (ihl x hx)
  | @assign _ env₁ _ y _ v _ ih =>
    intro x hx
    rw [Env.contains_insert, ih x hx, Bool.or_true]
  | ifTrue _ _ ihc iht => exact trans ihc iht
  | ifFalse _ _ ihc ihe => exact trans ihc ihe
  | seq _ _ iha ihb => exact trans iha ihb
  | loopTrue _ _ _ ihc ihb ihloop => exact trans ihc (trans ihb ihloop)
  | loopFalse _ ihc => exact ihc
  | unbound | operands | leftError | rightError | assigned | assignError | ifCondition | ifError
  | seqError | loopCondition | loopError | loopBodyError => trivial

/-- A scope that holds goes on holding. -/
theorem Scope.Holds.after {s : Scope} {t v : Tree} {env env' : Env} (hs : s.Holds env)
    (h : BigStep t env (.value v env')) : s.Holds env' :=
  fun x hx => h.keeps x (hs x hx)

/-- The walk has foreseen an ending: the scope after it holds there, or it has warned of the very read that
found no value. -/
def Ending.Foreseen (ds : List Diagnostic) (s : Scope) : Ending → Prop
  | .value _ env => s.Holds env
  | .error e => ∀ message place, e = .unbound message place →
      ∃ sp x, message = s!"unbound variable '{x}'" ∧ place = sp.known? ∧ Tree.mayBeUnbound sp x ∈ ds

/-- An error that was foreseen in a part is foreseen in the whole. -/
theorem Ending.Foreseen.error_mono {ds ds' : List Diagnostic} {s s' : Scope} {e : Failure}
    (h : (Ending.error e).Foreseen ds s) (hsub : ds ⊆ ds') : (Ending.error e).Foreseen ds' s' := by
  intro message place he
  obtain ⟨sp, x, hmessage, hplace, hmem⟩ := h message place he
  exact ⟨sp, x, hmessage, hplace, hsub hmem⟩

/-- A type mismatch is not the walk's concern. -/
theorem Ending.foreseen_mismatch {ds : List Diagnostic} {s : Scope} {m : String} {place : Option Span} :
    (Ending.error (.mismatch m place)).Foreseen ds s := by
  intro message place' he
  cases he

/-- An ending that a part and its smaller scope foresee is foreseen with fewer names and more warnings. -/
theorem Ending.Foreseen.mono {ds ds' : List Diagnostic} {s s' : Scope} {o : Ending}
    (h : o.Foreseen ds s) (hds : ds ⊆ ds') (hs : s' ⊆ s) : o.Foreseen ds' s' := by
  cases o with
  | value v env => exact fun x hx => h x (hs hx)
  | error e => exact h.error_mono hds

/-- A walk without errors, started with names that are bound, foresees how the program ends. -/
theorem BigStep.foreseen {t : Tree} {env : Env} {o : Ending} (h : BigStep t env o) :
    ∀ s : Scope, s.Holds env → Harmless (t.walk s).1 → o.Foreseen (t.walk s).1 (t.walk s).2 := by
  induction h with
  | absent | num | bool | nothing => exact fun s hs _ => hs
  | var _ =>
    intro s hs hc
    rw [Tree.walk_var hc]
    exact hs
  | @unbound env sp x hx =>
    intro s hs hc message place he
    rw [Tree.walk_var hc]
    -- a name of the scope would be bound, so the walk has warned of this one
    have hfree : x ∉ s := by
      intro hmem
      have hbound := hs x hmem
      rw [Env.contains, hx] at hbound
      simp at hbound
    injection he with hmessage hplace
    refine ⟨sp, x, hmessage.symm, hplace.symm, ?_⟩
    simp [hfree]
  | add _ _ ihl ihr | mul _ _ ihl ihr | lt _ _ ihl ihr =>
    intro s hs hc
    obtain ⟨hcl, hcr, hwalk⟩ := Tree.walk_binary hc
    rw [hwalk]
    exact ihr _ (ihl s hs hcl) hcr
  | operands | assigned | ifCondition | loopCondition => exact fun s _ _ => Ending.foreseen_mismatch
  | leftError _ ih =>
    intro s hs hc
    obtain ⟨hcl, -, hwalk⟩ := Tree.walk_binary hc
    rw [hwalk]
    exact (ih s hs hcl).error_mono (List.subset_append_left _ _)
  | rightError _ _ ihl ihr =>
    intro s hs hc
    obtain ⟨hcl, hcr, hwalk⟩ := Tree.walk_binary hc
    rw [hwalk]
    exact (ihr _ (ihl s hs hcl) hcr).error_mono (List.subset_append_right _ _)
  | @assign _ env₁ _ y _ v _ ih =>
    intro s hs hc
    obtain ⟨hcv, hwalk⟩ := Tree.walk_assign hc
    rw [hwalk]
    intro x hx
    rw [Env.contains_insert]
    -- either the name that was just bound, or one of the scope that the value left
    rcases Scope.mem_insert.1 hx with rfl | hx
    · simp
    · rw [ih s hs hcv x hx, Bool.or_true]
  | assignError _ ih =>
    intro s hs hc
    obtain ⟨hcv, hwalk⟩ := Tree.walk_assign hc
    rw [hwalk]
    exact ih s hs hcv
  | ifTrue _ _ ihc iht =>
    intro s hs hc
    obtain ⟨hcc, hct, -, hwalk⟩ := Tree.walk_ite hc
    rw [hwalk]
    -- this branch binds all that both branches do
    refine (iht _ (ihc s hs hcc) hct).mono ?_ fun x hx => (Scope.mem_inter.1 hx).1
    exact fun d hd => List.mem_append_left _ (List.mem_append_right _ hd)
  | ifFalse _ _ ihc ihe =>
    intro s hs hc
    obtain ⟨hcc, -, hce, hwalk⟩ := Tree.walk_ite hc
    rw [hwalk]
    refine (ihe _ (ihc s hs hcc) hce).mono ?_ fun x hx => (Scope.mem_inter.1 hx).2
    exact List.subset_append_right _ _
  | ifError _ ih =>
    intro s hs hc
    obtain ⟨hcc, -, -, hwalk⟩ := Tree.walk_ite hc
    rw [hwalk]
    refine (ih s hs hcc).error_mono ?_
    exact fun d hd => List.mem_append_left _ (List.mem_append_left _ hd)
  | seq _ _ iha ihb =>
    intro s hs hc
    obtain ⟨hca, hcb, hwalk⟩ := Tree.walk_seq hc
    rw [hwalk]
    exact (ihb _ (iha s hs hca) hcb).mono (List.subset_append_right _ _) fun x hx => hx
  | seqError _ ih =>
    intro s hs hc
    obtain ⟨hca, -, hwalk⟩ := Tree.walk_seq hc
    rw [hwalk]
    exact (ih s hs hca).error_mono (List.subset_append_left _ _)
  | loopTrue hcond hbody _ _ _ ihloop =>
    -- the next round starts with the same scope, which still holds
    intro s hs hc
    exact ihloop s ((hs.after hcond).after hbody) hc
  | loopFalse _ ihc =>
    intro s hs hc
    obtain ⟨hcc, -, hwalk⟩ := Tree.walk_loop hc
    rw [hwalk]
    exact ihc s hs hcc
  | loopError _ ih =>
    intro s hs hc
    obtain ⟨hcc, -, hwalk⟩ := Tree.walk_loop hc
    rw [hwalk]
    exact (ih s hs hcc).error_mono (List.subset_append_left _ _)
  | loopBodyError _ _ ihc ihb =>
    intro s hs hc
    obtain ⟨hcc, hcb, hwalk⟩ := Tree.walk_loop hc
    rw [hwalk]
    exact (ihb _ (ihc s hs hcc) hcb).error_mono (List.subset_append_right _ _)

/-- Only the program itself raises faults; limits do not. -/
theorem Engine.stopBefore?_ne_fault {cfg : Settings} {steps : Nat} {f : Fault} :
    stopBefore? cfg steps ≠ some (.fault f) := by
  unfold stopBefore? stopBefore?.overtime?
  repeat' split
  all_goals simp

/-- An evaluation that finds a name unbound does so at a read that the check has warned of. -/
theorem Engine.eval_unbound_foreseen {cfg : Settings} {fuel depth : Nat} {t : Tree} {env env' : Env}
    {p : Progress} {x : String} {sp : Span} (hclean : Diagnostics.hasErrors (t.check env) = false)
    (h : (eval cfg fuel depth t env p).1 = .halted (.fault ⟨.unbound x, sp⟩) env') :
    ∃ d ∈ t.check env, d.code = .unbound ∧ d.severity = .warning ∧
      d.message = s!"variable '{x}' may be unbound here" ∧ d.span = sp.known? := by
  have hcheck := Tree.check_eq_walk (Tree.ne_absent_of_clean hclean) env
  have hacc := eval_accounted cfg fuel depth t env p
  rw [h] at hacc
  -- the fault is an ending of the program, since a limit stops a run in other ways
  rcases hacc with hstep | ⟨steps, hsteps⟩
  · rw [hcheck] at hclean ⊢
    have hnames : Scope.Holds env.names env := fun y hy => Env.contains_of_mem_names hy
    obtain ⟨sp', y, hmessage, hplace, hmem⟩ := hstep.foreseen env.names hnames hclean _ _ rfl
    -- the run's message and the warning name the same variable
    have hxy : x = y := by
      have hquoted : "unbound variable '" ++ x ++ "'" = "unbound variable '" ++ y ++ "'" := hmessage
      simpa using hquoted
    refine ⟨_, hmem, rfl, rfl, ?_, hplace.symm⟩
    rw [hxy]
    rfl
  · exact absurd hsteps stopBefore?_ne_fault

/-- A tree that passes the check without errors finds a name unbound only where the check has warned of it,
under any limits and none; a tree without any diagnostics never does. -/
theorem unbound_foreseen_by_check (t : Tree) (env : Env) (cfg : Settings) (fuel : Nat)
    (hclean : Diagnostics.hasErrors (t.check env) = false) :
    (∀ x sp env', ((t.execute cfg fuel env).reply = .halted (.fault ⟨.unbound x, sp⟩) env' ∨
        t.run fuel env = .halted (.fault ⟨.unbound x, sp⟩) env') →
      ∃ d ∈ t.check env, d.code = .unbound ∧ d.severity = .warning ∧
        d.message = s!"variable '{x}' may be unbound here" ∧ d.span = sp.known?) ∧
    (t.check env = [] → ∀ x sp env',
      (t.execute cfg fuel env).reply ≠ .halted (.fault ⟨.unbound x, sp⟩) env' ∧
      t.run fuel env ≠ .halted (.fault ⟨.unbound x, sp⟩) env') := by
  have hforeseen : ∀ x sp env',
      ((t.execute cfg fuel env).reply = .halted (.fault ⟨.unbound x, sp⟩) env' ∨
        t.run fuel env = .halted (.fault ⟨.unbound x, sp⟩) env') →
      ∃ d ∈ t.check env, d.code = .unbound ∧ d.severity = .warning ∧
        d.message = s!"variable '{x}' may be unbound here" ∧ d.span = sp.known? := by
    rintro x sp env' (h | h)
    · rw [Tree.execute_reply] at h
      exact Engine.eval_unbound_foreseen hclean h
    · exact Engine.eval_unbound_foreseen hclean h
  refine ⟨hforeseen, fun hnone x sp env' => ⟨fun h => ?_, fun h => ?_⟩⟩
  · obtain ⟨d, hd, -⟩ := hforeseen x sp env' (.inl h)
    rw [hnone] at hd
    exact absurd hd List.not_mem_nil
  · obtain ⟨d, hd, -⟩ := hforeseen x sp env' (.inr h)
    rw [hnone] at hd
    exact absurd hd List.not_mem_nil

/-- A read after a loop whose body binds the name on one branch only, stopped neither by the check nor by its
limit: `while (go) { go := false; if (go) { x := 1 } }; x`. -/
theorem unbound_foreseen_after_loop :
    let sp : Span := .point "p.yaml" 7 3
    let loop : Tree := .loop Span.none (.var Span.none "go")
      (.seq Span.none (.assign Span.none "go" (.bool Span.none false))
        (.ite Span.none (.var Span.none "go") (.assign Span.none "x" (.num Span.none 1)) .absent))
    let t : Tree := .seq Span.none loop (.var sp "x")
    let env : Env := Env.ofList [("go", .bool Span.none true)]
    let cfg : Settings := { limits := { maxSteps := some 100 } }
    Diagnostics.hasErrors (t.check env) = false ∧
      (∃ env', (t.execute cfg 0 env).reply = .halted (.fault ⟨.unbound "x", sp⟩) env') ∧
      ∃ d ∈ t.check env, d.code = .unbound ∧ d.severity = .warning ∧
        d.message = "variable 'x' may be unbound here" ∧ d.span = some sp := by
  intro sp loop t env cfg
  have hclean : Diagnostics.hasErrors (t.check env) = false := by decide
  have hrun : ∃ env', (t.execute cfg 0 env).reply = .halted (.fault ⟨.unbound "x", sp⟩) env' := ⟨_, rfl⟩
  obtain ⟨env', henv'⟩ := hrun
  refine ⟨hclean, ⟨env', henv'⟩, ?_⟩
  exact (unbound_foreseen_by_check t env cfg 0 hclean).1 "x" sp env' (.inl henv')

end WhileLang
