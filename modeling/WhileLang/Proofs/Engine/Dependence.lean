import WhileLang.Proofs.Engine.Parallel
import WhileLang.Proofs.Scope.Complaint
import WhileLang.Proofs.Unplaced

/-!
# What a run depends on

A run can tell environments apart only through the variables that its program reads. If two environments lead from
those names to the same values, the program takes the same steps from both, makes the same assignments and comes to
the same value or the same error (`execute_depends_on_reads`). The two runs match at equal positions, with nothing
read but the names of the program.

Of the final environments more can be said than that they agree on the names read. Each of them is its initial
environment after the assignments of its run (`Engine.outermost_after`), and both runs make the same ones, so they agree
wherever they agreed before and on all that was assigned. A run makes its assignments whether it is traced or not
(`Tree.execute_traced`).
-/

namespace WhileLang

variable {P : Span → Span → Prop} {N : String → Prop}

/-! ## Matching at equal positions -/

theorem Value.Matches.eq {v v' : Value} (h : Value.Matches Eq v v') : v = v' := by
  cases h with
  | num hs | bool hs => rw [hs]

theorem Tree.Matches.eq {t t' : Tree} (h : Tree.Matches Eq N t t') : t = t' := by
  induction h with
  | absent => rfl
  | num hs | bool hs | nothing hs | var hs => rw [hs]
  | binary hs _ _ ihl ihr => rw [hs, ihl, ihr]
  | assign hs _ ih => rw [hs, ih]
  | ite hs _ _ _ ihc iht ihe => rw [hs, ihc, iht, ihe]
  | seq hs _ _ iha ihb => rw [hs, iha, ihb]
  | loop hs _ _ ihc ihb => rw [hs, ihc, ihb]

theorem Halt.Matches.eq {halt halt' : Halt} (h : Halt.Matches Eq halt halt') : halt = halt' := by
  cases h with
  | fault hs => rw [hs]
  | same => rfl

theorem Event.Matches.eq {e e' : Event} (h : Event.Matches Eq N e e') : e = e' := by
  cases h with
  | runStart ht | step ht => rw [ht.eq]
  | assign hv => rw [hv.eq]

/-- Stories that match at equal positions are the same. -/
theorem Progress.Matches.events_eq {cfg : Settings} {p p' : Progress} (h : Progress.Matches Eq N cfg cfg p p') :
    p.events = p'.events := by
  have hequal : List.Forall₂ Eq p.events p'.events := (h.events rfl).imp fun _ _ he => he.eq
  rwa [List.forall₂_eq_eq_eq] at hequal

/-- Environments match if they lead from the names that are read to the same values. -/
theorem Env.matches_of_get? {env env' : Env} (h : ∀ x, N x → env.get? x = env'.get? x) :
    Env.Matches Eq N env env' := by
  intro x hx
  rw [h x hx]
  cases env'.get? x with
  | none => exact .none
  | some v =>
    cases v with
    | num s n => exact .some (.num rfl)
    | bool s b => exact .some (.bool rfl)

/-- Environments that match on all names are the same. -/
theorem Env.Matches.eq {env env' : Env} (h : Env.Matches Eq (fun _ => True) env env') : env = env' := by
  refine ext_get? fun x => ?_
  have hx := h x trivial
  generalize env.get? x = v? at hx ⊢
  generalize env'.get? x = v'? at hx ⊢
  cases hx with
  | none => rfl
  | some hv => rw [hv.eq]

namespace Tree

/-- The names that a program reads. -/
def Reads (t : Tree) (x : String) : Prop := ∃ s, .var s x ∈ t.nodes

theorem Reads.of_child {t a : Tree} {x : String} (ha : a ∈ t.children) (h : a.Reads x) : t.Reads x := by
  obtain ⟨s, hx⟩ := h
  exact ⟨s, nodes_subset_of_mem_children ha hx⟩

/-- A tree matches itself if all it reads may be read. -/
theorem matches_self (t : Tree) : (∀ x, t.Reads x → N x) → Tree.Matches Eq N t t := by
  induction t with
  | absent => exact fun _ => .absent
  | num => exact fun _ => .num rfl
  | bool => exact fun _ => .bool rfl
  | nothing => exact fun _ => .nothing rfl
  | var s name => exact fun h => .var rfl (h name ⟨s, List.mem_singleton_self _⟩)
  | binary s op l r ihl ihr =>
    intro h
    have hl := ihl fun x hx => h x (hx.of_child (by simp [children]))
    have hr := ihr fun x hx => h x (hx.of_child (by simp [children]))
    exact .binary rfl hl hr
  | assign s name v ih => exact fun h => .assign rfl (ih fun x hx => h x (hx.of_child (by simp [children])))
  | ite s c t e ihc iht ihe =>
    intro h
    have hc := ihc fun x hx => h x (hx.of_child (by simp [children]))
    have ht := iht fun x hx => h x (hx.of_child (by simp [children]))
    have he := ihe fun x hx => h x (hx.of_child (by simp [children]))
    exact .ite rfl hc ht he
  | seq s a b iha ihb =>
    intro h
    have ha := iha fun x hx => h x (hx.of_child (by simp [children]))
    have hb := ihb fun x hx => h x (hx.of_child (by simp [children]))
    exact .seq rfl ha hb
  | loop s c b ihc ihb =>
    intro h
    have hc := ihc fun x hx => h x (hx.of_child (by simp [children]))
    have hb := ihb fun x hx => h x (hx.of_child (by simp [children]))
    exact .loop rfl hc hb

end Tree

/-! ## The assignments of a run -/

open Engine

/-- After the same assignments, environments agree on what was assigned and where they agreed before. -/
theorem Env.after_get? (x : String) (log : List Event) : ∀ env env' : Env,
    (env.get? x = env'.get? x ∨ ∃ v, .assign x v ∈ log) → (env.after log).get? x = (env'.after log).get? x := by
  induction log with
  | nil =>
    rintro env env' (h | ⟨v, hv⟩)
    · exact h
    · exact absurd hv List.not_mem_nil
  | cons e log ih =>
    intro env env' h
    cases e with
    | assign name w =>
      refine ih (env.insert name w) (env'.insert name w) ?_
      by_cases hx : x = name
      · left
        rw [get?_insert, get?_insert, if_pos hx, if_pos hx]
      · refine h.imp (fun h => ?_) fun ⟨v, hv⟩ => ⟨v, ?_⟩
        · rw [get?_insert, get?_insert, if_neg hx, if_neg hx, h]
        · simpa [hx] using hv
    | _ => exact ih env env' (h.imp_right fun ⟨v, hv⟩ => ⟨v, by simpa using hv⟩)

/-- A traced run that completes leaves its initial environment behind, after the assignments of its log. -/
theorem Engine.outermost_after {cfg : Settings} (htraced : cfg.traced = true) {fuel : Nat} {t v : Tree}
    {env env' : Env} (h : (outermost cfg fuel t env).1 = .done v env') :
    env' = env.after (outermost cfg fuel t env).2.events.reverse := by
  have halong := outermost_along cfg fuel t env
  rcases hq : outermost cfg fuel t env with ⟨r, q⟩
  rw [hq] at h halong
  simp only at h
  subst h
  have hmoves : Moves cfg (env, opening cfg t) (env', q) := halong
  obtain ⟨l, hevents, -⟩ := hmoves.log
  have hafter := hmoves.env_eq_after htraced l hevents
  simp only at hevents hafter ⊢
  rw [hevents, events_opening htraced, List.reverse_append, Env.after_append]
  exact hafter

/-- Whether a run is traced makes no difference to it. -/
theorem Tree.execute_traced (cfg : Settings) (traced : Bool) (fuel : Nat) (t : Tree) (env : Env) :
    (t.execute { cfg with traced := traced } fuel env).reply = (t.execute cfg fuel env).reply := by
  have hself : Tree.Matches Eq (fun _ => True) t t := t.matches_self fun _ _ => trivial
  have henv : Env.Matches Eq (fun _ => True) env env := Env.matches_of_get? fun _ _ => rfl
  have hruns := outermost_matches (fun _ => rfl) cfg traced fuel hself henv
  rw [execute_eq, execute_eq]
  have hreply := hruns.reply
  generalize (outermost cfg fuel t env).1 = r at hreply ⊢
  generalize (outermost { cfg with traced := traced } fuel t env).1 = r' at hreply ⊢
  cases hreply with
  | done hv he => rw [hv.eq, he.eq]
  | halted hhalt he => rw [hhalt.eq, he.eq]
  | unfinished => rfl

/-- A run that completes leaves its initial environment behind, after the assignments that it makes when it is
traced. -/
theorem Tree.execute_after {cfg : Settings} {fuel : Nat} {t v : Tree} {env env' : Env}
    (h : (t.execute cfg fuel env).reply = .done v env') :
    env' = env.after (outermost { cfg with traced := true } fuel t env).2.events.reverse := by
  rw [← execute_traced cfg true, execute_eq] at h
  exact outermost_after rfl h

/-- What a run tells of steps and assignments stands in the account of its outermost evaluation. -/
theorem Tree.filter_events_execute (cfg : Settings) (fuel : Nat) (t : Tree) (env : Env) :
    (t.execute cfg fuel env).events.filter (fun e => e.isStep || e.isAssign) =
      (outermost cfg fuel t env).2.events.reverse.filter fun e => e.isStep || e.isAssign := by
  rw [execute_eq, List.filter_append]
  have hclosing : ∀ e ∈ closing cfg.traced (outermost cfg fuel t env).2.steps (outermost cfg fuel t env).1,
      ¬ (e.isStep || e.isAssign) = true := by
    intro e he
    rcases hr : (outermost cfg fuel t env).1 with ⟨v, env'⟩ | ⟨halt, env'⟩ | _ <;> rw [hr] at he
    · obtain ⟨-, rfl⟩ : cfg.traced = true ∧ e = .runEnd v env' _ := by simpa [closing] using he
      exact Bool.false_ne_true
    · obtain ⟨-, rfl⟩ : cfg.traced = true ∧ e = halt.event := by simpa [closing] using he
      unfold Halt.event
      split <;> exact Bool.false_ne_true
    · exact absurd he List.not_mem_nil
  rw [List.filter_eq_nil_iff.2 hclosing, List.append_nil]

/-- The assignments of a traced run are in the account of its outermost evaluation. -/
theorem Tree.mem_outermost_of_assign {cfg : Settings} {fuel : Nat} {t : Tree} {env : Env} {x : String} {v : Value}
    (h : .assign x v ∈ (t.execute cfg fuel env).events) :
    .assign x v ∈ (outermost cfg fuel t env).2.events.reverse := by
  have hkept : .assign x v ∈ (t.execute cfg fuel env).events.filter fun e => e.isStep || e.isAssign :=
    List.mem_filter.2 ⟨h, rfl⟩
  rw [filter_events_execute] at hkept
  exact List.mem_of_mem_filter hkept

/-- A run depends only on the variables that the program reads. From environments that agree on them it takes as many
steps, tells of the same steps and assignments, and comes to the same value or the same error. Where it completes,
the environments that it leaves agree wherever the initial ones did, and on every name that was assigned. -/
theorem execute_depends_on_reads (t : Tree) (e₁ e₂ : Env) (hreads : ∀ x, t.Reads x → e₁.get? x = e₂.get? x)
    (cfg : Settings) (fuel : Nat) :
    let o₁ := t.execute cfg fuel e₁
    let o₂ := t.execute cfg fuel e₂
    o₁.steps = o₂.steps ∧
      o₁.events.filter (fun e => e.isStep || e.isAssign) = o₂.events.filter (fun e => e.isStep || e.isAssign) ∧
      match o₁.reply, o₂.reply with
      | .done v₁ e₁', .done v₂ e₂' =>
        v₁ = v₂ ∧ ∀ x, (e₁.get? x = e₂.get? x ∨
            ∃ v, .assign x v ∈ (t.execute { cfg with traced := true } fuel e₁).events) →
          e₁'.get? x = e₂'.get? x
      | .halted halt₁ _, .halted halt₂ _ => halt₁ = halt₂
      | .unfinished, .unfinished => True
      | _, _ => False := by
  have hself : Tree.Matches Eq t.Reads t t := t.matches_self fun _ hx => hx
  have henv : Env.Matches Eq t.Reads e₁ e₂ := Env.matches_of_get? hreads
  have hruns : ∀ cfg, SideBySide Eq t.Reads cfg cfg (outermost cfg fuel t e₁) (outermost cfg fuel t e₂) :=
    fun cfg => outermost_matches (fun _ => rfl) cfg cfg.traced fuel hself henv
  obtain ⟨hreply, hprogress⟩ := hruns cfg
  refine ⟨?_, ?_, ?_⟩
  · rw [Tree.execute_eq, Tree.execute_eq]
    exact hprogress.steps
  · rw [Tree.filter_events_execute, Tree.filter_events_execute, hprogress.events_eq]
  · have hreplies : Reply.Matches Eq t.Reads (t.execute cfg fuel e₁).reply (t.execute cfg fuel e₂).reply := by
      rw [Tree.execute_eq, Tree.execute_eq]
      exact hreply
    generalize h₁ : (t.execute cfg fuel e₁).reply = r₁ at hreplies ⊢
    generalize h₂ : (t.execute cfg fuel e₂).reply = r₂ at hreplies ⊢
    cases hreplies with
    | done hv =>
      refine ⟨hv.eq, fun x hx => ?_⟩
      -- traced, both runs make the same assignments
      have hlogs := (hruns { cfg with traced := true }).progress.events_eq
      rw [Tree.execute_after h₁, Tree.execute_after h₂, ← hlogs]
      exact Env.after_get? x _ _ _ (hx.imp_right fun ⟨v, hv⟩ => ⟨v, Tree.mem_outermost_of_assign hv⟩)
    | halted hhalt => exact hhalt.eq
    | unfinished => trivial

/-- A loop does not notice what it does not read, and leaves it alone unless it assigns it. -/
theorem execute_depends_on_reads_counting :
    let s : Span := .point "p.yaml" 1 1
    let t : Tree :=
      .loop s (.binary s .lt (.var s "x") (.num s 3))
        (.seq s (.assign s "y" (.var s "x")) (.assign s "x" (.binary s .add (.var s "x") (.num s 1))))
    let e₁ := Env.empty.insert "x" (.num s 0)
    let e₂ := (e₁.insert "y" (.bool s true)).insert "z" (.num s 5)
    (∀ x, t.Reads x → e₁.get? x = e₂.get? x) ∧
      ∀ cfg fuel,
        let o₁ := t.execute cfg fuel e₁
        let o₂ := t.execute cfg fuel e₂
        o₁.steps = o₂.steps ∧
          o₁.events.filter (fun e => e.isStep || e.isAssign) =
            o₂.events.filter fun e => e.isStep || e.isAssign := by
  intro s t e₁ e₂
  have hreads : ∀ x, t.Reads x → e₁.get? x = e₂.get? x := by
    rintro x ⟨s', hx⟩
    obtain ⟨-, hname⟩ : s' = s ∧ x = "x" := by simpa [t, Tree.nodes] using hx
    rw [hname]
    decide
  refine ⟨hreads, fun cfg fuel => ?_⟩
  obtain ⟨hsteps, hevents, -⟩ := execute_depends_on_reads t e₁ e₂ hreads cfg fuel
  exact ⟨hsteps, hevents⟩

end WhileLang
