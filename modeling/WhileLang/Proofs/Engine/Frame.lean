import WhileLang.Proofs.Engine.Limit
import WhileLang.Proofs.Engine.Story
import WhileLang.Proofs.Tree
import WhileLang.Proofs.Unplaced

/-!
# What a run leaves alone

A run binds the targets of the assignments in its program and no other name, and it never unbinds one. It makes new
trees as it goes, and drops the environments of parts that fail, but neither adds a target: what comes next after a
step is a part of the tree, a normal form, or a loop unrolled once, which assigns what the loop does
(`Tree.Assigns.of_unroll`).

`Env.Frame N` says this of two environments with any names in place of the targets. It is transitive, so a story
keeps it by its rules (`Tells.framed`), and with it every answer, be it a result or a halt.
-/

namespace WhileLang

/-! ## Targets -/

namespace Tree

/-- The names that a program assigns. -/
def Assigns (t : Tree) (x : String) : Prop := ∃ s v, .assign s x v ∈ t.nodes

theorem Assigns.of_child {t a : Tree} {x : String} (ha : a ∈ t.children) (h : a.Assigns x) : t.Assigns x := by
  obtain ⟨s, v, hx⟩ := h
  exact ⟨s, v, nodes_subset_of_mem_children ha hx⟩

theorem not_assigns_toTree (v : Value) (x : String) : ¬ v.toTree.Assigns x := by
  rintro ⟨s, w, hx⟩
  cases v <;> cases List.mem_singleton.1 hx

theorem not_assigns_apply (op : Op) (s : Span) (a b : Int64) (x : String) : ¬ (op.apply s a b).Assigns x := by
  rintro ⟨s', w, hx⟩
  cases op <;> cases List.mem_singleton.1 hx

theorem not_assigns_nothing (s : Span) (x : String) : ¬ (nothing s).Assigns x := by
  rintro ⟨s', v, hx⟩
  cases List.mem_singleton.1 hx

/-- A loop unrolled once assigns what the loop does. -/
theorem Assigns.of_unroll {s : Span} {c b : Tree} {x : String} (h : (unroll s c b).Assigns x) :
    (loop s c b).Assigns x := by
  obtain ⟨s', v, hx⟩ := h
  refine ⟨s', v, ?_⟩
  simp only [unroll, nodes, List.mem_cons, List.mem_append, reduceCtorEq, false_or, List.not_mem_nil,
    or_false] at hx ⊢
  tauto

end Tree

/-! ## Environments in a frame -/

/-- Between two environments, only names of a set are bound, and none is unbound. -/
structure Env.Frame (N : String → Prop) (env env' : Env) : Prop where
  same : ∀ x, ¬ N x → env'.get? x = env.get? x
  bound : ∀ x, env.contains x = true → env'.contains x = true

namespace Env.Frame

variable {N : String → Prop} {env env₁ env₂ : Env}

theorem refl : Frame N env env := ⟨fun _ _ => rfl, fun _ hx => hx⟩

theorem trans (h : Frame N env env₁) (h' : Frame N env₁ env₂) : Frame N env env₂ := by
  constructor
  · intro x hx
    rw [h'.same x hx, h.same x hx]
  · exact fun x hx => h'.bound x (h.bound x hx)

/-- A name of the set may be bound. -/
theorem insert {name : String} (hname : N name) (v : Value) : Frame N env (env.insert name v) := by
  constructor
  · intro x hx
    have hne : x ≠ name := by
      rintro rfl
      exact hx hname
    rw [get?_insert, if_neg hne]
  · intro x hx
    rw [contains_insert, hx, Bool.or_true]

/-- Where it came from, if a name is bound. -/
theorem origin (h : Frame N env env₁) (x : String) (hx : env₁.contains x = true) :
    env.contains x = true ∨ N x := by
  by_cases hN : N x
  · exact .inr hN
  · unfold contains at hx ⊢
    rw [h.same x hN] at hx
    exact .inl hx

/-- If no name may be bound, nothing changes. -/
theorem eq_of_forall_not (h : Frame N env env₁) (hN : ∀ x, ¬ N x) : env₁ = env :=
  ext_get? fun x => h.same x (hN x)

end Env.Frame

/-- The environment that an answer names, if any, is in a frame. -/
def Reply.Framed (N : String → Prop) (env : Env) : Reply → Prop
  | .done _ env' | .halted _ env' => env.Frame N env'
  | .unfinished => True

namespace Reply.Framed

variable {N : String → Prop} {env env₁ : Env} {r : Reply}

/-- An answer that starts where another part ended. -/
theorem after (h : env.Frame N env₁) (hr : r.Framed N env₁) : r.Framed N env := by
  cases r with
  | done v env' => exact h.trans hr
  | halted halt env' => exact h.trans hr
  | unfinished => trivial

/-- A part that breaks off leaves the environment as it was. -/
theorem keeping (hr : r.isDone = false) : (r.keeping env).Framed N env := by
  cases r with
  | done v env' => cases hr
  | halted halt env' => exact .refl
  | unfinished => trivial

end Reply.Framed

/-- An evaluation binds the targets of its tree and nothing else, whatever it comes to. -/
theorem Tells.framed {cfg : Settings} {N : String → Prop} {depth n : Nat} {t : Tree} {env : Env} {log : List Event}
    {r : Reply} (h : Tells cfg depth t env n log r) : (∀ x, t.Assigns x → N x) → r.Framed N env := by
  induction h with
  | pause => exact fun _ => trivial
  | stopped | normal | unbound | operands | assigned | condition => exact fun _ => .refl
  | first _ _ _ hr | right _ _ _ hr => exact fun _ => .keeping hr
  | @var _ _ _ _ _ v _ _ _ _ _ ih => exact fun _ => ih fun x hx => absurd hx (Tree.not_assigns_toTree v x)
  | binary _ _ _ _ ihl ihr ih =>
    intro hN
    have hl := ihl fun x hx => hN x (hx.of_child (by simp [Tree.children]))
    have hr := ihr fun x hx => hN x (hx.of_child (by simp [Tree.children]))
    have hresult := ih fun x hx => absurd hx (Tree.not_assigns_apply _ _ _ _ x)
    exact hresult.after (hl.trans hr)
  | @assign _ _ _ _ s x t _ v _ _ _ _ _ _ _ iht ih =>
    intro hN
    have hvalue := iht fun y hy => hN y (hy.of_child (by simp [Tree.children]))
    have htarget : N x := hN x ⟨s, t, List.mem_cons_self⟩
    have hresult := ih fun y hy => absurd hy (Tree.not_assigns_nothing s y)
    exact hresult.after (hvalue.trans (.insert htarget v))
  | @ite _ _ _ _ _ _ _ _ _ b _ _ _ _ _ _ ihc ih =>
    intro hN
    have hcond := ihc fun x hx => hN x (hx.of_child (by simp [Tree.children]))
    have hbranch := ih fun x hx => hN x (hx.of_child (by cases b <;> simp [Tree.children]))
    exact hbranch.after hcond
  | seq _ _ _ iha ih =>
    intro hN
    have hfirst := iha fun x hx => hN x (hx.of_child (by simp [Tree.children]))
    have hsecond := ih fun x hx => hN x (hx.of_child (by simp [Tree.children]))
    exact hsecond.after hfirst
  | loop _ _ ih => exact fun hN => ih fun x hx => hN x hx.of_unroll

/-- The frame of a run. However a run ends, and a run with a step limit does end, the environment that it returns
leads from every name that the program does not assign to where the initial one leads, binds all names that this one
binds, and binds no others but targets of assignments. A program without assignments returns its environment
unchanged. -/
theorem execute_frame (t : Tree) (env : Env) (cfg : Settings) (fuel : Nat) :
    let o := t.execute cfg fuel env
    (cfg.limits.maxSteps ≠ none → o.reply ≠ .unfinished) ∧
    (o.reply ≠ .unfinished →
      (∀ x, ¬ t.Assigns x → o.env.get? x = env.get? x) ∧
      (∀ x, env.contains x = true → o.env.contains x = true) ∧
      (∀ x, o.env.contains x = true → env.contains x = true ∨ t.Assigns x) ∧
      ((∀ x, ¬ t.Assigns x) → o.env = env)) := by
  intro o
  refine ⟨t.execute_ne_unfinished cfg fuel env, fun hends => ?_⟩
  obtain ⟨log, htells, -, -⟩ := t.execute_told cfg fuel env
  have hframed : o.reply.Framed t.Assigns env := htells.framed fun _ hx => hx
  have hframe : env.Frame t.Assigns o.env := by
    unfold Outcome.env
    rcases hr : o.reply with ⟨v, env'⟩ | ⟨halt, env'⟩ | _ <;> rw [hr] at hframed
    · exact hframed
    · exact hframed
    · exact absurd hr hends
  exact ⟨hframe.same, hframe.bound, hframe.origin, hframe.eq_of_forall_not⟩

end WhileLang
