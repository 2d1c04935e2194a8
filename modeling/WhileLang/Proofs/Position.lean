import WhileLang.Proofs.Engine.Equivalent
import WhileLang.Scope

/-!
# Positions do not matter

A position is copied into results, unrolled loops, values and errors, but nothing is ever decided by one. Programs
that agree up to positions, started in environments that do, take the same steps to the same end, and what is
written of both runs differs in positions only. The check says the same of both, again up to positions. This is
`alike_of_unplaced`.

The runs are two matching ones, for any relation of positions (`Engine.outermost_matches`). The check is a walk over
one tree, so it is enough that a walk over the tree without positions gives the diagnostics without positions
(`Tree.walk_unplaced`).
-/

namespace WhileLang

/-! ## The check -/

/-- The diagnostic with its position taken out. -/
def Diagnostic.unplaced (d : Diagnostic) : Diagnostic := { d with span := none }

namespace Tree

@[simp] theorem kind_unplaced (t : Tree) : t.unplaced.kind = t.kind := by
  cases t with
  | binary _ op => cases op <;> rfl
  | _ => rfl

@[simp] theorem span_unplaced (t : Tree) : t.unplaced.span = Span.none := by
  cases t <;> rfl

@[simp] theorem unplaced_eq_absent {t : Tree} : t.unplaced = .absent ↔ t = .absent := by
  cases t <;> simp [unplaced]

theorem missing_unplaced (t : Tree) (role : String) :
    t.unplaced.missing role = (t.missing role).unplaced := by
  rw [missing, kind_unplaced, span_unplaced]
  rfl

/-- A child that may be missing is walked alike, if it is walked alike where it is present. -/
theorem walk_optional_unplaced (t : Tree) (role : String) {a : Tree} {s : Scope}
    (h : a.unplaced.walk s = ((a.walk s).1.map Diagnostic.unplaced, (a.walk s).2)) :
    (if a.unplaced = .absent then ([t.unplaced.missing role], s) else a.unplaced.walk s) =
      ((if a = .absent then ([t.missing role], s) else a.walk s).1.map Diagnostic.unplaced,
        (if a = .absent then ([t.missing role], s) else a.walk s).2) := by
  by_cases ha : a = .absent
  · rw [if_pos ha, if_pos (unplaced_eq_absent.2 ha), missing_unplaced]
    rfl
  · rw [if_neg ha, if_neg (mt unplaced_eq_absent.1 ha), h]

/-- A walk over the tree without positions gives the diagnostics without positions. -/
theorem walk_unplaced (t : Tree) :
    ∀ s : Scope, t.unplaced.walk s = ((t.walk s).1.map Diagnostic.unplaced, (t.walk s).2) := by
  induction t with
  | absent | num | bool | nothing => exact fun s => rfl
  | var sp name =>
    intro s
    simp only [unplaced, walk]
    split
    · rfl
    · split <;> rfl
  | binary sp op l r ihl ihr =>
    intro s
    have hl := walk_optional_unplaced (.binary sp op l r) "left operand" (ihl s)
    have hr := fun s => walk_optional_unplaced (.binary sp op l r) "right operand" (ihr s)
    simp only [unplaced] at hl hr
    simp only [unplaced, walk, hl, hr, List.map_append]
  | assign sp name v ih =>
    intro s
    have hv := walk_optional_unplaced (.assign sp name v) "value" (ih s)
    simp only [unplaced] at hv
    simp only [unplaced, walk, hv, List.map_append]
    split <;> rfl
  | ite sp c t e ihc iht ihe =>
    intro s
    have hmissing := missing_unplaced (.ite sp c t e)
    simp only [unplaced] at hmissing
    simp only [unplaced, walk, unplaced_eq_absent, hmissing, ihc, iht, ihe]
    split
    · rfl
    split
    · rfl
    · simp only [List.map_append]
  | seq sp a b iha ihb =>
    intro s
    have hmissing := missing_unplaced (.seq sp a b)
    simp only [unplaced] at hmissing
    simp only [unplaced, walk, unplaced_eq_absent, hmissing, iha, ihb]
    split
    · rfl
    split
    · rfl
    · simp only [List.map_append]
  | loop sp c b ihc ihb =>
    intro s
    have hmissing := missing_unplaced (.loop sp c b)
    simp only [unplaced] at hmissing
    simp only [unplaced, walk, unplaced_eq_absent, hmissing, ihc, ihb]
    split
    · rfl
    split
    · rfl
    · simp only [List.map_append]

/-- So does the check. -/
theorem check_unplaced (t : Tree) (env : Env) :
    t.unplaced.check env = (t.check env).map Diagnostic.unplaced := by
  cases t with
  | absent => rfl
  | _ => exact congrArg Prod.fst (walk_unplaced _ env.names)

/-- Programs that agree up to positions are checked alike, if the same names are bound. -/
theorem check_of_unplaced {t t' : Tree} {env env' : Env} (ht : t.unplaced = t'.unplaced)
    (hnames : env.names = env'.names) :
    (t.check env).map Diagnostic.unplaced = (t'.check env').map Diagnostic.unplaced := by
  have hwalk : t.unplaced.check env = t.unplaced.check env' := by
    cases t.unplaced with
    | absent => rfl
    | _ => simp only [check, hnames]
  rw [← check_unplaced, ← check_unplaced, ← ht, hwalk]

end Tree

/-- The names of environments that agree up to positions. -/
theorem Env.Moved.names {env env' : Env} (h : env.Moved env') : env.names = env'.names := by
  have hnames : ∀ e : Env, e.names = (Bindings.unplaced e.bindings).map (·.1) := by
    intro e
    rw [Bindings.unplaced, List.map_map]
    rfl
  rw [hnames env, hnames env', h]

/-! ## Runs -/

open Engine

/-- What is written of an event besides its position. -/
def Event.written (e : Event) : String × List (String × String) := (e.name, e.data)

/-- Matching events are written alike. -/
theorem Event.Matches.written {P : Span → Span → Prop} {N : String → Prop} {e e' : Event}
    (h : Event.Matches P N e e') : e.written = e'.written := by
  cases h with
  | runStart ht => simp only [Event.written, Event.name, Event.data, ht.text]
  | step ht => simp only [Event.written, Event.name, Event.data, ht.text, ht.kind]
  | assign hv => simp only [Event.written, Event.name, Event.data, hv.text]

/-- Matching stories are written alike. -/
theorem Event.map_written_of_matches {P : Span → Span → Prop} {N : String → Prop} {l l' : List Event}
    (h : List.Forall₂ (Event.Matches P N) l l') : l.map Event.written = l'.map Event.written := by
  induction h with
  | nil => rfl
  | cons he _ ih => rw [List.map_cons, List.map_cons, he.written, ih]

/-- Matching answers close their runs alike. -/
theorem Reply.Matches.closing {r r' : Reply} (h : Reply.Matches (fun _ _ => True) (fun _ => True) r r')
    (traced : Bool) (steps : Nat) :
    (closing traced steps r).map Event.written = (closing traced steps r').map Event.written := by
  cases traced with
  | false => cases h <;> rfl
  | true =>
    cases h with
    | done hv henv =>
      have htext := Env.text_of_unplaced (Env.moved_iff_matches.2 henv)
      show [Event.written _] = [Event.written _]
      simp only [Event.written, Event.name, Event.data, hv.text, htext]
    | halted hhalt =>
      show [Event.written _] = [Event.written _]
      rw [hhalt.report.2.2]
    | unfinished => rfl

/-- Programs that agree up to positions behave alike. Started in environments that bind the same names to the same
values, they return the same value in the same environment or fail with the same error, after as many steps; their
traces are written alike event by event, but for positions, and so are the diagnostics of the check. -/
theorem alike_of_unplaced (t t' : Tree) (env env' : Env) (ht : t.unplaced = t'.unplaced)
    (henv : ∀ x, Option.Rel (fun v v' : Value => v.same v' = true) (env.get? x) (env'.get? x)) :
    (∀ (cfg : Settings) (fuel : Nat),
      let o := t.execute cfg fuel env
      let o' := t'.execute cfg fuel env'
      (match o.reply, o'.reply with
        | .done v e, .done v' e' => v.same v' = true ∧ e.same e' = true
        | .halted halt e, .halted halt' e' =>
          halt.toFailure.code = halt'.toFailure.code ∧ halt.toFailure.message = halt'.toFailure.message ∧
            e.same e' = true
        | .unfinished, .unfinished => True
        | _, _ => False) ∧
      o.steps = o'.steps ∧
      o.events.map Event.written = o'.events.map Event.written) ∧
    (t.check env).map Diagnostic.unplaced = (t'.check env').map Diagnostic.unplaced := by
  have hmatch : Env.Matches (fun _ _ => True) (fun _ => True) env env' := by
    intro x _
    have h := henv x
    generalize env.get? x = v? at h ⊢
    generalize env'.get? x = v'? at h ⊢
    cases h with
    | none => exact .none
    | some h => exact .some (Value.matches_iff.2 (Value.unplaced_of_same h))
  refine ⟨fun cfg fuel => ?_, Tree.check_of_unplaced ht (Env.moved_iff_matches.2 hmatch).names⟩
  have hruns : SideBySide (fun _ _ => True) (fun _ => True) cfg cfg (outermost cfg fuel t env)
      (outermost cfg fuel t' env') :=
    outermost_matches (fun _ => trivial) cfg cfg.traced fuel
      (Tree.moved_iff_matches.1 (Tree.moved_of_unplaced ht)) hmatch
  have haccounted := t.execute_accounted cfg fuel env
  rw [Tree.execute_eq] at haccounted
  obtain ⟨hreply, hsteps, hevents⟩ := hruns
  simp only [Tree.execute_eq]
  refine ⟨?_, hsteps, ?_⟩
  · generalize (outermost cfg fuel t env).1 = r at hreply haccounted ⊢
    generalize (outermost cfg fuel t' env').1 = r' at hreply ⊢
    cases hreply with
    | done hv he =>
      -- an answer is a normal form, and equal to those that match it
      exact ⟨hv.same (BigStep.same_self haccounted rfl), Env.same_of_unplaced (Env.moved_iff_matches.2 he)⟩
    | halted hhalt he =>
      obtain ⟨hcode, hmessage, -⟩ := hhalt.report
      exact ⟨hcode, hmessage, Env.same_of_unplaced (Env.moved_iff_matches.2 he)⟩
    | unfinished => trivial
  · have hsofar := Event.map_written_of_matches (hevents rfl)
    have hclosing := hreply.closing cfg.traced (outermost cfg fuel t env).2.steps
    rw [List.map_append, List.map_append, List.map_reverse, List.map_reverse, hsofar, hclosing, hsteps]

/-- A program that was read from a file counts, and then misses a name, like the one that was built in code. -/
theorem alike_of_unplaced_counting :
    let program (s : Span) : Tree :=
      .seq s
        (.loop s (.binary s .lt (.var s "x") (.num s 3))
          (.assign s "x" (.binary s .add (.var s "x") (.num s 1))))
        (.var s "y")
    let start (s : Span) : Env := Env.empty.insert "x" (.num s 0)
    let s : Span := .point "p.yaml" 3 1
    (program s).unplaced = (program Span.none).unplaced ∧
      (∀ x, Option.Rel (fun v v' : Value => v.same v' = true) ((start s).get? x) ((start Span.none).get? x)) ∧
      (∀ (cfg : Settings) (fuel : Nat),
        let o := (program s).execute cfg fuel (start s)
        let o' := (program Span.none).execute cfg fuel (start Span.none)
        o.steps = o'.steps ∧ o.events.map Event.written = o'.events.map Event.written) ∧
      ((program s).check (start s)).map Diagnostic.unplaced =
        ((program Span.none).check (start Span.none)).map Diagnostic.unplaced := by
  intro program start s
  have ht : (program s).unplaced = (program Span.none).unplaced := rfl
  have henv : ∀ x, Option.Rel (fun v v' : Value => v.same v' = true) ((start s).get? x)
      ((start Span.none).get? x) := by
    intro x
    rw [Env.get?_insert, Env.get?_insert]
    split
    · exact .some rfl
    · exact .none
  obtain ⟨hruns, hcheck⟩ :=
    alike_of_unplaced (program s) (program Span.none) (start s) (start Span.none) ht henv
  exact ⟨ht, henv, fun cfg fuel => (hruns cfg fuel).2, hcheck⟩

end WhileLang
