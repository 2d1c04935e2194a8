import WhileLang.Proofs.Env
import WhileLang.Proofs.Scope.Walk

/-!
# Checking in a richer environment

What an environment binds in addition takes away the warnings about reads of those names, and has no other effect on
the check: the remaining diagnostics stay as they are and in their order. This holds of malformed trees too, since the
places where the walk stops early hand on the names that they got.

The walk over a tree is compared with the walk over the same tree that starts with some more names bound
(`Tree.walk_widens`). At every point the two scopes differ by these names only: a binding adds the same name to both,
and what both branches of a conditional bind is the same in both once the names are added.
-/

namespace WhileLang

/-! ## Warnings of names -/

/-- The diagnostic is the warning that a read of the name may come too early, wherever the read stands. -/
def Diagnostic.warnsOf (d : Diagnostic) (name : String) : Bool :=
  d == Tree.mayBeUnbound (d.span.getD Span.none) name

theorem Diagnostic.warnsOf_iff {d : Diagnostic} {name : String} :
    d.warnsOf name = true ↔ ∃ sp, d = Tree.mayBeUnbound sp name := by
  unfold warnsOf
  rw [beq_iff_eq]
  constructor
  · exact fun h => ⟨_, h⟩
  · rintro ⟨sp, rfl⟩
    -- a position that is not known is shown as none, so it cannot be told from `Span.none`
    by_cases hsp : sp = Span.none
    · rw [hsp]
      rfl
    · simp [Tree.mayBeUnbound, Span.known?, hsp]

/-- A warning names one variable. -/
theorem Diagnostic.warnsOf_mayBeUnbound {sp : Span} {x name : String} :
    (Tree.mayBeUnbound sp x).warnsOf name = true ↔ x = name := by
  rw [warnsOf_iff]
  constructor
  · rintro ⟨sp', h⟩
    have hmessage := congrArg Diagnostic.message h
    have hquoted : "variable '" ++ x ++ "' may be unbound here" = "variable '" ++ name ++ "' may be unbound here" :=
      hmessage
    simpa using hquoted
  · rintro rfl
    exact ⟨sp, rfl⟩

namespace Diagnostics

/-- The diagnostics in their order, without the warnings of some names. -/
def without (names : List String) (ds : List Diagnostic) : List Diagnostic :=
  ds.filter fun d => !names.any d.warnsOf

variable {names : List String} {d : Diagnostic}

theorem any_warnsOf_iff : names.any d.warnsOf = true ↔ ∃ sp x, x ∈ names ∧ d = Tree.mayBeUnbound sp x := by
  rw [List.any_eq_true]
  constructor
  · rintro ⟨x, hx, hd⟩
    obtain ⟨sp, hsp⟩ := Diagnostic.warnsOf_iff.1 hd
    exact ⟨sp, x, hx, hsp⟩
  · rintro ⟨sp, x, hx, hsp⟩
    exact ⟨x, hx, Diagnostic.warnsOf_iff.2 ⟨sp, hsp⟩⟩

/-- An error warns of nothing. -/
theorem any_warnsOf_of_error (h : d.isWarning = false) : names.any d.warnsOf = false := by
  rw [Bool.eq_false_iff]
  intro hany
  obtain ⟨sp, x, -, rfl⟩ := any_warnsOf_iff.1 hany
  cases h

theorem without_append (ds ds' : List Diagnostic) :
    without names (ds ++ ds') = without names ds ++ without names ds' :=
  List.filter_append ds ds'

/-- Errors are left where they are. -/
theorem without_error (h : d.isWarning = false) : without names [d] = [d] := by
  simp [without, any_warnsOf_of_error h]

theorem without_mayBeUnbound (sp : Span) (x : String) :
    without names [Tree.mayBeUnbound sp x] = if x ∈ names then [] else [Tree.mayBeUnbound sp x] := by
  have hany : names.any (Tree.mayBeUnbound sp x).warnsOf = decide (x ∈ names) := by
    rw [Bool.eq_iff_iff]
    simp [Diagnostic.warnsOf_mayBeUnbound]
  by_cases hx : x ∈ names
  · simp [without, hany, hx]
  · simp [without, hany, hx]

theorem mem_without {ds : List Diagnostic} :
    d ∈ without names ds ↔ d ∈ ds ∧ ¬ ∃ sp x, x ∈ names ∧ d = Tree.mayBeUnbound sp x := by
  rw [without, List.mem_filter, ← any_warnsOf_iff, Bool.not_eq_true', Bool.eq_false_iff, ne_eq]

theorem errors_without (ds : List Diagnostic) :
    (without names ds).filter (!·.isWarning) = ds.filter (!·.isWarning) := by
  unfold without
  rw [List.filter_filter]
  refine List.filter_congr fun d _ => ?_
  rcases hd : d.isWarning with _ | _
  · rw [any_warnsOf_of_error hd]
    rfl
  · rfl

end Diagnostics

/-! ## Walks with more names -/

/-- Two scopes differ by some names at most, which the second one has. -/
def Scope.Widens (names : List String) (s s' : Scope) : Prop := ∀ x, x ∈ s' ↔ x ∈ s ∨ x ∈ names

namespace Scope.Widens

variable {names : List String} {s s' r r' : Scope}

theorem insert (h : Widens names s s') (name : String) : Widens names (s.insert name) (s'.insert name) := by
  intro x
  rw [mem_insert, mem_insert, h x]
  exact or_assoc.symm

theorem inter (h : Widens names s s') (h' : Widens names r r') : Widens names (s.inter r) (s'.inter r') := by
  intro x
  rw [mem_inter, mem_inter, h x, h' x]
  exact and_or_right.symm

end Scope.Widens

namespace Tree

/-- What two walks have come to, of which the second one had some more names bound from the start. -/
structure Widens (names : List String) (w w' : List Diagnostic × Scope) : Prop where
  diagnostics : w'.1 = Diagnostics.without names w.1
  scope : w.2.Widens names w'.2

namespace Widens

variable {names : List String} {s s' : Scope} {w w' v v' u u' : List Diagnostic × Scope}

theorem nil (h : s.Widens names s') : Widens names ([], s) ([], s') := ⟨rfl, h⟩

theorem error {d : Diagnostic} (h : s.Widens names s') (hd : d.isWarning = false) :
    Widens names ([d], s) ([d], s') :=
  ⟨(Diagnostics.without_error hd).symm, h⟩

/-- One walk after another one: what both say, and the scope of the second. -/
theorem andThen (h : Widens names w w') (h' : Widens names v v') :
    Widens names (w.1 ++ v.1, v.2) (w'.1 ++ v'.1, v'.2) := by
  refine ⟨?_, h'.scope⟩
  rw [Diagnostics.without_append, ← h.diagnostics, ← h'.diagnostics]

/-- A walk whose scope is replaced afterwards. -/
theorem leaving (h : Widens names w w') (hs : s.Widens names s') : Widens names (w.1, s) (w'.1, s') :=
  ⟨h.diagnostics, hs⟩

/-- A child is walked unless it is missing. -/
theorem optional {a : Tree} (t : Tree) (role : String) (hs : s.Widens names s')
    (h : Widens names (a.walk s) (a.walk s')) :
    Widens names (if a = .absent then ([t.missing role], s) else a.walk s)
      (if a = .absent then ([t.missing role], s') else a.walk s') := by
  split
  · exact error hs rfl
  · exact h

end Widens

/-- A walk that starts with more names bound says the same except for the warnings of these names, and comes to the
same scope except for these names. -/
theorem walk_widens {names : List String} (t : Tree) :
    ∀ {s s' : Scope}, s.Widens names s' → Widens names (t.walk s) (t.walk s') := by
  induction t with
  | absent | num | bool | nothing => exact fun hs => .nil hs
  | var sp name =>
    intro s s' hs
    simp only [walk, List.contains_iff_mem, hs name]
    by_cases hname : name = ""
    · simp only [hname, if_true]
      exact .error hs rfl
    · simp only [hname, if_false]
      by_cases hbound : name ∈ s
      · simp only [hbound, true_or, if_true]
        exact .nil hs
      · -- the warning stays unless the name is one of those that were added
        simp only [hbound, false_or, if_false]
        refine ⟨?_, by split <;> exact hs⟩
        rw [Diagnostics.without_mayBeUnbound]
        split <;> rfl
  | binary sp op l r ihl ihr =>
    intro s s' hs
    have hl := Widens.optional (.binary sp op l r) "left operand" hs (ihl hs)
    exact hl.andThen (.optional (.binary sp op l r) "right operand" hl.scope (ihr hl.scope))
  | assign sp name v ih =>
    intro s s' hs
    have hv := Widens.optional (.assign sp name v) "value" hs (ih hs)
    simp only [walk]
    by_cases hname : name = ""
    · simp only [hname, if_true]
      exact (Widens.error hs rfl).andThen hv
    · simp only [hname, if_false]
      exact hv.leaving (hv.scope.insert name)
  | ite sp c t e ihc iht ihe =>
    intro s s' hs
    simp only [walk]
    split
    · exact .error hs rfl
    split
    · exact .error hs rfl
    have hc := ihc hs
    have ht := iht hc.scope
    have he := ihe hc.scope
    exact ((hc.andThen ht).andThen he).leaving (ht.scope.inter he.scope)
  | seq sp a b iha ihb =>
    intro s s' hs
    simp only [walk]
    split
    · exact .error hs rfl
    split
    · exact .error hs rfl
    exact (iha hs).andThen (ihb (iha hs).scope)
  | loop sp c b ihc ihb =>
    intro s s' hs
    simp only [walk]
    split
    · exact .error hs rfl
    split
    · exact .error hs rfl
    -- the body starts where the condition ends, and so does what comes after the loop
    have hc := ihc hs
    exact (hc.andThen (ihb hc.scope)).leaving hc.scope

end Tree

/-- In an environment that binds all that another one binds, the check of any tree says what it says in the other one,
in the same order, without the warnings about reads of variables that are bound. Nothing else is left out, and no error
is. -/
theorem check_richer (t : Tree) (env env' : Env)
    (h : ∀ x, env.contains x = true → env'.contains x = true) :
    t.check env' = Diagnostics.without env'.names (t.check env) ∧
    (∀ d, d ∈ t.check env' ↔
      d ∈ t.check env ∧ ¬ ∃ sp x, env'.contains x = true ∧ d = Tree.mayBeUnbound sp x) ∧
    (t.check env').filter (!·.isWarning) = (t.check env).filter (!·.isWarning) := by
  have hcheck : t.check env' = Diagnostics.without env'.names (t.check env) := by
    by_cases ht : t = .absent
    · rw [ht]
      exact (Diagnostics.without_error rfl).symm
    · have hnames : Scope.Widens env'.names env.names env'.names := by
        intro x
        rw [Env.mem_names, Env.mem_names]
        exact (or_iff_right_of_imp (h x)).symm
      rw [Tree.check_eq_walk ht, Tree.check_eq_walk ht]
      exact (t.walk_widens hnames).diagnostics
  refine ⟨hcheck, fun d => ?_, ?_⟩
  · rw [hcheck, Diagnostics.mem_without]
    simp only [Env.mem_names]
  · rw [hcheck, Diagnostics.errors_without]

/-- A malformed program, `while (go) { x := }; x + y`, in two environments of which the second one also binds `x`: the
error stays, and so does the warning about `y`. -/
theorem check_richer_malformed :
    let s : Span := .point "p.yaml" 2 5
    let hole : Tree := .assign s "x" .absent
    let t : Tree := .seq s (.loop s (.var s "go") hole) (.binary s .add (.var s "x") (.var s "y"))
    let env : Env := Env.ofList [("go", .bool s true)]
    let env' : Env := Env.ofList [("x", .num s 7), ("go", .bool s false)]
    (∀ x, env.contains x = true → env'.contains x = true) ∧
      t.check env = [hole.missing "value", Tree.mayBeUnbound s "x", Tree.mayBeUnbound s "y"] ∧
      t.check env' = [hole.missing "value", Tree.mayBeUnbound s "y"] := by
  intro s hole t env env'
  have hnames : env.names ⊆ env'.names := by decide
  have hmore : ∀ x, env.contains x = true → env'.contains x = true :=
    fun x hx => Env.mem_names.1 (hnames (Env.mem_names.2 hx))
  have hpoor : t.check env = [hole.missing "value", Tree.mayBeUnbound s "x", Tree.mayBeUnbound s "y"] := by decide
  refine ⟨hmore, hpoor, ?_⟩
  rw [(check_richer t env env' hmore).1, hpoor]
  decide

end WhileLang
