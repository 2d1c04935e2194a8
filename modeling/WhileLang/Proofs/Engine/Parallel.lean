import Mathlib.Data.List.Forall2
import WhileLang.Diagnostic
import WhileLang.Proofs.Engine.Moves
import WhileLang.Proofs.Env

/-!
# Two runs side by side

Two programs *match* if they are built alike: the same constructs with the same numbers, operators and names. How
their positions are related is left open (`P`), and so is which variables they may read (`N`); environments have to
match on those names only. Such programs run side by side (`eval_matches`): every step of the one is a step of the
other, on matching trees and in matching environments, whatever the fuel and wherever a limit strikes.

Everything that does not influence a run is an instance. With any two positions related and all names read, it is
positions; with equal positions and just the names that a program reads, it is the other variables. The second run
may also be traced where the first is not.
-/

namespace WhileLang

section

variable (P : Span → Span → Prop) (N : String → Prop)

/-- The same number or truth value, from related positions. -/
inductive Value.Matches : Value → Value → Prop
  | num {s s' : Span} {n : Int64} (hs : P s s') : Matches (.num s n) (.num s' n)
  | bool {s s' : Span} {b : Bool} (hs : P s s') : Matches (.bool s b) (.bool s' b)

/-- Trees that are built alike, at related positions, and read no other variables than they may. -/
inductive Tree.Matches : Tree → Tree → Prop
  | absent : Matches .absent .absent
  | num {s s' : Span} {n : Int64} (hs : P s s') : Matches (.num s n) (.num s' n)
  | bool {s s' : Span} {b : Bool} (hs : P s s') : Matches (.bool s b) (.bool s' b)
  | nothing {s s' : Span} (hs : P s s') : Matches (.nothing s) (.nothing s')
  | binary {s s' : Span} {op : Op} {l l' r r' : Tree} (hs : P s s') (hl : Matches l l') (hr : Matches r r') :
    Matches (.binary s op l r) (.binary s' op l' r')
  | var {s s' : Span} {name : String} (hs : P s s') (hname : N name) : Matches (.var s name) (.var s' name)
  | assign {s s' : Span} {name : String} {v v' : Tree} (hs : P s s') (hv : Matches v v') :
    Matches (.assign s name v) (.assign s' name v')
  | ite {s s' : Span} {c c' t t' e e' : Tree} (hs : P s s') (hc : Matches c c') (ht : Matches t t')
    (he : Matches e e') : Matches (.ite s c t e) (.ite s' c' t' e')
  | seq {s s' : Span} {a a' b b' : Tree} (hs : P s s') (ha : Matches a a') (hb : Matches b b') :
    Matches (.seq s a b) (.seq s' a' b')
  | loop {s s' : Span} {c c' b b' : Tree} (hs : P s s') (hc : Matches c c') (hb : Matches b b') :
    Matches (.loop s c b) (.loop s' c' b')

/-- Environments that agree on the names that may be read. -/
def Env.Matches (env env' : Env) : Prop := ∀ x, N x → Option.Rel (Value.Matches P) (env.get? x) (env'.get? x)

/-- Halts for the same reason; the program's own faults stand at related positions. -/
inductive Halt.Matches : Halt → Halt → Prop
  | fault {cause : Fault.Cause} {s s' : Span} (hs : P s s') : Matches (.fault ⟨cause, s⟩) (.fault ⟨cause, s'⟩)
  | same (halt : Halt) : Matches halt halt

/-- The same answer, with trees, environments and halts that match. -/
inductive Reply.Matches : Reply → Reply → Prop
  | done {t t' : Tree} {env env' : Env} (ht : Tree.Matches P N t t') (henv : Env.Matches P N env env') :
    Matches (.done t env) (.done t' env')
  | halted {halt halt' : Halt} {env env' : Env} (hhalt : Halt.Matches P halt halt')
    (henv : Env.Matches P N env env') : Matches (.halted halt env) (.halted halt' env')
  | unfinished : Matches .unfinished .unfinished

/-- The same step of the story. How a run is closed is not among these. -/
inductive Event.Matches : Event → Event → Prop
  | runStart {t t' : Tree} (ht : Tree.Matches P N t t') : Matches (.runStart t) (.runStart t')
  | step {t t' : Tree} {depth : Nat} (ht : Tree.Matches P N t t') : Matches (.step t depth) (.step t' depth)
  | assign {name : String} {v v' : Value} (hv : Value.Matches P v v') : Matches (.assign name v) (.assign name v')

/-- As many steps, and matching stories if both are told or neither is. -/
structure Progress.Matches (cfg cfg' : Settings) (p p' : Progress) : Prop where
  steps : p.steps = p'.steps
  events : cfg.traced = cfg'.traced → List.Forall₂ (Event.Matches P N) p.events p'.events

/-- Matching answers after matching stories. -/
structure SideBySide (cfg cfg' : Settings) (x x' : Reply × Progress) : Prop where
  reply : Reply.Matches P N x.1 x'.1
  progress : Progress.Matches P N cfg cfg' x.2 x'.2

end

variable {P : Span → Span → Prop} {N : String → Prop}

/-! ## Trees and values -/

namespace Tree.Matches

variable {t t' : Tree}

theorem typeName (h : Tree.Matches P N t t') : t.typeName = t'.typeName := by
  cases h <;> rfl

theorem isReducible (h : Tree.Matches P N t t') : t.isReducible = t'.isReducible := by
  cases h <;> rfl

theorem kind (h : Tree.Matches P N t t') : t.kind = t'.kind := by
  cases h with
  | @binary _ _ op => cases op <;> rfl
  | _ => rfl

theorem text (h : Tree.Matches P N t t') : t.text = t'.text := by
  induction h with
  | absent | num | bool | nothing | var => rfl
  | binary _ _ _ ihl ihr => rw [Tree.text, Tree.text, ihl, ihr]
  | assign _ _ ih => rw [Tree.text, Tree.text, ih]
  | ite _ _ _ _ ihc iht ihe => rw [Tree.text, Tree.text, ihc, iht, ihe]
  | seq _ _ _ iha ihb => rw [Tree.text, Tree.text, iha, ihb]
  | loop _ _ _ ihc ihb => rw [Tree.text, Tree.text, ihc, ihb]

/-- An absent tree stands for `do-nothing` in both. -/
theorem orNothing (hP : ∀ s, P s s) (h : Tree.Matches P N t t') : Tree.Matches P N t.orNothing t'.orNothing := by
  cases h with
  | absent => exact .nothing (hP _)
  | num hs => exact .num hs
  | bool hs => exact .bool hs
  | nothing hs => exact .nothing hs
  | binary hs hl hr => exact .binary hs hl hr
  | var hs hname => exact .var hs hname
  | assign hs hv => exact .assign hs hv
  | ite hs hc ht he => exact .ite hs hc ht he
  | seq hs ha hb => exact .seq hs ha hb
  | loop hs hc hb => exact .loop hs hc hb

theorem value? (h : Tree.Matches P N t t') : Option.Rel (Value.Matches P) t.value? t'.value? := by
  cases h with
  | num hs => exact .some (.num hs)
  | bool hs => exact .some (.bool hs)
  | _ => exact .none

/-- Equal normal forms match equal normal forms. -/
theorem same (h : Tree.Matches P N t t') (ht : t.same t = true) : t.same t' = true := by
  cases h with
  | num | bool | nothing => exact ht
  | _ => cases ht

theorem unroll {s s' : Span} {c c' b b' : Tree} (hs : P s s') (hc : Tree.Matches P N c c')
    (hb : Tree.Matches P N b b') : Tree.Matches P N (.unroll s c b) (.unroll s' c' b') :=
  .ite hs hc (.seq hs hb (.loop hs hc hb)) (.nothing hs)

end Tree.Matches

theorem Value.Matches.toTree {v v' : Value} (h : Value.Matches P v v') : Tree.Matches P N v.toTree v'.toTree := by
  cases h with
  | num hs => exact .num hs
  | bool hs => exact .bool hs

theorem Value.Matches.text {v v' : Value} (h : Value.Matches P v v') : v.text = v'.text := by
  cases h <;> rfl

theorem Op.apply_matches {s s' : Span} (hs : P s s') (op : Op) (a b : Int64) :
    Tree.Matches P N (op.apply s a b) (op.apply s' a b) := by
  cases op with
  | add | mul => exact .num hs
  | lt => exact .bool hs

/-- Matching halts are reported alike, except for the position. -/
theorem Halt.Matches.report {halt halt' : Halt} (h : Halt.Matches P halt halt') :
    halt.toFailure.code = halt'.toFailure.code ∧ halt.toFailure.message = halt'.toFailure.message ∧
      halt.event = halt'.event := by
  cases h with
  | @fault cause => cases cause <;> exact ⟨rfl, rfl, rfl⟩
  | same => exact ⟨rfl, rfl, rfl⟩

/-- Matching values bound to one name leave environments that match. -/
theorem Env.Matches.insert {env env' : Env} {v v' : Value} (henv : Env.Matches P N env env')
    (hv : Value.Matches P v v') (name : String) : Env.Matches P N (env.insert name v) (env'.insert name v') := by
  intro x hx
  rw [Env.get?_insert, Env.get?_insert]
  split
  · exact .some hv
  · exact henv x hx

namespace Progress.Matches

variable {cfg cfg' : Settings} {p p' : Progress}

theorem note {e e' : Event} (h : Progress.Matches P N cfg cfg' p p') (he : Event.Matches P N e e') :
    Progress.Matches P N cfg cfg' (p.note cfg e) (p'.note cfg' e') := by
  constructor
  · rw [Progress.steps_note, Progress.steps_note, h.steps]
  · intro htraced
    rw [Progress.events_note, Progress.events_note, htraced]
    split
    · exact .cons he (h.events htraced)
    · exact h.events htraced

theorem step {t t' : Tree} (h : Progress.Matches P N cfg cfg' p p') (ht : Tree.Matches P N t t') (depth : Nat) :
    Progress.Matches P N cfg cfg' (p.step cfg t depth) (p'.step cfg' t' depth) := by
  have hcounted : Progress.Matches P N cfg cfg' { p with steps := p.steps + 1 } { p' with steps := p'.steps + 1 } :=
    ⟨congrArg (· + 1) h.steps, h.events⟩
  exact hcounted.note (.step ht)

end Progress.Matches

/-! ## One reduction -/

section

variable {cfg cfg' : Settings} {env env' : Env} {p p' : Progress} {s s' : Span}

theorem combine_matches {op : Op} {l l' r r' : Tree} (hs : P s s') (hl : Tree.Matches P N l l')
    (hr : Tree.Matches P N r r') (henv : Env.Matches P N env env') :
    Reply.Matches P N (Tree.combine op s l r env) (Tree.combine op s' l' r' env') := by
  cases hl with
  | num =>
    cases hr with
    | num => exact .done (op.apply_matches hs _ _) henv
    | _ => exact .halted (.fault hs) henv
  | _ =>
    -- whatever the right operand is, the left one is no number
    unfold Tree.combine
    rw [hr.typeName]
    exact .halted (.fault hs) henv

theorem choose_matches {c c' t t' e e' : Tree} (hs : P s s') (hc : Tree.Matches P N c c')
    (ht : Tree.Matches P N t t') (he : Tree.Matches P N e e') (henv : Env.Matches P N env env') :
    Reply.Matches P N (Tree.choose s c t e env) (Tree.choose s' c' t' e' env') := by
  cases hc with
  | @bool _ _ b =>
    cases b with
    | true => exact .done ht henv
    | false => exact .done he henv
  | _ => exact .halted (.fault hs) henv

variable {m m' : Machine Progress}
  (hm : ∀ {t t' env env' p p'}, Tree.Matches P N t t' → Env.Matches P N env env' →
    Progress.Matches P N cfg cfg' p p' → SideBySide P N cfg cfg' (m.eval t env p) (m'.eval t' env' p'))
  (hassigned : ∀ {name v v' p p'}, Value.Matches P v v' → Progress.Matches P N cfg cfg' p p' →
    Progress.Matches P N cfg cfg' (m.assigned name v p) (m'.assigned name v' p'))

include hm in
/-- First parts that do not complete leave both reductions with their answers; it remains to look at two that do. -/
theorem reduce_matches_first {t t' a a' : Tree} (hfirst : t.first? = some a) (hfirst' : t'.first? = some a')
    (ha : Tree.Matches P N a a') (henv : Env.Matches P N env env') (hp : Progress.Matches P N cfg cfg' p p')
    (hdone : ∀ {v v' env₁ env₁' p₁ p₁'}, m.eval a env p = (.done v env₁, p₁) →
      m'.eval a' env' p' = (.done v' env₁', p₁') → Tree.Matches P N v v' → Env.Matches P N env₁ env₁' →
      Progress.Matches P N cfg cfg' p₁ p₁' → SideBySide P N cfg cfg' (t.reduce m env p) (t'.reduce m' env' p')) :
    SideBySide P N cfg cfg' (t.reduce m env p) (t'.reduce m' env' p') := by
  obtain ⟨hr, hp₁⟩ := hm ha henv hp
  rcases hx : m.eval a env p with ⟨r, p₁⟩
  rcases hx' : m'.eval a' env' p' with ⟨r', p₁'⟩
  rw [hx, hx'] at hr hp₁
  cases hr with
  | done hv henv₁ => exact hdone hx hx' hv henv₁ hp₁
  | halted hhalt henv₁ =>
    rw [Tree.reduce_of_first hfirst hx (by simp), Tree.reduce_of_first hfirst' hx' (by simp)]
    exact ⟨.halted hhalt henv₁, hp₁⟩
  | unfinished =>
    rw [Tree.reduce_of_first hfirst hx (by simp), Tree.reduce_of_first hfirst' hx' (by simp)]
    exact ⟨.unfinished, hp₁⟩

include hm hassigned in
/-- Matching trees take matching steps, if their operands are evaluated side by side. -/
theorem reduce_matches {t t' : Tree} (ht : Tree.Matches P N t t') (henv : Env.Matches P N env env')
    (hp : Progress.Matches P N cfg cfg' p p') :
    SideBySide P N cfg cfg' (t.reduce m env p) (t'.reduce m' env' p') := by
  cases ht with
  | absent => exact ⟨.done .absent henv, hp⟩
  | num hs => exact ⟨.done (.num hs) henv, hp⟩
  | bool hs => exact ⟨.done (.bool hs) henv, hp⟩
  | nothing hs => exact ⟨.done (.nothing hs) henv, hp⟩
  | @var s s' name hs hname =>
    have hget := henv name hname
    rcases hx : env.get? name with _ | v <;> rcases hx' : env'.get? name with _ | v' <;> rw [hx, hx'] at hget
    · simp only [Tree.reduce, hx, hx']
      exact ⟨.halted (.fault hs) henv, hp⟩
    · cases hget
    · cases hget
    · cases hget with
      | some hv =>
        simp only [Tree.reduce, hx, hx']
        exact ⟨.done hv.toTree henv, hp⟩
  | binary hs hl hr =>
    refine reduce_matches_first hm rfl rfl hl henv hp fun hx hx' hlv henv₁ hp₁ => ?_
    obtain ⟨hreply, hp₂⟩ := hm hr henv₁ hp₁
    rcases hy : m.eval _ _ _ with ⟨x, p₂⟩
    rcases hy' : m'.eval _ _ _ with ⟨x', p₂'⟩
    rw [hy, hy'] at hreply hp₂
    cases hreply with
    | done hrv henv₂ =>
      simp only [Tree.reduce, hx, hx', hy, hy']
      exact ⟨combine_matches hs hlv hrv henv₂, hp₂⟩
    | halted hhalt henv₂ =>
      simp only [Tree.reduce, hx, hx', hy, hy']
      exact ⟨.halted hhalt henv₂, hp₂⟩
    | unfinished =>
      simp only [Tree.reduce, hx, hx', hy, hy']
      exact ⟨.unfinished, hp₂⟩
  | assign hs hv =>
    refine reduce_matches_first hm rfl rfl hv henv hp fun {w w'} _ _ _ _ hx hx' hw henv₁ hp₁ => ?_
    have hvalue := hw.value?
    rcases hy : w.value? with _ | v <;> rcases hy' : w'.value? with _ | v' <;> rw [hy, hy'] at hvalue
    · simp only [Tree.reduce, hx, hx', hy, hy', hw.typeName]
      exact ⟨.halted (.fault hs) henv₁, hp₁⟩
    · cases hvalue
    · cases hvalue
    · cases hvalue with
      | some hv =>
        simp only [Tree.reduce, hx, hx', hy, hy']
        exact ⟨.done (.nothing hs) (henv₁.insert hv _), hassigned hv hp₁⟩
  | ite hs hc ht he =>
    refine reduce_matches_first hm rfl rfl hc henv hp fun hx hx' hcv henv₁ hp₁ => ?_
    simp only [Tree.reduce, hx, hx']
    exact ⟨choose_matches hs hcv ht he henv₁, hp₁⟩
  | seq hs ha hb =>
    refine reduce_matches_first hm rfl rfl ha henv hp fun hx hx' _ henv₁ hp₁ => ?_
    simp only [Tree.reduce, hx, hx']
    exact ⟨.done hb henv₁, hp₁⟩
  | loop hs hc hb => exact ⟨.done (.unroll hs hc hb) henv, hp⟩

end

/-! ## Evaluations and whole runs -/

namespace Engine

variable (hP : ∀ s, P s s) (cfg : Settings) (traced : Bool)

include hP in
/-- Matching trees in matching environments are evaluated side by side, traced or not. -/
theorem eval_matches (fuel : Nat) :
    ∀ (depth : Nat) {t t' : Tree} {env env' : Env} {p p' : Progress}, Tree.Matches P N t t' →
      Env.Matches P N env env' → Progress.Matches P N cfg { cfg with traced := traced } p p' →
      SideBySide P N cfg { cfg with traced := traced } (eval cfg fuel depth t env p)
        (eval { cfg with traced := traced } fuel depth t' env' p') := by
  induction fuel with
  | zero => exact fun depth _ _ _ _ _ _ ht henv hp => ⟨.unfinished, hp⟩
  | succ fuel ih =>
    intro depth t t' env env' p p' ht henv hp
    -- the count is the same, so a limit strikes both or neither
    have hsame : stopBefore? { cfg with traced := traced } p'.steps = stopBefore? cfg p.steps := by
      rw [hp.steps]
      rfl
    rcases hs : stopBefore? cfg p.steps with _ | halt
    · have hs' : stopBefore? { cfg with traced := traced } p'.steps = none := hsame.trans hs
      rcases hr : t.isReducible with _ | _
      · rw [eval_normal hs hr, eval_normal hs' (ht.isReducible ▸ hr)]
        have hnormal := ht.orNothing hP
        exact ⟨.done hnormal henv, hp.step hnormal depth⟩
      · rw [eval_reducible hs hr, eval_reducible hs' (ht.isReducible ▸ hr)]
        have hstep : SideBySide P N cfg { cfg with traced := traced }
            (t.reduce (machine cfg fuel depth) env (p.step cfg t depth))
            (t'.reduce (machine { cfg with traced := traced } fuel depth) env'
              (p'.step { cfg with traced := traced } t' depth)) :=
          reduce_matches (ih (depth + 1)) (fun hv hp => hp.note (.assign hv)) ht henv (hp.step ht depth)
        obtain ⟨hreply, hq⟩ := hstep
        rcases hx : t.reduce (machine cfg fuel depth) env (p.step cfg t depth) with ⟨r, q⟩
        rcases hx' : t'.reduce (machine { cfg with traced := traced } fuel depth) env'
          (p'.step { cfg with traced := traced } t' depth) with ⟨r', q'⟩
        rw [hx, hx'] at hreply hq
        cases hreply with
        | done hnext henv₁ => exact ih depth hnext henv₁ hq
        | halted hhalt _ => exact ⟨.halted hhalt henv, hq⟩
        | unfinished => exact ⟨.unfinished, hq⟩
    · rw [eval_stopped hs, eval_stopped (hsame.trans hs)]
      exact ⟨.halted (.same halt) henv, hp⟩

include hP in
/-- So are whole programs. -/
theorem outermost_matches (fuel : Nat) {t t' : Tree} {env env' : Env} (ht : Tree.Matches P N t t')
    (henv : Env.Matches P N env env') :
    SideBySide P N cfg { cfg with traced := traced } (outermost cfg fuel t env)
      (outermost { cfg with traced := traced } fuel t' env') := by
  have hstart : Progress.Matches P N cfg { cfg with traced := traced } {} {} := ⟨rfl, fun _ => .nil⟩
  exact eval_matches hP cfg traced _ 1 ht henv (hstart.note (.runStart (ht.orNothing hP)))

end Engine

end WhileLang
