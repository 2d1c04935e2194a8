import WhileLang.Proofs.Engine.BigStep
import WhileLang.Proofs.Engine.Moves

/-!
# Step limits

A step limit stops a run just before the step that would be one too many, and changes nothing else. The
limited and the unlimited evaluation go in step (`eval_cut`): they give the same answer, or the limit has
stopped the one at a point that the other went on from. All nested evaluations share one count, so the limit
may strike at any depth; it is then passed on unchanged to the outermost one.
-/

namespace WhileLang

namespace Engine

/-- One account of a run continues another. -/
def Continues (p q : Progress) : Prop := p.steps ≤ q.steps ∧ p.events <:+ q.events

theorem Continues.refl (p : Progress) : Continues p p := ⟨Nat.le_refl _, List.suffix_refl _⟩

theorem Continues.trans {p q r : Progress} (h : Continues p q) (h' : Continues q r) : Continues p r :=
  ⟨Nat.le_trans h.1 h'.1, h.2.trans h'.2⟩

/-- Noting an event keeps all that was noted. -/
theorem Continues.note (cfg : Settings) (p : Progress) (e : Event) : Continues p (p.note cfg e) := by
  refine ⟨Nat.le_of_eq (p.steps_note cfg e).symm, ?_⟩
  rw [Progress.events_note]
  split
  · exact List.suffix_cons _ _
  · exact List.suffix_refl _

theorem Moves.continues {cfg : Settings} {a b : Env × Progress} (h : Moves cfg a b) : Continues a.2 b.2 := by
  obtain ⟨l, hevents, -⟩ := h.log
  refine ⟨h.steps_le, ?_⟩
  rw [hevents]
  exact List.suffix_append l a.2.events

/-- An evaluation only ever adds to the account of its run. -/
theorem Along.continues {cfg : Settings} {env : Env} {p : Progress} {r : Reply × Progress}
    (h : Along cfg env p r) : Continues p r.2 := by
  obtain ⟨env₁, hmoves⟩ := h.moves
  exact hmoves.continues

/-- What comes after a reduction only goes on from it. -/
theorem resume_continues (cfg : Settings) (fuel depth : Nat) (env : Env) (r : Reply × Progress) :
    Continues r.2 (resume cfg fuel depth env r).2 := by
  obtain ⟨⟨next, env'⟩ | ⟨halt, env'⟩ | _, q⟩ := r
  · exact (eval_along cfg fuel depth next env' q).continues
  · exact .refl q
  · exact .refl q

/-- An evaluation that may take a step takes one. -/
theorem eval_takes_step {cfg : Settings} (fuel depth : Nat) (t : Tree) (env : Env) {p : Progress}
    (hs : stopBefore? cfg p.steps = none) :
    Continues (p.step cfg t.orNothing depth) (eval cfg (fuel + 1) depth t env p).2 := by
  rcases ht : t.isReducible with _ | _
  · rw [eval_normal hs ht]
    exact .refl _
  · rw [eval_reducible hs ht, Tree.orNothing_of_isReducible ht]
    have hstep := (machine_along cfg fuel depth t env (p.step cfg t depth)).continues
    exact hstep.trans (resume_continues cfg fuel depth env _)

/-! ## Enough fuel -/

/-- A reduction that is out of fuel has taken as many steps as an operand that is. -/
theorem le_of_course_unfinished {m : Machine Progress} {k : Nat}
    (hgrow : ∀ t env p, Continues p (m.eval t env p).2)
    (hfuel : ∀ t env p, (m.eval t env p).1 = .unfinished → p.steps + k ≤ (m.eval t env p).2.steps)
    {env : Env} {p : Progress} {r : Reply × Progress} (h : Tree.Course m env p r) :
    r.1 = .unfinished → p.steps + k ≤ r.2.steps := by
  induction h with
  | done | halted | bound => exact fun hr => Reply.noConfusion hr
  | operand a => exact hfuel a _ _
  | @after env _ p p₁ a _ _ ha _ ih =>
    intro hr
    have hmore : p.steps ≤ p₁.steps := by
      have hoperand := (hgrow a env p).1
      rwa [ha] at hoperand
    have hrest := ih hr
    omega

/-- An evaluation that is out of fuel has taken a step for each unit of it. -/
theorem eval_unfinished_le (cfg : Settings) (fuel : Nat) : ∀ (depth : Nat) (t : Tree) (env : Env) (p : Progress),
    (eval cfg fuel depth t env p).1 = .unfinished →
      p.steps + fuel ≤ (eval cfg fuel depth t env p).2.steps := by
  induction fuel with
  | zero => exact fun depth t env p _ => Nat.le_refl _
  | succ fuel ih =>
    intro depth t env p
    rcases hs : stopBefore? cfg p.steps with _ | halt
    · rcases ht : t.isReducible with _ | _
      · rw [eval_normal hs ht]
        exact fun h => Reply.noConfusion h
      · rw [eval_reducible hs ht]
        have hstep : (t.reduce (machine cfg fuel depth) env (p.step cfg t depth)).1 = .unfinished →
            (p.step cfg t depth).steps + fuel ≤
              (t.reduce (machine cfg fuel depth) env (p.step cfg t depth)).2.steps :=
          le_of_course_unfinished (fun t env p => (eval_along cfg fuel (depth + 1) t env p).continues)
            (ih (depth + 1)) (t.reduce_course _ env _)
        have hmore : (p.step cfg t depth).steps ≤
            (t.reduce (machine cfg fuel depth) env (p.step cfg t depth)).2.steps :=
          (machine_along cfg fuel depth t env _).continues.1
        rw [Progress.steps_step] at hstep hmore
        rcases hr : t.reduce (machine cfg fuel depth) env (p.step cfg t depth) with
          ⟨⟨next, env'⟩ | ⟨halt, env'⟩ | _, q⟩ <;> rw [hr] at hstep hmore
        · intro h
          have hnext := ih depth next env' q h
          show p.steps + (fuel + 1) ≤ (eval cfg fuel depth next env' q).2.steps
          simp only at hmore
          omega
        · exact fun h => Reply.noConfusion h
        · intro _
          have hq := hstep rfl
          show p.steps + (fuel + 1) ≤ q.steps
          simp only at hq
          omega
    · rw [eval_stopped hs]
      exact fun h => Reply.noConfusion h

/-- Under a step limit, fuel for one step more than there are left is enough. -/
theorem eval_ne_unfinished {cfg : Settings} {m : Int} (hmax : cfg.limits.maxSteps = some m)
    (fuel depth : Nat) (t : Tree) (env : Env) (p : Progress) (hle : p.steps ≤ m.toNat)
    (hfuel : m.toNat < p.steps + fuel) : (eval cfg fuel depth t env p).1 ≠ .unfinished := by
  intro h
  have htaken := eval_unfinished_le cfg fuel depth t env p h
  obtain ⟨env₁, hmoves⟩ := (eval_along cfg fuel depth t env p).moves
  have hlimit : (eval cfg fuel depth t env p).2.steps ≤ m.toNat := hmoves.steps_le_limit hmax hle
  omega

/-! ## Two evaluations in step -/

/-- Two evaluations give the same answer, or the first is cut off by its step limit and the second goes on. -/
def Cut (m : Int) (x y : Reply × Progress) : Prop :=
  x = y ∨ (∃ env, x.1 = .halted (.steps m) env) ∧ m ≤ x.2.steps ∧ x.2.steps < y.2.steps ∧
    x.2.events <:+ y.2.events

/-- What is cut off stays so however the second evaluation goes on. -/
theorem Cut.continued {m : Int} {x y z : Reply × Progress} {env : Env} (hx : x.1 = .halted (.steps m) env)
    (hy : m ≤ x.2.steps ∧ x.2.steps < y.2.steps ∧ x.2.events <:+ y.2.events) (hz : Continues y.2 z.2) :
    Cut m x z := by
  obtain ⟨hbelow, hlt, hevents⟩ := hy
  exact .inr ⟨⟨env, hx⟩, hbelow, Nat.lt_of_lt_of_le hlt hz.1, hevents.trans hz.2⟩

section

variable {m : Int} {short full : Machine Progress}
  (hcut : ∀ t env p, Cut m (short.eval t env p) (full.eval t env p))
  (hassigned : short.assigned = full.assigned)
  (hgrow : ∀ t env p, Continues p (full.eval t env p).2)
  (hnote : ∀ name v p, Continues p (full.assigned name v p))

/-- After the left operand a reduction goes on with the right one, and with nothing else. -/
theorem reduce_continues_right {l lv : Tree} {env env₁ : Env} {p p₁ : Progress}
    (hl : full.eval l env p = (.done lv env₁, p₁)) (span : Span) (op : Op) (r : Tree) :
    Continues (full.eval r env₁ p₁).2 ((Tree.binary span op l r).reduce full env p).2 := by
  rcases Tree.reduce_right hl span op r with ⟨rv, env₂, p₂, hr⟩ | hr
  · simp only [Tree.reduce, hl, hr]
    exact .refl p₂
  · rw [hr]
    exact .refl _

include hgrow hnote in
/-- After its first part a reduction only goes on. -/
theorem reduce_continues_first {t a : Tree} (hfirst : t.first? = some a) (env : Env) (p : Progress) :
    Continues (full.eval a env p).2 (t.reduce full env p).2 := by
  rcases Tree.reduce_first t hfirst full env p with ⟨v, env₁, p₁, ha⟩ | ha
  · cases t with
    | absent | num | bool | nothing | var | loop => cases hfirst
    | binary span op l r =>
      cases hfirst
      rw [ha]
      exact (hgrow r env₁ p₁).trans (reduce_continues_right ha span op r)
    | assign span name value =>
      cases hfirst
      rcases hv : v.value? with _ | w
      · simp only [Tree.reduce, ha, hv]
        exact .refl p₁
      · simp only [Tree.reduce, ha, hv]
        exact hnote name w p₁
    | ite span c t e =>
      cases hfirst
      simp only [Tree.reduce, ha]
      exact .refl p₁
    | seq span first second =>
      cases hfirst
      simp only [Tree.reduce, ha]
      exact .refl p₁
  · rw [ha]
    exact .refl _

include hcut hassigned hgrow hnote in
/-- Reductions whose operands go in step go in step. -/
theorem reduce_cut (t : Tree) (env : Env) (p : Progress) :
    Cut m (t.reduce short env p) (t.reduce full env p) := by
  -- an operand that is cut off cuts the reduction off
  have hcutFirst : ∀ {a : Tree}, t.first? = some a → short.eval a env p ≠ full.eval a env p →
      Cut m (t.reduce short env p) (t.reduce full env p) := by
    intro a hfirst hne
    obtain ⟨⟨env', hhalt⟩, hrest⟩ := (hcut a env p).resolve_left hne
    have hshort : t.reduce short env p = short.eval a env p := by
      rcases Tree.reduce_first t hfirst short env p with ⟨v, env₁, p₁, ha⟩ | ha
      · rw [ha] at hhalt
        cases hhalt
      · exact ha
    rw [hshort]
    exact .continued hhalt hrest (reduce_continues_first hgrow hnote hfirst env p)
  cases t with
  | absent | num | bool | nothing | var | loop => exact .inl rfl
  | binary span op l r =>
    by_cases hl : short.eval l env p = full.eval l env p
    · rcases hfull : full.eval l env p with ⟨⟨lv, env₁⟩ | ⟨halt, env₁⟩ | _, p₁⟩ <;> rw [hfull] at hl
      · rcases hcut r env₁ p₁ with hr | ⟨⟨env', hhalt⟩, hrest⟩
        · exact .inl (by simp only [Tree.reduce, hl, hfull, hr])
        · have hshort : (Tree.binary span op l r).reduce short env p = short.eval r env₁ p₁ := by
            rcases Tree.reduce_right hl span op r with ⟨rv, env₂, p₂, hr⟩ | hr
            · rw [hr] at hhalt
              cases hhalt
            · exact hr
          rw [hshort]
          exact .continued hhalt hrest (reduce_continues_right hfull span op r)
      · exact .inl (by simp only [Tree.reduce, hl, hfull])
      · exact .inl (by simp only [Tree.reduce, hl, hfull])
    · exact hcutFirst rfl hl
  | assign span name value =>
    by_cases hv : short.eval value env p = full.eval value env p
    · exact .inl (by simp only [Tree.reduce, hv, hassigned])
    · exact hcutFirst rfl hv
  | ite span c t e =>
    by_cases hc : short.eval c env p = full.eval c env p
    · exact .inl (by simp only [Tree.reduce, hc])
    · exact hcutFirst rfl hc
  | seq span first second =>
    by_cases hf : short.eval first env p = full.eval first env p
    · exact .inl (by simp only [Tree.reduce, hf])
    · exact hcutFirst rfl hf

end

section

variable {lim free : Settings} {m : Int}
  (hlim : ∀ n : Nat, stopBefore? lim n = if m ≤ n then some (.steps m) else none) (hfree : free.Free)
  (htraced : lim.traced = free.traced)

include htraced in
/-- Settings matter to the log only in whether the run is traced. -/
theorem note_eq (p : Progress) (e : Event) : p.note lim e = p.note free e := by
  rw [Progress.note, Progress.note, htraced]

include htraced in
theorem step_eq (p : Progress) (t : Tree) (depth : Nat) : p.step lim t depth = p.step free t depth :=
  note_eq htraced _ _

include hlim hfree htraced in
/-- A limited evaluation goes in step with the unlimited one until the limit cuts it off. -/
theorem eval_cut (fuel : Nat) : ∀ (depth : Nat) (t : Tree) (env : Env) (p : Progress),
    Cut m (eval lim fuel depth t env p) (eval free fuel depth t env p) := by
  induction fuel with
  | zero => exact fun depth t env p => .inl rfl
  | succ fuel ih =>
    intro depth t env p
    have hgo := hfree p.steps
    by_cases hstop : m ≤ p.steps
    · have hs : stopBefore? lim p.steps = some (.steps m) := by rw [hlim, if_pos hstop]
      -- the unlimited evaluation takes the step that the limited one must not
      obtain ⟨hsteps, hevents⟩ := eval_takes_step fuel depth t env hgo
      rw [Progress.steps_step] at hsteps
      have hlog : p.events <:+ (p.step free t.orNothing depth).events :=
        (Continues.note free { p with steps := p.steps + 1 } (.step t.orNothing depth)).2
      rw [eval_stopped hs]
      exact .inr ⟨⟨env, rfl⟩, hstop, hsteps, hlog.trans hevents⟩
    · have hs : stopBefore? lim p.steps = none := by rw [hlim, if_neg hstop]
      rcases ht : t.isReducible with _ | _
      · rw [eval_normal hs ht, eval_normal hgo ht, step_eq htraced]
        exact .inl rfl
      · rw [eval_reducible hs ht, eval_reducible hgo ht, step_eq htraced]
        have hassigned : (machine lim fuel depth).assigned = (machine free fuel depth).assigned := by
          funext name v p
          exact note_eq htraced p (.assign name v)
        have hstep := reduce_cut (ih (depth + 1)) hassigned
          (fun t env p => (eval_along free fuel (depth + 1) t env p).continues)
          (fun name v p => .note free p (.assign name v)) t env (p.step free t depth)
        rcases hstep with heq | ⟨⟨env', hhalt⟩, hrest⟩
        · rw [heq]
          rcases hr : t.reduce (machine free fuel depth) env (p.step free t depth) with
            ⟨⟨next, env'⟩ | ⟨halt, env'⟩ | _, q⟩
          · exact ih depth next env' q
          · exact .inl rfl
          · exact .inl rfl
        · rcases hr : t.reduce (machine lim fuel depth) env (p.step free t depth) with ⟨r, q⟩
          rw [hr] at hhalt hrest
          simp only at hhalt
          rw [hhalt]
          exact .continued rfl hrest (resume_continues free fuel depth env _)

/-! ## Whole runs -/

variable (hmax : lim.limits.maxSteps = some m) (hnone : free.limits.maxSteps = none)
  (t : Tree) (env : Env) (fuel : Nat)

include hmax in
/-- A limited run ends. -/
theorem outermost_ne_unfinished : (outermost lim fuel t env).1 ≠ .unfinished := by
  apply eval_ne_unfinished hmax
  · rw [steps_opening]
    exact Nat.zero_le _
  · rw [steps_opening, Limits.fuel, hmax]
    simp only
    omega

include hmax in
/-- A limited run counts no more steps than it may. -/
theorem steps_outermost_le : (outermost lim fuel t env).2.steps ≤ m.toNat := by
  obtain ⟨env₁, hmoves⟩ := (outermost_along lim fuel t env).moves
  refine hmoves.steps_le_limit hmax ?_
  rw [steps_opening]
  exact Nat.zero_le _

include hlim hfree htraced hmax hnone in
/-- A limited run goes in step with the unlimited one, if that has as much fuel. -/
theorem outermost_cut {fuel₀ : Nat} (hfuel : m.toNat < fuel₀) :
    Cut m (outermost lim fuel t env) (outermost free fuel₀ t env) := by
  have hopen : opening lim t = opening free t := note_eq htraced _ _
  have hlimited : outermost lim fuel t env = eval lim fuel₀ 1 t env (opening free t) := by
    have hended := outermost_ne_unfinished hmax t env fuel
    unfold outermost at hended ⊢
    rw [← hopen]
    refine (eval_mono ?_ hended).symm
    rw [Limits.fuel, hmax]
    exact hfuel
  have hunlimited : outermost free fuel₀ t env = eval free fuel₀ 1 t env (opening free t) := by
    rw [outermost, Limits.fuel, hnone]
  rw [hlimited, hunlimited]
  exact eval_cut hlim hfree htraced fuel₀ 1 t env (opening free t)

include hnone in
/-- More fuel does not change an unlimited run that has ended. -/
theorem outermost_mono {fuel₀ fuel₁ : Nat} (hle : fuel₀ ≤ fuel₁)
    (hended : (outermost free fuel₀ t env).1 ≠ .unfinished) :
    outermost free fuel₁ t env = outermost free fuel₀ t env := by
  have hfuel : ∀ n, free.limits.fuel n = n := by
    intro n
    rw [Limits.fuel, hnone]
  unfold outermost at hended ⊢
  rw [hfuel] at hended
  rw [hfuel, hfuel]
  exact eval_mono hle hended

include hlim hfree htraced hmax hnone in
/-- Within the limit nothing changes. -/
theorem outermost_eq_of_steps_le {fuel₀ : Nat} (hended : (outermost free fuel₀ t env).1 ≠ .unfinished)
    (hwithin : (outermost free fuel₀ t env).2.steps ≤ m) :
    outermost lim fuel t env = outermost free fuel₀ t env := by
  have hmore := outermost_mono hnone t env (Nat.le_max_left fuel₀ (m.toNat + 1)) hended
  have hcut : Cut m (outermost lim fuel t env) (outermost free (max fuel₀ (m.toNat + 1)) t env) :=
    outermost_cut hlim hfree htraced hmax hnone t env fuel (by omega)
  rw [hmore] at hcut
  rcases hcut with heq | ⟨-, hbelow, hlt, -⟩
  · exact heq
  · omega

include hlim hfree htraced hmax hnone in
/-- The log of a limited run is where the log of the unlimited one begins, once that is long enough or
complete. -/
theorem outermost_log_suffix {fuel₀ : Nat}
    (hfuel : (outermost free fuel₀ t env).1 ≠ .unfinished ∨ m.toNat < fuel₀) :
    (outermost lim fuel t env).2.events <:+ (outermost free fuel₀ t env).2.events := by
  have hcut : Cut m (outermost lim fuel t env) (outermost free (max fuel₀ (m.toNat + 1)) t env) :=
    outermost_cut hlim hfree htraced hmax hnone t env fuel (by omega)
  have hsame : outermost free (max fuel₀ (m.toNat + 1)) t env = outermost free fuel₀ t env := by
    rcases hfuel with hended | hfuel
    · exact outermost_mono hnone t env (Nat.le_max_left fuel₀ (m.toNat + 1)) hended
    · rw [Nat.max_eq_left hfuel]
  rw [hsame] at hcut
  rcases hcut with heq | ⟨-, -, -, hevents⟩
  · simp only [heq, List.suffix_refl]
  · exact hevents

include hlim hfree htraced hmax hnone in
/-- Beyond the limit the run is cut off. -/
theorem outermost_stopped
    (hbeyond : ∀ fuel₀, (outermost free fuel₀ t env).1 ≠ .unfinished →
      m < (outermost free fuel₀ t env).2.steps) :
    (∃ env', (outermost lim fuel t env).1 = .halted (.steps m) env') ∧
      (outermost lim fuel t env).2.steps = m.toNat := by
  have hle := steps_outermost_le hmax t env fuel
  rcases outermost_cut hlim hfree htraced hmax hnone t env fuel (Nat.lt_add_one m.toNat) with
    heq | ⟨hhalted, hbelow, -⟩
  · -- the same answer would be one within the limit, and the unlimited run takes a step at least
    have hended := outermost_ne_unfinished hmax t env fuel
    have hsteps : 1 ≤ (outermost free (m.toNat + 1) t env).2.steps := by
      rw [outermost, Limits.fuel, hnone]
      have hstep := (eval_takes_step m.toNat 1 t env (hfree (opening free t).steps)).1
      rw [Progress.steps_step] at hstep
      exact Nat.le_trans (Nat.le_add_left 1 _) hstep
    rw [heq] at hle hended
    have hmany := hbeyond (m.toNat + 1) hended
    omega
  · exact ⟨hhalted, by omega⟩

end

end Engine

open Engine

/-- A run with a step limit always ends. -/
theorem Tree.execute_ne_unfinished (cfg : Settings) (fuel : Nat) (t : Tree) (env : Env)
    (hlimited : cfg.limits.maxSteps ≠ none) : (t.execute cfg fuel env).reply ≠ .unfinished := by
  obtain ⟨m, hmax⟩ := Option.ne_none_iff_exists'.1 hlimited
  rw [Tree.execute_eq]
  exact outermost_ne_unfinished hmax t env fuel

/-- A step limit cuts a run exactly and changes nothing else. A limited run always ends. Where the unlimited
run ends within the limit, the limited one has the same outcome. Where it takes more steps or goes on for
ever, the limited run takes as many steps as it may and reports the limit, and its log is the beginning of the
unlimited one's up to that point. -/
theorem execute_stepLimit (t : Tree) (env : Env) (m : Int) (traced : Bool) (clock : Nat → Int) (fuel : Nat) :
    let free : Settings := { clock := clock, traced := traced }
    let limited : Settings := { limits := { maxSteps := some m }, clock := clock, traced := traced }
    (t.execute limited fuel env).reply ≠ .unfinished ∧
    (∀ fuel₀, (t.execute free fuel₀ env).reply ≠ .unfinished → (t.execute free fuel₀ env).steps ≤ m →
      t.execute limited fuel env = t.execute free fuel₀ env) ∧
    ((∀ fuel₀, (t.execute free fuel₀ env).reply ≠ .unfinished → m < (t.execute free fuel₀ env).steps) →
      (∃ env', (t.execute limited fuel env).reply = .halted (.steps m) env') ∧
      (t.execute limited fuel env).steps = m.toNat ∧
      (traced = true → ∃ log,
        (t.execute limited fuel env).events = log ++ [.budgetExceeded (Halt.steps m).message] ∧
        log.countP Event.isStep = m.toNat ∧
        ∀ fuel₀, (t.execute free fuel₀ env).reply ≠ .unfinished ∨ m.toNat < fuel₀ →
          log <+: (t.execute free fuel₀ env).events)) := by
  intro free limited
  have hlim : ∀ n : Nat, stopBefore? limited n = if m ≤ n then some (.steps m) else none := fun _ => rfl
  have hfree : free.Free := fun _ => rfl
  simp only [Tree.execute_eq]
  refine ⟨outermost_ne_unfinished rfl t env fuel, fun fuel₀ hended hwithin => ?_, fun hbeyond => ?_⟩
  · rw [outermost_eq_of_steps_le hlim hfree rfl rfl rfl t env fuel hended hwithin]
  · obtain ⟨⟨env', hhalted⟩, hsteps⟩ := outermost_stopped hlim hfree rfl rfl rfl t env fuel hbeyond
    refine ⟨⟨env', hhalted⟩, hsteps, fun htraced => ?_⟩
    refine ⟨(outermost limited fuel t env).2.events.reverse, ?_, ?_, fun fuel₀ hfuel => ?_⟩
    · rw [hhalted, closing, if_pos htraced]
      rfl
    · obtain ⟨l, hevents, -, hcount⟩ := outermost_log limited htraced fuel t env
      rw [hevents, List.countP_reverse, List.countP_append, hcount, hsteps]
      rfl
    · exact (List.reverse_prefix.2 (outermost_log_suffix hlim hfree rfl rfl rfl t env fuel hfuel)).trans
        (List.prefix_append _ _)

end WhileLang
