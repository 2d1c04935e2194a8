import WhileLang.Proofs.Layout.Parse

/-!
# What laid out source means

Programs that look the same do the same: if two trees are laid out as the same source, then from every
environment both run for ever, or both return the same value and leave the same environment behind, or both
fail with the same error (`sameOutcome_of_pretty`). Equal source has equal tokens, and equal tokens have one
reading; both trees end as this reading does, since they differ from it in positions and in the nesting of
sequences only.

Names have to be plain, so that they are told from other words; those of letters, digits and underscores are,
the words of values and statements apart (`isPlainName_of_isOrdinary`). And no assigned value may be a
sequence: `x := 1; 2` is laid out in the same way whether the semicolon belongs to the assigned value or ends
the assignment (`pretty_assign_seq`), and the two do not do the same (`assigned_sequence_ambiguous`).
-/

namespace WhileLang

/-! ## Outcomes -/

/-- Both runs return the same value and leave the same environment behind, or both fail with an error of the
same kind and wording. -/
inductive Reply.Same : Reply → Reply → Prop
  | done {v v' : Tree} {env env' : Env} (hv : v.same v' = true) (henv : env.same env' = true) :
    Same (.done v env) (.done v' env')
  | halted {halt halt' : Halt} {env env' : Env} (hcode : halt.toFailure.code = halt'.toFailure.code)
    (hmessage : halt.toFailure.message = halt'.toFailure.message) :
    Same (.halted halt env) (.halted halt' env')

theorem Reply.Same.ne_unfinished {r r' : Reply} (h : r.Same r') : r ≠ .unfinished ∧ r' ≠ .unfinished := by
  cases h with
  | done | halted => exact ⟨Reply.noConfusion, Reply.noConfusion⟩

/-- Both programs run for ever, or both end in the same way. -/
def Tree.SameOutcome (t t' : Tree) (env : Env) : Prop :=
  (∀ fuel, t.run fuel env = .unfinished ∧ t'.run fuel env = .unfinished) ∨
    ∃ fuel fuel', (t.run fuel env).Same (t'.run fuel' env)

namespace Tree

variable {t t' : Tree} {env : Env}

/-- Fuel that is enough leads to the same answer. -/
theorem run_eq_run {fuel fuel' : Nat} (h : t.run fuel env ≠ .unfinished)
    (h' : t.run fuel' env ≠ .unfinished) : t.run fuel env = t.run fuel' env := by
  unfold run at h h' ⊢
  rcases Nat.le_total fuel fuel' with hle | hle
  · rw [Engine.eval_mono hle h]
  · rw [Engine.eval_mono hle h']

/-- Programs with the same outcome end in the same way, whatever fuel was enough for them. -/
theorem SameOutcome.same_of_ends (h : SameOutcome t t' env) {fuel fuel' : Nat}
    (hends : t.run fuel env ≠ .unfinished) (hends' : t'.run fuel' env ≠ .unfinished) :
    (t.run fuel env).Same (t'.run fuel' env) := by
  rcases h with hnever | ⟨n, n', hsame⟩
  · exact absurd (hnever fuel).1 hends
  · rw [run_eq_run hends hsame.ne_unfinished.1, run_eq_run hends' hsame.ne_unfinished.2]
    exact hsame

theorem run_eq_unfinished (h : ∀ o, ¬ BigStep t env o) (fuel : Nat) : t.run fuel env = .unfinished := by
  apply Reply.eq_unfinished_of_ending?
  cases ho : (t.run fuel env).ending? with
  | none => rfl
  | some o => exact absurd (exists_ending?_iff_bigStep.1 ⟨fuel, ho⟩) (h o)

/-- Trees that read alike end alike, up to positions. -/
theorem exists_moved_of_canonical (h : t.canonical = t'.canonical) {o : Ending} (ho : BigStep t env o) :
    ∃ o', BigStep t' env o' ∧ o.Moved o' := by
  have hstraight : BigStep t.straight env o := (t.straight_equivalent env o).2 ho
  have hmoved : t.straight.Moved t'.straight := moved_of_unplaced h
  have henv : env.Moved env := rfl
  obtain ⟨o', ho', hends⟩ := hstraight.moved hmoved henv
  exact ⟨o', (t'.straight_equivalent env o').1 ho', hends⟩

/-- Derivations that end alike are runs with the same outcome. -/
theorem sameOutcome_of_moved {o o' : Ending} (ho : BigStep t env o) (ho' : BigStep t' env o')
    (h : o.Moved o') : SameOutcome t t' env := by
  obtain ⟨fuel, hfuel⟩ := exists_ending?_iff_bigStep.2 ho
  obtain ⟨fuel', hfuel'⟩ := exists_ending?_iff_bigStep.2 ho'
  refine .inr ⟨fuel, fuel', ?_⟩
  cases h with
  | value hv henv =>
    rw [Reply.eq_done_of_ending? hfuel, Reply.eq_done_of_ending? hfuel']
    exact .done ((moved_iff_matches.1 hv).same (ho.same_self rfl)) (Env.same_of_unplaced henv)
  | error hcode hmessage =>
    obtain ⟨halt, env₁, hrun, rfl⟩ := Reply.eq_halted_of_ending? hfuel
    obtain ⟨halt', env₂, hrun', rfl⟩ := Reply.eq_halted_of_ending? hfuel'
    rw [hrun, hrun']
    exact .halted hcode hmessage

/-- Trees that read alike have the same outcome. -/
theorem sameOutcome_of_canonical (h : t.canonical = t'.canonical) : SameOutcome t t' env := by
  by_cases hends : ∃ o, BigStep t env o
  · obtain ⟨o, ho⟩ := hends
    obtain ⟨o', ho', hmoved⟩ := exists_moved_of_canonical h ho
    exact sameOutcome_of_moved ho ho' hmoved
  · -- the other tree does not end either, since the first would end like it
    have hnever : ∀ o, ¬ BigStep t env o := fun o ho => hends ⟨o, ho⟩
    have hnever' : ∀ o, ¬ BigStep t' env o := by
      intro o' ho'
      obtain ⟨o, ho, -⟩ := exists_moved_of_canonical h.symm ho'
      exact hnever o ho
    exact .inl fun fuel => ⟨run_eq_unfinished hnever fuel, run_eq_unfinished hnever' fuel⟩

/-- Programs that look the same do the same, if their names are plain and no assigned value is a sequence. -/
theorem sameOutcome_of_pretty (t t' : Tree) (hnames : t.plainNames = true) (hnames' : t'.plainNames = true)
    (hseq : t.assignsNoSeq = true) (hseq' : t'.assignsNoSeq = true) (h : t.pretty = t'.pretty) :
    ∀ env, SameOutcome t t' env := by
  intro env
  have htokens : t.tokens = t'.tokens := by
    rw [← lexText_pretty hnames, ← lexText_pretty hnames', h]
  exact sameOutcome_of_canonical (canonical_eq_of_tokens hseq hseq' htokens)

/-- Three statements in a row, with an empty branch and one that does nothing. -/
theorem sameOutcome_of_regrouped :
    let s : Span := .point "p.yaml" 3 1
    let double : Tree :=
      .assign s "x" (.binary s .mul (.binary s .add (.var s "x") (.num s 1)) (.num s 2))
    let choose (branch : Tree) : Tree := .ite s (.binary s .lt (.var s "x") (.num s 9)) branch branch
    let t : Tree := .seq s (.seq s double (choose .absent)) (.var s "y")
    let t' : Tree := .seq s double (.seq s (choose (.nothing s)) (.var Span.none "y"))
    t.plainNames = true ∧ t'.plainNames = true ∧ t.assignsNoSeq = true ∧ t'.assignsNoSeq = true ∧
      t.pretty = t'.pretty ∧ ∀ env, SameOutcome t t' env := by
  intro s double choose t t'
  have hx : Layout.isPlainName "x" = true := Layout.isPlainName_of_isOrdinary (by decide) (by decide)
  have hy : Layout.isPlainName "y" = true := Layout.isPlainName_of_isOrdinary (by decide) (by decide)
  have hnames : t.plainNames = true := by simp [t, double, choose, plainNames, all, hx, hy]
  have hnames' : t'.plainNames = true := by simp [t', double, choose, plainNames, all, hx, hy]
  have hseq : t.assignsNoSeq = true := by decide
  have hseq' : t'.assignsNoSeq = true := by decide
  have hpretty : t.pretty = t'.pretty := by decide
  exact ⟨hnames, hnames', hseq, hseq', hpretty, sameOutcome_of_pretty t t' hnames hnames' hseq hseq' hpretty⟩

/-! ## Assigned sequences -/

/-- A semicolon behind an assigned value looks the same wherever it belongs. -/
theorem pretty_assign_seq (s s' : Span) (x : String) (a b : Tree) :
    (assign s x (.seq s' a b)).pretty = (seq s (.assign s' x a) b).pretty := by
  simp only [pretty, layout, String.append_assoc]

/-- The last value of `1; 2` is assigned in one program, and its first value in the other. -/
theorem assigned_sequence_ambiguous :
    let one : Tree := .num Span.none 1
    let two : Tree := .num Span.none 2
    let t : Tree := .assign Span.none "x" (.seq Span.none one two)
    let t' : Tree := .seq Span.none (.assign Span.none "x" one) two
    t.plainNames = true ∧ t'.plainNames = true ∧ t.pretty = t'.pretty ∧ ¬ SameOutcome t t' Env.empty := by
  intro one two t t'
  have hrun : t.run 9 Env.empty = .done (.nothing Span.none) (Env.empty.insert "x" (.num Span.none 2)) := rfl
  have hrun' : t'.run 9 Env.empty = .done two (Env.empty.insert "x" (.num Span.none 1)) := rfl
  refine ⟨by decide, by decide, pretty_assign_seq Span.none Span.none "x" one two, ?_⟩
  intro h
  have hends : t.run 9 Env.empty ≠ .unfinished := by
    rw [hrun]
    exact Reply.noConfusion
  have hends' : t'.run 9 Env.empty ≠ .unfinished := by
    rw [hrun']
    exact Reply.noConfusion
  have hsame := h.same_of_ends hends hends'
  rw [hrun, hrun'] at hsame
  cases hsame with
  | done hv => cases hv

end Tree

end WhileLang
