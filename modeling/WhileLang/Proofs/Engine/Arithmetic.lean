import Mathlib.Data.Int.ModEq
import WhileLang.Proofs.Engine.BigStep
import WhileLang.Proofs.Engine.Dependence
import WhileLang.Proofs.Engine.LoopFree

/-!
# Arithmetic modulo `2^64`

Sums and products wrap around at every node of a formula. For the result it is as good as if they wrapped around once
at the end: reduction modulo `2^64` goes with sums and with products, so the number that a formula comes to is the one
64-bit number that is congruent to its value over the integers, whatever overflows on the way (`Arithmetic.bigStep`).
-/

namespace WhileLang

/-- A 64-bit number is congruent to an integer only if it is the integer wrapped around. -/
theorem toInt_modEq_iff {n : Int64} {z : Int} : n.toInt ≡ z [ZMOD 2 ^ 64] ↔ n = Int64.ofInt z := by
  constructor
  · intro h
    have hbmod : z.bmod (2 ^ 64) = n.toInt.bmod (2 ^ 64) := by
      rw [← Int.emod_bmod z, ← Int.emod_bmod n.toInt]
      exact congrArg (Int.bmod · (2 ^ 64)) h.symm
    -- a 64-bit number is in range already
    have hself : Int64.ofInt n.toInt = n := Int64.ofInt_toInt n
    rw [Int64.ofInt_eq_iff_bmod_eq_toInt] at hself
    rw [eq_comm, Int64.ofInt_eq_iff_bmod_eq_toInt, hbmod, hself]
  · rintro rfl
    rw [Int64.toInt_ofInt]
    exact Int.bmod_emod

namespace Tree

/-- Formulas of numbers, variables, sums and products. -/
inductive Arithmetic : Tree → Prop
  | num (s : Span) (n : Int64) : Arithmetic (.num s n)
  | var (s : Span) (x : String) : Arithmetic (.var s x)
  | add (s : Span) {l r : Tree} (hl : Arithmetic l) (hr : Arithmetic r) : Arithmetic (.binary s .add l r)
  | mul (s : Span) {l r : Tree} (hl : Arithmetic l) (hr : Arithmetic r) : Arithmetic (.binary s .mul l r)

/-- The value of a formula over the integers, where nothing overflows. There is none if a variable does not lead to a
number, or if the tree is no formula. -/
def unbounded? (env : Env) : Tree → Option Int
  | .num _ n => some n.toInt
  | .var _ x =>
    match env.get? x with
    | some (.num _ n) => some n.toInt
    | _ => none
  | .binary _ .add l r => do return (← l.unbounded? env) + (← r.unbounded? env)
  | .binary _ .mul l r => do return (← l.unbounded? env) * (← r.unbounded? env)
  | _ => none

/-- All variables that a tree reads lead to numbers. -/
def ReadsNumbers (t : Tree) (env : Env) : Prop := ∀ x, t.Reads x → ∃ s n, env.get? x = some (.num s n)

theorem ReadsNumbers.child {env : Env} {t a : Tree} (h : t.ReadsNumbers env) (ha : a ∈ t.children) :
    a.ReadsNumbers env :=
  fun x hx => h x (hx.of_child ha)

namespace Arithmetic

variable {env : Env} {t : Tree}

theorem loopFree (h : t.Arithmetic) : t.LoopFree := by
  intro s c b hloop
  induction h with
  | num | var => simp [nodes] at hloop
  | add _ _ _ ihl ihr | mul _ _ _ ihl ihr =>
    simp only [nodes, List.mem_cons, List.mem_append, reduceCtorEq, false_or] at hloop
    exact hloop.elim ihl ihr

/-- A formula means its value over the integers, wrapped around. -/
theorem bigStep (h : t.Arithmetic) : t.ReadsNumbers env →
    ∃ z s, t.unbounded? env = some z ∧ BigStep t env (.value (.num s (Int64.ofInt z)) env) := by
  induction h with
  | num s n =>
    intro _
    refine ⟨n.toInt, s, rfl, ?_⟩
    rw [Int64.ofInt_toInt]
    exact .num
  | var s x =>
    intro hreads
    obtain ⟨s', n, hn⟩ := hreads x ⟨s, List.mem_singleton_self _⟩
    refine ⟨n.toInt, s', by rw [unbounded?, hn], ?_⟩
    rw [Int64.ofInt_toInt]
    exact .var hn
  | add s _ _ ihl ihr =>
    intro hreads
    obtain ⟨zl, _, hzl, hl⟩ := ihl (hreads.child (by simp [children]))
    obtain ⟨zr, _, hzr, hr⟩ := ihr (hreads.child (by simp [children]))
    refine ⟨zl + zr, s, by rw [unbounded?, hzl, hzr]; rfl, ?_⟩
    rw [Int64.ofInt_add]
    exact .add hl hr
  | mul s _ _ ihl ihr =>
    intro hreads
    obtain ⟨zl, _, hzl, hl⟩ := ihl (hreads.child (by simp [children]))
    obtain ⟨zr, _, hzr, hr⟩ := ihr (hreads.child (by simp [children]))
    refine ⟨zl * zr, s, by rw [unbounded?, hzl, hzr]; rfl, ?_⟩
    rw [Int64.ofInt_mul]
    exact .mul hl hr

end Arithmetic

/-- A loop-free program that means a value returns it with fuel for two steps a node. -/
theorem run_of_loopFree {t v : Tree} {env env' : Env} (ht : t.LoopFree) (h : BigStep t env (.value v env'))
    {fuel : Nat} (hfuel : 2 * t.size ≤ fuel) : t.run fuel env = .done v env' := by
  obtain ⟨enough, hends⟩ := exists_ending?_iff_bigStep.2 h
  have hdone : t.run enough env = .done v env' := Reply.eq_done_of_ending? hends
  have hends : t.run fuel env ≠ .unfinished := Engine.eval_ne_unfinished_of_loopFree ht {} hfuel 1 env {}
  -- both amounts of fuel give the answer that the greater one gives
  have hfirst : t.run (max fuel enough) env = t.run fuel env :=
    congrArg Prod.fst (Engine.eval_mono (Nat.le_max_left fuel enough) hends)
  have hsecond : t.run (max fuel enough) env = t.run enough env :=
    congrArg Prod.fst (Engine.eval_mono (Nat.le_max_right fuel enough) (by rw [Tree.run] at hdone; simp [hdone]))
  rw [← hfirst, hsecond, hdone]

end Tree

/-- Arithmetic is exact modulo `2^64`. A formula of numbers, variables, sums and products whose variables are numbers
has a value over the integers. Running it succeeds, with fuel for two steps a node, leaves the environment as it was,
and returns the number that is congruent to this value modulo `2^64`; no other 64-bit number is. -/
theorem run_arithmetic (t : Tree) (env : Env) (ht : t.Arithmetic)
    (henv : ∀ x, t.Reads x → ∃ s n, env.get? x = some (.num s n)) :
    ∃ z s n, t.unbounded? env = some z ∧
      (∀ fuel, 2 * t.size ≤ fuel → t.run fuel env = .done (.num s n) env) ∧
      ∀ m : Int64, m.toInt ≡ z [ZMOD 2 ^ 64] ↔ m = n := by
  obtain ⟨z, s, hz, hmeans⟩ := ht.bigStep henv
  refine ⟨z, s, Int64.ofInt z, hz, fun fuel hfuel => ?_, fun m => toInt_modEq_iff⟩
  exact Tree.run_of_loopFree ht.loopFree hmeans hfuel

/-- `(9223372036854775807 * 9223372036854775807 + x) * 9223372036854775807`, where `x` is 5. Each operation leaves the
range, and what is returned is -6. -/
theorem run_arithmetic_overflow :
    let s : Span := .point "p.yaml" 1 1
    let greatest : Tree := .num s 9223372036854775807
    let t : Tree := .binary s .mul (.binary s .add (.binary s .mul greatest greatest) (.var s "x")) greatest
    let env : Env := Env.ofList [("x", .num s 5)]
    t.Arithmetic ∧ (∀ x, t.Reads x → ∃ s n, env.get? x = some (.num s n)) ∧
      t.unbounded? env = some (((2 ^ 63 - 1) * (2 ^ 63 - 1) + 5) * (2 ^ 63 - 1)) ∧
      ∀ fuel, 14 ≤ fuel → ∃ s, t.run fuel env = .done (.num s (-6)) env := by
  intro s greatest t env
  have ht : t.Arithmetic := .mul s (.add s (.mul s (.num s _) (.num s _)) (.var s "x")) (.num s _)
  have henv : ∀ x, t.Reads x → ∃ s n, env.get? x = some (.num s n) := by
    rintro x ⟨s', hx⟩
    obtain ⟨-, rfl⟩ : s' = s ∧ x = "x" := by simpa [t, greatest, Tree.nodes] using hx
    exact ⟨s, 5, rfl⟩
  have hz : t.unbounded? env = some (((2 ^ 63 - 1) * (2 ^ 63 - 1) + 5) * (2 ^ 63 - 1)) := by decide
  obtain ⟨z, s', n, hz', hrun, hn⟩ := run_arithmetic t env ht henv
  obtain rfl : -6 = n := (hn (-6)).1 (Option.some.inj (hz.symm.trans hz') ▸ by decide)
  exact ⟨ht, henv, hz, fun fuel hfuel => ⟨s', hrun fuel hfuel⟩⟩

end WhileLang
