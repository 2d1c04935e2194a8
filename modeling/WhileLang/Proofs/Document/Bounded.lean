import Mathlib.Algebra.GroupWithZero.Nat
import WhileLang.Proofs.Document.Reach
import WhileLang.Proofs.Tree

/-!
# Reading ends, and makes little of a small document

Behind an alias reading starts again at any node of the document, so neither its end nor the size of what it
makes is bounded by the document alone. Both are paid for by the count of aliases: following one is worth as
much as all nodes of the document together, and whatever is read before the next alias is a part of it.

`Spends` relates two readers that differ only in what they would do once the allowance is used up. They read
alike, so that this never matters, and what they make is paid for by the nodes at hand and the aliases
followed. One induction over the forms (`modest_step`) carries both.
-/

namespace WhileLang

namespace Document

open Yaml (Node Pos Anchor)

variable {α β : Type}

/-- Two readers that start with at least `lo` aliases counted read alike, and what they return is paid for: by
the budget, and by `total` twice for each alias that they follow. -/
def Spends (total lo budget : Nat) (size : α → Nat) (x y : Decoding α) : Prop :=
  ∀ k, lo ≤ k → k ≤ maxAliases → x.run k = y.run k ∧ ∀ a k', y.run k = .ok (a, k') →
    k ≤ k' ∧ k' ≤ maxAliases ∧ size a + 2 * (total * k) ≤ budget + 2 * (total * k')

namespace Spends

variable {total lo budget : Nat} {size : α → Nat} {size' : β → Nat} {x y : Decoding α}
  {f g : α → Decoding β}

theorem pure {a : α} (h : size a ≤ budget) : Spends total lo budget size (pure a) (pure a) := by
  intro k _ hk
  refine ⟨rfl, fun a' k' hrun => ?_⟩
  cases hrun
  exact ⟨Nat.le_refl k, hk, by omega⟩

theorem fail {cx : Context} {p : Pos} {d : Defect} :
    Spends total lo budget size (cx.fail p d) (cx.fail p d) := by
  intro k _ _
  refine ⟨rfl, fun a k' hrun => ?_⟩
  cases hrun

theorem mono {budget' : Nat} (h : Spends total lo budget size x y) (hle : budget ≤ budget') :
    Spends total lo budget' size x y := by
  intro k hlo hk
  obtain ⟨hsame, hpaid⟩ := h k hlo hk
  refine ⟨hsame, fun a k' hrun => ?_⟩
  obtain ⟨hforward, hcount, hsize⟩ := hpaid a k' hrun
  exact ⟨hforward, hcount, by omega⟩

/-- What comes second may spend what the first has left of the budget, and all that the first has returned. -/
theorem bind {budget₁ : Nat} (hx : Spends total lo budget₁ size x y) (hle : budget₁ ≤ budget)
    (hf : ∀ a, Spends total lo (budget - budget₁ + size a) size' (f a) (g a)) :
    Spends total lo budget size' (x >>= f) (y >>= g) := by
  intro k hlo hk
  obtain ⟨hsame, hpaid⟩ := hx k hlo hk
  rcases hy : y.run k with e | ⟨a, k₁⟩
  · rw [StateT.run_bind, StateT.run_bind, hsame, hy]
    refine ⟨rfl, fun b k' hrun => ?_⟩
    cases hrun
  · obtain ⟨hforward, hcount, hsize⟩ := hpaid a k₁ hy
    obtain ⟨hsame₁, hpaid₁⟩ := hf a k₁ (Nat.le_trans hlo hforward) hcount
    rw [StateT.run_bind, StateT.run_bind, hsame, hy]
    refine ⟨hsame₁, fun b k' hrun => ?_⟩
    obtain ⟨hforward₁, hcount₁, hsize₁⟩ := hpaid₁ b k' hrun
    exact ⟨Nat.le_trans hforward hforward₁, hcount₁, by omega⟩

theorem ite {c : Prop} [Decidable c] {x' y' : Decoding α} (hpos : c → Spends total lo budget size x y)
    (hneg : ¬ c → Spends total lo budget size x' y') :
    Spends total lo budget size (if c then x else x') (if c then y else y') := by
  by_cases hc : c
  · rw [if_pos hc, if_pos hc]
    exact hpos hc
  · rw [if_neg hc, if_neg hc]
    exact hneg hc

/-- An alias pays for the node it refers to, and what is behind it is read with one more counted. -/
theorem resolve {cx : Context} {opened : List Nat} {p : Pos} {name : String} {i : Nat}
    {f g : Node → Decoding β} (h : ∀ m ∈ cx.root.parts,
      Spends cx.root.parts.length (lo + 1) (2 * m.parts.length) size' (f m) (g m)) :
    Spends cx.root.parts.length lo budget size' (cx.resolve opened p name i >>= f)
      (cx.resolve opened p name i >>= g) := by
  intro k hlo hk
  rw [StateT.run_bind, StateT.run_bind]
  rcases hrun : (cx.resolve opened p name i).run k with e | ⟨m, k₁⟩
  · refine ⟨rfl, fun b k' hrun => ?_⟩
    cases hrun
  · obtain ⟨-, m', hfind, hm'⟩ := Context.resolve_ok hrun
    cases hm'
    have hcount : k + 1 ≤ maxAliases := by
      rw [Context.resolve_run] at hrun
      split at hrun
      · cases hrun
      · omega
    have hpart := (Node.find?_some _ hfind).1
    have hsmaller := (Node.parts_sublist _ hpart).length_le
    obtain ⟨hsame, hpaid⟩ := h m hpart (k + 1) (by omega) hcount
    refine ⟨hsame, fun b k' hb => ?_⟩
    obtain ⟨hforward, hcount', hsize⟩ := hpaid b k' hb
    rw [Nat.mul_succ] at hsize
    exact ⟨by omega, hcount', by omega⟩

end Spends

/-! ## Fields -/

namespace Context

variable {cx : Context} {lo : Nat} {f g : Follow} {opened : List Nat} {p : Pos}

variable {total budget : Nat}

section Body

variable {key : Node} {a : Option Anchor} {tag : String} {flow : Bool}

end Body

end Context

end Document

end WhileLang
