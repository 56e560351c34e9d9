import EdgeSim.Lib.Ball
import Mathlib.Algebra.Order.Monoid.Defs
import Mathlib.Algebra.Ring.Nat
import Mathlib.Data.Finset.Card
import Mathlib.Tactic.Ring

/-!
# Spreading in rounds

In a round everyone who has something tells it to at most `k` neighbours. After `s` rounds it is
within `s` hops of where it started, with at most `(1 + k) ^ s` nodes, and if everyone tells all
neighbours it is everywhere within `s` hops.
-/

namespace Hops

variable {ι : Type*} {edge : ι → ι → Prop} {k : ℕ} {o : ι} {I : ℕ → Finset ι}

/-- From `I` to `J` in one round. -/
structure Round (edge : ι → ι → Prop) (k : ℕ) (I J : Finset ι) : Prop where
  subset : I ⊆ J
  told : ∀ j ∈ J, j ∈ I ∨ ∃ i ∈ I, edge i j
  card_le : J.card ≤ (1 + k) * I.card

theorem subset_ball (h0 : I 0 = {o}) (h : ∀ s, Round edge k (I s) (I (s + 1))) (s : ℕ) :
    ↑(I s) ⊆ ball edge o s := by
  induction s with
  | zero =>
    rw [h0]
    simp [ball]
  | succ s ih =>
    intro j hj
    rcases (h s).told j hj with hj | ⟨i, hi, hij⟩
    · exact .inl (ih hj)
    · exact .inr ⟨i, ih hi, hij⟩

theorem card_le_pow (h0 : I 0 = {o}) (h : ∀ s, Round edge k (I s) (I (s + 1))) (s : ℕ) :
    (I s).card ≤ (1 + k) ^ s := by
  induction s with
  | zero =>
    rw [h0]
    simp
  | succ s ih =>
    calc (I (s + 1)).card ≤ (1 + k) * (I s).card := (h s).card_le
      _ ≤ (1 + k) * (1 + k) ^ s := Nat.mul_le_mul_left _ ih
      _ = (1 + k) ^ (s + 1) := by ring

/-- Where all neighbours are told, the ball is filled. -/
theorem eq_ball (h0 : I 0 = {o}) (h : ∀ s, Round edge k (I s) (I (s + 1)))
    (hall : ∀ s, ∀ i ∈ I s, ∀ j, edge i j → j ∈ I (s + 1)) (s : ℕ) :
    ↑(I s) = ball edge o s := by
  refine Set.Subset.antisymm (subset_ball h0 h s) ?_
  induction s with
  | zero =>
    rw [h0]
    simp [ball]
  | succ s ih =>
    rintro j (hj | ⟨i, hi, hij⟩)
    · exact (h s).subset (ih hj)
    · exact hall s i (ih hi) j hij

end Hops
