import Mathlib.Data.Set.Basic
import Mathlib.Logic.Relation

/-!
# Balls in a graph

The nodes within a number of hops of a node, along the edges of a relation, and the walks that reach
them.
-/

namespace Hops

variable {ι : Type*} (edge : ι → ι → Prop) (o : ι)

/-- The nodes within `n` hops of `o`. -/
def ball : ℕ → Set ι
  | 0 => {o}
  | n + 1 => {j | j ∈ ball n ∨ ∃ i ∈ ball n, edge i j}

/-- The nodes of a walk from `o`, and the last of them. -/
inductive Walk : List ι → ι → Prop
  | start : Walk [o] o
  | snoc {path : List ι} {i j : ι} (h : Walk path i) (e : edge i j) : Walk (path ++ [j]) j

variable {edge : ι → ι → Prop} {o : ι} {path : List ι} {i : ι} {n n' : ℕ}

theorem ball_mono (h : n ≤ n') : ball edge o n ⊆ ball edge o n' := by
  induction h with
  | refl => exact subset_rfl
  | step _ ih => exact fun j hj => .inl (ih hj)

theorem Walk.length_pos (h : Walk edge o path i) : 0 < path.length := by
  cases h with
  | start => exact Nat.one_pos
  | snoc => simp

theorem Walk.reflTransGen (h : Walk edge o path i) : Relation.ReflTransGen edge o i := by
  induction h with
  | start => exact .refl
  | snoc _ e ih => exact ih.tail e

theorem Walk.mem_ball (h : Walk edge o path i) : i ∈ ball edge o (path.length - 1) := by
  induction h with
  | start => rfl
  | @snoc path i j h e ih =>
    have hpos := h.length_pos
    have hlen : (path ++ [j]).length - 1 = path.length - 1 + 1 := by
      simp only [List.length_append, List.length_singleton]
      omega
    rw [hlen]
    exact .inr ⟨i, ih, e⟩

end Hops
