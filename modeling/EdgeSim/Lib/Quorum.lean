import Mathlib.Data.Finset.Card
import Mathlib.Data.Set.Basic

/-!
# Quorums

Any two quorums meet; majorities of a finite set are quorums.
-/

structure QuorumSystem (N : Type*) where
  IsQuorum : Set N → Prop
  inter : ∀ {S T}, IsQuorum S → IsQuorum T → ∃ v, v ∈ S ∧ v ∈ T

namespace QuorumSystem

variable {N : Type*} [DecidableEq N]

/-- The sets that hold more than half of `members`. -/
def majority (members : Finset N) : QuorumSystem N where
  IsQuorum S := ∃ F ⊆ members, members.card < 2 * F.card ∧ ∀ v ∈ F, v ∈ S
  inter := by
    rintro S T ⟨F, hF, hFc, hFS⟩ ⟨G, hG, hGc, hGT⟩
    obtain ⟨v, hv⟩ := Finset.inter_nonempty_of_card_lt_card_add_card hF hG (by omega)
    rw [Finset.mem_inter] at hv
    exact ⟨v, hFS v hv.1, hGT v hv.2⟩

end QuorumSystem
