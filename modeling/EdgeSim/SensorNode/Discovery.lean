import EdgeSim.SensorNode.Bootstrap
import EdgeSim.SensorNode.Coverage

/-!
# Gossip among nodes that know each other

What `bootstrapDiscovery` leaves behind is a peer graph in which two nodes are linked both ways if
one has read an answer of the other. If all nodes are joined in this way, any of them is reached
from any other, and a message with a long enough time to live is stored by all of them.
-/

namespace EdgeSim.SensorNode

open Coordinator (Reading)
open Relation Runs

variable {ι : Type} [DecidableEq ι]

section

variable {D : Deployment ι} {B : ι → BootConfig} {u : Overlay ι} {i : ι}

omit [DecidableEq ι] in
theorem Member.linked (hA : Addressed D B) (h : Member B u) {s₀ : System ι}
    (hnodes : s₀.nodes = u.nodes) {j : ι} (hne : i ≠ j)
    (hknows : (B j).advertiseAddr ∈ (u.nodes i).peers.addrs) :
    Linked D (s₀.targets D) i j := by
  refine ⟨(B j).advertiseAddr, ?_, hA.resolve j⟩
  have hmem : (B j).advertiseAddr ∈ (u.nodes i).peerAddrs := mem_peerAddrs.2 (.inr hknows)
  have hself : (B j).advertiseAddr ≠ (u.nodes i).selfAddr := by
    rw [h.self i]
    exact fun heq => hne (hA.inj heq).symm
  rw [System.targets, gossipTargets, hnodes]
  refine List.mem_filter.2 ⟨?_, by simpa using hself⟩
  split_ifs
  · exact hmem
  · exact List.mem_append_left _ hmem

omit [DecidableEq ι] in
/-- Nodes that are joined through others are reached from each other. -/
theorem Member.reachable (hA : Addressed D B) (h : Member B u) (hall : ∀ i, (u.boot i).Added)
    {s₀ : System ι} (hnodes : s₀.nodes = u.nodes) {j : ι}
    (hij : EqvGen (fun i b => (i, b) ∈ u.joined) i j) :
    ReflTransGen (Linked D (s₀.targets D)) i j ∧ ReflTransGen (Linked D (s₀.targets D)) j i := by
  induction hij with
  | rel i j hij =>
    by_cases hne : i = j
    · subst hne
      exact ⟨.refl, .refl⟩
    · obtain ⟨hji, hij⟩ := h.mutual hA hij (hall i) hne
      exact ⟨.single (h.linked hA hnodes hne hij), .single (h.linked hA hnodes (Ne.symm hne) hji)⟩
  | refl i => exact ⟨.refl, .refl⟩
  | symm i j _ ih => exact ih.symm
  | trans i j k _ _ ih ih' => exact ⟨ih.1.trans ih'.1, ih'.2.trans ih.2⟩

end

end EdgeSim.SensorNode
