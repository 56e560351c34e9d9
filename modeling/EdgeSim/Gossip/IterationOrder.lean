import EdgeSim.Gossip.Spread
import Mathlib.Data.List.Perm.Lattice

/-!
# The order in which a step ranges

Nodes with more peers than the fanout share the random numbers, so who draws first can decide who is
infected. The order is irrelevant to a step if the nodes that draw have the same new peers in the
same places, in particular if only one of them draws.
-/

namespace EdgeSim.Gossip

variable {σ : Type} {rng : Rng σ} {order order' : RangeOrder} {nodes : List Node}
  {infected : Finset String} {peers peers' : List String} {p u v : String}

/-- A peer list with only the peers that are not infected. -/
def unmet (infected : Finset String) (peers : List String) : List (Option String) :=
  peers.map fun p => if p ∈ infected then none else some p

/-- All infected nodes that draw have the same new peers in the same places. -/
def DrawAlike (nodes : List Node) (fanout : ℕ) (infected : Finset String) : Prop :=
  ∀ u ∈ infected, ∀ v ∈ infected, fanout < (peersOf nodes u).length →
    fanout < (peersOf nodes v).length →
      unmet infected (peersOf nodes u) = unmet infected (peersOf nodes v)

theorem mem_drawn {indices : List ℕ} :
    p ∈ (indices.filterMap (peers[·]?)).toFinset \ infected
      ↔ ∃ i ∈ indices, (unmet infected peers)[i]? = some (some p) := by
  have hget (i : ℕ) : (unmet infected peers)[i]? = some (some p)
      ↔ peers[i]? = some p ∧ p ∉ infected := by
    rw [unmet, List.getElem?_map]
    cases peers[i]? with
    | none => simp
    | some q =>
      by_cases hq : q ∈ infected
      · simp only [Option.map_some, if_pos hq, Option.some.injEq, reduceCtorEq, false_iff, not_and,
          not_not]
        rintro rfl
        exact hq
      · simp only [Option.map_some, if_neg hq, Option.some.injEq, iff_self_and]
        rintro rfl
        exact hq
  rw [Finset.mem_sdiff, List.mem_toFinset, List.mem_filterMap]
  simp only [hget]
  tauto

variable {fanout : ℕ}

theorem infectPeers_congr (hu : fanout < (peersOf nodes u).length)
    (hv : fanout < (peersOf nodes v).length)
    (h : unmet infected (peersOf nodes u) = unmet infected (peersOf nodes v))
    (acc : Finset String × σ) :
    infectPeers rng nodes fanout infected acc u = infectPeers rng nodes fanout infected acc v := by
  have hlen : (peersOf nodes u).length = (peersOf nodes v).length := by
    simpa only [unmet, List.length_map] using congrArg List.length h
  rw [infectPeers_eq, infectPeers_eq, selectRandomPeers_of_lt hu, selectRandomPeers_of_lt hv, hlen]
  congr 2
  ext p
  rw [mem_drawn, mem_drawn, h]

/-- A node that does not draw may come before or after another. -/
theorem infectPeers_comm_of_le (hu : (peersOf nodes u).length ≤ fanout)
    (acc : Finset String × σ) :
    infectPeers rng nodes fanout infected (infectPeers rng nodes fanout infected acc u) v
      = infectPeers rng nodes fanout infected (infectPeers rng nodes fanout infected acc v) u := by
  simp only [infectPeers_eq, selectRandomPeers_of_le hu]
  rw [Finset.union_right_comm]

theorem DrawAlike.comm (h : DrawAlike nodes fanout infected) (hu : u ∈ infected)
    (hv : v ∈ infected) (acc : Finset String × σ) :
    infectPeers rng nodes fanout infected (infectPeers rng nodes fanout infected acc u) v
      = infectPeers rng nodes fanout infected (infectPeers rng nodes fanout infected acc v) u := by
  rcases le_or_gt (peersOf nodes u).length fanout with hle | hlt
  · exact infectPeers_comm_of_le hle acc
  · rcases le_or_gt (peersOf nodes v).length fanout with hle' | hlt'
    · exact (infectPeers_comm_of_le hle' acc).symm
    · have heq (acc : Finset String × σ) : infectPeers rng nodes fanout infected acc u
          = infectPeers rng nodes fanout infected acc v :=
        infectPeers_congr hlt hlt' (h u hu v hv hlt hlt') acc
      rw [heq, heq]

theorem DrawAlike.step_eq {st : Spread σ} (h : DrawAlike nodes fanout st.infected) (step : ℕ) :
    st.step rng order nodes fanout step = st.step rng order' nodes fanout step := by
  have hperm : (order.keys step st.infected).Perm (order'.keys step st.infected) := by
    rw [List.perm_ext_iff_of_nodup (order.nodup _ _) (order'.nodup _ _)]
    intro id
    rw [order.mem_keys, order'.mem_keys]
  unfold Spread.step
  rw [hperm.foldl_eq']
  intro u hu v hv acc
  exact h.comm ((order.mem_keys _ _ u).1 hu) ((order.mem_keys _ _ v).1 hv) acc

theorem spread_eq {st : Spread σ} {t : ℕ}
    (h : ∀ s < t, DrawAlike nodes fanout (spread rng order nodes fanout st s).infected) :
    ∀ s ≤ t, spread rng order nodes fanout st s = spread rng order' nodes fanout st s := by
  intro s hs
  induction s with
  | zero => rfl
  | succ s ih =>
    rw [spread, spread, ← ih (by omega)]
    exact (h s hs).step_eq (s + 1)

theorem order_irrelevant (rng : Rng σ) (order order' : RangeOrder) (sim : Option σ)
    (nodes : List Node) (initialID : String) (fanout : ℤ) (targetRatio : ℚ) (maxSteps : ℤ)
    (h : ∀ r, sim = some r →
      ∀ s < (simulatePropagation rng order sim nodes initialID fanout targetRatio
          maxSteps).2.1.steps,
        DrawAlike nodes fanout.toNat (runFrom rng order r nodes initialID fanout s).infected) :
    simulatePropagation rng order sim nodes initialID fanout targetRatio maxSteps
      = simulatePropagation rng order' sim nodes initialID fanout targetRatio maxSteps := by
  cases sim with
  | none => rfl
  | some r =>
    by_cases hacc : Accepted nodes initialID fanout targetRatio maxSteps
    · obtain ⟨t, err, hstops, hout⟩ := simulatePropagation_spec rng order r hacc
      obtain ⟨t', err', hstops', hout'⟩ := simulatePropagation_spec rng order' r hacc
      replace h := h r rfl
      rw [hout] at h
      have hrun : ∀ s ≤ t, runFrom rng order r nodes initialID fanout s
          = runFrom rng order' r nodes initialID fanout s := spread_eq h
      obtain ⟨rfl, rfl⟩ := hstops.unique hstops' fun u hu => by rw [hrun u hu]
      rw [hout, hout', resultAt, resultAt, hrun t' le_rfl]
    · obtain ⟨e, -, he⟩ := simulatePropagation_rejected rng r hacc
      rw [he, he]

/-- Only the node in the middle has more than one peer. -/
def star : List Node := [⟨"a", ["b", "c"]⟩, ⟨"b", ["a"]⟩, ⟨"c", ["a"]⟩]

theorem drawAlike_star (infected : Finset String) : DrawAlike star 1 infected := by
  have hall : ∀ node ∈ star, 1 < node.peers.length → node.peers = ["b", "c"] := by decide
  have hpeers (id : String) (h : 1 < (peersOf star id).length) : peersOf star id = ["b", "c"] := by
    rw [peersOf, lookup_peersByID] at h ⊢
    cases hlast : lastEntry star id with
    | none =>
      rw [hlast] at h
      exact absurd h (by decide)
    | some node =>
      rw [hlast] at h
      exact hall node (lastEntry_spec hlast).1 h
  intro u _ v _ hu hv
  rw [hpeers u hu, hpeers v hv]

theorem order_irrelevant_star :
    (∀ infected, DrawAlike star 1 infected)
    ∧ simulatePropagation (.reversedAt 2) (.listed ["a", "b"]) (newSimulator (.reversedAt 2) 0) star
        "a" 1 1 2
      = simulatePropagation (.reversedAt 2) (.listed ["b", "a"]) (newSimulator (.reversedAt 2) 0)
        star "a" 1 1 2 :=
  ⟨drawAlike_star, order_irrelevant _ _ _ _ _ _ _ _ _ fun _ _ _ _ => drawAlike_star _⟩

theorem order_changes_result :
    simulatePropagation (.reversedAt 2) (.listed ["a", "b"]) (newSimulator (.reversedAt 2) 0)
        triangle "a" 1 1 2
      = (some 3, ⟨2, 2, 2 / 3, 3⟩, some .targetNotReached)
    ∧ simulatePropagation (.reversedAt 2) (.listed ["b", "a"]) (newSimulator (.reversedAt 2) 0)
        triangle "a" 1 1 2
      = (some 3, ⟨2, 3, 1, 3⟩, none) := by
  constructor <;> decide +kernel

end EdgeSim.Gossip
