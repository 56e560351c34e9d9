import EdgeSim.Gossip.Spread
import Mathlib.Data.Finset.Dedup
import Mathlib.Algebra.Order.Field.Basic
import Mathlib.Algebra.Order.Ring.Rat

/-!
# What the reach counts

`len(infected)` is the number of given nodes reached only if every infected ID is one of theirs.
Peers are never looked up in the node list, so that is for the peer lists to ensure: of every node
that is infected before a step. If one of them lists a peer that is not given, some random numbers
infect it.
-/

namespace EdgeSim.Gossip

variable {σ : Type}

section

variable (rng : Rng σ) (order : RangeOrder) (r : σ) (nodes : List Node) (initialID : String)
  (fanout : ℤ) (targetRatio : ℚ) (maxSteps : ℤ)

/-- A run counts given nodes only, and enough of them if it succeeds. -/
def CountsNodes : Prop :=
  let infected s := (runFrom rng order r nodes initialID fanout s).infected
  let out := simulatePropagation rng order (some r) nodes initialID fanout targetRatio maxSteps
  (∀ s ≤ out.2.1.steps, infected s ⊆ ids nodes)
  ∧ 1 ≤ out.2.1.reachedCount ∧ out.2.1.reachedCount ≤ out.2.1.total
  ∧ (out.2.2 = none →
    targetRatio * nodes.length ≤ nodes.countP (·.id ∈ infected out.2.1.steps))

/-- Before each step of a run, what the infected nodes list is given. -/
def PeersGiven : Prop :=
  ∀ s < (simulatePropagation rng order (some r) nodes initialID fanout targetRatio
      maxSteps).2.1.steps,
    ∀ id ∈ (runFrom rng order r nodes initialID fanout s).infected,
      ∀ p, Linked nodes id p → p ∈ ids nodes

end

section Given

variable {rng : Rng σ} {order : RangeOrder} {r : σ} {nodes : List Node} {initialID : String}
  {fanout maxSteps : ℤ} {targetRatio : ℚ} {infected : Finset String} {s : ℕ}

theorem card_ids_le : (ids nodes).card ≤ nodes.length := by
  refine (List.toFinset_card_le _).trans ?_
  rw [List.length_map]

/-- Given nodes that are infected are at least as many as their IDs. -/
theorem card_le_countP (h : infected ⊆ ids nodes) :
    infected.card ≤ nodes.countP (·.id ∈ infected) := by
  have hsub : infected ⊆ ((nodes.filter (·.id ∈ infected)).map Node.id).toFinset := by
    intro id hid
    obtain ⟨node, hnode, rfl⟩ := mem_ids.1 (h hid)
    exact List.mem_toFinset.2
      (List.mem_map_of_mem (List.mem_filter.2 ⟨hnode, decide_eq_true hid⟩))
  refine (Finset.card_le_card hsub).trans ((List.toFinset_card_le _).trans ?_)
  rw [List.length_map, List.countP_eq_length_filter]

theorem initialID_mem : initialID ∈ (runFrom rng order r nodes initialID fanout s).infected := by
  induction s with
  | zero => exact Finset.mem_singleton_self _
  | succ s ih => exact round_step.subset ih

theorem countsNodes_of_peersGiven (h : Accepted nodes initialID fanout targetRatio maxSteps)
    (hgiven : PeersGiven rng order r nodes initialID fanout targetRatio maxSteps) :
    CountsNodes rng order r nodes initialID fanout targetRatio maxSteps := by
  obtain ⟨t, err, hstops, hout⟩ := simulatePropagation_spec rng order r h
  unfold PeersGiven at hgiven
  unfold CountsNodes
  rw [hout] at hgiven ⊢
  dsimp only [resultAt] at hgiven ⊢
  have hsub (s : ℕ) (hs : s ≤ t) :
      (runFrom rng order r nodes initialID fanout s).infected ⊆ ids nodes := by
    induction s with
    | zero => exact Finset.singleton_subset_iff.2 h.initial
    | succ s ih =>
      intro p hp
      rcases round_step.told p hp with hp | ⟨id, hid, hlink⟩
      · exact ih (by omega) hp
      · exact hgiven s hs id hid p hlink
  refine ⟨hsub, Finset.card_pos.2 ⟨_, initialID_mem⟩,
    (Finset.card_le_card (hsub t le_rfl)).trans card_ids_le, ?_⟩
  rintro rfl
  have hpos : (0 : ℚ) < nodes.length := by
    obtain ⟨node, hnode, -⟩ := mem_ids.1 h.initial
    exact_mod_cast List.length_pos_of_mem hnode
  have hreach := (le_div_iff₀ hpos).1 hstops.isLeast.1.2
  exact hreach.trans (by exact_mod_cast card_le_countP (hsub t le_rfl))

end Given

/-! ## Random numbers that find a peer -/

/-- A number of draws as `rng` has them, and from then on draws that start with `i`. -/
def Rng.rigged (rng : Rng σ) (i : ℕ) : Rng (ℕ × σ) where
  newSource seed := (0, rng.newSource seed)
  perm n
    | (0, r) => (if i < n then i :: (List.range n).erase i else List.range n, (0, r))
    | (k + 1, r) => ((rng.perm n r).1, (k, (rng.perm n r).2))
  perm_range n
    | (0, r) => by
      dsimp only
      split_ifs with h
      · exact (List.perm_cons_erase (List.mem_range.2 h)).symm
      · exact .refl _
    | (_ + 1, r) => rng.perm_range n r

section Rigged

variable {rng : Rng σ} {order : RangeOrder} {nodes : List Node} {fanout : ℕ} {peers : List String}
  {infected : Finset String} {p : String}

theorem exists_mem_rigged (hfanout : 0 < fanout) (hp : p ∈ peers) :
    ∃ i, ∀ r, p ∈ (selectRandomPeers (rng.rigged i) fanout peers (0, r)).1 := by
  obtain ⟨i, hi, rfl⟩ := List.getElem_of_mem hp
  refine ⟨i, fun r => ?_⟩
  rcases le_or_gt peers.length fanout with hle | hlt
  · rw [selectRandomPeers_of_le hle]
    exact List.getElem_mem hi
  · rw [selectRandomPeers_of_lt hlt]
    refine List.mem_filterMap.2 ⟨i, ?_, List.getElem?_eq_getElem hi⟩
    obtain ⟨k, rfl⟩ : ∃ k, fanout = k + 1 := ⟨fanout - 1, by omega⟩
    simp only [Rng.rigged, if_pos hi, List.take_succ_cons]
    exact List.mem_cons_self

variable (rng order nodes fanout infected) (i : ℕ)

theorem selectRandomPeers_rigged (peers : List String) (r : σ) :
    ∃ d, ∀ k, selectRandomPeers (rng.rigged i) fanout peers (d + k, r)
      = ((selectRandomPeers rng fanout peers r).1, k,
        (selectRandomPeers rng fanout peers r).2) := by
  rcases le_or_gt peers.length fanout with hle | hlt
  · refine ⟨0, fun k => ?_⟩
    rw [selectRandomPeers_of_le hle, selectRandomPeers_of_le hle, Nat.zero_add]
  · refine ⟨1, fun k => ?_⟩
    rw [selectRandomPeers_of_lt hlt, selectRandomPeers_of_lt hlt, Nat.add_comm]
    rfl

theorem foldl_rigged (keys : List String) (newly : Finset String) (r : σ) :
    ∃ d, ∀ k, keys.foldl (infectPeers (rng.rigged i) nodes fanout infected) (newly, (d + k, r))
      = ((keys.foldl (infectPeers rng nodes fanout infected) (newly, r)).1, k,
        (keys.foldl (infectPeers rng nodes fanout infected) (newly, r)).2) := by
  induction keys generalizing newly r with
  | nil => exact ⟨0, fun k => by rw [Nat.zero_add]; rfl⟩
  | cons id keys ih =>
    obtain ⟨d, hd⟩ := selectRandomPeers_rigged rng fanout i (peersOf nodes id) r
    obtain ⟨d', hd'⟩ := ih (infectPeers rng nodes fanout infected (newly, r) id).1
      (infectPeers rng nodes fanout infected (newly, r) id).2
    refine ⟨d + d', fun k => ?_⟩
    rw [List.foldl_cons, List.foldl_cons, ← hd' k, infectPeers_eq, infectPeers_eq, Nat.add_assoc,
      hd (d' + k)]

theorem spread_rigged (st : Spread σ) (s : ℕ) :
    ∃ d, ∀ k, (∀ u ≤ s, (spread (rng.rigged i) order nodes fanout ⟨st.infected, d + k, st.rng⟩
          u).infected = (spread rng order nodes fanout st u).infected)
      ∧ (spread (rng.rigged i) order nodes fanout ⟨st.infected, d + k, st.rng⟩ s).rng
        = (k, (spread rng order nodes fanout st s).rng) := by
  induction s with
  | zero =>
    refine ⟨0, fun k => ⟨?_, by rw [Nat.zero_add]; rfl⟩⟩
    intro u hu
    rw [Nat.le_zero.1 hu]
    rfl
  | succ s ih =>
    obtain ⟨d, hd⟩ := ih
    obtain ⟨d', hd'⟩ := foldl_rigged rng nodes fanout
      (spread rng order nodes fanout st s).infected i
      (order.keys (s + 1) (spread rng order nodes fanout st s).infected) ∅
      (spread rng order nodes fanout st s).rng
    refine ⟨d + d', fun k => ?_⟩
    rw [Nat.add_assoc]
    obtain ⟨hinf, hrng⟩ := hd (d' + k)
    have hstep : spread (rng.rigged i) order nodes fanout ⟨st.infected, d + (d' + k), st.rng⟩
        (s + 1) = ⟨(spread rng order nodes fanout st (s + 1)).infected, k,
          (spread rng order nodes fanout st (s + 1)).rng⟩ := by
      rw [spread, Spread.step, hinf s le_rfl, hrng, hd' k]
      rfl
    refine ⟨?_, by rw [hstep]⟩
    intro u hu
    rcases Nat.lt_or_ge s u with hlt | hle
    · obtain rfl : u = s + 1 := by omega
      rw [hstep]
    · exact hinf u hle

end Rigged

/-! ## The reach -/

section Reach

variable {order : RangeOrder} {nodes : List Node} {initialID : String} {fanout maxSteps : ℤ}
  {targetRatio : ℚ}

/-- Random numbers that agree up to a step and infect a peer of a node in it. -/
theorem exists_infects {rng : Rng σ} {r : σ} (hfanout : 0 < fanout) {s : ℕ} {id p : String}
    (hid : id ∈ (runFrom rng order r nodes initialID fanout s).infected)
    (hlink : Linked nodes id p) :
    ∃ i k, (∀ u ≤ s, (runFrom (rng.rigged i) order (k, r) nodes initialID fanout u).infected
        = (runFrom rng order r nodes initialID fanout u).infected)
      ∧ p ∈ (runFrom (rng.rigged i) order (k, r) nodes initialID fanout (s + 1)).infected := by
  set st := runFrom rng order r nodes initialID fanout s
  have hpick : ∃ i, ∀ r, p ∈ (selectRandomPeers (rng.rigged i) fanout.toNat (peersOf nodes id)
      (0, r)).1 := exists_mem_rigged (by omega) (mem_peersOf.2 hlink)
  obtain ⟨i, hi⟩ := hpick
  obtain ⟨before, after, hkeys⟩ :=
    List.append_of_mem ((order.mem_keys (s + 1) st.infected id).2 hid)
  obtain ⟨d, hd⟩ := spread_rigged rng order nodes fanout.toNat i ⟨{initialID}, r⟩ s
  obtain ⟨d', hd'⟩ := foldl_rigged rng nodes fanout.toNat st.infected i before ∅ st.rng
  obtain ⟨hinf, hrng⟩ := hd (d' + 0)
  refine ⟨i, d + (d' + 0), hinf, ?_⟩
  by_cases hp : p ∈ st.infected
  · refine round_step.subset ?_
    rw [hinf s le_rfl]
    exact hp
  · rw [runFrom, spread, Spread.step, hinf s le_rfl, hrng, hkeys, List.foldl_append, hd' 0,
      List.foldl_cons]
    refine Finset.mem_union_right _ (subset_foldl_infectPeers ?_)
    rw [infectPeers_eq]
    exact Finset.mem_union_right _ (Finset.mem_sdiff.2 ⟨List.mem_toFinset.2 (hi _), hp⟩)

theorem peersGiven_of_countsNodes (h : Accepted nodes initialID fanout targetRatio maxSteps)
    (hcounts : ∀ (σ : Type) (rng : Rng σ) (r : σ),
      CountsNodes rng order r nodes initialID fanout targetRatio maxSteps)
    (rng : Rng σ) (r : σ) :
    PeersGiven rng order r nodes initialID fanout targetRatio maxSteps := by
  intro s hs id hid p hlink
  obtain ⟨t, err, hstops, hout⟩ := simulatePropagation_spec rng order r h
  obtain ⟨i, k, hsame, hp⟩ := exists_infects h.fanout hid hlink
  obtain ⟨t', err', hstops', hout'⟩ := simulatePropagation_spec (rng.rigged i) order (k, r) h
  rw [hout] at hs
  have hs' : s < t' := hstops.lt_of_agree hstops' hsame hs
  refine (hcounts _ (rng.rigged i) (k, r)).1 (s + 1) ?_ hp
  rw [hout']
  exact hs'

theorem reach_counts_nodes (order : RangeOrder)
    (h : Accepted nodes initialID fanout targetRatio maxSteps) :
    (∀ (σ : Type) (rng : Rng σ) (r : σ),
      PeersGiven rng order r nodes initialID fanout targetRatio maxSteps →
        CountsNodes rng order r nodes initialID fanout targetRatio maxSteps)
    ∧ ((∀ (σ : Type) (rng : Rng σ) (r : σ),
        CountsNodes rng order r nodes initialID fanout targetRatio maxSteps)
      ↔ ∀ (σ : Type) (rng : Rng σ) (r : σ),
        PeersGiven rng order r nodes initialID fanout targetRatio maxSteps) := by
  refine ⟨fun σ rng r => countsNodes_of_peersGiven h, ?_, ?_⟩
  · intro hcounts σ rng r
    exact peersGiven_of_countsNodes h hcounts rng r
  · intro hgiven σ rng r
    exact countsNodes_of_peersGiven h (hgiven σ rng r)

end Reach

theorem reach_counts_nodes_triangle :
    Accepted triangle "a" 1 1 2
    ∧ ∀ (σ : Type) (rng : Rng σ) (r : σ), CountsNodes rng (.listed []) r triangle "a" 1 1 2 := by
  have h : Accepted triangle "a" 1 1 2 :=
    ⟨by decide, by decide, by decide, by decide, by decide⟩
  have hgiven : ∀ node ∈ triangle, ∀ p ∈ node.peers, p ∈ ids triangle := by decide
  refine ⟨h, (reach_counts_nodes (.listed []) h).2.2 ?_⟩
  rintro σ rng r s - id - p ⟨node, hlast, hp⟩
  exact hgiven node (lastEntry_spec hlast).1 p hp

/-- Two given nodes, one of which lists two others. -/
def strangers : List Node := [⟨"a", ["x", "y"]⟩, ⟨"b", []⟩]

theorem strangers_counted :
    Accepted strangers "a" 2 1 1
    ∧ simulatePropagation (.reversedAt 0) (.listed []) (some 0) strangers "a" 2 1 1
      = (some 0, ⟨1, 3, 3 / 2, 2⟩, none)
    ∧ (runFrom (.reversedAt 0) (.listed []) 0 strangers "a" 2 1).infected = {"a", "x", "y"}
    ∧ ¬ CountsNodes (.reversedAt 0) (.listed []) 0 strangers "a" 2 1 1 := by
  have hout : simulatePropagation (.reversedAt 0) (.listed []) (some 0) strangers "a" 2 1 1
      = (some 0, ⟨1, 3, 3 / 2, 2⟩, none) := by decide +kernel
  refine ⟨⟨by decide, by decide, by decide, by decide, by decide⟩, hout, by decide +kernel, ?_⟩
  rintro ⟨-, -, hle, -⟩
  rw [hout] at hle
  exact absurd hle (by decide)

end EdgeSim.Gossip
