import EdgeSim.Gossip.Simulator
import EdgeSim.Lib.Rounds
import Mathlib.Order.Bounds.Basic

/-!
# The spread as a search

A step is a round of at most `fanout` peers each, so the infected stay in the ball around the first
node, and fill it if nobody has more peers than that. The result is that of the first step that
reaches the target, or of the last one.
-/

namespace EdgeSim.Gossip

open Hops

/-! ## The peers -/

section Peers

variable {nodes : List Node} {node : Node} {id p : String}

/-- The entry that counts for an ID, the last one with it. -/
def lastEntry (nodes : List Node) (id : String) : Option Node :=
  nodes.reverse.find? (·.id = id)

/-- The peer graph. -/
def Linked (nodes : List Node) (id p : String) : Prop :=
  ∃ node, lastEntry nodes id = some node ∧ p ∈ node.peers

/-- The IDs of the given nodes. -/
def ids (nodes : List Node) : Finset String := (nodes.map Node.id).toFinset

theorem lookup_peersByID : (peersByID nodes).lookup id = (lastEntry nodes id).map Node.peers := by
  induction nodes using List.reverseRecOn with
  | nil => rfl
  | append_singleton nodes node ih =>
    have hfold : peersByID (nodes ++ [node]) = (peersByID nodes).insert node.id node.peers := by
      simp only [peersByID, List.foldl_append, List.foldl_cons, List.foldl_nil]
    rw [hfold, lastEntry, List.reverse_append]
    by_cases h : id = node.id
    · subst h
      rw [Finmap.lookup_insert]
      simp
    · rw [Finmap.lookup_insert_of_ne _ h, ih]
      simp [lastEntry, Ne.symm h]

theorem lastEntry_spec (h : lastEntry nodes id = some node) : node ∈ nodes ∧ node.id = id := by
  refine ⟨List.mem_reverse.1 (List.mem_of_find?_eq_some h), ?_⟩
  simpa using List.find?_some h

theorem mem_ids : id ∈ ids nodes ↔ ∃ node ∈ nodes, node.id = id := by simp [ids]

theorem mem_peersByID : id ∈ peersByID nodes ↔ id ∈ ids nodes := by
  rw [← Finmap.lookup_isSome, lookup_peersByID, Option.isSome_map, lastEntry, List.find?_isSome,
    mem_ids]
  simp

theorem mem_peersOf : p ∈ peersOf nodes id ↔ Linked nodes id p := by
  rw [peersOf, lookup_peersByID, Linked]
  cases lastEntry nodes id <;> simp

theorem length_peersOf_le {n : ℕ} (h : ∀ node ∈ nodes, node.peers.length ≤ n) (id : String) :
    (peersOf nodes id).length ≤ n := by
  rw [peersOf, lookup_peersByID]
  cases hl : lastEntry nodes id with
  | none => exact Nat.zero_le n
  | some node => exact h node (lastEntry_spec hl).1

end Peers

/-! ## One step -/

section Step

variable {σ : Type} {rng : Rng σ} {order : RangeOrder} {nodes : List Node} {fanout step : ℕ}
  {peers keys : List String} {infected : Finset String} {acc : Finset String × σ} {r : σ}
  {nodeID p : String}

theorem selectRandomPeers_of_le (h : peers.length ≤ fanout) :
    selectRandomPeers rng fanout peers r = (peers, r) := by
  unfold selectRandomPeers
  split_ifs with h0
  · rw [List.length_eq_zero_iff.1 h0]
  · rfl

theorem selectRandomPeers_of_lt (h : fanout < peers.length) :
    selectRandomPeers rng fanout peers r
      = (((rng.perm peers.length r).1.take fanout).filterMap (peers[·]?),
        (rng.perm peers.length r).2) := by
  unfold selectRandomPeers
  rw [if_neg (by omega), if_neg (by omega)]

theorem mem_of_mem_selectRandomPeers (h : p ∈ (selectRandomPeers rng fanout peers r).1) :
    p ∈ peers := by
  rcases le_or_gt peers.length fanout with hle | hlt
  · rwa [selectRandomPeers_of_le hle] at h
  · rw [selectRandomPeers_of_lt hlt] at h
    obtain ⟨i, -, hi⟩ := List.mem_filterMap.1 h
    exact List.mem_of_getElem? hi

/-- No drawn index is out of range. -/
theorem length_selectRandomPeers :
    (selectRandomPeers rng fanout peers r).1.length = min fanout peers.length := by
  rcases le_or_gt peers.length fanout with hle | hlt
  · rw [selectRandomPeers_of_le hle, min_eq_right hle]
  · have hperm := rng.perm_range peers.length r
    rw [selectRandomPeers_of_lt hlt, List.length_filterMap_eq_countP, List.countP_eq_length.2,
      List.length_take, hperm.length_eq, List.length_range]
    intro i hi
    have hi := List.mem_range.1 (hperm.mem_iff.1 (List.mem_of_mem_take hi))
    simp [hi]

theorem infectPeers_eq :
    infectPeers rng nodes fanout infected acc nodeID
      = (acc.1 ∪ (selectRandomPeers rng fanout (peersOf nodes nodeID) acc.2).1.toFinset \ infected,
        (selectRandomPeers rng fanout (peersOf nodes nodeID) acc.2).2) := by
  have hfold (selected : List String) (newly : Finset String) :
      selected.foldl (fun newly p => if p ∈ infected then newly else insert p newly) newly
        = newly ∪ selected.toFinset \ infected := by
    induction selected generalizing newly with
    | nil => simp
    | cons p selected ih =>
      rw [List.foldl_cons, ih, List.toFinset_cons]
      split_ifs with hp
      · rw [Finset.insert_sdiff_of_mem _ hp]
      · rw [Finset.insert_sdiff_of_notMem _ hp, Finset.union_insert, Finset.insert_union]
  simp only [infectPeers, hfold]

theorem subset_foldl_infectPeers :
    acc.1 ⊆ (keys.foldl (infectPeers rng nodes fanout infected) acc).1 := by
  induction keys generalizing acc with
  | nil => exact Finset.Subset.refl _
  | cons id keys ih =>
    rw [List.foldl_cons]
    refine Finset.Subset.trans ?_ ih
    rw [infectPeers_eq]
    exact Finset.subset_union_left

theorem told_of_mem_foldl_infectPeers
    (h : p ∈ (keys.foldl (infectPeers rng nodes fanout infected) acc).1) :
    p ∈ acc.1 ∨ ∃ id ∈ keys, Linked nodes id p := by
  induction keys generalizing acc with
  | nil => exact .inl h
  | cons id keys ih =>
    rcases ih h with h | ⟨id', hid', hp⟩
    · rw [infectPeers_eq, Finset.mem_union, Finset.mem_sdiff, List.mem_toFinset] at h
      rcases h with h | ⟨h, -⟩
      · exact .inl h
      · exact .inr ⟨id, List.mem_cons_self, mem_peersOf.1 (mem_of_mem_selectRandomPeers h)⟩
    · exact .inr ⟨id', List.mem_cons_of_mem _ hid', hp⟩

theorem card_foldl_infectPeers_le :
    (keys.foldl (infectPeers rng nodes fanout infected) acc).1.card
      ≤ acc.1.card + fanout * keys.length := by
  induction keys generalizing acc with
  | nil => exact le_rfl
  | cons id keys ih =>
    have hone : (infectPeers rng nodes fanout infected acc id).1.card ≤ acc.1.card + fanout := by
      rw [infectPeers_eq]
      refine (Finset.card_union_le _ _).trans (Nat.add_le_add_left ?_ _)
      refine (Finset.card_le_card Finset.sdiff_subset).trans ((List.toFinset_card_le _).trans ?_)
      rw [length_selectRandomPeers]
      exact Nat.min_le_left _ _
    rw [List.foldl_cons, List.length_cons, Nat.mul_succ]
    refine ih.trans ?_
    omega

/-- Nobody with at most `fanout` peers leaves one out. -/
theorem mem_foldl_infectPeers (hid : nodeID ∈ keys) (hp : p ∈ peersOf nodes nodeID)
    (hle : (peersOf nodes nodeID).length ≤ fanout) (hnew : p ∉ infected) :
    p ∈ (keys.foldl (infectPeers rng nodes fanout infected) acc).1 := by
  obtain ⟨before, after, rfl⟩ := List.append_of_mem hid
  rw [List.foldl_append, List.foldl_cons]
  apply subset_foldl_infectPeers
  rw [infectPeers_eq, selectRandomPeers_of_le hle]
  refine Finset.mem_union_right _ (Finset.mem_sdiff.2 ⟨List.mem_toFinset.2 hp, hnew⟩)

theorem RangeOrder.length_keys : (order.keys step infected).length = infected.card := by
  rw [← List.toFinset_card_of_nodup (order.nodup step infected)]
  congr 1
  ext id
  rw [List.mem_toFinset, order.mem_keys]

variable {st : Spread σ}

theorem round_step :
    Round (Linked nodes) fanout st.infected (st.step rng order nodes fanout step).infected where
  subset := Finset.subset_union_left
  told := by
    intro p hp
    rcases Finset.mem_union.1 hp with hp | hp
    · exact .inl hp
    · rcases told_of_mem_foldl_infectPeers hp with hp | ⟨id, hid, hlink⟩
      · exact absurd hp (Finset.notMem_empty p)
      · exact .inr ⟨id, (order.mem_keys step _ id).1 hid, hlink⟩
  card_le := by
    refine (Finset.card_union_le _ _).trans ?_
    rw [Nat.add_mul, Nat.one_mul]
    refine Nat.add_le_add_left (card_foldl_infectPeers_le.trans ?_) _
    rw [order.length_keys, Finset.card_empty, Nat.zero_add]

theorem step_tells_all (hall : ∀ id, (peersOf nodes id).length ≤ fanout)
    (hid : nodeID ∈ st.infected) (hlink : Linked nodes nodeID p) :
    p ∈ (st.step rng order nodes fanout step).infected := by
  by_cases hp : p ∈ st.infected
  · exact Finset.mem_union_left _ hp
  · exact Finset.mem_union_right _
      (mem_foldl_infectPeers ((order.mem_keys step _ nodeID).2 hid) (mem_peersOf.2 hlink)
        (hall nodeID) hp)

end Step

/-! ## The steps -/

section Steps

variable {σ : Type} (rng : Rng σ) (order : RangeOrder) (nodes : List Node) (fanout : ℕ)

/-- The state after a number of steps. -/
def spread (st : Spread σ) : ℕ → Spread σ
  | 0 => st
  | s + 1 => (spread st s).step rng order nodes fanout (s + 1)

/-- The share of the nodes that an infected set counts as. -/
def ratio (infected : Finset String) : ℚ := infected.card / nodes.length

/-- What is returned after a number of steps. -/
def resultAt (run : ℕ → Spread σ) (t : ℕ) : Result :=
  ⟨t, (run t).infected.card, ratio nodes (run t).infected, nodes.length⟩

/-- A run is over after `t` steps, at the first one that reaches the target or at the last. -/
structure Stops (run : ℕ → Spread σ) (targetRatio : ℚ) (maxSteps t : ℕ) (err : Option SimError) :
    Prop where
  pos : 1 ≤ t
  le : t ≤ maxSteps
  before : ∀ u, 1 ≤ u → u < t → ratio nodes (run u).infected < targetRatio
  last : err = none ∧ targetRatio ≤ ratio nodes (run t).infected
    ∨ err = some .targetNotReached ∧ t = maxSteps ∧ ratio nodes (run t).infected < targetRatio

variable {rng order nodes fanout} {run : ℕ → Spread σ} {targetRatio : ℚ}
  {s t remaining maxSteps : ℕ} {err : Option SimError}

theorem simulateFrom_spec (hrun : ∀ s, run (s + 1) = (run s).step rng order nodes fanout (s + 1))
    (hmax : maxSteps = s + remaining) (hpos : 0 < remaining ∨ 0 < s)
    (hbefore : ∀ u, 1 ≤ u → u ≤ s → ratio nodes (run u).infected < targetRatio) :
    ∃ t err, Stops nodes run targetRatio maxSteps t err
      ∧ simulateFrom rng order nodes fanout targetRatio maxSteps remaining (s + 1) (run s)
        = ((run t).rng, resultAt nodes run t, err) := by
  induction remaining generalizing s with
  | zero =>
    obtain rfl : maxSteps = s := hmax
    have hs : 1 ≤ maxSteps := by omega
    exact ⟨maxSteps, some .targetNotReached, ⟨hs, le_rfl, fun u h1 hu => hbefore u h1 hu.le,
      .inr ⟨rfl, rfl, hbefore maxSteps hs le_rfl⟩⟩, rfl⟩
  | succ remaining ih =>
    have hunfold : simulateFrom rng order nodes fanout targetRatio maxSteps (remaining + 1) (s + 1)
        (run s) = if ratio nodes (run (s + 1)).infected ≥ targetRatio then
          ((run (s + 1)).rng, resultAt nodes run (s + 1), none)
        else simulateFrom rng order nodes fanout targetRatio maxSteps remaining (s + 1 + 1)
          (run (s + 1)) := by
      rw [simulateFrom, ← hrun s]
      rfl
    rw [hunfold]
    split_ifs with h
    · exact ⟨s + 1, none, ⟨by omega, by omega, fun u h1 hu => hbefore u h1 (by omega),
        .inl ⟨rfl, h⟩⟩, rfl⟩
    · refine ih (by omega) (.inr (by omega)) ?_
      intro u h1 hu
      rcases Nat.lt_or_ge s u with hlt | hle
      · obtain rfl : u = s + 1 := by omega
        exact not_le.1 h
      · exact hbefore u h1 hle

theorem Stops.isLeast (h : Stops nodes run targetRatio maxSteps t none) :
    IsLeast {s | 1 ≤ s ∧ targetRatio ≤ ratio nodes (run s).infected} t := by
  rcases h.last with ⟨-, hreach⟩ | ⟨hnone, -⟩
  · refine ⟨⟨h.pos, hreach⟩, ?_⟩
    rintro u ⟨h1, hu⟩
    by_contra hlt
    exact absurd hu (not_le.2 (h.before u h1 (not_le.1 hlt)))
  · cases hnone

theorem Stops.not_reached_iff (h : Stops nodes run targetRatio maxSteps t err) :
    err = some .targetNotReached
      ↔ ∀ s, 1 ≤ s → s ≤ maxSteps → ratio nodes (run s).infected < targetRatio := by
  rcases h.last with ⟨rfl, hreach⟩ | ⟨rfl, rfl, hlast⟩
  · simp only [reduceCtorEq, false_iff]
    intro hall
    exact absurd hreach (not_le.2 (hall t h.pos h.le))
  · simp only [true_iff]
    intro u h1 hu
    rcases Nat.lt_or_ge u t with hlt | hge
    · exact h.before u h1 hlt
    · obtain rfl : u = t := by omega
      exact hlast

section Agree

variable {σ' : Type} {run' : ℕ → Spread σ'} {t' : ℕ} {err' : Option SimError}
  (h : Stops nodes run targetRatio maxSteps t err)
  (h' : Stops nodes run' targetRatio maxSteps t' err')

include h h'

/-- A run goes on as long as another with the same infected sets does. -/
theorem Stops.lt_of_agree (hagree : ∀ u ≤ s, (run' u).infected = (run u).infected) (hs : s < t) :
    s < t' := by
  by_contra hle
  have hbefore := h.before t' h'.pos (by omega)
  rw [← hagree t' (not_lt.1 hle)] at hbefore
  rcases h'.last with ⟨-, hreach⟩ | ⟨-, hlast, -⟩
  · exact absurd hreach (not_le.2 hbefore)
  · have := h.le
    omega

theorem Stops.unique (hagree : ∀ u ≤ t, (run' u).infected = (run u).infected) :
    t' = t ∧ err' = err := by
  have hpos := h.pos
  have hlt : t - 1 < t' := h.lt_of_agree h' (fun u hu => hagree u (by omega)) (by omega)
  have hle : ¬ t < t' := fun hlt =>
    lt_irrefl t (h'.lt_of_agree h (fun u hu => (hagree u hu).symm) hlt)
  obtain rfl : t' = t := by omega
  refine ⟨rfl, ?_⟩
  have hlast := h'.last
  rw [hagree t' le_rfl] at hlast
  rcases hlast with ⟨rfl, hreach⟩ | ⟨rfl, -, hmissed⟩ <;>
    rcases h.last with ⟨rfl, hreach'⟩ | ⟨rfl, -, hmissed'⟩
  · rfl
  · exact absurd hreach (not_le.2 hmissed')
  · exact absurd hreach' (not_le.2 hmissed)
  · rfl

end Agree

end Steps

/-! ## The simulation -/

/-- The inputs that `SimulatePropagation` accepts. -/
structure Accepted (nodes : List Node) (initialID : String) (fanout : ℤ) (targetRatio : ℚ)
    (maxSteps : ℤ) : Prop where
  fanout : 0 < fanout
  targetRatio_pos : 0 < targetRatio
  targetRatio_le : targetRatio ≤ 1
  maxSteps : 0 < maxSteps
  initial : initialID ∈ ids nodes

section Simulation

variable {σ : Type} (rng : Rng σ) (order : RangeOrder) (r : σ) {nodes : List Node}
  {initialID : String} {fanout maxSteps : ℤ} {targetRatio : ℚ}

/-- The states of a run from a node. -/
abbrev runFrom (nodes : List Node) (initialID : String) (fanout : ℤ) : ℕ → Spread σ :=
  spread rng order nodes fanout.toNat ⟨{initialID}, r⟩

theorem simulatePropagation_spec (h : Accepted nodes initialID fanout targetRatio maxSteps) :
    ∃ t err, Stops nodes (runFrom rng order r nodes initialID fanout) targetRatio maxSteps.toNat
        t err
      ∧ simulatePropagation rng order (some r) nodes initialID fanout targetRatio maxSteps
        = (some (runFrom rng order r nodes initialID fanout t).rng,
          resultAt nodes (runFrom rng order r nodes initialID fanout) t, err) := by
  obtain ⟨node, hnode, -⟩ := mem_ids.1 h.initial
  have hnodes : nodes.length ≠ 0 := List.length_pos_of_mem hnode |>.ne'
  have hratio : ¬ (targetRatio ≤ 0 ∨ targetRatio > 1) :=
    not_or.2 ⟨not_le.2 h.targetRatio_pos, not_lt.2 h.targetRatio_le⟩
  have hinitial : ¬ initialID ∉ peersByID nodes := not_not.2 (mem_peersByID.2 h.initial)
  have hmax := h.maxSteps
  have hloop : ∃ t err, Stops nodes (runFrom rng order r nodes initialID fanout) targetRatio
        maxSteps.toNat t err
      ∧ simulateFrom rng order nodes fanout.toNat targetRatio maxSteps.toNat maxSteps.toNat (0 + 1)
        (runFrom rng order r nodes initialID fanout 0)
        = ((runFrom rng order r nodes initialID fanout t).rng,
          resultAt nodes (runFrom rng order r nodes initialID fanout) t, err) :=
    simulateFrom_spec (fun _ => rfl) (Nat.zero_add _).symm (.inl (by omega)) (by omega)
  obtain ⟨t, err, hstops, hsim⟩ := hloop
  refine ⟨t, err, hstops, ?_⟩
  simp only [simulatePropagation, if_neg hnodes, if_neg (not_le.2 h.fanout), if_neg hratio,
    if_neg (not_le.2 hmax), if_neg hinitial]
  rw [show simulateFrom rng order nodes fanout.toNat targetRatio maxSteps.toNat maxSteps.toNat 1
    ⟨{initialID}, r⟩ = _ from hsim]

theorem simulatePropagation_rejected (h : ¬ Accepted nodes initialID fanout targetRatio maxSteps) :
    ∃ e, e ≠ .targetNotReached
      ∧ ∀ order, simulatePropagation rng order (some r) nodes initialID fanout targetRatio maxSteps
        = (some r, ⟨0, 0, 0, 0⟩, some e) := by
  unfold simulatePropagation
  dsimp only
  split_ifs with h1 h2 h3 h4 h5
  · exact ⟨_, by decide, fun _ => rfl⟩
  · exact ⟨_, by decide, fun _ => rfl⟩
  · exact ⟨_, by decide, fun _ => rfl⟩
  · exact ⟨_, by decide, fun _ => rfl⟩
  · obtain ⟨hpos, hle⟩ := not_or.1 h3
    exact absurd ⟨not_le.1 h2, not_le.1 hpos, not_lt.1 hle, not_le.1 h4, mem_peersByID.1 h5⟩ h
  · exact ⟨_, by decide, fun _ => rfl⟩

theorem bounded_search (h : Accepted nodes initialID fanout targetRatio maxSteps) :
    let infected s := (runFrom rng order r nodes initialID fanout s).infected
    let out := simulatePropagation rng order (some r) nodes initialID fanout targetRatio maxSteps
    (∀ s, infected s ⊆ infected (s + 1)
      ∧ ↑(infected s) ⊆ ball (Linked nodes) initialID s
      ∧ ((infected s).card : ℤ) ≤ (1 + fanout) ^ s
      ∧ ((∀ node ∈ nodes, (node.peers.length : ℤ) ≤ fanout) →
        ↑(infected s) = ball (Linked nodes) initialID s))
    ∧ out.2.1 = ⟨out.2.1.steps, (infected out.2.1.steps).card,
        (infected out.2.1.steps).card / nodes.length, nodes.length⟩
    ∧ (out.2.2 = none →
      IsLeast {s | 1 ≤ s ∧ ((infected s).card : ℚ) / nodes.length ≥ targetRatio} out.2.1.steps)
    ∧ (out.2.2 = some .targetNotReached
      ↔ ∀ s : ℕ, 1 ≤ s → s ≤ maxSteps →
        ¬ ((infected s).card : ℚ) / nodes.length ≥ targetRatio) := by
  intro infected out
  obtain ⟨k, rfl⟩ := Int.eq_ofNat_of_zero_le h.fanout.le
  obtain ⟨m, rfl⟩ := Int.eq_ofNat_of_zero_le h.maxSteps.le
  have h0 : infected 0 = {initialID} := rfl
  have hround (s : ℕ) : Round (Linked nodes) k (infected s) (infected (s + 1)) := round_step
  obtain ⟨t, err, hstops, hout⟩ := simulatePropagation_spec rng order r h
  have hsteps : out.2.1.steps = t := congrArg (·.2.1.steps) hout
  have herr : out.2.2 = err := congrArg (·.2.2) hout
  refine ⟨fun s => ⟨(hround s).subset, subset_ball h0 hround s, ?_, ?_⟩, ?_, ?_, ?_⟩
  · exact_mod_cast card_le_pow h0 hround s
  · intro hall
    have hall (id : String) : (peersOf nodes id).length ≤ k :=
      length_peersOf_le (fun node hnode => Int.ofNat_le.1 (hall node hnode)) id
    exact eq_ball h0 hround (fun s i hi j hij => step_tells_all hall hi hij) s
  · rw [hsteps]
    exact congrArg (·.2.1) hout
  · rw [herr, hsteps]
    rintro rfl
    exact hstops.isLeast
  · rw [herr, hstops.not_reached_iff]
    exact forall_congr' fun s => imp_congr_right fun _ =>
      imp_congr Int.ofNat_le.symm not_le.symm

end Simulation

def triangle : List Node := [⟨"a", ["b", "c"]⟩, ⟨"b", ["c", "a"]⟩, ⟨"c", ["a", "b"]⟩]

theorem bounded_search_triangle :
    Accepted triangle "a" 2 1 2
    ∧ ∀ s, ↑(runFrom (.reversedAt 0) (.listed []) 0 triangle "a" 2 s).infected
      = ball (Linked triangle) "a" s := by
  have h : Accepted triangle "a" 2 1 2 :=
    ⟨by decide, by decide, by decide, by decide, by decide⟩
  exact ⟨h, fun s => ((bounded_search (.reversedAt 0) (.listed []) 0 h).1 s).2.2.2 (by decide)⟩

end EdgeSim.Gossip
