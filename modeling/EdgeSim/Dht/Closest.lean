import EdgeSim.Dht.Table
import EdgeSim.Lib.Nearest
import Mathlib.Data.List.Sort

/-!
# The closest peers of a table

`GetClosestPeers` sorts all peers of the table by their distance. `sort.Slice` is not stable and a
Go map is ranged over in any order; `Runtime` is one way in which these come out. Different IDs are
at different distances, so the result is the same in all of them.
-/

namespace EdgeSim.Dht

open KNearest

structure PeerDistance where
  peer : Peer
  distance : ℕ
  deriving DecidableEq

/-- What the language leaves open: how `sort.Slice` orders equal distances, and the order of the
`n`-th range over a map. -/
structure Runtime where
  sort : List PeerDistance → List PeerDistance
  sort_perm : ∀ l, (sort l).Perm l
  sort_sorted : ∀ l, (sort l).Pairwise fun x y => x.distance ≤ y.distance
  range : ℕ → List Peer → List Peer
  range_perm : ∀ n l, (range n l).Perm l

def withDistance (target : NodeID) (peer : Peer) : PeerDistance :=
  ⟨peer, xorDistance target peer.id⟩

def sortPeersByDistance (R : Runtime) (target : NodeID) (peers : List Peer) : List Peer :=
  (R.sort (peers.map (withDistance target))).map PeerDistance.peer

def RoutingTable.getClosestPeers (R : Runtime) (rt : RoutingTable) (target : NodeID) (k : ℤ) :
    List Peer :=
  if k ≤ 0 then []
  else if rt.peers.length = 0 then []
  else
    let sorted := R.sort (rt.peers.map (withDistance target))
    let limit := if k > sorted.length then sorted.length else k.toNat
    (sorted.take limit).map PeerDistance.peer

/-- Peers strictly in the order of their distance. -/
def Ordered (target : NodeID) (peers : List Peer) : Prop :=
  peers.Pairwise fun p q => xorDistance target p.id < xorDistance target q.id

section

variable {R : Runtime} {target : NodeID} {l m : List Peer} {k : ℤ}

theorem sortPeers_perm (R : Runtime) (target : NodeID) (l : List Peer) :
    (sortPeersByDistance R target l).Perm l := by
  have hperm := (R.sort_perm (l.map (withDistance target))).map PeerDistance.peer
  rwa [List.map_map, show PeerDistance.peer ∘ withDistance target = id from rfl,
    List.map_id] at hperm

theorem sortPeers_ordered (R : Runtime) (target : NodeID) (h : (l.map Peer.id).Nodup) :
    Ordered target (sortPeersByDistance R target l) := by
  have hle : (sortPeersByDistance R target l).Pairwise fun p q =>
      xorDistance target p.id ≤ xorDistance target q.id := by
    refine List.pairwise_map.2 ((R.sort_sorted _).imp_of_mem fun {x y} hx hy hxy => ?_)
    obtain ⟨p, -, rfl⟩ := List.mem_map.1 ((R.sort_perm _).subset hx)
    obtain ⟨q, -, rfl⟩ := List.mem_map.1 ((R.sort_perm _).subset hy)
    exact hxy
  have hne : (sortPeersByDistance R target l).Pairwise fun p q => p.id ≠ q.id :=
    List.pairwise_map.1 ((((sortPeers_perm R target l).map Peer.id).nodup_iff).2 h)
  refine (hle.and hne).imp fun {p q} hpq => lt_of_le_of_ne hpq.1 fun heq => ?_
  exact hpq.2 (xorDistance_injective target heq)

/-- The order is the same in every runtime, and of every permutation. -/
theorem sortPeers_eq (R R' : Runtime) (target : NodeID) (h : (l.map Peer.id).Nodup)
    (hperm : l.Perm m) :
    sortPeersByDistance R target l = sortPeersByDistance R' target m := by
  refine eq_of_sorted (sortPeers_ordered R target h)
    (sortPeers_ordered R' target ((hperm.map Peer.id).nodup_iff.1 h)) fun p => ?_
  rw [(sortPeers_perm R target l).mem_iff, (sortPeers_perm R' target m).mem_iff, hperm.mem_iff]

namespace RoutingTable

variable {rt : RoutingTable}

theorem getClosestPeers_eq (hk : 0 < k) :
    rt.getClosestPeers R target k = (sortPeersByDistance R target rt.peers).take k.toNat := by
  rw [getClosestPeers, if_neg (by omega), sortPeersByDistance]
  split_ifs with hnil
  · rw [List.eq_nil_of_length_eq_zero hnil, List.map_nil, (R.sort_perm []).eq_nil, List.map_nil,
      List.take_nil]
  · dsimp only
    rw [← List.map_take]
    split_ifs with hlimit
    · rw [List.take_length, List.take_of_length_le (by omega)]
    · rfl

theorem closest_nearest (R : Runtime) (target : NodeID) (h : rt.WF) (hk : 0 < k) :
    Nearest (fun p : Peer => xorDistance target p.id) k.toNat rt.peers.toFinset
      (rt.getClosestPeers R target k) := by
  rw [getClosestPeers_eq hk,
    ← List.toFinset_eq_of_perm _ _ (sortPeers_perm R target rt.peers)]
  exact nearest_take _ (sortPeers_ordered R target h.ids_nodup)

theorem WF.id_injOn (h : rt.WF) : Set.InjOn Peer.id rt.peers.toFinset := by
  intro p hp q hq heq
  rw [Finset.mem_coe, List.mem_toFinset] at hp hq
  exact List.inj_on_of_nodup_map h.ids_nodup hp hq heq

/-- The IDs in the table. -/
def ids (rt : RoutingTable) : Finset NodeID := rt.peers.toFinset.image Peer.id

theorem mem_ids {id : NodeID} : id ∈ rt.ids ↔ ∃ p ∈ rt.peers, p.id = id := by
  simp [ids]

theorem WF.card_ids (h : rt.WF) : rt.ids.card = rt.peers.length := by
  rw [ids, Finset.card_image_of_injOn h.id_injOn,
    List.toFinset_card_of_nodup h.ids_nodup.of_map]

theorem closest_ids_nearest (R : Runtime) (target : NodeID) (h : rt.WF) (hk : 0 < k) :
    Nearest (xorDistance target) k.toNat rt.ids ((rt.getClosestPeers R target k).map Peer.id) :=
  (closest_nearest R target h hk).map h.id_injOn

theorem WF.getClosestPeers_eq (h : rt.WF) (R R' : Runtime) (target : NodeID) (k : ℤ) :
    rt.getClosestPeers R target k = rt.getClosestPeers R' target k := by
  rcases le_or_gt k 0 with hk | hk
  · rw [getClosestPeers, if_pos hk, getClosestPeers, if_pos hk]
  · exact (closest_nearest R target h hk).eq (closest_nearest R' target h hk)

theorem sortPeers_getClosestPeers (R : Runtime) (target : NodeID) (h : rt.WF) (hk : 0 < k) :
    sortPeersByDistance R target (rt.getClosestPeers R target k)
      = rt.getClosestPeers R target k :=
  eq_of_sorted (sortPeers_ordered R target (closest_ids_nearest R target h hk).nodup)
    (closest_nearest R target h hk).sorted fun _ => (sortPeers_perm R target _).mem_iff

end RoutingTable

/-- The closest `k` peers of the table, in order, and the same ones however the sort is made. -/
theorem closestPeers_exact (localID : NodeID) (bucketSize : ℤ) (ops : List Op) (R : Runtime)
    (target : NodeID) (hk : 0 < k) :
    let rt := tableAfter localID bucketSize ops
    let l := rt.getClosestPeers R target k
    (l.length : ℤ) = min k rt.peers.length
    ∧ (∀ p ∈ l, p ∈ rt.peers)
    ∧ (l.map Peer.id).Nodup
    ∧ (l.Pairwise fun p q => xorDistance target p.id < xorDistance target q.id)
    ∧ (∀ q ∈ rt.peers, q ∉ l → ∀ p ∈ l, xorDistance target p.id < xorDistance target q.id)
    ∧ ∀ R' : Runtime, rt.getClosestPeers R' target k = l := by
  intro rt l
  have hwf : rt.WF := (wf_tableAfter localID bucketSize ops).1
  have hnear : Nearest _ k.toNat rt.peers.toFinset l := RoutingTable.closest_nearest R target hwf hk
  have hlen := hnear.length_eq
  rw [List.toFinset_card_of_nodup hwf.ids_nodup.of_map] at hlen
  refine ⟨by omega, fun p hp => List.mem_toFinset.1 (hnear.mem p hp), ?_, hnear.sorted, ?_,
    fun R' => hwf.getClosestPeers_eq R' R target k⟩
  · exact (RoutingTable.closest_ids_nearest R target hwf hk).nodup
  · exact fun q hq => hnear.closest q (List.mem_toFinset.2 hq)

end

/-- The runtime that sorts by insertion and ranges over maps in the order of their entries. -/
def Runtime.plain : Runtime where
  sort := List.insertionSort fun x y => x.distance ≤ y.distance
  sort_perm := List.perm_insertionSort _
  sort_sorted := by
    have htotal : Std.Total fun x y : PeerDistance => x.distance ≤ y.distance :=
      ⟨fun x y => Nat.le_total x.distance y.distance⟩
    have htrans : IsTrans PeerDistance fun x y => x.distance ≤ y.distance :=
      ⟨fun _ _ _ hxy hyz => Nat.le_trans hxy hyz⟩
    exact List.pairwise_insertionSort _
  range := fun _ l => l
  range_perm := fun _ l => List.Perm.refl l

/-- The ID with the bytes of a number. -/
def NodeID.ofNat (n : ℕ) : NodeID := ⟨Bytes.toBytes NodeIDLength n, Bytes.length_toBytes _ _⟩

theorem closestPeers_exact_two :
    (((tableAfter (.ofNat 1) 20 [.addPeer 0 ⟨.ofNat 2, "a", 0⟩, .addPeer 0 ⟨.ofNat 4, "b", 0⟩,
      .addPeer 0 ⟨.ofNat 8, "c", 0⟩]).getClosestPeers .plain (.ofNat 6) 2).map Peer.id).Nodup :=
  (closestPeers_exact (.ofNat 1) 20 _ .plain (.ofNat 6) (by decide : (0 : ℤ) < 2)).2.2.1

end EdgeSim.Dht
