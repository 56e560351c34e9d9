import EdgeSim.Dht.FullNetwork

/-!
# The network that `cmd/dhtsim` builds

`buildNetwork` gives every node to every other. A bucket evicts only when it is full, so with no
more than `bucketK` others every table ends up with all of them.
-/

namespace EdgeSim.Dht

section

variable {rt : RoutingTable} {p : Peer} {now : ℤ} {localID : NodeID} {bucketSize : ℤ}

theorem maxSize_tableAfter (localID : NodeID) (bucketSize : ℤ) (ops : List Op)
    (i : Fin (NodeIDLength * 8)) :
    ((tableAfter localID bucketSize ops).buckets i).maxSize
      = (newBucket (if bucketSize ≤ 0 then 20 else bucketSize)).maxSize := by
  induction ops using List.reverseRecOn with
  | nil => rfl
  | append_singleton ops op ih =>
    rw [tableAfter_append, ← ih]
    cases op with
    | removePeer peerID =>
      rw [RoutingTable.apply, RoutingTable.removePeer_eq]
      by_cases hi : i = (tableAfter localID bucketSize ops).bucketOf peerID
      · rw [hi, RoutingTable.buckets_setBucket_self, Bucket.maxSize_remove]
      · rw [RoutingTable.buckets_setBucket_of_ne hi]
    | addPeer now p =>
      rw [RoutingTable.apply]
      cases hc : RoutingTable.checkPeer (tableAfter localID bucketSize ops).localID p with
      | some err => rw [RoutingTable.addPeer_of_some hc]
      | none =>
        rw [RoutingTable.addPeer_of_none hc]
        by_cases hi : i = (tableAfter localID bucketSize ops).bucketOf p.id
        · rw [hi, RoutingTable.buckets_setBucket_self, Bucket.maxSize_add]
        · rw [RoutingTable.buckets_setBucket_of_ne hi]

theorem maxSize_newBucket (h : 0 < bucketSize) :
    (newBucket bucketSize).maxSize = bucketSize.toNat :=
  if_neg (by omega)

theorem length_bucket_le (rt : RoutingTable) (i : Fin (NodeIDLength * 8)) :
    (rt.buckets i).peers.length ≤ rt.peers.length := by
  have hmem : (rt.buckets i).peers ∈ (List.finRange (NodeIDLength * 8)).map fun i =>
      (rt.buckets i).peers := List.mem_map.2 ⟨i, List.mem_finRange i, rfl⟩
  rw [RoutingTable.peers, List.flatMap_def]
  exact (List.sublist_flatten_of_mem hmem).length_le

/-- An addition to a bucket that has room only adds. -/
theorem ids_addPeer (hwf : rt.WF) (hc : RoutingTable.checkPeer rt.localID p = none)
    (hroom : (rt.buckets (rt.bucketOf p.id)).peers.length
      < (rt.buckets (rt.bucketOf p.id)).maxSize) :
    (rt.addPeer now p).1.ids = insert p.id rt.ids := by
  have hadd : rt.addPeer now p = _ := RoutingTable.addPeer_of_none hc
  have hok : (rt.addPeer now p).2 = none := by rw [hadd]
  ext id
  rw [Finset.mem_insert, RoutingTable.mem_ids, RoutingTable.mem_ids]
  constructor
  · rintro ⟨q, hq, rfl⟩
    obtain ⟨i, hi⟩ := RoutingTable.mem_peers.1 hq
    rw [hadd] at hi
    by_cases hib : i = rt.bucketOf p.id
    · rw [hib, RoutingTable.buckets_setBucket_self, Bucket.peers_add, List.mem_append,
        List.mem_singleton] at hi
      rcases hi with hi | rfl
      · exact .inr ⟨q, RoutingTable.mem_peers.2 ⟨_, (Bucket.kept_sublist _ _).subset hi⟩, rfl⟩
      · exact .inl rfl
    · rw [RoutingTable.buckets_setBucket_of_ne hib] at hi
      exact .inr ⟨q, RoutingTable.mem_peers.2 ⟨i, hi⟩, rfl⟩
  · intro hid
    by_cases hidp : id = p.id
    · refine ⟨{ p with lastSeen := now }, RoutingTable.mem_peers.2 ⟨rt.bucketOf p.id, ?_⟩,
        hidp.symm⟩
      rw [hadd, RoutingTable.buckets_setBucket_self, Bucket.peers_add]
      exact List.mem_append_right _ (List.mem_singleton_self _)
    · obtain ⟨q, hq, rfl⟩ := hid.resolve_left hidp
      refine ⟨q, ?_, rfl⟩
      by_contra hlost
      obtain ⟨-, hfull, -⟩ := hwf.lost hok hq hidp hlost
      omega

/-- Peers that all pass the checks, no more than a bucket holds, are all kept. -/
theorem ids_tableAfter_adds (localID : NodeID) (clock : NodeID → ℤ) (hsize : 0 < bucketSize)
    (peers : List Peer) (hchecked : ∀ p ∈ peers, RoutingTable.checkPeer localID p = none)
    (hlen : (peers.length : ℤ) ≤ bucketSize) :
    (tableAfter localID bucketSize (peers.map fun p => .addPeer (clock p.id) p)).ids
      = (peers.map Peer.id).toFinset := by
  induction peers using List.reverseRecOn with
  | nil =>
    ext id
    simp [RoutingTable.mem_ids, RoutingTable.mem_peers, tableAfter, newRoutingTable, newBucket]
  | append_singleton peers p ih =>
    rw [List.length_append, List.length_singleton] at hlen
    have hprev := ih (fun q hq => hchecked q (List.mem_append_left _ hq)) (by omega)
    obtain ⟨hwf, hlocal⟩ := wf_tableAfter localID bucketSize
      (peers.map fun p => .addPeer (clock p.id) p)
    have hcard := hwf.card_ids
    have hle := (peers.map Peer.id).toFinset_card_le
    have hmax := maxSize_tableAfter localID bucketSize (peers.map fun p => .addPeer (clock p.id) p)
    rw [List.map_append, List.map_singleton, tableAfter_append, RoutingTable.apply,
      ids_addPeer hwf, hprev, List.map_append, List.map_singleton, List.toFinset_append,
      List.toFinset_cons, List.toFinset_nil, Finset.insert_empty, Finset.union_comm,
      ← Finset.insert_eq]
    · rw [hlocal]
      exact hchecked p (by simp)
    · refine (length_bucket_le _ _).trans_lt ?_
      rw [← hcard, hprev, hmax, if_neg (by omega), maxSize_newBucket hsize]
      rw [List.length_map] at hle
      omega

end

/-! ## `buildNetwork` -/

def bucketK : ℤ := 20

def nodeNames (count : ℕ) : List String :=
  (List.range count).map fun i => "node-" ++ toString (i + 1)

def networkPeers (keyToID : String → NodeID) (count : ℕ) : List Peer :=
  (nodeNames count).map fun name => (newNode (keyToID name) name bucketK).peer

/-- The network of `count` nodes; a node adds a peer at the time `clock` says. -/
def buildNetwork (keyToID : String → NodeID) (clock : NodeID → NodeID → ℤ) (count : ℕ) :
    Network where
  nodes := fun id =>
    -- of two names with one ID the later is in the map
    ((nodeNames count).reverse.find? fun name => keyToID name = id).map fun name =>
      let node := newNode id name bucketK
      { node with rt := (networkPeers keyToID count).foldl (fun rt peer =>
          if peer.id = node.peer.id then rt else (rt.addPeer (clock id peer.id) peer).1) node.rt }

section

variable {keyToID : String → NodeID} {clock : NodeID → NodeID → ℤ} {count : ℕ}

/-- The loop over the peers adds the others. -/
theorem foldl_addPeer (localID : NodeID) (clock : NodeID → ℤ) (bucketSize : ℤ) (peers : List Peer) :
    peers.foldl (fun rt peer =>
        if peer.id = localID then rt else (rt.addPeer (clock peer.id) peer).1)
      (newRoutingTable localID bucketSize)
    = tableAfter localID bucketSize
      ((peers.filter fun p => p.id ≠ localID).map fun p => .addPeer (clock p.id) p) := by
  induction peers using List.reverseRecOn with
  | nil => rfl
  | append_singleton peers p ih =>
    rw [List.foldl_append, ih, List.filter_append, List.map_append]
    by_cases hp : p.id = localID
    · simp [hp]
    · rw [List.filter_cons_of_pos (by simpa using hp), List.filter_nil, List.map_singleton,
        tableAfter_append, List.foldl_cons, List.foldl_nil, if_neg hp]
      rfl

theorem nodeNames_ne_empty {name : String} (h : name ∈ nodeNames count) : name ≠ "" := by
  obtain ⟨i, -, rfl⟩ := List.mem_map.1 h
  intro heq
  have hlen := congrArg String.length heq
  rw [String.length_append] at hlen
  simp at hlen

/-- A node of the network, with the table of the others. -/
theorem nodes_buildNetwork {id : NodeID} {n : Node}
    (h : (buildNetwork keyToID clock count).nodes id = some n) :
    id ∈ (nodeNames count).map keyToID
      ∧ n.rt = tableAfter id bucketK (((networkPeers keyToID count).filter fun p => p.id ≠ id).map
          fun p => .addPeer (clock id p.id) p)
      ∧ ∀ key, n.store key = none := by
  obtain ⟨name, hname, rfl⟩ := Option.map_eq_some_iff.1 h
  have hid : keyToID name = id := by simpa using List.find?_some hname
  have hmem : name ∈ nodeNames count := List.mem_reverse.1 (List.mem_of_find?_eq_some hname)
  refine ⟨List.mem_map.2 ⟨name, hmem, hid⟩, ?_, fun _ => rfl⟩
  exact foldl_addPeer id (clock id) bucketK _

/-- With non-zero IDs, and no more than `bucketK` others for each, every node has every other in its
table, and the stores are empty. -/
theorem buildNetwork_full (keyToID : String → NodeID) (clock : NodeID → NodeID → ℤ)
    (hzero : ∀ name ∈ nodeNames count, keyToID name ≠ 0) (hcount : (count : ℤ) ≤ bucketK + 1) :
    Full (buildNetwork keyToID clock count) ((nodeNames count).map keyToID).toFinset
      ∧ ∀ id key, (buildNetwork keyToID clock count).get id key = none := by
  refine ⟨⟨?_, ?_, ?_⟩, ?_⟩
  · exact fun id n hn => ⟨_, _, (nodes_buildNetwork hn).2.1⟩
  · intro id
    rw [buildNetwork, Option.isSome_map, List.find?_isSome, List.mem_toFinset, List.mem_map]
    simp
  · intro id n hn
    obtain ⟨hid, hrt, -⟩ := nodes_buildNetwork hn
    rw [hrt, ids_tableAfter_adds id (clock id) (by decide)]
    · ext q
      simp only [networkPeers, List.mem_toFinset, List.mem_map, List.mem_filter, Finset.mem_erase,
        decide_eq_true_eq]
      constructor
      · rintro ⟨p, ⟨⟨name, hname, rfl⟩, hne⟩, rfl⟩
        exact ⟨hne, name, hname, rfl⟩
      · rintro ⟨hne, name, hname, rfl⟩
        exact ⟨_, ⟨⟨name, hname, rfl⟩, hne⟩, rfl⟩
    · intro p hp
      obtain ⟨hp, hne⟩ := List.mem_filter.1 hp
      obtain ⟨name, hname, rfl⟩ := List.mem_map.1 hp
      exact RoutingTable.checkPeer_eq_none.2
        ⟨nodeNames_ne_empty hname, hzero name hname, by simpa using hne⟩
    · -- the node itself is filtered out
      obtain ⟨name, hname, rfl⟩ := List.mem_map.1 hid
      have hlt : ((networkPeers keyToID count).filter fun p => p.id ≠ keyToID name).length
          < (networkPeers keyToID count).length :=
        List.length_filter_lt_length_iff_exists.2
          ⟨_, List.mem_map.2 ⟨name, hname, rfl⟩, by simp [newNode]⟩
      have hlen : (networkPeers keyToID count).length = count := by simp [networkPeers, nodeNames]
      have hK : bucketK = 20 := rfl
      omega
  · intro id key
    rw [Network.get]
    cases hn : (buildNetwork keyToID clock count).nodes id with
    | none => rfl
    | some n => exact (nodes_buildNetwork hn).2.2 key

end

end EdgeSim.Dht
