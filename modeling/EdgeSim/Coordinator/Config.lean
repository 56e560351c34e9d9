import EdgeSim.Coordinator.GossipConn
import EdgeSim.SensorNode.PeerExchange

/-!
# The configuration of a coordinator

`RAFT_PEERS` names the coordinators and their addresses, `id=addr` with commas between; `main`
makes a Raft node of it. `raftPeers` is a map, and the peers come in the order of an iteration over
it, so any order is possible. Coordinators that are given the same `RAFT_PEERS`, and IDs from it,
form a cluster.
-/

namespace EdgeSim.Coordinator

open Joined
open SensorNode (Sendable Text Trimmed bytesOf comma splitAndTrim splitAndTrim_join trimSpace
  trimmed_iff)

/-- A Go string as a `String`, one character a byte. -/
def goString (s : Text) : String := String.ofList (s.map Char.ofUInt8)

def equalsSign : UInt8 := '='.toUInt8

/-- One round of the loop of `raftPeersFromEnv`. `strings.SplitN(entry, "=", 2)` cuts at the first
sign, if there is one. -/
def addRaftPeer (peers : RaftPeers) (entry : Text) : RaftPeers :=
  match entry.dropWhile (· ≠ equalsSign) with
  | [] => peers
  | _ :: rest =>
    let id := trimSpace (entry.takeWhile (· ≠ equalsSign))
    let addr := trimSpace rest
    if id = [] ∨ addr = [] then peers else peers.insert (goString id) (goString addr)

/-- The value of the variable is the argument; `splitAndTrim` has the same code as that of
`cmd/node`. -/
def raftPeersFromEnv (value : Text) : RaftPeers :=
  if value = [] then ∅ else (splitAndTrim value).foldl addRaftPeer ∅

/-- `keys` are the keys of the map in the order of an iteration over it. -/
structure IterationOrder (peers : RaftPeers) (keys : List String) : Prop where
  nodup : keys.Nodup
  mem : ∀ id, id ∈ keys ↔ id ∈ peers

def raftPeerIDs (keys : List String) (selfID : String) : List String := keys.filter (· ≠ selfID)

/-- What `main` gives to `NewNode`. -/
def raftConfig (keys : List String) (raftID : String) : Raft.Config where
  id := raftID
  peers := raftPeerIDs keys raftID
  transport := true
  electionTimeoutMin := 150 * 1000000
  electionTimeoutMax := 300 * 1000000
  heartbeatInterval := 50 * 1000000

/-! ## Strings -/

section Strings

variable {s t : Text}

theorem toNat_ofUInt8 (b : UInt8) : (Char.ofUInt8 b).toNat = b.toNat := by
  change b.toUInt32.toNat = b.toNat
  simp

theorem goString_inj (h : goString s = goString t) : s = t := by
  have hlist := String.ofList_injective h
  refine List.map_injective_iff.2 (fun a b hab => ?_) hlist
  have hnat := congrArg Char.toNat hab
  rw [toNat_ofUInt8, toNat_ofUInt8] at hnat
  exact UInt8.toNat_inj.1 hnat

theorem goString_ne_empty (h : s ≠ []) : goString s ≠ "" := by
  intro hs
  exact h (goString_inj (t := []) (hs.trans (by decide)))

end Strings

/-! ## What is read -/

section Read

variable {peers : RaftPeers} {value entry : Text}

theorem addRaftPeer_cases (peers : RaftPeers) (entry : Text) :
    addRaftPeer peers entry = peers
      ∨ ∃ id addr, id ≠ [] ∧ addr ≠ []
        ∧ addRaftPeer peers entry = peers.insert (goString id) (goString addr) := by
  unfold addRaftPeer
  split
  · exact .inl rfl
  · dsimp only
    split_ifs with h
    · exact .inl rfl
    · rw [not_or] at h
      exact .inr ⟨_, _, h.1, h.2, rfl⟩

theorem notMem_empty_addRaftPeer (h : "" ∉ peers) : "" ∉ addRaftPeer peers entry := by
  rcases addRaftPeer_cases peers entry with heq | ⟨id, addr, hid, -, heq⟩
  · rwa [heq]
  · rw [heq, Finmap.mem_insert, not_or]
    exact ⟨fun h0 => goString_ne_empty hid h0.symm, h⟩

/-- No coordinator has the empty ID. -/
theorem notMem_empty_raftPeersFromEnv (value : Text) : "" ∉ raftPeersFromEnv value := by
  have hfold : ∀ (entries : List Text) (peers : RaftPeers), "" ∉ peers →
      "" ∉ entries.foldl addRaftPeer peers := by
    intro entries
    induction entries with
    | nil => exact fun _ h => h
    | cons entry entries ih => exact fun peers h => ih _ (notMem_empty_addRaftPeer h)
  unfold raftPeersFromEnv
  split_ifs
  · exact Finmap.notMem_empty
  · exact hfold _ _ Finmap.notMem_empty

/-- The nodes that the coordinators make. -/
def raftNode (keys : List String) (raftID : String) : Raft.Node :=
  { id := raftID, peers := raftPeerIDs keys raftID, currentTerm := 0, votedFor := "", leaderID := ""
    state := .follower, log := [], commitIndex := 0, lastApplied := 0 }

theorem newNode_raftConfig {keys : List String} {raftID : String} (h : raftID ≠ "") :
    Raft.newNode (raftConfig keys raftID) = .ok (raftNode keys raftID) := by
  unfold Raft.newNode
  rw [if_neg (show (raftConfig keys raftID).id ≠ "" from h), if_neg (by simp [raftConfig]),
    if_neg (by simp [raftConfig]), if_neg (by simp [raftConfig])]
  rfl

end Read

/-! ## What was written -/

section RoundTrip

/-- An ID and its address that can be told apart in `RAFT_PEERS`. -/
structure PeerOK (e : Text × Text) : Prop where
  id_ne : e.1 ≠ []
  addr_ne : e.2 ≠ []
  id : Sendable e.1
  addr : Sendable e.2
  equals : equalsSign ∉ e.1

def formatPeer (e : Text × Text) : Text := e.1 ++ equalsSign :: e.2

def formatPeers (es : List (Text × Text)) : Text := [comma].intercalate (es.map formatPeer)

variable {e : Text × Text}

theorem equalsSign_notMem_spaces :
    ∀ sep ∈ SensorNode.spaces, equalsSign ∉ sep ∧ equalsSign ∉ sep.reverse := by decide

theorem PeerOK.sendable (h : PeerOK e) : formatPeer e ≠ [] ∧ Sendable (formatPeer e) := by
  have hid := trimmed_iff.2 h.id.1
  have haddr := trimmed_iff.2 h.addr.1
  refine ⟨by simp [formatPeer], trimmed_iff.1 ⟨fun sep hsep hpre => ?_, fun sep hsep hpre => ?_⟩,
    fun hc => ?_⟩
  · exact hid.1 sep hsep (prefix_of_notMem hpre (equalsSign_notMem_spaces sep hsep).1)
  · obtain ⟨sep, hsep', rfl⟩ := List.mem_map.1 hsep
    rw [formatPeer, List.reverse_append, List.reverse_cons, List.append_assoc] at hpre
    exact haddr.2 _ hsep (prefix_of_notMem hpre (equalsSign_notMem_spaces sep hsep').2)
  · rw [formatPeer, List.mem_append, List.mem_cons] at hc
    rcases hc with hc | hc | hc
    · exact h.id.2 hc
    · exact absurd hc (by decide)
    · exact h.addr.2 hc

theorem addRaftPeer_formatPeer (h : PeerOK e) (peers : RaftPeers) :
    addRaftPeer peers (formatPeer e) = peers.insert (goString e.1) (goString e.2) := by
  have hall : ∀ b ∈ e.1, decide (b ≠ equalsSign) = true := by
    intro b hb
    rw [decide_eq_true_eq]
    rintro rfl
    exact h.equals hb
  have hdrop : (formatPeer e).dropWhile (· ≠ equalsSign) = equalsSign :: e.2 := by
    rw [formatPeer, List.dropWhile_append_of_pos hall]
    simp
  have htake : (formatPeer e).takeWhile (· ≠ equalsSign) = e.1 := by
    rw [formatPeer, List.takeWhile_append_of_pos hall]
    simp
  unfold addRaftPeer
  rw [hdrop, htake]
  dsimp only
  rw [h.id.1, h.addr.1, if_neg]
  rw [not_or]
  exact ⟨h.id_ne, h.addr_ne⟩

theorem lookup_foldl_notMem {name : String} : ∀ {es : List (Text × Text)} (peers : RaftPeers),
    (∀ e ∈ es, PeerOK e) → (∀ e ∈ es, name ≠ goString e.1) →
      ((es.map formatPeer).foldl addRaftPeer peers).lookup name = peers.lookup name
  | [], _, _, _ => rfl
  | e :: es, peers, h, hname => by
    rw [List.map_cons, List.foldl_cons,
      lookup_foldl_notMem _ (fun x hx => h x (List.mem_cons_of_mem _ hx))
        fun x hx => hname x (List.mem_cons_of_mem _ hx),
      addRaftPeer_formatPeer (h e List.mem_cons_self),
      Finmap.lookup_insert_of_ne _ (hname e List.mem_cons_self)]

theorem lookup_foldl_mem : ∀ {es : List (Text × Text)} (peers : RaftPeers),
    (∀ e ∈ es, PeerOK e) → (es.map Prod.fst).Nodup → ∀ e ∈ es,
      ((es.map formatPeer).foldl addRaftPeer peers).lookup (goString e.1) = some (goString e.2)
  | x :: es, peers, h, hnodup, e, he => by
    rw [List.map_cons, List.nodup_cons] at hnodup
    have htail : ∀ e ∈ es, PeerOK e := fun e he => h e (List.mem_cons_of_mem _ he)
    rw [List.map_cons, List.foldl_cons]
    rcases List.mem_cons.1 he with rfl | he
    · rw [lookup_foldl_notMem _ htail, addRaftPeer_formatPeer (h e List.mem_cons_self),
        Finmap.lookup_insert]
      intro y hy heq
      exact hnodup.1 (goString_inj heq ▸ List.mem_map_of_mem hy)
    · exact lookup_foldl_mem _ htail hnodup.2 e he

theorem raftPeersFromEnv_formatPeers {es : List (Text × Text)} (h : ∀ e ∈ es, PeerOK e) :
    raftPeersFromEnv (formatPeers es) = (es.map formatPeer).foldl addRaftPeer ∅ := by
  unfold raftPeersFromEnv
  by_cases hes : es = []
  · subst hes
    rfl
  · have hne : es.map formatPeer ≠ [] := by simpa using hes
    have hjoin : splitAndTrim (formatPeers es) = es.map formatPeer := by
      refine splitAndTrim_join hne fun x hx => ?_
      obtain ⟨e, he, rfl⟩ := List.mem_map.1 hx
      exact (h e he).sendable
    rw [if_neg, hjoin]
    intro hnil
    rw [hnil] at hjoin
    exact hne (hjoin.symm.trans (by decide))

theorem lookup_formatPeers {es : List (Text × Text)} (h : ∀ e ∈ es, PeerOK e)
    (hnodup : (es.map Prod.fst).Nodup) {name addr : String} :
    (raftPeersFromEnv (formatPeers es)).lookup name = some addr
      ↔ ∃ e ∈ es, name = goString e.1 ∧ addr = goString e.2 := by
  rw [raftPeersFromEnv_formatPeers h]
  constructor
  · intro hlookup
    by_contra hnone
    have hname : ∀ e ∈ es, name ≠ goString e.1 := by
      rintro e he rfl
      rw [lookup_foldl_mem ∅ h hnodup e he, Option.some.injEq] at hlookup
      exact hnone ⟨e, he, rfl, hlookup.symm⟩
    rw [lookup_foldl_notMem ∅ h hname, Finmap.lookup_empty] at hlookup
    cases hlookup
  · rintro ⟨e, he, rfl, rfl⟩
    exact lookup_foldl_mem ∅ h hnodup e he

/-- An iteration over the map that was read goes over the IDs that were written. -/
theorem iterationOrder_iff {es : List (Text × Text)} (h : ∀ e ∈ es, PeerOK e)
    (hnodup : (es.map Prod.fst).Nodup) {keys : List String} :
    IterationOrder (raftPeersFromEnv (formatPeers es)) keys
      ↔ keys.Perm (es.map fun e => goString e.1) := by
  have hids : (es.map fun e => goString e.1).Nodup := by
    have := hnodup.map (f := goString) fun _ _ => goString_inj
    rwa [List.map_map] at this
  have hmem : ∀ name, name ∈ raftPeersFromEnv (formatPeers es)
      ↔ name ∈ es.map fun e => goString e.1 := by
    intro name
    rw [Finmap.mem_iff, List.mem_map]
    constructor
    · rintro ⟨addr, haddr⟩
      obtain ⟨e, he, rfl, -⟩ := (lookup_formatPeers h hnodup).1 haddr
      exact ⟨e, he, rfl⟩
    · rintro ⟨e, he, rfl⟩
      exact ⟨_, (lookup_formatPeers h hnodup).2 ⟨e, he, rfl, rfl⟩⟩
  constructor
  · rintro ⟨hkeys, hiff⟩
    exact (List.perm_ext_iff_of_nodup hkeys hids).2 fun name => (hiff name).trans (hmem name)
  · intro hperm
    exact ⟨hperm.nodup_iff.2 hids, fun name => hperm.mem_iff.trans (hmem name).symm⟩

/-- What is read from `RAFT_PEERS` is what was written, if the IDs are distinct and without `=`, and
neither they nor the addresses are empty, have a comma or begin or end in a space. -/
theorem raft_peers_round_trip {es : List (Text × Text)} (h : ∀ e ∈ es, PeerOK e)
    (hnodup : (es.map Prod.fst).Nodup) :
    (∀ name addr, (raftPeersFromEnv (formatPeers es)).lookup name = some addr
      ↔ ∃ e ∈ es, name = goString e.1 ∧ addr = goString e.2)
    ∧ ∀ keys, IterationOrder (raftPeersFromEnv (formatPeers es)) keys
      ↔ keys.Perm (es.map fun e => goString e.1) :=
  ⟨fun _ _ => lookup_formatPeers h hnodup, fun _ => iterationOrder_iff h hnodup⟩

/-- Three coordinators. -/
def threePeers : List (Text × Text) :=
  [(bytesOf "coord-1", bytesOf "10.0.0.1:7000"), (bytesOf "coord-2", bytesOf "10.0.0.2:7000"),
    (bytesOf "coord-3", bytesOf "host-3:7000")]

theorem threePeers_ok : ∀ e ∈ threePeers, PeerOK e := by
  have hall : ∀ e ∈ threePeers, (e.1 ≠ [] ∧ e.2 ≠ [])
      ∧ (trimSpace e.1 = e.1 ∧ comma ∉ e.1) ∧ (trimSpace e.2 = e.2 ∧ comma ∉ e.2)
      ∧ equalsSign ∉ e.1 := by decide +kernel
  intro e he
  obtain ⟨⟨h1, h2⟩, h3, h4, h5⟩ := hall e he
  exact ⟨h1, h2, h3, h4, h5⟩

theorem raft_peers_round_trip_three :
    (raftPeersFromEnv (bytesOf
      "coord-1=10.0.0.1:7000,coord-2=10.0.0.2:7000,coord-3=host-3:7000")).lookup "coord-3"
        = some "host-3:7000" := by
  have hvalue : bytesOf "coord-1=10.0.0.1:7000,coord-2=10.0.0.2:7000,coord-3=host-3:7000"
      = formatPeers threePeers := by decide +kernel
  rw [hvalue, (raft_peers_round_trip threePeers_ok (by decide +kernel)).1]
  exact ⟨(bytesOf "coord-3", bytesOf "host-3:7000"), by decide +kernel, by decide +kernel,
    by decide +kernel⟩

/-! ## The cluster -/

/-- Coordinators that are given one `RAFT_PEERS`, whatever its value, and each an ID it names, form
a cluster, in whatever order each of them goes over its map. -/
theorem coordinators_form_cluster (value : Text) {ids : List String}
    (order : String → List String) (hids : IterationOrder (raftPeersFromEnv value) ids)
    (horder : ∀ id ∈ ids, IterationOrder (raftPeersFromEnv value) (order id)) :
    ∃ C : Raft.Cluster, C.ids = ids ∧ (∀ id ∈ ids, C.config id = raftConfig (order id) id)
      ∧ ∀ id ∈ ids, Raft.newNode (raftConfig (order id) id) = .ok (C.node id) := by
  have hne : ∀ id ∈ ids, id ≠ "" := by
    rintro id hid rfl
    exact notMem_empty_raftPeersFromEnv value ((hids.mem _).1 hid)
  refine ⟨
    { ids := ids
      config := fun id => raftConfig (order id) id
      node := fun id => raftNode (order id) id
      nodup := hids.nodup
      config_id := fun _ _ => rfl
      created := fun id hid => newNode_raftConfig (hne id hid)
      peers_nodup := fun id hid => (horder id hid).nodup.filter _
      mem_peers := fun id hid p => ?_ }, rfl, fun _ _ => rfl,
    fun id hid => newNode_raftConfig (hne id hid)⟩
  change p ∈ (order id).filter (· ≠ id) ↔ _
  rw [List.mem_filter, (horder id hid).mem, hids.mem, decide_eq_true_eq]

/-- One of them goes over its map in another order. -/
theorem coordinators_form_cluster_three : ∃ C : Raft.Cluster,
    C.ids = ["coord-1", "coord-2", "coord-3"]
      ∧ C.config "coord-2" = raftConfig ["coord-3", "coord-1", "coord-2"] "coord-2" := by
  have hnodup : (threePeers.map Prod.fst).Nodup := by decide +kernel
  have hids : threePeers.map (fun e => goString e.1) = ["coord-1", "coord-2", "coord-3"] := by
    decide +kernel
  have horder : ∀ keys, keys.Perm ["coord-1", "coord-2", "coord-3"] →
      IterationOrder (raftPeersFromEnv (formatPeers threePeers)) keys := fun keys hkeys =>
    (iterationOrder_iff threePeers_ok hnodup).2 (hids ▸ hkeys)
  obtain ⟨C, hC, hconfig, -⟩ := coordinators_form_cluster (formatPeers threePeers)
    (fun _ => ["coord-3", "coord-1", "coord-2"]) (horder _ (.refl _))
    fun _ _ => horder _ (by decide)
  exact ⟨C, hC, hconfig "coord-2" (by decide)⟩

end RoundTrip

end EdgeSim.Coordinator
