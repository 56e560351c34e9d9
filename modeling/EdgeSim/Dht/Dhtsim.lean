import EdgeSim.Dht.Deadline
import EdgeSim.Gossip.Spread
import EdgeSim.Sensor.Region

/-!
# The run of `cmd/dhtsim`

`main` builds a network, has every node publish a reading, reads them all back from one node, asks
for the average around the first one, and lets the gossip simulator run over the routing tables.
It ranges over the map of nodes five times, each time in an order of its own. Floating-point
arithmetic is given, and so are the clock, the sensors and JSON. The five seconds of its context may
run out in any of the stores and lookups, which then fail with the error of the context.
-/

namespace EdgeSim.Dht

open Coordinator (Location Reading)
open Sensor
open Stdlib (Json)

/-- What ends `main` before its time: a panic, or an error. -/
inductive SimulationError where
  | panicked
  | encodeReading
  | iterativeStore (err : LookupError)
  | noNodes
  | findValue (err : LookupError)
  | decodeReading
  | unexpectedNodeID (nodeID : String)
  | noReadings
  | averageTemperature (err : String)
  | noNodesForGossip
  | propagation (err : Gossip.SimError)
  | targetMissed (milliseconds : ℕ)

/-- What a run depends on besides the code. -/
structure Simulation (σ : Type) where
  keyToID : String → NodeID
  json : Json Reading
  /-- the first temperature of the generator of a node, and where the node is -/
  temperature : String → UInt64
  locationFromSeed : String → Location
  /-- when a node's reading is taken, and when a node adds a peer -/
  now : String → ℤ
  clock : NodeID → NodeID → ℤ
  arithmetic : Arithmetic
  /-- the orders in which the map of nodes is ranged over -/
  publishOrder : List NodeID
  anchorOrder : List NodeID
  queryOrder : List NodeID
  gossipOrder : List NodeID
  /-- the sorts and ranges within the calls for a node, and whether the context runs out there -/
  storing : NodeID → Runtime
  storeExpiry : NodeID → Expiry
  finding : NodeID → Runtime
  findExpiry : NodeID → Expiry
  listing : NodeID → Runtime
  rng : Gossip.Rng σ
  spreadOrder : Gossip.RangeOrder

/-- What `main` logs at its end. -/
structure Report where
  readings : List Reading
  averageTemperature : UInt64
  samples : ℕ
  gossip : Gossip.Result

def sensorKey (nodeID : String) : String := "sensor:" ++ nodeID ++ ":latest"

/-- The nodes in an order of their IDs, as `range` gives them. -/
def Network.range (net : Network) (order : List NodeID) : List Peer :=
  (order.filterMap net.nodes).map Node.peer

namespace Simulation

variable {σ : Type} (S : Simulation σ)

/-- `Next` of the generator of a node. -/
def reading (addr : String) : Reading :=
  ⟨addr, S.temperature addr, S.locationFromSeed addr, S.now addr⟩

/-- The call of `IterativeStore` for a node. -/
def storeCall (peer : Peer) (payload : List UInt8) : StoreCall :=
  ⟨S.storing peer.id, peer.id, sensorKey peer.addr, payload, 3, 20⟩

def publishReading (net : Network) (peer : Peer) : Except SimulationError Network :=
  match S.json.marshal (S.reading peer.addr) with
  | none => .error .encodeReading
  | some payload =>
    match net.storeFrom S.keyToID bucketK (S.storeExpiry peer.id) (S.storeCall peer payload) with
    | none => .error .panicked
    | some out =>
      match out.err with
      | some err => .error (.iterativeStore err)
      | none => .ok out.state

def publishSensorReadings (net : Network) : Except SimulationError Network :=
  (net.range S.publishOrder).foldlM S.publishReading net

def queryReading (net : Network) (anchor peer : Peer) : Except SimulationError Reading :=
  match net.findFrom S.keyToID bucketK (S.findExpiry peer.id) (S.finding peer.id) anchor.id 3 20
      (sensorKey peer.addr) with
  | none => .error .panicked
  | some out =>
    match out.err with
    | some err => .error (.findValue err)
    | none =>
      match out.value.bind S.json.unmarshal with
      | none => .error .decodeReading
      | some reading =>
        if reading.nodeID ≠ peer.addr then .error (.unexpectedNodeID reading.nodeID)
        else .ok reading

def verifySensorQueries (net : Network) : Except SimulationError (List Reading) :=
  match net.range S.anchorOrder with
  | [] => .error .noNodes
  | anchor :: _ => (net.range S.queryOrder).mapM (S.queryReading net anchor)

/-- The bits of ten kilometres. -/
def radiusKm : UInt64 := 0x4024000000000000

/-- The average around the first reading, and the number of readings there. -/
def runRegionQuery (readings : List Reading) : Except SimulationError (UInt64 × ℕ) :=
  match readings with
  | [] => .error .noReadings
  | first :: _ =>
    match S.arithmetic.averageTemperatureInRadius readings first.location radiusKm with
    | .error err => .error (.averageTemperature err)
    | .ok (avgTemp, sampleCount) => .ok (avgTemp, sampleCount)

/-- The nodes that gossip, each with the peers of its table. -/
def gossipNodes (net : Network) : List Gossip.Node :=
  (net.range S.gossipOrder).map fun peer =>
    ⟨peer.addr, (net.table peer.id).elim [] fun rt =>
      (rt.getClosestPeers (S.listing peer.id) peer.id bucketK).map Peer.addr⟩

def runGossipSimulation (net : Network) : Except SimulationError Gossip.Result :=
  match S.gossipNodes net with
  | [] => .error .noNodesForGossip
  | first :: rest =>
    let out := Gossip.simulatePropagation S.rng S.spreadOrder (Gossip.newSimulator S.rng 42)
      (first :: rest) first.id 3 (9 / 10) 20
    match out.2.2 with
    | some err => .error (.propagation err)
    | none =>
      -- a step takes 100 ms
      if out.2.1.steps * 100 > 2000 then .error (.targetMissed (out.2.1.steps * 100))
      else .ok out.2.1

/-- `main`, for a number of nodes. -/
def main (count : ℕ) : Except SimulationError Report := do
  let net ← S.publishSensorReadings (buildNetwork S.keyToID S.clock count)
  let readings ← S.verifySensorQueries net
  let (average, samples) ← S.runRegionQuery readings
  let result ← S.runGossipSimulation net
  return ⟨readings, average, samples, result⟩

end Simulation

/-! ## The map of nodes -/

theorem sensorKey_injective : Function.Injective sensorKey := by
  intro a b h
  simp only [sensorKey, String.append_left_inj, String.append_right_inj] at h
  exact h

section

variable {net : Network} {keyToID : String → NodeID} {clock : NodeID → NodeID → ℤ} {count : ℕ}
  {k : ℤ}

/-- A store leaves the peers of the nodes as they are. -/
theorem peers_storeNext (E : Expiry) (w : Network × ℕ) (p : Peer) (key : String)
    (value : List UInt8) (id : NodeID) :
    ((Network.storeNext E w p key value).1.1.nodes id).map Node.peer
      = (w.1.nodes id).map Node.peer := by
  cases hn : w.1.nodes p.id with
  | none => simp [Network.storeNext, Network.storeValue, hn]
  | some n =>
    have hpeer : (n.handleStore (E.store w.2) key value).1.peer = n.peer := by
      rw [Node.handleStore]
      split_ifs <;> rfl
    by_cases hid : id = p.id
    · subst hid
      simp [Network.storeNext, Network.storeValue, hn, Network.setNode, hpeer]
    · simp [Network.storeNext, Network.storeValue, hn, Network.setNode, hid]

theorem peers_storeAll (E : Expiry) (key : String) (value : List UInt8) :
    ∀ (l : List Peer) (w : Network × ℕ) (id : NodeID),
      ((storeAll (Network.storeNext E) key value l w).1.1.nodes id).map Node.peer
        = (w.1.nodes id).map Node.peer
  | [], _, _ => rfl
  | p :: l, w, id => by
    have hnext := peers_storeNext E w p key value id
    rw [storeAll]
    split
    · rename_i w' err heq
      rwa [heq] at hnext
    · rename_i w' heq
      rw [heq] at hnext
      rw [peers_storeAll E key value l, hnext]

theorem peers_storeFrom {E : Expiry} {c : StoreCall} {out : StoreOutcome Network}
    (h : net.storeFrom keyToID k E c = some out) (id : NodeID) :
    (out.state.nodes id).map Node.peer = (net.nodes id).map Node.peer := by
  obtain ⟨store, hstore, rfl⟩ := Option.map_eq_some_iff.1 h
  unfold iterativeStore at hstore
  split at hstore
  · cases hstore
    rfl
  · cases hstore
    rfl
  · cases hstore
    rfl
  · rename_i rt find requester hrt hfind hrequester
    simp only [Option.some.injEq] at hrequester
    subst hrequester
    obtain ⟨found, -, rfl⟩ := Option.map_eq_some_iff.1 hstore
    dsimp only
    split
    · rfl
    · exact peers_storeAll ..

theorem Network.range_congr {net' : Network} (order : List NodeID)
    (h : ∀ id, (net'.nodes id).map Node.peer = (net.nodes id).map Node.peer) :
    net'.range order = net.range order := by
  simp only [Network.range, List.map_filterMap, h]

/-- With distinct IDs the map has the node of each name. -/
theorem range_buildNetwork (hids : ((nodeNames count).map keyToID).Nodup) {order : List NodeID}
    (horder : order.Perm ((nodeNames count).map keyToID)) :
    ((buildNetwork keyToID clock count).range order).Perm (networkPeers keyToID count) := by
  have hrange : (buildNetwork keyToID clock count).range ((nodeNames count).map keyToID)
      = networkPeers keyToID count := by
    rw [Network.range, List.filterMap_map, List.map_filterMap, networkPeers,
      ← List.filterMap_eq_map]
    refine List.filterMap_congr fun name hname => ?_
    have hfind : (nodeNames count).reverse.find? (fun name' => keyToID name' = keyToID name)
        = some name := by
      have hmem := List.mem_reverse.2 hname
      have hsome : ((nodeNames count).reverse.find? fun name' =>
          keyToID name' = keyToID name).isSome :=
        List.find?_isSome.2 ⟨name, hmem, by simp⟩
      obtain ⟨name', hname'⟩ := Option.isSome_iff_exists.1 hsome
      have hid : keyToID name' = keyToID name := by simpa using List.find?_some hname'
      rw [hname', List.inj_on_of_nodup_map hids
        (List.mem_reverse.1 (List.mem_of_find?_eq_some hname')) hname hid]
    simp [buildNetwork, hfind, newNode]
  rw [← hrange]
  exact (horder.filterMap _).map _

end

/-! ## The stages -/

section

variable {σ : Type} {S : Simulation σ} {net : Network} {ids : Finset NodeID}
  {readings : List Reading}

/-- The context runs out in some call. -/
def Simulation.Expires (S : Simulation σ) : Prop :=
  ∃ id, S.storeExpiry id ≠ .never ∨ S.findExpiry id ≠ .never

theorem publishReading_cases {last : String → Option (List UInt8)} {p : Peer}
    {payload : List UInt8} (h : Stored S.keyToID bucketK ids last net) (hcard : 2 ≤ ids.card)
    (hid : p.id ∈ ids) (hpayload : S.json.marshal (S.reading p.addr) = some payload) :
    (∃ net', S.publishReading net p = .ok net'
      ∧ Stored S.keyToID bucketK ids (Function.update last (sensorKey p.addr) (some payload)) net'
      ∧ ∀ id, (net'.nodes id).map Node.peer = (net.nodes id).map Node.peer)
    ∨ S.publishReading net p = .error (.iterativeStore .canceled) ∧ S.Expires := by
  have hok : (S.storeCall p payload).OK ids :=
    ⟨hid, show (1 : ℤ) ≤ 3 by decide, show (2 : ℤ) ≤ 20 by decide⟩
  have hmax : (S.storeCall p payload).alpha ≤ maxPeers := show (3 : ℤ) ≤ maxPeers by decide
  obtain ⟨out, hout, herr, -, hstored⟩ := h.storeFrom hcard (by decide) hok hmax
  have hk : 1 ≤ bucketK := by decide
  simp only [Simulation.publishReading, hpayload]
  rcases h.full.storeFrom_expiry hcard hk hok hmax (S.storeExpiry p.id) with
    hsame | ⟨out', hout', herr'⟩
  · rw [hsame, hout]
    dsimp only
    rw [herr]
    exact .inl ⟨_, rfl, hstored, peers_storeFrom hout⟩
  · refine .inr ⟨?_, p.id, .inl fun hE => ?_⟩
    · rw [hout']
      dsimp only
      rw [herr']
    · rw [hE, hout, Option.some.injEq] at hout'
      rw [← hout', herr] at herr'
      cases herr'

/-- The loop that publishes stores one reading under each key, unless the context runs out. -/
theorem foldlM_publishReading (hcard : 2 ≤ ids.card) :
    ∀ (peers : List Peer) {net : Network} {last : String → Option (List UInt8)},
      Stored S.keyToID bucketK ids last net →
      (∀ p ∈ peers, p.id ∈ ids ∧ (S.json.marshal (S.reading p.addr)).isSome) →
      (∃ net' last', peers.foldlM S.publishReading net = .ok net'
        ∧ Stored S.keyToID bucketK ids last' net'
        ∧ (∀ id, (net'.nodes id).map Node.peer = (net.nodes id).map Node.peer)
        ∧ (∀ p ∈ peers, last' (sensorKey p.addr) = S.json.marshal (S.reading p.addr))
        ∧ ∀ key, (∀ p ∈ peers, key ≠ sensorKey p.addr) → last' key = last key)
      ∨ peers.foldlM S.publishReading net = .error (.iterativeStore .canceled) ∧ S.Expires
  | [], net, last, h, _ => .inl ⟨net, last, rfl, h, fun _ => rfl, by simp, fun _ _ => rfl⟩
  | p :: peers, net, last, h, hpeers => by
    obtain ⟨hid, hsome⟩ := hpeers p List.mem_cons_self
    obtain ⟨payload, hpayload⟩ := Option.isSome_iff_exists.1 hsome
    rw [List.foldlM_cons]
    rcases publishReading_cases h hcard hid hpayload with
      ⟨net₁, hone, hstored, hsame₁⟩ | ⟨hone, hexpires⟩
    · rw [hone]
      rcases foldlM_publishReading hcard peers hstored fun q hq =>
        hpeers q (List.mem_cons_of_mem p hq) with
        ⟨net', last', hfold, hstored', hsame, hlast, hother⟩ | hexpired
      · refine .inl ⟨net', last', hfold, hstored', fun id => (hsame id).trans (hsame₁ id),
          fun q hq => ?_, fun key hkey => ?_⟩
        · by_cases hagain : ∃ q' ∈ peers, q'.addr = q.addr
          · obtain ⟨q', hq', haddr⟩ := hagain
            rw [← haddr]
            exact hlast q' hq'
          · push Not at hagain
            obtain rfl : q = p := (List.mem_cons.1 hq).resolve_right fun hq => hagain q hq rfl
            rw [hother _ fun q' hq' heq => hagain q' hq' (sensorKey_injective heq).symm,
              hpayload]
            exact Function.update_self ..
        · rw [hother key fun q hq => hkey q (List.mem_cons_of_mem p hq)]
          exact Function.update_of_ne (hkey p List.mem_cons_self) ..
      · exact .inr hexpired
    · rw [hone]
      exact .inr ⟨rfl, hexpires⟩

/-- A reading that was stored is found and passes the check of its node, unless the context runs
out. -/
theorem queryReading_cases {last : String → Option (List UInt8)} {anchor peer : Peer}
    (h : Stored S.keyToID bucketK ids last net) (hcard : 2 ≤ ids.card) (hanchor : anchor.id ∈ ids)
    (hlast : last (sensorKey peer.addr) = S.json.marshal (S.reading peer.addr))
    (hsome : (S.json.marshal (S.reading peer.addr)).isSome) :
    S.queryReading net anchor peer = .ok (S.reading peer.addr)
    ∨ S.queryReading net anchor peer = .error (.findValue .canceled) ∧ S.Expires := by
  obtain ⟨payload, hpayload⟩ := Option.isSome_iff_exists.1 hsome
  rw [hpayload] at hlast
  have halpha : (1 : ℤ) ≤ 3 := by decide
  have hmax : (3 : ℤ) ≤ maxPeers := by decide
  obtain ⟨out, hout, ⟨hvalue, herr⟩ | herr⟩ := h.findFrom_expiry hcard (by decide)
    (S.findExpiry peer.id) (S.finding peer.id) hanchor halpha hmax
    (show (3 : ℤ) ≤ 20 by decide) hlast
  · rw [Simulation.queryReading, hout]
    dsimp only
    rw [herr, hvalue, Option.bind_some, S.json.unmarshal_marshal _ _ hpayload]
    exact .inl (if_neg fun hne => hne rfl)
  · refine .inr ⟨?_, peer.id, .inr fun hE => ?_⟩
    · rw [Simulation.queryReading, hout]
      dsimp only
      rw [herr]
    · obtain ⟨out', hout', -, herr'⟩ := h.findFrom hcard (by decide) (S.finding peer.id) hanchor
        halpha hmax (show (2 : ℤ) ≤ 20 by decide) (sensorKey peer.addr)
      rw [hE, hout', Option.some.injEq] at hout
      rw [hlast] at herr'
      rw [← hout, herr'] at herr
      cases herr

theorem mapM_queryReading {anchor : Peer} {peers : List Peer}
    (h : ∀ p ∈ peers, S.queryReading net anchor p = .ok (S.reading p.addr)
      ∨ S.queryReading net anchor p = .error (.findValue .canceled) ∧ S.Expires) :
    peers.mapM (S.queryReading net anchor) = .ok (peers.map fun p => S.reading p.addr)
    ∨ peers.mapM (S.queryReading net anchor) = .error (.findValue .canceled) ∧ S.Expires := by
  induction peers with
  | nil => exact .inl rfl
  | cons p peers ih =>
    rw [List.mapM_cons]
    rcases h p List.mem_cons_self with hone | ⟨hone, hexpires⟩
    · rw [hone]
      rcases ih fun q hq => h q (List.mem_cons_of_mem p hq) with hrest | ⟨hrest, hexpires⟩
      · rw [hrest]
        exact .inl rfl
      · rw [hrest]
        exact .inr ⟨rfl, hexpires⟩
    · rw [hone]
      exact .inr ⟨rfl, hexpires⟩

/-- The first reading is in its own radius. -/
theorem runRegionQuery_eq (hne : readings ≠ [])
    (hpos : S.arithmetic.le Simulation.radiusKm S.arithmetic.zero = false)
    (hwithin : ∀ r ∈ readings, S.arithmetic.le (S.arithmetic.distanceKm r.location r.location)
      Simulation.radiusKm = true) :
    ∃ average samples, S.runRegionQuery readings = .ok (average, samples)
      ∧ 1 ≤ samples ∧ samples ≤ readings.length := by
  cases readings with
  | nil => exact absurd rfl hne
  | cons first rest =>
    rcases @averageTemperatureInRadius_cases S.arithmetic (first :: rest) first.location
      Simulation.radiusKm with ⟨-, hnil⟩ | ⟨avg, havg, -, hlen⟩
    · have hmem : first ∈ S.arithmetic.filterByRadius (first :: rest) first.location
          Simulation.radiusKm :=
        (mem_filterByRadius hpos).2 ⟨List.mem_cons_self, hwithin first List.mem_cons_self⟩
      rw [hnil] at hmem
      cases hmem
    · refine ⟨avg, _, ?_, hlen, filterByRadius_sublist.length_le⟩
      rw [Simulation.runRegionQuery, havg]

/-- Of the errors of the simulator only the last is possible, and the target is never missed: twenty
steps take the two seconds there are. -/
theorem runGossipSimulation_cases (hne : S.gossipNodes net ≠ []) :
    (∃ result, S.runGossipSimulation net = .ok result ∧ result.steps ≤ 20
      ∧ 9 / 10 ≤ result.reachedRatio)
    ∨ S.runGossipSimulation net = .error (.propagation .targetNotReached) := by
  rw [Simulation.runGossipSimulation]
  cases hnodes : S.gossipNodes net with
  | nil => exact absurd hnodes hne
  | cons first rest =>
    have haccepted : Gossip.Accepted (first :: rest) first.id 3 (9 / 10) 20 :=
      ⟨by decide, by decide +kernel, by decide +kernel, by decide,
        Gossip.mem_ids.2 ⟨first, List.mem_cons_self, rfl⟩⟩
    obtain ⟨t, err, hstops, hout⟩ := Gossip.simulatePropagation_spec S.rng S.spreadOrder
      (S.rng.newSource 42) haccepted
    have hle : t ≤ 20 := hstops.le
    dsimp only
    rw [Gossip.newSimulator, hout]
    rcases hstops.last with ⟨rfl, hreached⟩ | ⟨rfl, -⟩
    · have htime : ¬ t * 100 > 2000 := by omega
      exact .inl ⟨_, if_neg htime, hle, hreached⟩
    · exact .inr rfl

end

/-! ## The run -/

/-- The orders are orders of the nodes. -/
structure Simulation.Ranges {σ : Type} (S : Simulation σ) (ids : List NodeID) : Prop where
  publish : S.publishOrder.Perm ids
  anchor : S.anchorOrder.Perm ids
  query : S.queryOrder.Perm ids
  gossip : S.gossipOrder.Perm ids

/-- A network in which the nodes of `buildNetwork` have published their readings. -/
structure Published {σ : Type} (S : Simulation σ) (count : ℕ) (net : Network) : Prop where
  range : ∀ order, order.Perm ((nodeNames count).map S.keyToID) →
    (net.range order).Perm (networkPeers S.keyToID count)
  stored : ∃ last, Stored S.keyToID bucketK ((nodeNames count).map S.keyToID).toFinset last net
    ∧ ∀ name ∈ nodeNames count, last (sensorKey name) = S.json.marshal (S.reading name)

section

variable {σ : Type} {S : Simulation σ} {count : ℕ} {net : Network}

theorem mem_networkPeers {keyToID : String → NodeID} {p : Peer}
    (h : p ∈ networkPeers keyToID count) :
    p.addr ∈ nodeNames count ∧ p.id = keyToID p.addr := by
  obtain ⟨name, hname, rfl⟩ := List.mem_map.1 h
  exact ⟨hname, rfl⟩

theorem Published.length_range (h : Published S count net) {order : List NodeID}
    (horder : order.Perm ((nodeNames count).map S.keyToID)) :
    (net.range order).length = count := by
  rw [(h.range order horder).length_eq]
  simp [networkPeers, nodeNames]

theorem Published.ne_nil (h : Published S count net) (hcount : 2 ≤ count) {order : List NodeID}
    (horder : order.Perm ((nodeNames count).map S.keyToID)) : net.range order ≠ [] := by
  rw [← List.length_pos_iff, h.length_range horder]
  omega

theorem card_nodeIDs (hids : ((nodeNames count).map S.keyToID).Nodup) :
    ((nodeNames count).map S.keyToID).toFinset.card = count := by
  rw [List.toFinset_card_of_nodup hids]
  simp [nodeNames]

theorem published (hcount : 2 ≤ count) (hmax : (count : ℤ) ≤ bucketK + 1)
    (hids : ((nodeNames count).map S.keyToID).Nodup)
    (hzero : ∀ name ∈ nodeNames count, S.keyToID name ≠ 0)
    (horder : S.publishOrder.Perm ((nodeNames count).map S.keyToID))
    (hjson : ∀ name ∈ nodeNames count, (S.json.marshal (S.reading name)).isSome) :
    (∃ net, S.publishSensorReadings (buildNetwork S.keyToID S.clock count) = .ok net
      ∧ Published S count net)
    ∨ S.publishSensorReadings (buildNetwork S.keyToID S.clock count)
        = .error (.iterativeStore .canceled) ∧ S.Expires := by
  obtain ⟨hfull, hempty⟩ := buildNetwork_full S.keyToID S.clock hzero hmax
  have hcard := (card_nodeIDs hids).ge.trans' hcount
  have hstart : Stored S.keyToID bucketK ((nodeNames count).map S.keyToID).toFinset
      (lastStored []) (buildNetwork S.keyToID S.clock count) :=
    stored_afterStores S.keyToID hfull hempty hcard (by decide) [] (by simp) rfl
  have hrange : ((buildNetwork S.keyToID S.clock count).range S.publishOrder).Perm
      (networkPeers S.keyToID count) := range_buildNetwork hids horder
  have hpeers : ∀ p ∈ (buildNetwork S.keyToID S.clock count).range S.publishOrder,
      p.id ∈ ((nodeNames count).map S.keyToID).toFinset
        ∧ (S.json.marshal (S.reading p.addr)).isSome := by
    intro p hp
    obtain ⟨hname, hid⟩ := mem_networkPeers (hrange.mem_iff.1 hp)
    rw [hid]
    exact ⟨List.mem_toFinset.2 (List.mem_map_of_mem hname), hjson _ hname⟩
  rcases foldlM_publishReading hcard _ hstart hpeers with
    ⟨net, last, hpublish, hstored, hsame, hlast, -⟩ | hexpired
  · refine .inl ⟨net, hpublish, fun order horder => ?_, last, hstored, fun name hname => ?_⟩
    · rw [Network.range_congr order hsame]
      exact range_buildNetwork hids horder
    · exact hlast _ (hrange.mem_iff.2 (List.mem_map_of_mem hname))
  · exact .inr hexpired

theorem Published.verify (h : Published S count net) (hcount : 2 ≤ count)
    (hids : ((nodeNames count).map S.keyToID).Nodup)
    (hranges : S.Ranges ((nodeNames count).map S.keyToID))
    (hjson : ∀ name ∈ nodeNames count, (S.json.marshal (S.reading name)).isSome) :
    S.verifySensorQueries net = .ok ((net.range S.queryOrder).map fun p => S.reading p.addr)
    ∨ S.verifySensorQueries net = .error (.findValue .canceled) ∧ S.Expires := by
  obtain ⟨last, hstored, hlast⟩ := h.stored
  rw [Simulation.verifySensorQueries]
  cases hanchor : net.range S.anchorOrder with
  | nil => exact absurd hanchor (h.ne_nil hcount hranges.anchor)
  | cons anchor rest =>
    have hmem := (h.range _ hranges.anchor).mem_iff.1 (hanchor ▸ List.mem_cons_self)
    obtain ⟨hname, hid⟩ := mem_networkPeers hmem
    refine mapM_queryReading fun p hp => ?_
    obtain ⟨hp, -⟩ := mem_networkPeers ((h.range _ hranges.query).mem_iff.1 hp)
    refine queryReading_cases hstored ((card_nodeIDs hids).ge.trans' hcount) ?_ (hlast _ hp)
      (hjson _ hp)
    rw [hid]
    exact List.mem_toFinset.2 (List.mem_map_of_mem hname)

/-- Whatever the orders, the clock and the random numbers, every published reading is read back,
the average is taken over at least one of them, and the gossip reaches nine tenths of the nodes
within the two seconds. Otherwise the simulator gives up after its twenty steps, or the context runs
out in a store or a lookup; there is no other error. -/
theorem simulation_reports (hcount : 2 ≤ count) (hmax : (count : ℤ) ≤ bucketK + 1)
    (hids : ((nodeNames count).map S.keyToID).Nodup)
    (hzero : ∀ name ∈ nodeNames count, S.keyToID name ≠ 0)
    (hranges : S.Ranges ((nodeNames count).map S.keyToID))
    (hjson : ∀ name ∈ nodeNames count, (S.json.marshal (S.reading name)).isSome)
    (hpos : S.arithmetic.le Simulation.radiusKm S.arithmetic.zero = false)
    (hwithin : ∀ name, S.arithmetic.le (S.arithmetic.distanceKm (S.locationFromSeed name)
      (S.locationFromSeed name)) Simulation.radiusKm = true) :
    (∃ report, S.main count = .ok report
      ∧ report.readings.Perm ((nodeNames count).map S.reading)
      ∧ 1 ≤ report.samples ∧ report.samples ≤ count
      ∧ report.gossip.steps ≤ 20 ∧ 9 / 10 ≤ report.gossip.reachedRatio)
    ∨ S.main count = .error (.propagation .targetNotReached)
    ∨ (S.main count = .error (.iterativeStore .canceled)
      ∨ S.main count = .error (.findValue .canceled)) ∧ S.Expires := by
  rcases published hcount hmax hids hzero hranges.publish hjson with
    ⟨net, hpublish, hnet⟩ | ⟨hpublish, hexpires⟩
  swap
  · refine .inr (.inr ⟨.inl ?_, hexpires⟩)
    rw [Simulation.main, hpublish]
    rfl
  rcases hnet.verify hcount hids hranges hjson with hverify | ⟨hverify, hexpires⟩
  swap
  · refine .inr (.inr ⟨.inr ?_, hexpires⟩)
    rw [Simulation.main, hpublish]
    change (S.verifySensorQueries net >>= _) = _
    rw [hverify]
    rfl
  have hne : (net.range S.queryOrder).map (fun p => S.reading p.addr) ≠ [] :=
    List.map_eq_nil_iff.not.2 (hnet.ne_nil hcount hranges.query)
  obtain ⟨average, samples, hregion, hone, hle⟩ := runRegionQuery_eq hne hpos (by
      intro r hr
      obtain ⟨p, -, rfl⟩ := List.mem_map.1 hr
      exact hwithin p.addr)
  rw [List.length_map, hnet.length_range hranges.query] at hle
  have hmain : S.main count = (S.runGossipSimulation net).map fun result =>
      ⟨(net.range S.queryOrder).map fun p => S.reading p.addr, average, samples, result⟩ := by
    rw [Simulation.main, hpublish]
    change (S.verifySensorQueries net >>= _) = _
    rw [hverify]
    change (S.runRegionQuery _ >>= _) = _
    rw [hregion]
    cases S.runGossipSimulation net <;> rfl
  rw [hmain]
  rcases runGossipSimulation_cases (S := S)
    (List.map_eq_nil_iff.not.2 (hnet.ne_nil hcount hranges.gossip)) with
    ⟨result, hresult, hsteps, hratio⟩ | hmissed
  · refine .inl ⟨_, by rw [hresult]; rfl, ?_, hone, hle, hsteps, hratio⟩
    have hperm := (hnet.range _ hranges.query).map fun p => S.reading p.addr
    rwa [networkPeers, List.map_map] at hperm
  · exact .inr (.inl (by rw [hmissed]; rfl))

/-- The two readings of a network of two, and a JSON for them. -/
def twoReadings : Json Reading where
  marshal r :=
    if r = ⟨"node-1", 0, ⟨0, 0⟩, 0⟩ then some [1]
    else if r = ⟨"node-2", 0, ⟨0, 0⟩, 0⟩ then some [2] else none
  unmarshal data :=
    if data = [1] then some ⟨"node-1", 0, ⟨0, 0⟩, 0⟩
    else if data = [2] then some ⟨"node-2", 0, ⟨0, 0⟩, 0⟩ else none
  unmarshal_marshal x data h := by
    split_ifs at h with h1 h2
    · rw [h1, ← Option.some.inj h]
      rfl
    · rw [h2, ← Option.some.inj h]
      rfl

/-- A run with two nodes, in an order that changes. -/
def twoNodes : Simulation ℕ where
  keyToID name := if name = "node-1" then .ofNat 1 else .ofNat 2
  json := twoReadings
  temperature _ := 0
  locationFromSeed _ := ⟨0, 0⟩
  now _ := 0
  clock _ _ := 0
  arithmetic :=
    { parse := fun _ => none, le := fun x y => x ≤ y, zero := 0, add := fun _ _ => 0
      div := fun _ _ => 0, ofInt := fun _ => 0, distanceKm := fun _ _ => 0 }
  publishOrder := [.ofNat 1, .ofNat 2]
  anchorOrder := [.ofNat 2, .ofNat 1]
  queryOrder := [.ofNat 1, .ofNat 2]
  gossipOrder := [.ofNat 2, .ofNat 1]
  storing _ := .plain
  storeExpiry _ := .never
  finding _ := .plain
  findExpiry id := if id = .ofNat 2 then .atRequest 1 else .never
  listing _ := .plain
  rng := .reversedAt 0
  spreadOrder := .listed []

theorem simulation_reports_two :
    (∃ report, twoNodes.main 2 = .ok report
      ∧ report.readings.Perm ((nodeNames 2).map twoNodes.reading)
      ∧ 1 ≤ report.samples ∧ report.samples ≤ 2
      ∧ report.gossip.steps ≤ 20 ∧ 9 / 10 ≤ report.gossip.reachedRatio)
    ∨ twoNodes.main 2 = .error (.propagation .targetNotReached)
    ∨ (twoNodes.main 2 = .error (.iterativeStore .canceled)
      ∨ twoNodes.main 2 = .error (.findValue .canceled)) ∧ twoNodes.Expires :=
  simulation_reports le_rfl (by decide) (by decide +kernel) (by decide +kernel)
    ⟨by decide +kernel, by decide +kernel, by decide +kernel, by decide +kernel⟩
    (by decide +kernel) (by decide +kernel) fun _ => rfl

end

end EdgeSim.Dht
