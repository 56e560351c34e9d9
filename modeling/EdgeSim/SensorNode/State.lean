import EdgeSim.Coordinator.ReadingStore
import EdgeSim.SensorNode.Message
import Mathlib.Data.List.Sort

/-!
# A sensor node and its gossip

`nodeState` and the gossip code of `cmd/node`, with the coordinator's `handleGossipConn` up to the
point where a reading is stored or handed to Raft. `handleGossipMessage` takes the state's lock four
times, so it is cut where it lets go of it: `checkGossipMessage`, `setReading`,
`selectGossipTargets`, and then a frame at a time. Base64 and JSON are a `Codec`; times a peer or a
message was seen are not read by this code.
-/

namespace EdgeSim.SensorNode

open Coordinator (Reading ReadingStore)

/-- Base64 over `sensor.EncodeReading`, and back. Base64 has no spaces and no bars. -/
structure Codec where
  encode : Reading → Option Text
  decode : Text → Option Reading
  decode_encode : ∀ {reading payload}, encode reading = some payload → decode payload = some reading
  clean : ∀ {reading payload}, encode reading = some payload → Clean payload

structure Config where
  nodeID : Text
  coordinatorAddr : Text
  gossipFanout : ℤ
  gossipTTL : ℤ
  gossipTTL_int : IsInt64 gossipTTL

/-- A config with the fanout and the time to live that `loadConfig` falls back to. -/
def Config.default (nodeID : Text) : Config := ⟨nodeID, [], 3, 3, by decide⟩

/-- The keys of the map of peers. -/
structure PeerMap where
  addrs : List Text
  nodup : addrs.Nodup

def PeerMap.insert (p : PeerMap) (addr : Text) : PeerMap where
  addrs := if addr ∈ p.addrs then p.addrs else addr :: p.addrs
  nodup := by
    split_ifs with h
    · exact p.nodup
    · exact p.nodup.cons h

structure NodeState where
  selfAddr : Text
  peers : PeerMap
  readings : Finmap fun _ : String => Reading
  seenGossip : Finset Text

namespace NodeState

/-- The state that a node starts with. -/
def init (selfAddr : Text) : NodeState := ⟨selfAddr, ⟨[], List.nodup_nil⟩, ∅, ∅⟩

def upsertPeer (s : NodeState) (addr : Text) : NodeState :=
  if addr = [] then s else { s with peers := s.peers.insert addr }

def peerAddrs (s : NodeState) : List Text :=
  (s.selfAddr :: s.peers.addrs).insertionSort (· ≤ ·)

def setReading (s : NodeState) (reading : Reading) : NodeState :=
  { s with readings := s.readings.insert reading.nodeID reading }

def shouldProcessGossip (s : NodeState) (messageID : Text) : NodeState × Bool :=
  if messageID ∈ s.seenGossip then (s, false)
  else ({ s with seenGossip := insert messageID s.seenGossip }, true)

end NodeState

/-- The addresses that `selectGossipTargets` chooses from. -/
def gossipTargets (s : NodeState) (coordinatorAddr : Text) : List Text :=
  let peers := if coordinatorAddr = [] then s.peerAddrs else s.peerAddrs ++ [coordinatorAddr]
  peers.filter fun peer => peer ≠ s.selfAddr

/-- `indices` is what `rng.Perm` returns. -/
def selectGossipTargets (indices : List ℕ) (s : NodeState) (coordinatorAddr : Text) (fanout : ℤ) :
    List Text :=
  let filtered := gossipTargets s coordinatorAddr
  if fanout ≤ 0 ∨ filtered.length = 0 then []
  else if fanout ≥ filtered.length then filtered
  else (indices.take fanout.toNat).filterMap fun i => filtered[i]?

/-- `sha256` is `sha256.Sum256`; the time is in nanoseconds. -/
def gossipMessageID (sha256 : Text → List UInt8) (nodeID : Text) (timestamp : ℤ) : Text :=
  hexEncode ((sha256 (nodeID ++ '-'.toUInt8 :: formatInt timestamp)).take 8)

/-- `gossipBroadcast` up to the choice of targets, and the message it then sends. -/
def gossipBroadcast (codec : Codec) (sha256 : Text → List UInt8) (cfg : Config) (s : NodeState)
    (reading : Reading) : NodeState × Option Msg :=
  match codec.encode reading with
  | none => (s, none)
  | some encoded =>
    let messageID := gossipMessageID sha256 cfg.nodeID reading.timestamp
    ((s.shouldProcessGossip messageID).1, some ⟨messageID, cfg.gossipTTL, encoded⟩)

/-- `handleGossipMessage` up to `setReading`: the message and its reading if it goes on. -/
def checkGossipMessage (codec : Codec) (s : NodeState) (parts : List Text) :
    NodeState × Option (Msg × Reading) :=
  match parts with
  | messageID :: ttl :: payload :: _ =>
    match s.shouldProcessGossip messageID with
    | (s, false) => (s, none)
    | (s, true) =>
      match atoi ttl with
      | none => (s, none)
      | some ttl =>
        if ttl < 0 then (s, none)
        else
          match codec.decode payload with
          | none => (s, none)
          | some reading => (s, some (⟨messageID, ttl, payload⟩, reading))
  | _ => (s, none)

/-- What a node that has stored the reading sends on. -/
def Msg.forward (m : Msg) : Msg := { m with ttl := m.ttl - 1 }

/-- The state after the message, and the addresses and texts of the frames it sends. -/
def handleGossipMessage (codec : Codec) (cfg : Config) (indices : List ℕ) (s : NodeState)
    (parts : List Text) : NodeState × List (Text × Text) :=
  match checkGossipMessage codec s parts with
  | (s, none) => (s, [])
  | (s, some (msg, reading)) =>
    let s := s.setReading reading
    if msg.ttl = 0 then (s, [])
    else
      (s, (selectGossipTargets indices s cfg.coordinatorAddr cfg.gossipFanout).map fun addr =>
        (addr, msg.forward.format))

/-- The part of `handleConn` that reads a gossip message off a payload. -/
def gossipParts (payload : Text) : Option (List Text) :=
  let message := trimSpace payload
  if message = [] then none
  else
    match parseMessage message with
    | (msgType, parts) => if msgType = gossipMsgType then some parts else none

/-- `handleGossipConn` up to `storeAndLog` or Raft: the ID and the reading, if there is one. -/
def coordinatorReading (codec : Codec) (payload : Text) : Option (Text × Reading) :=
  match coordinatorParseMessage payload with
  | (msgType, messageID :: _ :: encoded :: _) =>
    if msgType ≠ gossipMsgType then none
    else (codec.decode encoded).map fun reading => (messageID, reading)
  | _ => none

/-! ## What the functions do -/

section

variable {codec : Codec} {s : NodeState} {m : Msg} {indices : List ℕ} {addr coordinatorAddr : Text}
  {fanout : ℤ}

theorem length_selectGossipTargets (indices : List ℕ) (s : NodeState) (coordinatorAddr : Text)
    (fanout : ℤ) :
    ((selectGossipTargets indices s coordinatorAddr fanout).length : ℤ) ≤ max fanout 0 := by
  unfold selectGossipTargets
  dsimp only
  split_ifs with h0 hlen
  · simp
  · omega
  · have := (List.length_filterMap_le (fun i => (gossipTargets s coordinatorAddr)[i]?)
      (indices.take fanout.toNat))
    have := List.length_take_le fanout.toNat indices
    omega

/-- With a fanout for all of them, every target is chosen. -/
theorem selectGossipTargets_all (h : (gossipTargets s coordinatorAddr).length ≤ fanout) :
    selectGossipTargets indices s coordinatorAddr fanout = gossipTargets s coordinatorAddr := by
  unfold selectGossipTargets
  dsimp only
  split_ifs with h0
  · have hnil : gossipTargets s coordinatorAddr = [] := List.eq_nil_of_length_eq_zero (by omega)
    rw [hnil]
  · rfl

theorem gossipTargets_congr {s' : NodeState} (hself : s'.selfAddr = s.selfAddr)
    (hpeers : s'.peers = s.peers) (coordinatorAddr : Text) :
    gossipTargets s' coordinatorAddr = gossipTargets s coordinatorAddr := by
  simp only [gossipTargets, NodeState.peerAddrs, hself, hpeers]

theorem checkGossipMessage_seen {parts : List Text} (h : m.id ∈ s.seenGossip)
    (hparts : parts.head? = some m.id) : checkGossipMessage codec s parts = (s, none) := by
  rcases parts with _ | ⟨messageID, _ | ⟨ttl, _ | ⟨payload, rest⟩⟩⟩
  · rfl
  · rfl
  · rfl
  · simp only [List.head?_cons, Option.some.injEq] at hparts
    subst hparts
    simp only [checkGossipMessage, NodeState.shouldProcessGossip, if_pos h]

theorem checkGossipMessage_new {ttl : Text} {rest : List Text} {reading : Reading}
    (h : m.id ∉ s.seenGossip) (httl : atoi ttl = some m.ttl) (h0 : 0 ≤ m.ttl)
    (hdecode : codec.decode m.payload = some reading) :
    checkGossipMessage codec s (m.id :: ttl :: m.payload :: rest)
      = ({ s with seenGossip := insert m.id s.seenGossip }, some (m, reading)) := by
  simp only [checkGossipMessage, NodeState.shouldProcessGossip, if_neg h, httl, hdecode,
    if_neg (not_lt.2 h0)]

/-- A message is marked as seen whether or not it passes. -/
theorem checkGossipMessage_rejected {ttl : Text} {rest : List Text}
    (h : m.id ∉ s.seenGossip) (httl : atoi ttl = some m.ttl)
    (hbad : m.ttl < 0 ∨ codec.decode m.payload = none) :
    checkGossipMessage codec s (m.id :: ttl :: m.payload :: rest)
      = ({ s with seenGossip := insert m.id s.seenGossip }, none) := by
  simp only [checkGossipMessage, NodeState.shouldProcessGossip, if_neg h, httl]
  split_ifs with h0
  · rfl
  · rw [hbad.resolve_left h0]

theorem checkGossipMessage_fst (codec : Codec) (s : NodeState) (parts : List Text) :
    ∃ seen, (checkGossipMessage codec s parts).1 = { s with seenGossip := seen } := by
  unfold checkGossipMessage NodeState.shouldProcessGossip
  split
  · rename_i messageID ttl payload rest
    by_cases h : messageID ∈ s.seenGossip
    · rw [if_pos h]
      exact ⟨s.seenGossip, rfl⟩
    · rw [if_neg h]
      refine ⟨insert messageID s.seenGossip, ?_⟩
      dsimp only
      split
      · rfl
      · split_ifs
        · rfl
        · split <;> rfl
  · exact ⟨s.seenGossip, rfl⟩

theorem Msg.WF.gossipParts (h : m.WF) :
    gossipParts m.format = some [m.id, formatInt m.ttl, m.payload] := by
  rw [SensorNode.gossipParts]
  dsimp only
  rw [h.trimSpace, if_neg, h.parseMessage]
  · dsimp only
    rw [if_pos rfl]
  · simp [Msg.format]

theorem Msg.WF.coordinatorReading (h : m.WF) :
    coordinatorReading codec m.format
      = (codec.decode m.payload).map fun reading => (m.id, reading) := by
  rw [SensorNode.coordinatorReading, h.coordinatorParseMessage]
  dsimp only
  rw [if_neg (not_not_intro rfl)]

theorem gossipBroadcast_eq {sha256 : Text → List UInt8} {cfg : Config} {reading : Reading}
    {encoded : Text} (h : codec.encode reading = some encoded) :
    gossipBroadcast codec sha256 cfg s reading
      = ({ s with
          seenGossip := insert (gossipMessageID sha256 cfg.nodeID reading.timestamp) s.seenGossip },
        some ⟨gossipMessageID sha256 cfg.nodeID reading.timestamp, cfg.gossipTTL, encoded⟩) := by
  simp only [gossipBroadcast, h, NodeState.shouldProcessGossip]
  split_ifs with hseen
  · rw [Finset.insert_eq_of_mem hseen]
  · rfl

/-- What a broadcast sends can be told apart. -/
theorem wf_gossipBroadcast {sha256 : Text → List UInt8} {cfg : Config} {reading : Reading}
    {encoded : Text} (h : codec.encode reading = some encoded) :
    Msg.WF ⟨gossipMessageID sha256 cfg.nodeID reading.timestamp, cfg.gossipTTL, encoded⟩ :=
  ⟨clean_hexEncode _, cfg.gossipTTL_int, codec.clean h⟩

theorem Msg.WF.forward (h : m.WF) (h0 : 0 ≤ m.ttl) : m.forward.WF := by
  refine ⟨h.id, ⟨?_, ?_⟩, h.payload⟩
  · simp only [Msg.forward]
    omega
  · have := h.ttl.2
    simp only [Msg.forward]
    omega

end

/-! ## A codec for finitely many readings -/

/-- The codec that knows the readings of a table and no others. -/
def Codec.table (entries : List (Reading × Text)) (clean : ∀ e ∈ entries, Clean e.2)
    (inj : ∀ e ∈ entries, ∀ e' ∈ entries, e.2 = e'.2 → e.1 = e'.1) : Codec where
  encode reading := (entries.find? fun e => e.1 = reading).map Prod.snd
  decode payload := (entries.find? fun e => e.2 = payload).map Prod.fst
  decode_encode := by
    intro reading payload h
    obtain ⟨e, he, rfl⟩ := Option.map_eq_some_iff.1 h
    have hmem := List.mem_of_find?_eq_some he
    have hreading : e.1 = reading := by simpa using List.find?_some he
    obtain ⟨e', he'⟩ := Option.isSome_iff_exists.1
      (List.find?_isSome.2 ⟨e, hmem, by simp⟩ : (entries.find? fun x => x.2 = e.2).isSome = true)
    have hpayload : e'.2 = e.2 := by simpa using List.find?_some he'
    rw [he', Option.map_some, ← hreading, inj e' (List.mem_of_find?_eq_some he') e hmem hpayload]
  clean := by
    intro reading payload h
    obtain ⟨e, he, rfl⟩ := Option.map_eq_some_iff.1 h
    exact clean e (List.mem_of_find?_eq_some he)

/-- Twenty degrees at the origin. -/
def readingAt (timestamp : ℤ) : Reading := ⟨"a", 0x4034000000000000, ⟨0, 0⟩, timestamp⟩

/-- The base64 text of the reading one nanosecond after the epoch. -/
def payloadAt1 : Text :=
  bytesOf ("eyJOb2RlSUQiOiJhIiwiVGVtcGVyYXR1cmVDIjoyMCwiTG9jYXRpb24iOnsiTGF0aXR1ZGUiOjAsIkxvbmdpdH"
    ++ "VkZSI6MH0sIlRpbWVzdGFtcCI6IjE5NzAtMDEtMDFUMDA6MDA6MDAuMDAwMDAwMDAxWiJ9")

/-- The base64 text of the reading two nanoseconds after the epoch. -/
def payloadAt2 : Text :=
  bytesOf ("eyJOb2RlSUQiOiJhIiwiVGVtcGVyYXR1cmVDIjoyMCwiTG9jYXRpb24iOnsiTGF0aXR1ZGUiOjAsIkxvbmdpdH"
    ++ "VkZSI6MH0sIlRpbWVzdGFtcCI6IjE5NzAtMDEtMDFUMDA6MDA6MDAuMDAwMDAwMDAyWiJ9")

instance (s : Text) : Decidable (Clean s) := List.decidableBAll _ s

def codecAt12 : Codec :=
  Codec.table [(readingAt 1, payloadAt1), (readingAt 2, payloadAt2)]
    (by decide +kernel) (by decide +kernel)

end EdgeSim.SensorNode
