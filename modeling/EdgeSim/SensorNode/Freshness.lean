import EdgeSim.SensorNode.State

/-!
# Which reading of a sensor is kept

Neither `setReading` nor `upsert` looks at a timestamp: a store holds, for every sensor, the reading
that came last (`lookup_storeAll`). A node handles a message of every ID once, so what it holds
depends on the order of the messages it had not seen (`readings_handleAll`).
-/

namespace EdgeSim.SensorNode

open Coordinator (Reading ReadingStore)

/-- A message that passes the checks of `handleGossipMessage`. -/
structure GossipMessage (codec : Codec) where
  msg : Msg
  ttl : Text
  rest : List Text
  reading : Reading
  atoi_ttl : atoi ttl = some msg.ttl
  ttl_nonneg : 0 ≤ msg.ttl
  decode_payload : codec.decode msg.payload = some reading

def GossipMessage.parts {codec : Codec} (g : GossipMessage codec) : List Text :=
  g.msg.id :: g.ttl :: g.msg.payload :: g.rest

/-- Messages handled one after the other, each with the indices drawn while it is handled. -/
def handleAll (codec : Codec) (cfg : Config) (s : NodeState)
    (order : List (List ℕ × GossipMessage codec)) : NodeState :=
  order.foldl (fun s d => (handleGossipMessage codec cfg d.1 s d.2.parts).1) s

def upsertAll (store : ReadingStore) (readings : List Reading) : ReadingStore :=
  readings.foldl (fun store reading => (store.upsert reading).1) store

/-- The readings of the messages that the node had not seen. -/
def received {codec : Codec} (s : NodeState) (order : List (List ℕ × GossipMessage codec)) :
    List Reading :=
  (order.filter fun d => d.2.msg.id ∉ s.seenGossip).map fun d => d.2.reading

/-- The last of the readings of a sensor. -/
def lastReading (readings : List Reading) (sensor : String) : Option Reading :=
  readings.reverse.find? fun reading => reading.nodeID = sensor

/-- A reading of the sensor with the greatest timestamp. -/
structure IsLatest (readings : List Reading) (sensor : String) (reading : Reading) : Prop where
  mem : reading ∈ readings
  nodeID : reading.nodeID = sensor
  le : ∀ other ∈ readings, other.nodeID = sensor → other.timestamp ≤ reading.timestamp

/-- What is held after readings, and after the same readings in another order. -/
structure KeepsLast (before after after' : Finmap fun _ : String => Reading)
    (readings readings' : List Reading) : Prop where
  lookup : ∀ sensor, after.lookup sensor = (lastReading readings sensor).or (before.lookup sensor)
  latest : ∀ sensor reading, IsLatest readings sensor reading →
    (after.lookup sensor = some reading ↔ lastReading readings sensor = some reading)
  eq_iff : after' = after ↔ ∀ sensor, lastReading readings' sensor = lastReading readings sensor

/-! ## Storing readings in order -/

def storeAll (readings : List Reading) (m : Finmap fun _ : String => Reading) :
    Finmap fun _ : String => Reading :=
  readings.foldl (fun m reading => m.insert reading.nodeID reading) m

section Store

variable {readings readings' : List Reading} {m : Finmap fun _ : String => Reading}
  {sensor : String}

theorem lastReading_append (reading : Reading) :
    lastReading (readings ++ [reading]) sensor
      = if reading.nodeID = sensor then some reading else lastReading readings sensor := by
  simp only [lastReading, List.reverse_append, List.reverse_singleton, List.singleton_append,
    List.find?_cons]
  split_ifs with h
  · simp [h]
  · simp [h]

theorem storeAll_append (reading : Reading) :
    storeAll (readings ++ [reading]) m = (storeAll readings m).insert reading.nodeID reading := by
  simp [storeAll]

/-- The last reading of a sensor is kept. -/
theorem lookup_storeAll (readings : List Reading) (m : Finmap fun _ : String => Reading)
    (sensor : String) :
    (storeAll readings m).lookup sensor = (lastReading readings sensor).or (m.lookup sensor) := by
  induction readings using List.reverseRecOn with
  | nil => rfl
  | append_singleton readings reading ih =>
    rw [storeAll_append, lastReading_append]
    split_ifs with h
    · rw [← h, Finmap.lookup_insert]
      rfl
    · rw [Finmap.lookup_insert_of_ne _ fun h' => h h'.symm, ih]

theorem isSome_lastReading_iff :
    (lastReading readings sensor).isSome ↔ ∃ reading ∈ readings, reading.nodeID = sensor := by
  simp [lastReading]

theorem lookup_eq_some_iff_of_isLatest {reading : Reading} (h : IsLatest readings sensor reading) :
    (storeAll readings m).lookup sensor = some reading
      ↔ lastReading readings sensor = some reading := by
  obtain ⟨last, hlast⟩ := Option.isSome_iff_exists.1
    (isSome_lastReading_iff.2 ⟨reading, h.mem, h.nodeID⟩)
  rw [lookup_storeAll, hlast]
  rfl

/-- Two orders leave the same map exactly when they agree on every sensor's last reading. -/
theorem storeAll_eq_iff (hperm : readings'.Perm readings) :
    storeAll readings' m = storeAll readings m
      ↔ ∀ sensor, lastReading readings' sensor = lastReading readings sensor := by
  constructor
  · intro heq sensor
    have hlookup := congrArg (Finmap.lookup sensor) heq
    rw [lookup_storeAll, lookup_storeAll] at hlookup
    have hsome : (lastReading readings' sensor).isSome ↔ (lastReading readings sensor).isSome := by
      simp only [isSome_lastReading_iff, hperm.mem_iff]
    cases h' : lastReading readings' sensor with
    | none =>
      cases h : lastReading readings sensor with
      | none => rfl
      | some reading => simp [h, h'] at hsome
    | some reading' =>
      cases h : lastReading readings sensor with
      | none => simp [h, h'] at hsome
      | some reading => simpa [h, h'] using hlookup
  · intro hlast
    refine Finmap.ext_lookup fun sensor => ?_
    rw [lookup_storeAll, lookup_storeAll, hlast]

theorem keepsLast_storeAll (hperm : readings'.Perm readings) :
    KeepsLast m (storeAll readings m) (storeAll readings' m) readings readings' where
  lookup := lookup_storeAll readings m
  latest _ _ := lookup_eq_some_iff_of_isLatest
  eq_iff := storeAll_eq_iff hperm

theorem readings_upsertAll (store : ReadingStore) (readings : List Reading) :
    (upsertAll store readings).readings = storeAll readings store.readings := by
  induction readings using List.reverseRecOn with
  | nil => rfl
  | append_singleton readings reading ih =>
    have hupsert (store : ReadingStore) :
        (store.upsert reading).1.readings = store.readings.insert reading.nodeID reading := by
      unfold ReadingStore.upsert
      dsimp only
      split_ifs
      · rfl
      · rfl
    rw [storeAll_append, ← ih, ← hupsert]
    simp [upsertAll]

end Store

/-! ## Handling messages in order -/

section Handle

variable {codec : Codec} {cfg : Config} {s : NodeState} {g : GossipMessage codec} {indices : List ℕ}

theorem handleGossipMessage_seen (h : g.msg.id ∈ s.seenGossip) :
    (handleGossipMessage codec cfg indices s g.parts).1 = s := by
  rw [handleGossipMessage, checkGossipMessage_seen h rfl]

theorem handleGossipMessage_new (h : g.msg.id ∉ s.seenGossip) :
    (handleGossipMessage codec cfg indices s g.parts).1
      = { s with
          seenGossip := insert g.msg.id s.seenGossip
          readings := s.readings.insert g.reading.nodeID g.reading } := by
  rw [handleGossipMessage, GossipMessage.parts,
    checkGossipMessage_new h g.atoi_ttl g.ttl_nonneg g.decode_payload]
  dsimp only
  split_ifs
  · rfl
  · rfl

theorem readings_handleAll :
    ∀ (order : List (List ℕ × GossipMessage codec)) (s : NodeState),
      (order.map fun d => d.2.msg.id).Nodup →
      (handleAll codec cfg s order).readings = storeAll (received s order) s.readings
  | [], s, _ => rfl
  | d :: order, s, hid => by
    rw [List.map_cons, List.nodup_cons] at hid
    have ih := readings_handleAll order (handleGossipMessage codec cfg d.1 s d.2.parts).1 hid.2
    rw [handleAll, List.foldl_cons, ← handleAll, ih]
    by_cases h : d.2.msg.id ∈ s.seenGossip
    · rw [handleGossipMessage_seen h, received, received,
        List.filter_cons_of_neg (by simpa using h)]
    · -- the other messages have other IDs, so they are no less new than before
      have hrest : ∀ e ∈ order, (e.2.msg.id ∉ insert d.2.msg.id s.seenGossip)
          ↔ e.2.msg.id ∉ s.seenGossip := by
        intro e he
        have hne : e.2.msg.id ≠ d.2.msg.id := by
          intro heq
          exact hid.1 (heq ▸ List.mem_map_of_mem he)
        simp [hne]
      rw [handleGossipMessage_new h, received, received, List.filter_cons_of_pos (by simpa using h),
        List.filter_congr fun e he => decide_eq_decide.2 (hrest e he)]
      rfl

theorem received_perm {order order' : List (List ℕ × GossipMessage codec)}
    (hperm : (order'.map Prod.snd).Perm (order.map Prod.snd)) :
    (received s order').Perm (received s order) := by
  have heq (order : List (List ℕ × GossipMessage codec)) :
      received s order
        = ((order.map Prod.snd).filter fun g => g.msg.id ∉ s.seenGossip).map
          fun g => g.reading := by
    rw [received, List.filter_map, List.map_map]
    rfl
  rw [heq, heq]
  exact (hperm.filter _).map _

end Handle

/-- A node that handles messages with distinct IDs, in two orders, and a coordinator that stores
readings in two orders: each keeps the last reading of every sensor. -/
theorem last_reading_kept (codec : Codec) (cfg : Config) (s : NodeState)
    (order order' : List (List ℕ × GossipMessage codec))
    (hid : (order.map fun d => d.2.msg.id).Nodup)
    (hperm : (order'.map Prod.snd).Perm (order.map Prod.snd)) :
    KeepsLast s.readings (handleAll codec cfg s order).readings
        (handleAll codec cfg s order').readings (received s order) (received s order')
      ∧ ∀ (store : ReadingStore) (readings readings' : List Reading), readings'.Perm readings →
        KeepsLast store.readings (upsertAll store readings).readings
          (upsertAll store readings').readings readings readings' := by
  have hid' : (order'.map fun d => d.2.msg.id).Nodup := by
    have hids : (order'.map fun d => d.2.msg.id).Perm (order.map fun d => d.2.msg.id) := by
      simpa [List.map_map, Function.comp_def] using hperm.map fun g => g.msg.id
    exact hids.nodup_iff.2 hid
  constructor
  · rw [readings_handleAll order s hid, readings_handleAll order' s hid']
    exact keepsLast_storeAll (received_perm hperm)
  · intro store readings readings' hreadings
    rw [readings_upsertAll, readings_upsertAll]
    exact keepsLast_storeAll hreadings

/-! ## Two readings of one sensor -/

def messageAt1 : GossipMessage codecAt12 where
  msg := ⟨bytesOf "2f8fe63a6224321d", 0, payloadAt1⟩
  ttl := bytesOf "0"
  rest := []
  reading := readingAt 1
  atoi_ttl := by decide +kernel
  ttl_nonneg := le_rfl
  decode_payload := by decide +kernel

def messageAt2 : GossipMessage codecAt12 where
  msg := ⟨bytesOf "d72e654c3645b02d", 0, payloadAt2⟩
  ttl := bytesOf "0"
  rest := []
  reading := readingAt 2
  atoi_ttl := by decide +kernel
  ttl_nonneg := le_rfl
  decode_payload := by decide +kernel

theorem last_reading_kept_pair :
    KeepsLast ∅
      (handleAll codecAt12 (.default []) (.init [])
        [([], messageAt1), ([], messageAt2)]).readings
      (handleAll codecAt12 (.default []) (.init [])
        [([], messageAt2), ([], messageAt1)]).readings
      [readingAt 1, readingAt 2] [readingAt 2, readingAt 1] :=
  (last_reading_kept codecAt12 (.default []) (.init []) [([], messageAt1), ([], messageAt2)]
    [([], messageAt2), ([], messageAt1)] (by decide +kernel) (List.Perm.swap _ _ _)).1

/-- The messages in the order of their times leave the newer reading, in the other order the older
one, on a node as on a coordinator. -/
theorem older_reading_kept :
    messageAt1.msg.id ≠ messageAt2.msg.id
      ∧ messageAt1.reading.timestamp < messageAt2.reading.timestamp
      ∧ (handleAll codecAt12 (.default []) (.init [])
          [([], messageAt1), ([], messageAt2)]).readings.lookup "a" = some messageAt2.reading
      ∧ (handleAll codecAt12 (.default []) (.init [])
          [([], messageAt2), ([], messageAt1)]).readings.lookup "a" = some messageAt1.reading
      ∧ (upsertAll ⟨∅, false, 5⟩ [messageAt1.reading, messageAt2.reading]).readings.lookup "a"
          = some messageAt2.reading
      ∧ (upsertAll ⟨∅, false, 5⟩ [messageAt2.reading, messageAt1.reading]).readings.lookup "a"
          = some messageAt1.reading := by
  decide +kernel

end EdgeSim.SensorNode
