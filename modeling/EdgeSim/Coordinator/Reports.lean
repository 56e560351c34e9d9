import EdgeSim.Coordinator.EndToEnd
import EdgeSim.Sensor.Region

/-!
# What a coordinator reports

`storeAndLog` logs when the readings first cover the target, whatever readings come in. The handler
of `/region` in `runHTTPServer` takes a snapshot of the store and computes with it, so that readings
stored meanwhile are not seen. An answer that JSON refuses, as it does when a number in it is not
finite, is only logged: the status is 200 then and the body is empty.
-/

namespace EdgeSim.Coordinator

open Sensor
open SensorNode (upsertAll readings_upsertAll storeAll storeAll_append)
open Stdlib (Json)

/-! ## The target -/

section

variable {readings : List Reading} {target : ℕ}

/-- The number of sensors that the readings are from. -/
def sensorCount (readings : List Reading) : ℕ := (readings.map Reading.nodeID).toFinset.card

theorem keys_storeAll (readings : List Reading) :
    (storeAll readings ∅).keys = (readings.map Reading.nodeID).toFinset := by
  induction readings using List.reverseRecOn with
  | nil => rfl
  | append_singleton readings reading ih =>
    ext name
    rw [storeAll_append, Finmap.mem_keys, Finmap.mem_insert, ← Finmap.mem_keys, ih]
    simp

theorem upsertAll_append (store : ReadingStore) (reading : Reading) :
    upsertAll store (readings ++ [reading]) = ((upsertAll store readings).upsert reading).1 := by
  rw [upsertAll, List.foldl_append, upsertAll]
  rfl

theorem card_insert_upsertAll (readings : List Reading) (reading : Reading) :
    ((upsertAll ⟨∅, false, target⟩ readings).readings.insert reading.nodeID reading).keys.card
      = sensorCount (readings ++ [reading]) := by
  rw [readings_upsertAll, ← storeAll_append, keys_storeAll, sensorCount]

theorem sensorCount_le_append (reading : Reading) :
    sensorCount readings ≤ sensorCount (readings ++ [reading]) := by
  refine Finset.card_le_card fun name h => ?_
  rw [List.mem_toFinset] at h ⊢
  rw [List.map_append]
  exact List.mem_append_left _ h

theorem ReadingStore.upsert_flags (store : ReadingStore) (reading : Reading) :
    (store.upsert reading).1.targetCount = store.targetCount
    ∧ ((store.upsert reading).1.targetReached = true ↔ store.targetReached = true
      ∨ store.targetCount ≤ (store.readings.insert reading.nodeID reading).keys.card)
    ∧ (store.upsert reading).2.1 = (store.readings.insert reading.nodeID reading).keys.card
    ∧ ((store.upsert reading).2.2 = true ↔ store.targetReached = false
      ∧ store.targetCount ≤ (store.readings.insert reading.nodeID reading).keys.card) := by
  unfold ReadingStore.upsert
  dsimp only
  split_ifs with h
  · exact ⟨rfl, by simp [h.2], rfl, by simp [h.1, h.2]⟩
  · refine ⟨rfl, ?_, rfl, by simpa using h⟩
    cases hflag : store.targetReached
    · simpa [hflag] using h
    · simp

/-- The flag says whether the readings so far, if there are any, cover the target. -/
theorem targetReached_upsertAll : (upsertAll ⟨∅, false, target⟩ readings).targetCount = target
    ∧ ((upsertAll ⟨∅, false, target⟩ readings).targetReached = true
      ↔ readings ≠ [] ∧ target ≤ sensorCount readings) := by
  induction readings using List.reverseRecOn with
  | nil => exact ⟨rfl, by simp [upsertAll]⟩
  | append_singleton readings reading ih =>
    obtain ⟨hcount, hflag⟩ := ih
    obtain ⟨hcount', hflag', -⟩ :=
      ReadingStore.upsert_flags (upsertAll ⟨∅, false, target⟩ readings) reading
    have hle := @sensorCount_le_append readings reading
    rw [card_insert_upsertAll, hcount, hflag] at hflag'
    rw [upsertAll_append, hflag']
    refine ⟨hcount'.trans hcount, ?_⟩
    constructor
    · rintro (⟨-, h⟩ | h)
      · exact ⟨by simp, h.trans hle⟩
      · exact ⟨by simp, h⟩
    · rintro ⟨-, h⟩
      exact .inr h

/-- A reading is counted with those of all sensors so far, and is reported to reach the target if
it is the one with which they first cover it, and else never. -/
theorem target_reported (target : ℕ) (readings : List Reading) (reading : Reading) :
    ((upsertAll ⟨∅, false, target⟩ readings).upsert reading).2.1
      = sensorCount (readings ++ [reading])
    ∧ (((upsertAll ⟨∅, false, target⟩ readings).upsert reading).2.2 = true
      ↔ target ≤ sensorCount (readings ++ [reading])
        ∧ (readings = [] ∨ sensorCount readings < target)) := by
  obtain ⟨hcount, hflag⟩ := @targetReached_upsertAll readings target
  obtain ⟨-, -, hreached, hreport⟩ :=
    ReadingStore.upsert_flags (upsertAll ⟨∅, false, target⟩ readings) reading
  rw [card_insert_upsertAll] at hreached
  rw [card_insert_upsertAll, hcount, ← Bool.not_eq_true, hflag, not_and_or, not_not, not_le,
    and_comm] at hreport
  exact ⟨hreached, hreport⟩

end

/-! ## Region queries -/

structure RegionResponse where
  center : Location
  radiusKm : UInt64
  avgTempC : UInt64
  samples : ℕ
  readings : List Reading
  deriving DecidableEq, Repr

section

variable (F : Arithmetic)

/-- What `Encode` writes: a line, or nothing. -/
def encode {α : Type} (json : Json α) (x : α) : List UInt8 :=
  match json.marshal x with
  | none => []
  | some data => data ++ [10]

end

/-! ## Snapshots -/

section

variable {F : Arithmetic} {json : Json RegionResponse} {store : ReadingStore} {order : List String}
  {center : Location} {radiusKm : UInt64} {query : String → String}

/-- The answer has exactly the stored readings in the radius, one for each sensor. -/
structure RegionResponse.Answers (F : Arithmetic) (store : ReadingStore) (center : Location)
    (radiusKm : UInt64) (resp : RegionResponse) : Prop where
  center_eq : resp.center = center
  radiusKm_eq : resp.radiusKm = radiusKm
  samples_pos : 0 < resp.samples
  samples_eq : resp.samples = resp.readings.length
  avgTempC_eq : F.averageTemperature resp.readings = .ok resp.avgTempC
  nodup : (resp.readings.map Reading.nodeID).Nodup
  mem_iff : ∀ reading, reading ∈ resp.readings
    ↔ store.readings.lookup reading.nodeID = some reading
      ∧ F.le (F.distanceKm center reading.location) radiusKm = true

end

/-! ## Answers along a run -/

section

variable {C : Raft.Cluster} {ι : Type} [DecidableEq ι] {G : Grid C ι} {target : ℕ}
  {sensors : SensorNode.System ι} {as : List (GridAction ι)} {s : GridState ι} {id : String}

end

end EdgeSim.Coordinator
