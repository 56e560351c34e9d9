import Mathlib.Data.Finmap

/-!
# The coordinator's readings

`readingStore` of `cmd/coordinator`, which the Raft node fills through `ApplyFunc`. Floating-point
fields are their bits, as nothing computes with them, and a timestamp is in nanoseconds. The time
of the first reading only serves a log line.
-/

namespace EdgeSim.Coordinator

structure Location where
  latitude : UInt64
  longitude : UInt64
  deriving DecidableEq, Repr

structure Reading where
  nodeID : String
  temperatureC : UInt64
  location : Location
  timestamp : ℤ
  deriving DecidableEq, Repr

structure ReadingStore where
  readings : Finmap fun _ : String => Reading
  targetReached : Bool
  targetCount : ℕ

namespace ReadingStore

/-- The number of readings, and whether this one reached the target. -/
def upsert (s : ReadingStore) (reading : Reading) : ReadingStore × ℕ × Bool :=
  let readings := s.readings.insert reading.nodeID reading
  let reached := readings.keys.card
  if s.targetReached = false ∧ reached ≥ s.targetCount then
    ({ s with readings, targetReached := true }, reached, true)
  else ({ s with readings }, reached, false)

/-- `decode` is base64 and JSON decoding; a command it refuses is skipped. -/
def applyReadingCommand (decode : String → Option Reading) (s : ReadingStore)
    (command : String) : ReadingStore :=
  match decode command with
  | none => s
  | some reading => (s.upsert reading).1

end ReadingStore

end EdgeSim.Coordinator
