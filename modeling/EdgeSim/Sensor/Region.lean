import EdgeSim.Coordinator.ReadingStore
import EdgeSim.Lib.Stdlib

/-!
# Readings in a region

`FilterByRadius` of `pkg/sensor` and the averages over it, which the coordinator and `cmd/dhtsim`
both use. The distance of two places is a parameter, like the arithmetic that computes it.
-/

namespace EdgeSim.Sensor

open Coordinator (Location Reading)

structure Arithmetic extends Stdlib.Float64 where
  distanceKm : Location → Location → UInt64

namespace Arithmetic

variable (F : Arithmetic)

def filterByRadius (readings : List Reading) (center : Location) (radiusKm : UInt64) :
    List Reading :=
  if F.le radiusKm F.zero then []
  else readings.filter fun reading => F.le (F.distanceKm center reading.location) radiusKm

def averageTemperature (readings : List Reading) : Except String UInt64 :=
  if readings.length = 0 then .error "no readings provided"
  else .ok (F.div (readings.foldl (fun sum reading => F.add sum reading.temperatureC) F.zero)
    (F.ofInt readings.length))

def averageTemperatureInRadius (readings : List Reading) (center : Location) (radiusKm : UInt64) :
    Except String (UInt64 × ℕ) :=
  let matched := F.filterByRadius readings center radiusKm
  if matched.length = 0 then .error "no readings in radius"
  else
    match F.averageTemperature matched with
    | .error err => .error err
    | .ok avg => .ok (avg, matched.length)

end Arithmetic

variable {F : Arithmetic} {readings : List Reading} {center : Location} {radiusKm : UInt64}

theorem mem_filterByRadius (hpos : F.le radiusKm F.zero = false) {reading : Reading} :
    reading ∈ F.filterByRadius readings center radiusKm
      ↔ reading ∈ readings ∧ F.le (F.distanceKm center reading.location) radiusKm = true := by
  rw [Arithmetic.filterByRadius, hpos, if_neg Bool.false_ne_true, List.mem_filter]

theorem filterByRadius_sublist : (F.filterByRadius readings center radiusKm).Sublist readings := by
  rw [Arithmetic.filterByRadius]
  split_ifs
  · exact List.nil_sublist _
  · exact List.filter_sublist

/-- The average is over the readings in the radius, if there are any. -/
theorem averageTemperatureInRadius_cases :
    (F.averageTemperatureInRadius readings center radiusKm = .error "no readings in radius"
      ∧ F.filterByRadius readings center radiusKm = [])
    ∨ ∃ avg, F.averageTemperatureInRadius readings center radiusKm
        = .ok (avg, (F.filterByRadius readings center radiusKm).length)
      ∧ F.averageTemperature (F.filterByRadius readings center radiusKm) = .ok avg
      ∧ 0 < (F.filterByRadius readings center radiusKm).length := by
  by_cases hzero : (F.filterByRadius readings center radiusKm).length = 0
  · exact .inl ⟨if_pos hzero, List.eq_nil_of_length_eq_zero hzero⟩
  · refine .inr ⟨_, ?_, if_neg hzero, Nat.pos_of_ne_zero hzero⟩
    rw [Arithmetic.averageTemperatureInRadius, if_neg hzero, Arithmetic.averageTemperature,
      if_neg hzero]

end EdgeSim.Sensor
