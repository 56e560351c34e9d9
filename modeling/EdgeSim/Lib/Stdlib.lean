import Mathlib.Algebra.Group.Nat.Defs
import Mathlib.Data.List.Basic

/-!
# What programs take from their library

JSON and floating-point arithmetic as structures of functions, for programs that only pass values
through them. Of JSON it is asked that what it has written is read back; it may refuse a value, as
it does with an infinite number. A floating-point number is its bits.
-/

namespace Stdlib

/-- JSON for the values of one type. -/
structure Json (α : Type) where
  marshal : α → Option (List UInt8)
  unmarshal : List UInt8 → Option α
  unmarshal_marshal : ∀ x data, marshal x = some data → unmarshal data = some x

namespace Json

variable {α : Type} [DecidableEq α]

/-- A codec that knows a few values only. -/
def ofList (values : List α) (h : values.length ≤ 256) : Json α where
  marshal x := (values.idxOf? x).map fun i => [UInt8.ofNat i]
  unmarshal
    | [b] => values[b.toNat]?
    | _ => none
  unmarshal_marshal x data hm := by
    obtain ⟨i, hi, rfl⟩ := Option.map_eq_some_iff.1 hm
    obtain ⟨hlt, hget, -⟩ := List.idxOf?_eq_some_iff.1 hi
    have hb : (UInt8.ofNat i).toNat = i := by
      rw [UInt8.toNat_ofNat']
      omega
    dsimp only
    rw [hb, List.getElem?_eq_getElem hlt, hget]

theorem ofList_fits (values : List α) (h : values.length ≤ 256) {x : α} {data : List UInt8}
    (hm : (ofList values h).marshal x = some data) : data.length < 2 ^ 32 := by
  obtain ⟨i, -, rfl⟩ := Option.map_eq_some_iff.1 hm
  rw [List.length_singleton]
  decide

end Json

/-- `parse` gives no number where it gives an error. -/
structure Float64 where
  parse : String → Option UInt64
  le : UInt64 → UInt64 → Bool
  zero : UInt64
  add : UInt64 → UInt64 → UInt64
  div : UInt64 → UInt64 → UInt64
  ofInt : ℕ → UInt64

end Stdlib
