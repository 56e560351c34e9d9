import EdgeSim.Dht.Closest

/-!
# The distance and the buckets

`xorDistance` is a metric in which one distance from an ID leads to one ID only. `bucketIndex` finds
the highest bit of the distance, but numbers the bytes from the most significant one and the bits of
a byte from the least significant one. Each bucket has the peers of one highest bit, and the index
follows the distance within a byte and goes against it from one byte to another.
-/

namespace EdgeSim.Dht

open Bytes

/-! ## The metric -/

theorem xorDistance_comm (a b : NodeID) : xorDistance a b = xorDistance b a := by
  rw [xorDistance_eq, xorDistance_eq, Nat.xor_comm]

theorem xorDistance_eq_zero {a b : NodeID} : xorDistance a b = 0 ↔ a = b := by
  rw [xorDistance_eq, Nat.xor_eq_zero_iff]
  exact ⟨NodeID.ofBytes_inj, fun h => h ▸ rfl⟩

theorem xorDistance_ne_zero {a b : NodeID} (h : b ≠ a) : xorDistance a b ≠ 0 :=
  fun h0 => h (xorDistance_eq_zero.1 h0).symm

theorem xorDistance_triangle (a b c : NodeID) :
    xorDistance a c ≤ xorDistance a b + xorDistance b c := by
  have hxor : xorDistance a c = xorDistance a b ^^^ xorDistance b c := by
    rw [xorDistance_eq, xorDistance_eq, xorDistance_eq, Nat.xor_assoc, Nat.xor_xor_cancel_left]
  rw [hxor]
  exact xor_le_add _ _

/-- The last part is what sorting needs: no two of the peers are at one distance. -/
theorem xorDistance_metric (a b c : NodeID) :
    xorDistance a b = xorDistance b a
    ∧ (xorDistance a b = 0 ↔ a = b)
    ∧ xorDistance a c ≤ xorDistance a b + xorDistance b c
    ∧ (xorDistance a b = xorDistance a c → b = c)
    ∧ ∀ peers : List Peer, (peers.map Peer.id).Nodup →
      (peers.map fun p => xorDistance a p.id).Nodup := by
  refine ⟨xorDistance_comm a b, xorDistance_eq_zero, xorDistance_triangle a b c,
    fun h => xorDistance_injective a h, fun peers hpeers => ?_⟩
  have hnodup := hpeers.map (xorDistance_injective a)
  rwa [List.map_map] at hnodup

/-! ## The buckets -/

/-- The bytes at the start that two IDs share. -/
def sharedBytes (a b : NodeID) : ℕ :=
  ((a.bytes.zip b.bytes).takeWhile fun x => x.1 = x.2).length

theorem zeros_xorBytes (a b : NodeID) : zeros (xorBytes a b) = sharedBytes a b := by
  have hpred : ((fun x : UInt8 => decide (x = 0)) ∘ Function.uncurry (· ^^^ ·))
      = fun x : UInt8 × UInt8 => decide (x.1 = x.2) := by
    funext x
    exact decide_eq_decide.2 UInt8.xor_eq_zero_iff
  rw [zeros, xorBytes, ← List.map_uncurry_zip_eq_zipWith, List.takeWhile_map, List.length_map,
    hpred, sharedBytes]

theorem bucketIndexFrom_eq :
    ∀ {i : ℕ} {xs : List UInt8}, ofBytes xs ≠ 0 →
      bucketIndexFrom i xs = (i + zeros xs) * 8 + (ofBytes xs).log2 % 8
  | i, [], h => absurd rfl h
  | i, x :: xs, h => by
    rw [bucketIndexFrom]
    split_ifs with hx
    · subst hx
      rw [ofBytes_zero_cons] at h ⊢
      rw [bucketIndexFrom_eq h, zeros, zeros, List.takeWhile_cons_of_pos (by simp),
        List.length_cons]
      omega
    · have hlt := log2_toNat_lt x
      rw [leadingZeros8, if_neg hx, log2_ofBytes_cons hx, zeros,
        List.takeWhile_cons_of_neg (by simpa using hx), List.length_nil]
      omega

variable {localID p q : NodeID}

/-- The byte in which the IDs part, and the place of the highest bit in it. -/
theorem bucketIndex_eq (hp : p ≠ localID) :
    bucketIndex localID p = sharedBytes localID p * 8 + (xorDistance localID p).log2 % 8 := by
  rw [bucketIndex, bucketIndexFrom_eq (xorDistance_ne_zero hp), zeros_xorBytes, Nat.zero_add]
  rfl

theorem sharedBytes_eq (hp : p ≠ localID) :
    (xorDistance localID p).log2 / 8 + sharedBytes localID p + 1 = NodeIDLength := by
  rw [← zeros_xorBytes, ← length_xorBytes localID p]
  exact log2_ofBytes_div (xorDistance_ne_zero hp)

theorem bucketIndex_eq_iff (hp : p ≠ localID) (hq : q ≠ localID) :
    bucketIndex localID p = bucketIndex localID q
      ↔ (xorDistance localID p).log2 = (xorDistance localID q).log2 := by
  have hsp := sharedBytes_eq hp
  have hsq := sharedBytes_eq hq
  rw [bucketIndex_eq hp, bucketIndex_eq hq]
  omega

/-- Two peers are in one bucket exactly when the highest bits of their distances are the same. -/
theorem bucketIndex_classes (hp : p ≠ localID) (hq : q ≠ localID) :
    bucketIndex localID p < 160
    ∧ (bucketIndex localID p = bucketIndex localID q
      ↔ ∃ k, HighestBit (xorDistance localID p) k ∧ HighestBit (xorDistance localID q) k)
    ∧ (bucketIndex localID p = bucketIndex localID q
      ↔ (xorDistance localID p).log2 = (xorDistance localID q).log2) := by
  refine ⟨bucketIndex_lt localID p, ?_, bucketIndex_eq_iff hp hq⟩
  rw [bucketIndex_eq_iff hp hq]
  simp only [highestBit_iff (xorDistance_ne_zero hp), highestBit_iff (xorDistance_ne_zero hq)]
  constructor
  · intro h
    exact ⟨_, h, rfl⟩
  · rintro ⟨k, hk, hk'⟩
    exact hk.trans hk'.symm

/-- At distances 20 and 17. -/
theorem bucketIndex_classes_pair :
    bucketIndex (.ofNat 0) (.ofNat 20) = bucketIndex (.ofNat 0) (.ofNat 17) := by
  have hclasses := bucketIndex_classes (show NodeID.ofNat 20 ≠ .ofNat 0 by decide +kernel)
    (show NodeID.ofNat 17 ≠ .ofNat 0 by decide +kernel)
  exact hclasses.2.2.2 (by decide +kernel)

/-- Of two peers the nearer one has the lower index, or the same, exactly when they part from the
local ID in the same byte. -/
theorem bucketIndex_order (hp : p ≠ localID) (hq : q ≠ localID)
    (h : xorDistance localID p ≤ xorDistance localID q) :
    bucketIndex localID p ≤ bucketIndex localID q
      ↔ sharedBytes localID p = sharedBytes localID q := by
  have hlog : (xorDistance localID p).log2 ≤ (xorDistance localID q).log2 :=
    (Nat.le_log2 (xorDistance_ne_zero hq)).2
      ((Nat.log2_self_le (xorDistance_ne_zero hp)).trans h)
  have hsp := sharedBytes_eq hp
  have hsq := sharedBytes_eq hq
  rw [bucketIndex_eq hp, bucketIndex_eq hq]
  omega

theorem bucketIndex_order_pair :
    bucketIndex (.ofNat 0) (.ofNat 3) ≤ bucketIndex (.ofNat 0) (.ofNat 20) := by
  have horder := bucketIndex_order (show NodeID.ofNat 3 ≠ .ofNat 0 by decide +kernel)
    (show NodeID.ofNat 20 ≠ .ofNat 0 by decide +kernel) (by decide +kernel)
  exact horder.2 (by decide +kernel)

/-- A peer at distance 1 and one at distance `2 ^ 159`. -/
theorem nearer_peer_higher_index :
    xorDistance (.ofNat 0) (.ofNat 1) = 1 ∧ xorDistance (.ofNat 0) (.ofNat (2 ^ 159)) = 2 ^ 159
    ∧ bucketIndex (.ofNat 0) (.ofNat 1) = 152
    ∧ bucketIndex (.ofNat 0) (.ofNat (2 ^ 159)) = 7 := by
  decide +kernel

end EdgeSim.Dht
