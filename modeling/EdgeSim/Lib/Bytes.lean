import Mathlib.Algebra.Order.Ring.Nat
import Mathlib.Data.Nat.Bitwise
import Mathlib.Tactic.Ring

/-!
# Big-endian numbers

Byte strings as numbers, most significant byte first, and numbers as byte strings of a given
width. Among strings of one length the number determines the string, the exclusive or of strings is
that of the numbers, and the highest bit of the number is in the first byte that is not zero.
-/

namespace Bytes

/-- The number that `bs` is in big-endian order. -/
def ofBytes (bs : List UInt8) : ℕ := bs.foldl (fun d b => d * 256 + b.toNat) 0

/-- The last `w` bytes of `n`, in big-endian order. -/
def toBytes : ℕ → ℕ → List UInt8
  | 0, _ => []
  | w + 1, n => UInt8.ofNat (n / 256 ^ w) :: toBytes w n

theorem foldl_eq (bs : List UInt8) (d : ℕ) :
    bs.foldl (fun d b => d * 256 + b.toNat) d = d * 256 ^ bs.length + ofBytes bs := by
  induction bs generalizing d with
  | nil => simp [ofBytes]
  | cons b bs ih =>
    rw [ofBytes, List.foldl_cons, List.foldl_cons, ih, ih (0 * 256 + b.toNat), List.length_cons]
    ring

theorem ofBytes_cons (b : UInt8) (bs : List UInt8) :
    ofBytes (b :: bs) = b.toNat * 256 ^ bs.length + ofBytes bs := by
  rw [ofBytes, List.foldl_cons, foldl_eq, Nat.zero_mul, Nat.zero_add]

theorem ofBytes_lt (bs : List UInt8) : ofBytes bs < 256 ^ bs.length := by
  induction bs with
  | nil => simp [ofBytes]
  | cons b bs ih =>
    have hb : b.toNat + 1 ≤ 256 := b.toNat_lt
    calc ofBytes (b :: bs) = b.toNat * 256 ^ bs.length + ofBytes bs := ofBytes_cons b bs
      _ < (b.toNat + 1) * 256 ^ bs.length := by rw [Nat.add_mul, Nat.one_mul]; omega
      _ ≤ 256 * 256 ^ bs.length := Nat.mul_le_mul_right _ hb
      _ = 256 ^ (b :: bs).length := by rw [List.length_cons, Nat.pow_succ, Nat.mul_comm]

@[simp] theorem length_toBytes (w n : ℕ) : (toBytes w n).length = w := by
  induction w with
  | zero => rfl
  | succ w ih => simp [toBytes, ih]

theorem ofBytes_toBytes (w n : ℕ) : ofBytes (toBytes w n) = n % 256 ^ w := by
  induction w with
  | zero => simp [toBytes, ofBytes, Nat.mod_one]
  | succ w ih =>
    have hb : (UInt8.ofNat (n / 256 ^ w)).toNat = n / 256 ^ w % 256 := UInt8.toNat_ofNat'
    rw [toBytes, ofBytes_cons, ih, length_toBytes, hb, Nat.pow_succ, Nat.mod_mul,
      Nat.mul_comm, Nat.add_comm]

/-- Strings of one length that are the same number are the same string. -/
theorem ofBytes_inj : ∀ {bs cs : List UInt8}, bs.length = cs.length → ofBytes bs = ofBytes cs →
    bs = cs
  | [], [], _, _ => rfl
  | b :: bs, c :: cs, hlen, h => by
    have hlen' : bs.length = cs.length := by simpa using hlen
    rw [ofBytes_cons, ofBytes_cons, hlen'] at h
    have hlt : ofBytes bs < 256 ^ cs.length := hlen' ▸ ofBytes_lt bs
    have hpos : 0 < 256 ^ cs.length := Nat.pow_pos (by omega)
    have hdiv := congrArg (· / 256 ^ cs.length) h
    have hmod := congrArg (· % 256 ^ cs.length) h
    simp only [Nat.mul_comm _ (256 ^ cs.length), Nat.mul_add_div hpos, Nat.mul_add_mod,
      Nat.div_eq_of_lt hlt, Nat.div_eq_of_lt (ofBytes_lt cs), Nat.mod_eq_of_lt hlt,
      Nat.mod_eq_of_lt (ofBytes_lt cs), Nat.add_zero] at hdiv hmod
    rw [UInt8.toNat_inj.1 hdiv, ofBytes_inj hlen' hmod]

theorem pow_eq_two_pow (n : ℕ) : 256 ^ n = 2 ^ (8 * n) := by
  rw [show 256 = 2 ^ 8 from rfl, ← Nat.pow_mul]

/-! ## Exclusive or -/

theorem ofBytes_xor : ∀ {bs cs : List UInt8}, bs.length = cs.length →
    ofBytes (List.zipWith (· ^^^ ·) bs cs) = ofBytes bs ^^^ ofBytes cs
  | [], [], _ => rfl
  | b :: bs, c :: cs, hlen => by
    have hlen' : bs.length = cs.length := by simpa using hlen
    have hb : ofBytes bs < 2 ^ (8 * cs.length) := by
      rw [← pow_eq_two_pow, ← hlen']
      exact ofBytes_lt bs
    have hc : ofBytes cs < 2 ^ (8 * cs.length) := by
      rw [← pow_eq_two_pow]
      exact ofBytes_lt cs
    have hzip : (List.zipWith (· ^^^ ·) bs cs).length = cs.length := by
      rw [List.length_zipWith, hlen', Nat.min_self]
    rw [List.zipWith_cons_cons, ofBytes_cons, ofBytes_cons, ofBytes_cons, ofBytes_xor hlen', hzip,
      hlen', UInt8.toNat_xor, pow_eq_two_pow]
    -- bit by bit: below the first byte, and in it
    refine Nat.eq_of_testBit_eq fun j => ?_
    simp only [Nat.mul_comm _ (2 ^ (8 * cs.length)), Nat.testBit_xor,
      Nat.testBit_two_pow_mul_add _ (Nat.xor_lt_two_pow hb hc), Nat.testBit_two_pow_mul_add _ hb,
      Nat.testBit_two_pow_mul_add _ hc]
    split_ifs <;> rfl

theorem xor_le_add (m n : ℕ) : m ^^^ n ≤ m + n := by
  induction m using Nat.strong_induction_on generalizing n with
  | _ m ih =>
    rcases Nat.eq_zero_or_pos m with rfl | hm
    · rw [Nat.zero_xor]
      omega
    · have hhalf := ih (m / 2) (by omega) (n / 2)
      have hdiv : (m ^^^ n) / 2 = m / 2 ^^^ n / 2 := Nat.xor_div_two
      have hmod : (m ^^^ n) % 2 = (m + n) % 2 := Nat.xor_mod_two_eq
      omega

/-! ## The highest bit -/

/-- `k` is the position of the highest bit that is set. -/
def HighestBit (d k : ℕ) : Prop := d.testBit k = true ∧ ∀ j, k < j → d.testBit j = false

theorem highestBit_iff {d : ℕ} (hd : d ≠ 0) (k : ℕ) : HighestBit d k ↔ d.log2 = k := by
  constructor
  · rintro ⟨hset, hclear⟩
    have hle : k ≤ d.log2 := (Nat.le_log2 hd).2 (Nat.ge_two_pow_of_testBit hset)
    refine Nat.le_antisymm (Nat.le_of_not_lt fun hlt => ?_) hle
    have hbit := Nat.testBit_log2 hd
    rw [hclear _ hlt] at hbit
    cases hbit
  · rintro rfl
    exact ⟨Nat.testBit_log2 hd, fun j hj => Nat.testBit_lt_two_pow ((Nat.log2_lt hd).1 hj)⟩

/-- The zero bytes at the start. -/
def zeros (bs : List UInt8) : ℕ := (bs.takeWhile (· = 0)).length

theorem ofBytes_zero_cons (bs : List UInt8) : ofBytes (0 :: bs) = ofBytes bs := by
  rw [ofBytes_cons, UInt8.toNat_zero, Nat.zero_mul, Nat.zero_add]

theorem log2_toNat_lt (b : UInt8) : b.toNat.log2 < 8 := by
  rcases Nat.eq_zero_or_pos b.toNat with h | h
  · rw [h]
    decide
  · exact (Nat.log2_lt h.ne').2 b.toNat_lt

theorem log2_ofBytes_cons {b : UInt8} (hb : b ≠ 0) (bs : List UInt8) :
    (ofBytes (b :: bs)).log2 = 8 * bs.length + b.toNat.log2 := by
  have hpos : b.toNat ≠ 0 := fun h => hb (UInt8.toNat_inj.1 h)
  have hlt : ofBytes bs < 2 ^ (8 * bs.length) := pow_eq_two_pow _ ▸ ofBytes_lt bs
  have hself := Nat.log2_self_le hpos
  have hnext : b.toNat + 1 ≤ 2 ^ (b.toNat.log2 + 1) := Nat.lt_log2_self
  have hcons : ofBytes (b :: bs) = b.toNat * 2 ^ (8 * bs.length) + ofBytes bs := by
    rw [ofBytes_cons, pow_eq_two_pow]
  have hne : ofBytes (b :: bs) ≠ 0 := by
    have := Nat.mul_pos (Nat.pos_of_ne_zero hpos) (Nat.two_pow_pos (8 * bs.length))
    omega
  rw [Nat.log2_eq_iff hne, hcons]
  constructor
  · calc 2 ^ (8 * bs.length + b.toNat.log2) = 2 ^ b.toNat.log2 * 2 ^ (8 * bs.length) := by ring
      _ ≤ b.toNat * 2 ^ (8 * bs.length) := Nat.mul_le_mul_right _ hself
      _ ≤ b.toNat * 2 ^ (8 * bs.length) + ofBytes bs := Nat.le_add_right _ _
  · calc b.toNat * 2 ^ (8 * bs.length) + ofBytes bs < (b.toNat + 1) * 2 ^ (8 * bs.length) := by
          rw [Nat.add_mul, Nat.one_mul]
          omega
      _ ≤ 2 ^ (b.toNat.log2 + 1) * 2 ^ (8 * bs.length) := Nat.mul_le_mul_right _ hnext
      _ = 2 ^ (8 * bs.length + b.toNat.log2 + 1) := by ring

/-- The highest bit is in the byte behind the zeros. -/
theorem log2_ofBytes_div : ∀ {bs : List UInt8}, ofBytes bs ≠ 0 →
    (ofBytes bs).log2 / 8 + zeros bs + 1 = bs.length
  | [], h => absurd rfl h
  | b :: bs, h => by
    by_cases hb : b = 0
    · subst hb
      rw [ofBytes_zero_cons] at h ⊢
      have ih := log2_ofBytes_div h
      rw [zeros, List.takeWhile_cons_of_pos (by simp), List.length_cons, List.length_cons]
      rw [zeros] at ih
      omega
    · have hlt := log2_toNat_lt b
      rw [log2_ofBytes_cons hb, zeros, List.takeWhile_cons_of_neg (by simpa using hb),
        List.length_nil, List.length_cons]
      omega

end Bytes
