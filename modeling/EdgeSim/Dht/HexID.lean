import EdgeSim.Dht.Routing
import EdgeSim.SensorNode.Message

/-!
# Node IDs as text

`NodeIDFromHex` and `String` of `dht.go`. `String` writes lower case only, the parser takes either
case, spaces around the digits and one `0x` before them, and nothing else.
-/

namespace EdgeSim.Dht

open SensorNode (Text bytesOf hexEncode trimSpace)

/-- The errors of `NodeIDFromHex`, with those of `hex.DecodeString`. -/
inductive HexError where
  /-- "node id must be 40 hex characters" -/
  | length
  | invalidByte (b : UInt8)
  | oddLength
  deriving DecidableEq, Repr

/-- The value of a digit in either case. -/
def hexValue (b : UInt8) : Option UInt8 :=
  if '0'.toUInt8 ≤ b ∧ b ≤ '9'.toUInt8 then some (b - '0'.toUInt8)
  else if 'a'.toUInt8 ≤ b ∧ b ≤ 'f'.toUInt8 then some (b - 'a'.toUInt8 + 10)
  else if 'A'.toUInt8 ≤ b ∧ b ≤ 'F'.toUInt8 then some (b - 'A'.toUInt8 + 10)
  else none

/-- `hex.DecodeString`, up to the first byte that is no digit. -/
def decodeString : Text → Except HexError (List UInt8)
  | [] => .ok []
  | [p] =>
    match hexValue p with
    | none => .error (.invalidByte p)
    | some _ => .error .oddLength
  | p :: q :: src =>
    match hexValue p, hexValue q with
    | none, _ => .error (.invalidByte p)
    | some _, none => .error (.invalidByte q)
    | some a, some b =>
      match decodeString src with
      | .error err => .error err
      | .ok dst => .ok ((16 * a + b) :: dst)

/-- `strings.TrimPrefix`. -/
def trimLeading (lead s : Text) : Text := if lead.isPrefixOf s then s.drop lead.length else s

/-- `copy` into an array of zeros. -/
def NodeID.copy (decoded : List UInt8) : NodeID where
  bytes := (decoded ++ List.replicate NodeIDLength 0).take NodeIDLength
  length_eq := by simp

def nodeIDFromHex (value : Text) : Except HexError NodeID :=
  let clean := trimLeading (bytesOf "0x") (trimSpace value)
  if clean.length ≠ NodeIDLength * 2 then .error .length
  else
    match decodeString clean with
    | .error err => .error err
    | .ok decoded => .ok (.copy decoded)

/-- `String`. -/
def NodeID.string (id : NodeID) : Text := hexEncode id.bytes

/-- The lower case of an ASCII letter. -/
def lowerByte (b : UInt8) : UInt8 := if 'A'.toUInt8 ≤ b ∧ b ≤ 'Z'.toUInt8 then b + 32 else b

/-! ## Digits -/

/-- The digit that a value is written as. -/
def hexDigit (v : ℕ) : UInt8 := (Nat.digitChar v).toUInt8

theorem hexEncode_cons (b : UInt8) (bytes : List UInt8) :
    hexEncode (b :: bytes)
      = hexDigit (b.toNat / 16) :: hexDigit (b.toNat % 16) :: hexEncode bytes :=
  rfl

theorem length_hexEncode (bytes : List UInt8) : (hexEncode bytes).length = bytes.length * 2 := by
  induction bytes with
  | nil => rfl
  | cons b bytes ih =>
    rw [hexEncode_cons, List.length_cons, List.length_cons, ih, List.length_cons]
    omega

theorem lowerByte_of_hexValue {b v : UInt8} (h : hexValue b = some v) :
    v.toNat < 16 ∧ lowerByte b = hexDigit v.toNat := by
  have hall : ∀ n < 256, ∀ v, hexValue (UInt8.ofNat n) = some v →
      v.toNat < 16 ∧ lowerByte (UInt8.ofNat n) = hexDigit v.toNat := by
    have hcheck : ∀ n < 256, (hexValue (UInt8.ofNat n)).all (fun v =>
        v.toNat < 16 ∧ lowerByte (UInt8.ofNat n) = hexDigit v.toNat) = true := by decide +kernel
    intro n hn v hv
    have := hcheck n hn
    rw [hv, Option.all_some, decide_eq_true_eq] at this
    exact this
  have := hall b.toNat b.toNat_lt v
  rw [UInt8.ofNat_toNat] at this
  exact this h

theorem hexValue_of_lowerByte {b : UInt8} {v : ℕ} (hv : v < 16) (h : lowerByte b = hexDigit v) :
    hexValue b = some (UInt8.ofNat v) := by
  have hcheck : ∀ n < 256, ∀ v < 16, lowerByte (UInt8.ofNat n) = hexDigit v →
      hexValue (UInt8.ofNat n) = some (UInt8.ofNat v) := by decide +kernel
  have := hcheck b.toNat b.toNat_lt v hv
  rw [UInt8.ofNat_toNat] at this
  exact this h

/-! ## Texts -/

theorem decodeString_of_lower : ∀ {bytes : List UInt8} {s : Text},
    s.map lowerByte = hexEncode bytes → decodeString s = .ok bytes
  | [], s, h => by
    rw [List.map_eq_nil_iff.1 h, decodeString]
  | b :: bytes, s, h => by
    rw [hexEncode_cons] at h
    obtain ⟨p, rest, rfl, hp, hrest⟩ := List.map_eq_cons_iff.1 h
    obtain ⟨q, src, rfl, hq, hsrc⟩ := List.map_eq_cons_iff.1 hrest
    have hlt := b.toNat_lt
    rw [decodeString, hexValue_of_lowerByte (by omega) hp, hexValue_of_lowerByte (by omega) hq]
    dsimp only
    rw [decodeString_of_lower hsrc]
    dsimp only
    rw [show 16 * UInt8.ofNat (b.toNat / 16) + UInt8.ofNat (b.toNat % 16) = b from
      UInt8.toNat_inj.1 (by simp; omega)]

theorem lower_of_decodeString : ∀ {s : Text} {bytes : List UInt8},
    decodeString s = .ok bytes → s.map lowerByte = hexEncode bytes
  | [], bytes, h => by
    cases h
    rfl
  | [p], bytes, h => by
    rw [decodeString] at h
    split at h <;> cases h
  | p :: q :: src, bytes, h => by
    rw [decodeString] at h
    split at h
    · cases h
    · cases h
    · rename_i a b ha hb
      split at h
      · cases h
      · rename_i dst hdst
        cases h
        obtain ⟨ha16, hp⟩ := lowerByte_of_hexValue ha
        obtain ⟨hb16, hq⟩ := lowerByte_of_hexValue hb
        have hnat : (16 * a + b).toNat = 16 * a.toNat + b.toNat := by simp; omega
        rw [List.map_cons, List.map_cons, lower_of_decodeString hdst, hexEncode_cons, hnat, hp, hq]
        congr 3 <;> omega

theorem copy_bytes (id : NodeID) : NodeID.copy id.bytes = id := by
  refine NodeID.ext ?_
  change (id.bytes ++ _).take NodeIDLength = id.bytes
  rw [← id.length_eq, List.take_left]

/-- The second digit is no `x`. -/
theorem hexEncode_unmarked (bytes : List UInt8) :
    (bytesOf "0x").isPrefixOf (hexEncode bytes) = false := by
  have hmark : bytesOf "0x" = ['0'.toUInt8, 'x'.toUInt8] := by decide
  cases bytes with
  | nil => decide
  | cons b bytes =>
    have hdigit : ∀ n < 16, ('x'.toUInt8 == hexDigit n) = false := by decide
    rw [hmark, hexEncode_cons, List.isPrefixOf, List.isPrefixOf, hdigit _ (by omega),
      Bool.false_and, Bool.and_false]

theorem trimLeading_append (lead s : Text) : trimLeading lead (lead ++ s) = s := by
  have hlead : lead.isPrefixOf (lead ++ s) = true :=
    List.isPrefixOf_iff_prefix.2 (List.prefix_append lead s)
  unfold trimLeading
  rw [if_pos hlead, List.drop_left]

theorem NodeID.length_string (id : NodeID) : id.string.length = NodeIDLength * 2 := by
  rw [NodeID.string, length_hexEncode, id.length_eq]

theorem NodeID.graphic_string (id : NodeID) : ∀ b ∈ id.string, SensorNode.graphic b = true :=
  fun b hb => (SensorNode.clean_hexEncode _ b hb).1

theorem lower_hexEncode (bytes : List UInt8) :
    (hexEncode bytes).map lowerByte = hexEncode bytes := by
  have hdigit : ∀ n < 16, lowerByte (hexDigit n) = hexDigit n := by decide
  induction bytes with
  | nil => rfl
  | cons b bytes ih =>
    have hlt := b.toNat_lt
    rw [hexEncode_cons, List.map_cons, List.map_cons, ih, hdigit _ (by omega), hdigit _ (by omega)]

theorem nodeIDFromHex_eq_ok {value : Text} {id : NodeID} :
    nodeIDFromHex value = .ok id
      ↔ (trimLeading (bytesOf "0x") (trimSpace value)).map lowerByte = id.string := by
  unfold nodeIDFromHex
  dsimp only
  generalize trimLeading (bytesOf "0x") (trimSpace value) = clean
  constructor
  · intro h
    split_ifs at h with hlength
    split at h
    · cases h
    · rename_i decoded hdecoded
      have hlower := lower_of_decodeString hdecoded
      have hlen : decoded.length = NodeIDLength := by
        have := congrArg List.length hlower
        rw [List.length_map, length_hexEncode] at this
        omega
      cases h
      rw [hlower, copy_bytes ⟨decoded, hlen⟩]
      rfl
  · intro h
    have hlength : clean.length = NodeIDLength * 2 := by
      rw [← id.length_string, ← h, List.length_map]
    rw [if_neg (not_not_intro hlength), decodeString_of_lower h]
    dsimp only
    rw [copy_bytes]

/-- `NodeIDFromHex` undoes `String`, with or without `0x` before the digits, and the texts that it
reads as one ID are those whose digits, in lower case, `String` writes. -/
theorem node_id_hex (id : NodeID) :
    nodeIDFromHex id.string = .ok id
      ∧ nodeIDFromHex (bytesOf "0x" ++ id.string) = .ok id
      ∧ ∀ value, nodeIDFromHex value = .ok id
          ↔ (trimLeading (bytesOf "0x") (trimSpace value)).map lowerByte = id.string := by
  have hlower : id.string.map lowerByte = id.string := lower_hexEncode id.bytes
  refine ⟨nodeIDFromHex_eq_ok.2 ?_, nodeIDFromHex_eq_ok.2 ?_, fun value => nodeIDFromHex_eq_ok⟩
  · rw [SensorNode.trimSpace_eq id.graphic_string, trimLeading,
      if_neg (by rw [NodeID.string, hexEncode_unmarked]; decide), hlower]
  · have hgraphic : ∀ b ∈ bytesOf "0x" ++ id.string, SensorNode.graphic b = true := by
      intro b hb
      rcases List.mem_append.1 hb with hb | hb
      · exact (show ∀ b ∈ bytesOf "0x", SensorNode.graphic b = true by decide +kernel) b hb
      · exact id.graphic_string b hb
    rw [SensorNode.trimSpace_eq hgraphic, trimLeading_append, hlower]

end EdgeSim.Dht
