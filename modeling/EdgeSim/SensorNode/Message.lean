import Mathlib.Data.List.Infix
import Mathlib.Data.Int.Notation

/-!
# Messages on the wire

A message is its type and its arguments with `|` between them; `message.go` of `cmd/node` and of
`cmd/coordinator` split it. A gossip message has an ID, a decimal time to live and the reading in
base64. A Go string is its bytes, so what `fmt`, `strconv`, `strings` and `encoding/hex` do is
spelled out on bytes.
-/

namespace EdgeSim.SensorNode

abbrev Text := List UInt8

/-- The bytes of a string literal. -/
def bytesOf (s : String) : Text := s.toUTF8.data.toList

/-! ## The standard library -/

/-- The encodings of the characters of `unicode.IsSpace`. -/
def spaces : List Text :=
  [[0x09], [0x0A], [0x0B], [0x0C], [0x0D], [0x20], [0xC2, 0x85], [0xC2, 0xA0], [0xE1, 0x9A, 0x80],
    [0xE2, 0x80, 0x80], [0xE2, 0x80, 0x81], [0xE2, 0x80, 0x82], [0xE2, 0x80, 0x83],
    [0xE2, 0x80, 0x84], [0xE2, 0x80, 0x85], [0xE2, 0x80, 0x86], [0xE2, 0x80, 0x87],
    [0xE2, 0x80, 0x88], [0xE2, 0x80, 0x89], [0xE2, 0x80, 0x8A], [0xE2, 0x80, 0xA8],
    [0xE2, 0x80, 0xA9], [0xE2, 0x80, 0xAF], [0xE2, 0x81, 0x9F], [0xE3, 0x80, 0x80]]

/-- Drops at most `n` of the given texts from the start. -/
def trimStart (seps : List Text) : ℕ → Text → Text
  | 0, s => s
  | n + 1, s =>
    match seps.find? fun sep => sep.isPrefixOf s with
    | some sep => trimStart seps n (s.drop sep.length)
    | none => s

/-- `strings.TrimSpace`. -/
def trimSpace (s : Text) : Text :=
  let s := trimStart spaces s.length s
  (trimStart (spaces.map List.reverse) s.length s.reverse).reverse

/-- `strings.ToUpper`, up to characters whose upper case is no ASCII letter: types are compared with
ASCII words only. The first two cases are the long s and the dotless i. -/
def toUpper : Text → Text
  | 0xC5 :: 0xBF :: s => 'S'.toUInt8 :: toUpper s
  | 0xC4 :: 0xB1 :: s => 'I'.toUInt8 :: toUpper s
  | b :: s => (if 'a'.toUInt8 ≤ b ∧ b ≤ 'z'.toUInt8 then b - 32 else b) :: toUpper s
  | [] => []

/-- The values of an `int`. -/
def IsInt64 (n : ℤ) : Prop := -0x8000000000000000 ≤ n ∧ n < 0x8000000000000000

instance (n : ℤ) : Decidable (IsInt64 n) := inferInstanceAs (Decidable (_ ∧ _))

def formatNat (n : ℕ) : Text := (Nat.toDigits 10 n).map Char.toUInt8

/-- The verb `%d`. -/
def formatInt : ℤ → Text
  | .ofNat n => formatNat n
  | .negSucc n => '-'.toUInt8 :: formatNat (n + 1)

def isDigit (b : UInt8) : Bool := '0'.toUInt8 ≤ b && b ≤ '9'.toUInt8

/-- Whether there is a minus sign, and the text after the sign. -/
def splitSign : Text → Bool × Text
  | [] => (false, [])
  | b :: s =>
    if b = '-'.toUInt8 then (true, s) else if b = '+'.toUInt8 then (false, s) else (false, b :: s)

/-- `strconv.Atoi`. -/
def atoi (s : Text) : Option ℤ :=
  let (negative, digits) := splitSign s
  if digits = [] ∨ digits.all isDigit = false then none
  else
    let magnitude : ℤ := Nat.ofDigitChars 10 (digits.map Char.ofUInt8) 0
    let n := if negative then -magnitude else magnitude
    if IsInt64 n then some n else none

/-- `hex.EncodeToString`. -/
def hexEncode (bytes : List UInt8) : Text :=
  bytes.flatMap fun b =>
    [(Nat.digitChar (b.toNat / 16)).toUInt8, (Nat.digitChar (b.toNat % 16)).toUInt8]

/-! ## Messages -/

def bar : UInt8 := '|'.toUInt8

def gossipMsgType : Text := bytesOf "GOSSIP"

/-- `parseMessage` of `cmd/node`: the type and the arguments. -/
def parseMessage (message : Text) : Text × List Text :=
  match message.splitOn bar with
  | [] => ([], [])
  | msgType :: parts => (toUpper (trimSpace msgType), parts)

/-- `parseMessage` of `cmd/coordinator`, which trims the message first. -/
def coordinatorParseMessage (message : Text) : Text × List Text := parseMessage (trimSpace message)

/-- The fields of a gossip message. -/
structure Msg where
  id : Text
  ttl : ℤ
  payload : Text
  deriving DecidableEq

/-- The format `GOSSIP|<message_id>|<ttl>|<base64_json_reading>`. -/
def Msg.format (m : Msg) : Text :=
  gossipMsgType ++ bar :: (m.id ++ bar :: (formatInt m.ttl ++ bar :: m.payload))

/-! ## What is written is read -/

/-- A printable ASCII byte. -/
def graphic (b : UInt8) : Bool := 0x21 ≤ b && b ≤ 0x7E

/-- Printable ASCII without bars. -/
def Clean (s : Text) : Prop := ∀ b ∈ s, graphic b = true ∧ b ≠ bar

theorem trimStart_eq {seps : List Text} {s : Text} (n : ℕ)
    (hseps : ∀ sep ∈ seps, ∃ b ∈ sep, graphic b = false) (h : ∀ b ∈ s, graphic b = true) :
    trimStart seps n s = s := by
  cases n with
  | zero => rfl
  | succ n =>
    have hnone : seps.find? (fun sep => sep.isPrefixOf s) = none := by
      rw [List.find?_eq_none]
      intro sep hsep hpre
      obtain ⟨b, hb, hgraphic⟩ := hseps sep hsep
      have := h b ((List.isPrefixOf_iff_prefix.1 hpre).subset hb)
      simp [hgraphic] at this
    rw [trimStart, hnone]

theorem trimSpace_eq {s : Text} (h : ∀ b ∈ s, graphic b = true) : trimSpace s = s := by
  unfold trimSpace
  rw [trimStart_eq _ (by decide) h]
  dsimp only
  rw [trimStart_eq _ (by decide) fun b hb => h b (List.mem_reverse.1 hb), List.reverse_reverse]

section Numbers

theorem isDigit_toUInt8 {c : Char} (h : c.isDigit = true) :
    isDigit c.toUInt8 = true ∧ Char.ofUInt8 c.toUInt8 = c := by
  have hc : 48 ≤ c.toNat ∧ c.toNat ≤ 57 := by
    simpa [Char.isDigit, UInt32.le_iff_toNat_le] using h
  have hdigit : Nat.digitChar (c.toNat - 48) = c := by
    apply Char.toNat_inj.1
    rw [Nat.toNat_digitChar_of_lt_ten (by omega)]
    omega
  have hall : ∀ n < 10, isDigit (Nat.digitChar n).toUInt8 = true
      ∧ Char.ofUInt8 (Nat.digitChar n).toUInt8 = Nat.digitChar n := by decide
  rw [← hdigit]
  exact hall _ (by omega)

theorem isDigit_of_mem_formatNat {n : ℕ} {b : UInt8} (h : b ∈ formatNat n) : isDigit b = true := by
  obtain ⟨c, hc, rfl⟩ := List.mem_map.1 h
  exact (isDigit_toUInt8 (Nat.isDigit_of_mem_toDigits (by decide) (by decide) hc)).1

theorem formatNat_ne_nil (n : ℕ) : formatNat n ≠ [] := by
  simp [formatNat, Nat.toDigits_ne_nil]

theorem ofDigitChars_formatNat (n : ℕ) :
    Nat.ofDigitChars 10 ((formatNat n).map Char.ofUInt8) 0 = n := by
  have hmap : (formatNat n).map Char.ofUInt8 = Nat.toDigits 10 n := by
    rw [formatNat, List.map_map]
    refine (List.map_congr_left fun c hc => ?_).trans (List.map_id _)
    exact (isDigit_toUInt8 (Nat.isDigit_of_mem_toDigits (by decide) (by decide) hc)).2
  rw [hmap, Nat.ofDigitChars_ten_toDigits]

theorem splitSign_formatNat (n : ℕ) : splitSign (formatNat n) = (false, formatNat n) := by
  cases h : formatNat n with
  | nil => rfl
  | cons b s =>
    have hb : isDigit b = true := isDigit_of_mem_formatNat (h ▸ List.mem_cons_self)
    rw [splitSign, if_neg, if_neg]
    · rintro rfl
      exact absurd hb (by decide)
    · rintro rfl
      exact absurd hb (by decide)

theorem atoi_formatInt {n : ℤ} (h : IsInt64 n) : atoi (formatInt n) = some n := by
  have hdigits (k : ℕ) : ¬ (formatNat k = [] ∨ (formatNat k).all isDigit = false) := by
    have hall : (formatNat k).all isDigit = true :=
      List.all_eq_true.2 fun b hb => isDigit_of_mem_formatNat hb
    simp [formatNat_ne_nil, hall]
  cases n with
  | ofNat n =>
    rw [formatInt, atoi, splitSign_formatNat]
    dsimp only
    rw [if_neg (hdigits n), ofDigitChars_formatNat]
    exact if_pos h
  | negSucc n =>
    rw [formatInt, atoi, splitSign, if_pos rfl]
    dsimp only
    rw [if_neg (hdigits (n + 1)), ofDigitChars_formatNat, if_pos rfl]
    exact if_pos h

theorem clean_of_isDigit {b : UInt8} (h : isDigit b = true) : graphic b = true ∧ b ≠ bar := by
  constructor
  · simp only [isDigit, graphic, Bool.and_eq_true, decide_eq_true_eq, UInt8.le_iff_toNat_le] at h ⊢
    exact ⟨le_trans (by decide) h.1, h.2.trans (by decide)⟩
  · rintro rfl
    exact absurd h (by decide)

theorem clean_formatInt (n : ℤ) : Clean (formatInt n) := by
  intro b hb
  cases n with
  | ofNat n => exact clean_of_isDigit (isDigit_of_mem_formatNat hb)
  | negSucc n =>
    rcases List.mem_cons.1 hb with rfl | hb
    · decide
    · exact clean_of_isDigit (isDigit_of_mem_formatNat hb)

end Numbers

theorem clean_hexEncode (bytes : List UInt8) : Clean (hexEncode bytes) := by
  have hdigit : ∀ n < 16,
      graphic (Nat.digitChar n).toUInt8 = true ∧ (Nat.digitChar n).toUInt8 ≠ bar := by decide
  intro b hb
  obtain ⟨x, -, hx⟩ := List.mem_flatMap.1 hb
  have hlt := x.toNat_lt
  simp only [List.mem_cons, List.not_mem_nil, or_false] at hx
  rcases hx with rfl | rfl
  · exact hdigit _ (by omega)
  · exact hdigit _ (by omega)

/-- The fields can be told apart in the text. -/
structure Msg.WF (m : Msg) : Prop where
  id : Clean m.id
  ttl : IsInt64 m.ttl
  payload : Clean m.payload

section

variable {m : Msg}

theorem Msg.WF.graphic (h : m.WF) : ∀ b ∈ m.format, graphic b = true := by
  intro b hb
  have hbar : SensorNode.graphic bar = true := by decide
  have htype : gossipMsgType.all SensorNode.graphic = true := by decide
  simp only [Msg.format, List.mem_append, List.mem_cons] at hb
  rcases hb with hb | rfl | hb | rfl | hb | rfl | hb
  · exact List.all_eq_true.1 htype b hb
  · exact hbar
  · exact (h.id b hb).1
  · exact hbar
  · exact (clean_formatInt m.ttl b hb).1
  · exact hbar
  · exact (h.payload b hb).1

theorem Msg.WF.trimSpace (h : m.WF) : trimSpace m.format = m.format := trimSpace_eq h.graphic

theorem Msg.WF.splitOn (h : m.WF) :
    m.format.splitOn bar = [gossipMsgType, m.id, formatInt m.ttl, m.payload] := by
  rw [Msg.format, List.splitOn_append_cons_self_of_not_mem (by decide),
    List.splitOn_append_cons_self_of_not_mem fun hb => (h.id _ hb).2 rfl,
    List.splitOn_append_cons_self_of_not_mem fun hb => (clean_formatInt _ _ hb).2 rfl,
    List.splitOn_eq_singleton fun hb => (h.payload _ hb).2 rfl]

/-- A gossip message is read as it was written. -/
theorem Msg.WF.parseMessage (h : m.WF) :
    parseMessage m.format = (gossipMsgType, [m.id, formatInt m.ttl, m.payload]) := by
  have htype : toUpper (SensorNode.trimSpace gossipMsgType) = gossipMsgType := by decide
  rw [SensorNode.parseMessage, h.splitOn]
  dsimp only
  rw [htype]

theorem Msg.WF.coordinatorParseMessage (h : m.WF) :
    coordinatorParseMessage m.format = (gossipMsgType, [m.id, formatInt m.ttl, m.payload]) := by
  rw [SensorNode.coordinatorParseMessage, h.trimSpace, h.parseMessage]

end

end EdgeSim.SensorNode
