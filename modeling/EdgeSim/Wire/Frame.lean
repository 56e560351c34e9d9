import EdgeSim.Lib.Bytes

/-!
# Length-prefixed frames

`cmd/node` and `cmd/coordinator` each have a copy of `readFrame` and `writeFrame`, with the same
code. A frame is a 4-byte header, the length of the payload, and the payload. The connection is the
bytes still to be read; `io.ReadFull` takes what is left when that is too little, and fails.
-/

namespace EdgeSim.Wire

open Bytes

inductive ReadError where
  | eof
  | unexpectedEOF
  deriving DecidableEq, Repr

/-- `io.ReadFull` into a buffer of `n` bytes, and what it leaves of the stream. -/
def readFull (n : ℕ) (stream : List UInt8) : Except ReadError (List UInt8) × List UInt8 :=
  if n ≤ stream.length then (.ok (stream.take n), stream.drop n)
  else (.error (if stream = [] then .eof else .unexpectedEOF), [])

def readFrame (stream : List UInt8) : Except ReadError (List UInt8) × List UInt8 :=
  match readFull 4 stream with
  | (.error e, rest) => (.error e, rest)
  | (.ok header, rest) =>
    let length := ofBytes header
    -- an empty payload is not read
    if length = 0 then (.ok [], rest) else readFull length rest

/-- What `writeFrame` puts on the connection; the length is cut to 32 bits. -/
def writeFrame (payload : List UInt8) : List UInt8 :=
  toBytes 4 (payload.length % 2 ^ 32) ++ if 0 < payload.length then payload else []

/-- The programs that have a copy of the code. -/
inductive Program where
  | node
  | coordinator
  deriving DecidableEq, Repr

def Program.readFrame : Program → List UInt8 → Except ReadError (List UInt8) × List UInt8
  | .node => Wire.readFrame
  | .coordinator => Wire.readFrame

def Program.writeFrame : Program → List UInt8 → List UInt8
  | .node => Wire.writeFrame
  | .coordinator => Wire.writeFrame

theorem Program.readFrame_eq (p : Program) : p.readFrame = Wire.readFrame := by cases p <;> rfl

theorem Program.writeFrame_eq (p : Program) : p.writeFrame = Wire.writeFrame := by cases p <;> rfl

/-! ## One frame -/

section Frame

variable {payload rest stream : List UInt8}

theorem readFull_append (bs rest : List UInt8) :
    readFull bs.length (bs ++ rest) = (.ok bs, rest) := by
  simp [readFull]

theorem readFull_short {n : ℕ} (h : stream.length < n) :
    ∃ e, readFull n stream = (.error e, []) := by
  rw [readFull, if_neg (by omega)]
  exact ⟨_, rfl⟩

theorem writeFrame_eq (payload : List UInt8) :
    writeFrame payload = toBytes 4 (payload.length % 2 ^ 32) ++ payload := by
  rw [writeFrame]
  split_ifs with h
  · rfl
  · rw [List.eq_nil_of_length_eq_zero (by omega : payload.length = 0)]

theorem length_writeFrame (payload : List UInt8) :
    (writeFrame payload).length = 4 + payload.length := by
  rw [writeFrame_eq, List.length_append, length_toBytes]

/-- The reader past a header. -/
theorem readFrame_header (n : ℕ) (body : List UInt8) :
    readFrame (toBytes 4 (n % 2 ^ 32) ++ body)
      = if n % 2 ^ 32 = 0 then (.ok [], body) else readFull (n % 2 ^ 32) body := by
  have hread := readFull_append (toBytes 4 (n % 2 ^ 32)) body
  have hlength : ofBytes (toBytes 4 (n % 2 ^ 32)) = n % 2 ^ 32 := by
    rw [ofBytes_toBytes]
    omega
  rw [length_toBytes] at hread
  simp only [readFrame, hread, hlength]

theorem readFrame_writeFrame (h : payload.length < 2 ^ 32) (rest : List UInt8) :
    readFrame (writeFrame payload ++ rest) = (.ok payload, rest) := by
  rw [writeFrame_eq, List.append_assoc, readFrame_header, Nat.mod_eq_of_lt h]
  split_ifs with h0
  · rw [List.eq_nil_of_length_eq_zero h0, List.nil_append]
  · exact readFull_append payload rest

/-- What takes up a whole frame is its payload, whatever the length. -/
theorem eq_of_readFrame_writeFrame {got : List UInt8}
    (h : readFrame (writeFrame payload) = (.ok got, [])) : got = payload := by
  rw [writeFrame_eq, readFrame_header] at h
  split_ifs at h with h0
  · simp only [Prod.mk.injEq, Except.ok.injEq] at h
    rw [← h.1, h.2]
  · rw [readFull, if_pos (Nat.mod_le _ _)] at h
    simp only [Prod.mk.injEq, Except.ok.injEq, List.drop_eq_nil_iff] at h
    rw [← h.1, List.take_of_length_le h.2]

/-- A frame that is cut anywhere is an error, with nothing left to read. -/
theorem readFrame_cut (h : payload.length < 2 ^ 32) (hpre : stream <+: writeFrame payload)
    (hlen : stream.length < (writeFrame payload).length) :
    ∃ e, readFrame stream = (.error e, []) := by
  rcases Nat.lt_or_ge stream.length 4 with h4 | h4
  · obtain ⟨e, he⟩ := readFull_short h4
    exact ⟨e, by simp only [readFrame, he]⟩
  · rw [length_writeFrame] at hlen
    rw [writeFrame_eq] at hpre
    -- the header is whole, and the payload is not
    obtain ⟨body, rfl⟩ : toBytes 4 (payload.length % 2 ^ 32) <+: stream :=
      List.prefix_of_prefix_length_le (List.prefix_append _ _) hpre (by simpa using h4)
    rw [List.length_append, length_toBytes] at hlen
    rw [readFrame_header, Nat.mod_eq_of_lt h, if_neg (by omega)]
    exact readFull_short (by omega)

theorem length_of_readFull {n : ℕ} (h : readFull n stream = (.ok payload, rest)) :
    rest.length + n = stream.length := by
  unfold readFull at h
  split at h
  · simp only [Prod.mk.injEq] at h
    rw [← h.2, List.length_drop]
    omega
  · cases h

theorem length_of_readFrame (h : readFrame stream = (.ok payload, rest)) :
    rest.length < stream.length := by
  unfold readFrame at h
  split at h
  · cases h
  · rename_i header body hheader
    have hbody := length_of_readFull hheader
    dsimp only at h
    split_ifs at h
    · simp only [Prod.mk.injEq] at h
      rw [← h.2]
      omega
    · have hrest := length_of_readFull h
      omega

end Frame

/-! ## A connection -/

/-- `readFrame` again and again, up to its first error: the payloads, the error, and what is left
of the stream. -/
def Program.readAll (p : Program) (stream : List UInt8) :
    List (List UInt8) × ReadError × List UInt8 :=
  match h : p.readFrame stream with
  | (.error e, rest) => ([], e, rest)
  | (.ok payload, rest) =>
    have : rest.length < stream.length := length_of_readFrame (p.readFrame_eq ▸ h)
    let (payloads, e, rest) := p.readAll rest
    (payload :: payloads, e, rest)
termination_by stream.length

/-- The bytes that the frames are on the connection, each written by one of the programs. -/
def writeAll (frames : List (Program × List UInt8)) : List UInt8 :=
  frames.flatMap fun f => f.1.writeFrame f.2

section

variable {p : Program} {stream rest : List UInt8}

theorem readAll_error {e : ReadError} (h : readFrame stream = (.error e, rest)) :
    p.readAll stream = ([], e, rest) := by
  rw [Program.readAll]
  split
  · rename_i heq
    rw [p.readFrame_eq, h] at heq
    cases heq
    rfl
  · rename_i heq
    rw [p.readFrame_eq, h] at heq
    cases heq

theorem readAll_ok {payload : List UInt8} (h : readFrame stream = (.ok payload, rest)) :
    p.readAll stream = (payload :: (p.readAll rest).1, (p.readAll rest).2) := by
  rw [Program.readAll]
  split
  · rename_i heq
    rw [p.readFrame_eq, h] at heq
    cases heq
  · rename_i heq
    rw [p.readFrame_eq, h] at heq
    cases heq
    rfl

variable {frames : List (Program × List UInt8)}

theorem writeAll_cons (f : Program × List UInt8) (frames : List (Program × List UInt8)) :
    writeAll (f :: frames) = writeFrame f.2 ++ writeAll frames := by
  rw [writeAll, List.flatMap_cons, f.1.writeFrame_eq]
  rfl

theorem readAll_writeAll (p : Program) :
    ∀ {frames : List (Program × List UInt8)}, (∀ f ∈ frames, f.2.length < 2 ^ 32) →
      p.readAll (writeAll frames) = (frames.map Prod.snd, .eof, [])
  | [], _ => readAll_error rfl
  | f :: frames, h => by
    rw [writeAll_cons, readAll_ok (readFrame_writeFrame (h f (by simp)) _),
      readAll_writeAll p fun g hg => h g (by simp [hg]), List.map_cons]

/-- A stream that is cut gives the payloads that came whole, and an error. -/
theorem readAll_cut (p : Program) :
    ∀ {frames : List (Program × List UInt8)} {stream : List UInt8},
      (∀ f ∈ frames, f.2.length < 2 ^ 32) → stream <+: writeAll frames →
      stream.length < (writeAll frames).length →
      ∃ j e, j < frames.length
        ∧ (writeAll (frames.take j)).length ≤ stream.length
        ∧ stream.length < (writeAll (frames.take (j + 1))).length
        ∧ p.readAll stream = ((frames.map Prod.snd).take j, e, [])
  | [], _, _, _, hlen => by simp [writeAll] at hlen
  | f :: frames, stream, h, hpre, hlen => by
    rw [writeAll_cons] at hpre hlen
    rcases Nat.lt_or_ge stream.length (writeFrame f.2).length with hcut | hcut
    · -- the cut is in the first frame
      obtain ⟨e, he⟩ := readFrame_cut (h f (by simp))
        (List.prefix_of_prefix_length_le hpre (List.prefix_append _ _) hcut.le) hcut
      refine ⟨0, e, by simp, by simp [writeAll], ?_, by rw [readAll_error he]; rfl⟩
      rw [Nat.zero_add, List.take_succ_cons, writeAll_cons, List.length_append]
      omega
    · obtain ⟨rest, rfl⟩ : writeFrame f.2 <+: stream :=
        List.prefix_of_prefix_length_le (List.prefix_append _ _) hpre hcut
      rw [List.length_append, List.length_append] at hlen
      obtain ⟨j, e, hj, hle, hlt, hread⟩ := readAll_cut p (fun g hg => h g (by simp [hg]))
        ((List.prefix_append_right_inj _).1 hpre) (by omega)
      refine ⟨j + 1, e, by simpa using hj, ?_, ?_, ?_⟩
      · rw [List.take_succ_cons, writeAll_cons, List.length_append, List.length_append]
        omega
      · rw [List.take_succ_cons, writeAll_cons, List.length_append, List.length_append]
        omega
      · rw [readAll_ok (readFrame_writeFrame (h f (by simp)) _), hread]
        rfl

/-- Frames come back as they were written, whichever programs write and read, and a stream that
stops early gives the payloads of the frames that lie in it, and then an error. -/
theorem frames_round_trip (p : Program) (h : ∀ f ∈ frames, f.2.length < 2 ^ 32) :
    p.readAll (writeAll frames) = (frames.map Prod.snd, .eof, [])
    ∧ ∀ stream, stream <+: writeAll frames → stream ≠ writeAll frames →
      ∃ j e, j < frames.length
        ∧ (writeAll (frames.take j)).length ≤ stream.length
        ∧ stream.length < (writeAll (frames.take (j + 1))).length
        ∧ p.readAll stream = ((frames.map Prod.snd).take j, e, []) := by
  refine ⟨readAll_writeAll p h, fun stream hpre hne => readAll_cut p h hpre ?_⟩
  exact lt_of_le_of_ne hpre.length_le fun heq => hne (hpre.eq_of_length heq)

theorem frames_round_trip_hello : Program.coordinator.readAll
      (writeAll [(.node, [104, 105]), (.coordinator, []), (.node, [33])])
    = ([[104, 105], [], [33]], .eof, []) :=
  (frames_round_trip .coordinator (by decide)).1

end

end EdgeSim.Wire
