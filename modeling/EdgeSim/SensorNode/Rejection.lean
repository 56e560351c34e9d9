import EdgeSim.SensorNode.Freshness

/-!
# What a rejected message leaves behind

`handleGossipMessage` marks a message's ID as seen before it looks at the ttl and the payload. A
message that it then rejects has used up its ID: a well-formed copy that comes later is taken for
one that was handled. Only a message that is too short to have an ID and one whose ID is marked
already leave nothing behind.
-/

namespace EdgeSim.SensorNode

open Coordinator (Reading)

/-- The messages that do not pass the checks of `handleGossipMessage`. -/
inductive Malformed (codec : Codec) : List Text → Prop
  | short {parts : List Text} (h : parts.length < 3) : Malformed codec parts
  | ttl {messageID ttl payload : Text} {rest : List Text} (h : atoi ttl = none) :
      Malformed codec (messageID :: ttl :: payload :: rest)
  | negative {messageID ttl payload : Text} {rest : List Text} {n : ℤ} (h : atoi ttl = some n)
      (hn : n < 0) : Malformed codec (messageID :: ttl :: payload :: rest)
  | payload {messageID ttl payload : Text} {rest : List Text} (h : codec.decode payload = none) :
      Malformed codec (messageID :: ttl :: payload :: rest)

/-- The state after the messages, each with the indices drawn while it is handled, and the frames
that each of them makes the node send. -/
def handleSequence (codec : Codec) (cfg : Config) :
    NodeState → List (List ℕ × List Text) → NodeState × List (List (Text × Text))
  | s, [] => (s, [])
  | s, (indices, parts) :: later =>
    let (s, frames) := handleGossipMessage codec cfg indices s parts
    let (s, rest) := handleSequence codec cfg s later
    (s, frames :: rest)

/-- The state is unchanged, and whatever comes later is stored and forwarded as if the message had
never arrived. -/
def NoTrace (codec : Codec) (cfg : Config) (s : NodeState) (parts : List Text) : Prop :=
  ∀ indices, (handleGossipMessage codec cfg indices s parts).1 = s
    ∧ ∀ later, handleSequence codec cfg (handleGossipMessage codec cfg indices s parts).1 later
      = handleSequence codec cfg s later

variable {codec : Codec} {cfg : Config} {s : NodeState} {parts : List Text} {indices : List ℕ}
  {messageID : Text}

theorem handleGossipMessage_short (h : parts.length < 3) :
    handleGossipMessage codec cfg indices s parts = (s, []) := by
  rcases parts with _ | ⟨a, _ | ⟨b, _ | ⟨c, rest⟩⟩⟩
  · rfl
  · rfl
  · rfl
  · simp only [List.length_cons] at h
    omega

theorem handleGossipMessage_seen_id (hid : parts.head? = some messageID)
    (h : messageID ∈ s.seenGossip) : handleGossipMessage codec cfg indices s parts = (s, []) := by
  rw [handleGossipMessage, checkGossipMessage_seen (m := ⟨messageID, 0, []⟩) h hid]

/-- A malformed message of a new ID does nothing but mark the ID. -/
theorem handleGossipMessage_malformed (hbad : Malformed codec parts) (hlen : 3 ≤ parts.length)
    (hid : parts.head? = some messageID) (h : messageID ∉ s.seenGossip) :
    handleGossipMessage codec cfg indices s parts
      = ({ s with seenGossip := insert messageID s.seenGossip }, []) := by
  unfold handleGossipMessage checkGossipMessage NodeState.shouldProcessGossip
  cases hbad with
  | short hshort => omega
  | ttl hatoi =>
    obtain rfl := Option.some.inj hid
    simp only [if_neg h, hatoi]
  | negative hatoi hn =>
    obtain rfl := Option.some.inj hid
    simp only [if_neg h, hatoi, if_pos hn]
  | @payload _ ttl payload rest hdecode =>
    obtain rfl := Option.some.inj hid
    simp only [if_neg h, hdecode]
    cases atoi ttl with
    | none => rfl
    | some n =>
      dsimp only
      split_ifs
      · rfl
      · rfl

theorem noTrace_of_unchanged
    (h : ∀ indices, (handleGossipMessage codec cfg indices s parts).1 = s) :
    NoTrace codec cfg s parts :=
  fun indices => ⟨h indices, fun later => by rw [h indices]⟩

/-- A malformed message leaves no trace exactly when it has no ID, or one that is marked. Otherwise
every well-formed copy that comes next is lost, which the node would have stored. -/
theorem rejected_trace (codec : Codec) (cfg : Config) (s : NodeState) {parts : List Text}
    (hbad : Malformed codec parts) :
    (NoTrace codec cfg s parts
      ↔ parts.length < 3 ∨ ∃ messageID ∈ s.seenGossip, parts.head? = some messageID)
    ∧ (¬ NoTrace codec cfg s parts → ∀ indices indices' (g : GossipMessage codec),
        parts.head? = some g.msg.id →
        handleGossipMessage codec cfg indices'
            (handleGossipMessage codec cfg indices s parts).1 g.parts
          = ((handleGossipMessage codec cfg indices s parts).1, [])
        ∧ (handleGossipMessage codec cfg indices' s g.parts).1.readings
          = s.readings.insert g.reading.nodeID g.reading) := by
  have hclean : parts.length < 3 ∨ (∃ messageID ∈ s.seenGossip, parts.head? = some messageID) →
      NoTrace codec cfg s parts := by
    rintro (hlen | ⟨messageID, hseen, hid⟩)
    · exact noTrace_of_unchanged fun indices => by rw [handleGossipMessage_short hlen]
    · exact noTrace_of_unchanged fun indices => by rw [handleGossipMessage_seen_id hid hseen]
  refine ⟨⟨fun htrace => ?_, hclean⟩, fun htrace indices indices' g hid => ?_⟩
  · by_contra hcond
    rw [not_or, not_lt] at hcond
    obtain ⟨hlen, hnew⟩ := hcond
    obtain ⟨messageID, hid⟩ : ∃ messageID, parts.head? = some messageID := by
      cases parts with
      | nil => simp at hlen
      | cons messageID rest => exact ⟨messageID, rfl⟩
    have hid' : messageID ∉ s.seenGossip := fun hseen => hnew ⟨messageID, hseen, hid⟩
    have hsame := (htrace []).1
    rw [handleGossipMessage_malformed hbad hlen hid hid'] at hsame
    have hseen := congrArg NodeState.seenGossip hsame
    exact hid' (hseen ▸ Finset.mem_insert_self _ _)
  · rw [← not_imp_not] at hclean
    have hcond := hclean htrace
    rw [not_or, not_lt] at hcond
    have hnew : g.msg.id ∉ s.seenGossip := fun hseen => hcond.2 ⟨_, hseen, hid⟩
    rw [handleGossipMessage_malformed hbad hcond.1 hid hnew, handleGossipMessage_new hnew]
    exact ⟨handleGossipMessage_seen_id rfl (Finset.mem_insert_self _ _), rfl⟩

/-- A copy of the first message with the ttl `x`. -/
def corrupted : List Text := [messageAt1.msg.id, bytesOf "x", payloadAt1]

theorem malformed_corrupted : Malformed codecAt12 corrupted := .ttl (by decide +kernel)

/-- On a node that has seen the message the corrupted copy leaves no trace. -/
theorem rejected_trace_seen :
    NoTrace codecAt12 (.default []) { NodeState.init [] with seenGossip := {messageAt1.msg.id} }
      corrupted :=
  (rejected_trace codecAt12 (.default [])
    { NodeState.init [] with seenGossip := {messageAt1.msg.id} } malformed_corrupted).1.2
    (.inr ⟨_, Finset.mem_singleton_self _, rfl⟩)

/-- The corrupted copy first, and the node never stores the reading. -/
theorem corrupted_suppresses :
    ¬ NoTrace codecAt12 (.default []) (.init []) corrupted
    ∧ (handleSequence codecAt12 (.default []) (.init []) [([], messageAt1.parts)]).1.readings.lookup
        "a" = some (readingAt 1)
    ∧ (handleSequence codecAt12 (.default []) (.init [])
        [([], corrupted), ([], messageAt1.parts)]).1.readings.lookup "a" = none := by
  refine ⟨fun htrace => ?_, by decide +kernel⟩
  have hseen := congrArg NodeState.seenGossip (htrace []).1
  exact absurd hseen (by decide +kernel)

end EdgeSim.SensorNode
