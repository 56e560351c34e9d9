import EdgeSim.Raft.Safety
import EdgeSim.SensorNode.State

/-!
# A gossip frame at a coordinator

`handleGossipConn` of `cmd/coordinator`. It asks the Raft node for its role, for its leader, to
propose, and for its leader again, and takes no lock over these calls, so the node may be another
one at each of them. What the handler does is the list of its events.
-/

namespace EdgeSim.Coordinator

open Raft (ProposeResult)
open SensorNode (Codec Text coordinatorReading)

/-- What `sendPropose` gets back, unless it fails. -/
structure ProposeResponse where
  ok : Bool
  error : String
  leaderID : String
  deriving DecidableEq, Repr

inductive Event where
  /-- `storeAndLog` -/
  | stored (reading : Reading)
  /-- `Propose` on the node of this coordinator -/
  | proposed (command : Text) (result : ProposeResult)
  /-- `sendPropose` -/
  | sentPropose (addr : String) (command : Text)
  | warned (message : String)
  /-- the frame holds no reading; a line is logged -/
  | dropped
  deriving DecidableEq, Repr

/-- The Raft node when each of the calls is made. `replicated` is what `Propose` returns if it finds
the node leader. -/
structure RaftCalls where
  atState : Raft.Node
  atLeaderID : Raft.Node
  atPropose : Raft.Node
  replicated : ProposeResult
  afterPropose : Raft.Node

def RaftCalls.propose (calls : RaftCalls) : ProposeResult :=
  if calls.atPropose.state ≠ .leader then .notLeader else calls.replicated

/-- `errors.Is(err, raft.ErrNotLeader)`; nil is `none`. -/
def isErrNotLeader (err : Option ProposeResult) : Bool := err = some .notLeader

abbrev RaftPeers := Finmap fun _ : String => String

/-- The block that sends the command to a leader; `rpc` is what the RPC returns. -/
def forward (raftPeers : RaftPeers) (rpc : String → Text → Option ProposeResponse)
    (leaderID : String) (command : Text) : List Event :=
  match raftPeers.lookup leaderID with
  | none => [.warned "leader address unknown"]
  | some leaderAddr =>
    if leaderAddr = "" then [.warned "leader address unknown"]
    else
      .sentPropose leaderAddr command ::
        match rpc leaderAddr command with
        | none => [.warned "forward to leader failed"]
        | some resp => if resp.ok then [] else [.warned "leader rejected propose"]

/-- The part of `handleGossipConn` that has the encoded reading. -/
def handleCommand (raftPeers : RaftPeers) (rpc : String → Text → Option ProposeResponse)
    (calls : RaftCalls) (command : Text) : List Event :=
  -- `err` of `encodeReadingCommand`, which succeeded
  let err : Option ProposeResult := none
  if calls.atState.state ≠ .leader ∧ calls.atLeaderID.leaderID ≠ "" then
    forward raftPeers rpc calls.atLeaderID.leaderID command
  else
    -- `if err := raftNode.Propose(ctx, command); err == nil` has an `err` of its own
    .proposed command calls.propose ::
      if calls.propose = .ok then []
      else if isErrNotLeader err then forward raftPeers rpc calls.afterPropose.leaderID command
      else [.warned "propose failed"]

/-- `none` is a coordinator without a Raft node. -/
def handleGossipConn (codec : Codec) (raftPeers : RaftPeers)
    (rpc : String → Text → Option ProposeResponse) (raftNode : Option RaftCalls) (payload : Text) :
    List Event :=
  match coordinatorReading codec payload with
  | none => [.dropped]
  | some (_, reading) =>
    match raftNode with
    | none => [.stored reading]
    | some calls =>
      match codec.encode reading with
      | none => [.warned "gossip reading encode failed"]
      | some command => handleCommand raftPeers rpc calls command

/-- The leader that the node names after `Propose` is sent the command, if its address is known. -/
def Forwarded (raftPeers : RaftPeers) (calls : RaftCalls) (command : Text)
    (events : List Event) : Prop :=
  ∀ addr, raftPeers.lookup calls.afterPropose.leaderID = some addr → addr ≠ "" →
    .sentPropose addr command ∈ events

section

variable {codec : Codec} {raftPeers : RaftPeers} {rpc : String → Text → Option ProposeResponse}
  {calls : RaftCalls} {payload messageID command : Text} {reading : Reading} {addr : String}

/-- After a local `Propose` that fails nothing is sent: the `err` that is tested is nil. -/
theorem handleCommand_failed
    (hlocal : calls.atState.state = .leader ∨ calls.atLeaderID.leaderID = "")
    (hfail : calls.propose ≠ .ok) :
    handleCommand raftPeers rpc calls command
      = [.proposed command calls.propose, .warned "propose failed"] := by
  unfold handleCommand
  rw [if_neg, if_neg hfail]
  · rfl
  · rintro ⟨hstate, hleader⟩
    exact hlocal.elim hstate hleader

theorem proposed_notMem_forward {leaderID : String} {result : ProposeResult} :
    .proposed command result ∉ forward raftPeers rpc leaderID command := by
  unfold forward
  split
  · simp
  · split_ifs
    · simp
    · split
      · simp
      · split_ifs <;> simp

/-- The local `Propose` is called by a leader, and where no leader is known. -/
theorem local_of_proposed {result : ProposeResult}
    (h : .proposed command result ∈ handleCommand raftPeers rpc calls command) :
    (calls.atState.state = .leader ∨ calls.atLeaderID.leaderID = "") ∧ calls.propose = result := by
  unfold handleCommand at h
  dsimp only at h
  split_ifs at h with hremote hok hnot
  · exact absurd h proposed_notMem_forward
  · exact ⟨by tauto, by simpa [eq_comm] using h⟩
  · cases hnot
  · exact ⟨by tauto, by simpa [eq_comm] using h⟩

theorem handleGossipConn_eq (hframe : coordinatorReading codec payload = some (messageID, reading))
    (hcommand : codec.encode reading = some command) :
    handleGossipConn codec raftPeers rpc (some calls) payload
      = handleCommand raftPeers rpc calls command := by
  rw [handleGossipConn, hframe]
  dsimp only
  rw [hcommand]

/-- Whenever the local `Propose` returns `ErrNotLeader` and the node then names a leader whose
address is known, the command is not sent to that leader. -/
theorem reading_dropped (hframe : coordinatorReading codec payload = some (messageID, reading))
    (hcommand : codec.encode reading = some command)
    (hproposed : .proposed command .notLeader
      ∈ handleGossipConn codec raftPeers rpc (some calls) payload)
    (hknown : raftPeers.lookup calls.afterPropose.leaderID = some addr) (haddr : addr ≠ "") :
    ¬ Forwarded raftPeers calls command
      (handleGossipConn codec raftPeers rpc (some calls) payload) := by
  rw [handleGossipConn_eq hframe hcommand] at hproposed ⊢
  intro hforwarded
  obtain ⟨hlocal, hresult⟩ := local_of_proposed hproposed
  have hsent := hforwarded addr hknown haddr
  rw [handleCommand_failed hlocal (by rw [hresult]; decide)] at hsent
  simp at hsent

/-- The addresses that the coordinator `a` is given. -/
def peersOfA : RaftPeers :=
  (Finmap.singleton "b" "10.0.0.2:7000").insert "c" "10.0.0.3:7000"

/-- The node is `before` when it is asked for its role and `after` when it is asked to propose. -/
def changedCalls (before after : Raft.Node) : RaftCalls := ⟨before, before, after, .ok, after⟩

def frameAt1 : Text := SensorNode.Msg.format ⟨SensorNode.bytesOf "00", 0, SensorNode.payloadAt1⟩

theorem coordinatorReading_frameAt1 : coordinatorReading SensorNode.codecAt12 frameAt1
    = some (SensorNode.bytesOf "00", SensorNode.readingAt 1) := by
  have hwf : SensorNode.Msg.WF ⟨SensorNode.bytesOf "00", 0, SensorNode.payloadAt1⟩ :=
    ⟨by decide, by decide, by decide +kernel⟩
  rw [frameAt1, hwf.coordinatorReading]
  decide +kernel

theorem encode_readingAt1 :
    SensorNode.codecAt12.encode (SensorNode.readingAt 1) = some SensorNode.payloadAt1 := by
  decide +kernel

theorem events_changed {before after : Raft.Node} (hbefore : before.state = .leader)
    (hafter : after.state ≠ .leader) :
    handleGossipConn SensorNode.codecAt12 peersOfA rpc (some (changedCalls before after)) frameAt1
      = [.proposed SensorNode.payloadAt1 .notLeader, .warned "propose failed"] := by
  have hresult : (changedCalls before after).propose = .notLeader := if_pos hafter
  rw [handleGossipConn_eq coordinatorReading_frameAt1 encode_readingAt1,
    handleCommand_failed (.inl hbefore) (by rw [hresult]; decide), hresult]

theorem reading_dropped_deposed :
    ¬ Forwarded peersOfA
      (changedCalls { Raft.trio.node "a" with state := .leader, leaderID := "a" }
        { Raft.trio.node "a" with leaderID := "b" }) SensorNode.payloadAt1
      (handleGossipConn SensorNode.codecAt12 peersOfA (fun _ _ => some ⟨true, "", ""⟩)
        (some (changedCalls { Raft.trio.node "a" with state := .leader, leaderID := "a" }
          { Raft.trio.node "a" with leaderID := "b" })) frameAt1) :=
  reading_dropped coordinatorReading_frameAt1 encode_readingAt1
    (by rw [events_changed rfl (by decide)]; exact List.mem_cons_self)
    (show peersOfA.lookup "b" = some "10.0.0.2:7000" by decide +kernel) (by decide)

/-- `a` is leader when a frame comes in, and follows `b` when it is asked to propose the reading: it
is proposed to no one else. -/
theorem deposed_leader_drops : ∃ s t, Raft.trio.Run Raft.trio.init (Raft.electBy "a" 0) s
    ∧ Raft.trio.Run s (Raft.electBy "b" 3 ++ [.readPrevLogIndex 2, .readPrevLogTerm 2,
      .sendAppendEntries 2, .handleAppendEntries 2]) t
    ∧ peersOfA.lookup (t.node "a").leaderID = some "10.0.0.2:7000"
    ∧ handleGossipConn SensorNode.codecAt12 peersOfA (fun _ _ => some ⟨true, "", ""⟩)
        (some (changedCalls (s.node "a") (t.node "a"))) frameAt1
      = [.proposed SensorNode.payloadAt1 .notLeader, .warned "propose failed"] := by
  obtain ⟨s, hs, hp⟩ : ∃ s, Raft.trio.Run Raft.trio.init _ s ∧ _ :=
    Runs.exists_run (Raft.electBy "a" 0)
      (fun s => decide ((s.node "a").state = .leader)
        && (Runs.exec (Raft.System.step Raft.trio) (fun _ _ => True) s
          (Raft.electBy "b" 3 ++ [.readPrevLogIndex 2, .readPrevLogTerm 2, .sendAppendEntries 2,
            .handleAppendEntries 2])).any
          fun t => (t.node "a").state = .follower ∧ (t.node "a").leaderID = "b")
      (by decide +kernel)
  rw [Bool.and_eq_true, decide_eq_true_eq, Option.any_eq_true] at hp
  obtain ⟨hleader, t, ht, hfollower⟩ := hp
  obtain ⟨hfollower, hb⟩ := of_decide_eq_true hfollower
  refine ⟨s, t, hs, Runs.run_of_exec _ ht, ?_, events_changed hleader (by rw [hfollower]; decide)⟩
  rw [hb]
  decide +kernel

end

end EdgeSim.Coordinator
