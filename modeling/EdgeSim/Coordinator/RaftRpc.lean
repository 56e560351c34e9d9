import EdgeSim.Coordinator.GossipConn
import EdgeSim.Lib.Lists
import EdgeSim.Lib.Stdlib
import EdgeSim.Wire.Frame

/-!
# Raft RPCs between coordinators

`raft_rpc.go` and `raft_transport.go` of `cmd/coordinator`. An RPC is one connection: a frame with
a JSON envelope goes to the server, which calls its node and sends a frame with the response back.
Either side reads what has arrived when the connection ends, which may be any part of a frame.
`encoding/json` is a parameter.
-/

namespace EdgeSim.Coordinator

open Raft (AppendEntriesRequest AppendEntriesResponse LogEntry ProposeResult RequestVoteRequest
  RequestVoteResponse)
open Stdlib Wire

structure ProposeRequest where
  command : String
  deriving DecidableEq, Repr

structure RaftEnvelope where
  type : String
  requestVote : Option RequestVoteRequest
  appendEntries : Option AppendEntriesRequest
  propose : Option ProposeRequest
  deriving DecidableEq, Repr

structure RaftJson where
  envelope : Json RaftEnvelope
  requestVote : Json RequestVoteResponse
  appendEntries : Json AppendEntriesResponse
  propose : Json ProposeResponse

def rpcRequestVote : String := "REQUEST_VOTE"
def rpcAppendEntries : String := "APPEND_ENTRIES"
def rpcPropose : String := "PROPOSE"

/-! ## The server -/

/-- The call that `handleRaftConn` makes on its node. -/
inductive RaftCall where
  | requestVote (req : RequestVoteRequest)
  | appendEntries (req : AppendEntriesRequest)
  | propose (command : String)
  deriving DecidableEq, Repr

/-- The `switch` of `handleRaftConn`. -/
def RaftEnvelope.call (envelope : RaftEnvelope) : Option RaftCall :=
  if envelope.type = rpcRequestVote then envelope.requestVote.map .requestVote
  else if envelope.type = rpcAppendEntries then envelope.appendEntries.map .appendEntries
  else if envelope.type = rpcPropose then envelope.propose.map fun p => .propose p.command
  else none

/-- What `handleRaftConn` calls, if the bytes it gets to read make up a request. -/
def raftCall (json : Json RaftEnvelope) (stream : List UInt8) : Option RaftCall :=
  match (readFrame stream).1 with
  | .error _ => none
  | .ok payload =>
    match json.unmarshal payload with
    | none => none
    | some envelope => envelope.call

def writeJSONFrame {α : Type} (json : Json α) (x : α) : List UInt8 :=
  match json.marshal x with
  | none => []
  | some data => writeFrame data

/-- `err.Error()`; the context is that of the program, which has no deadline. -/
def errorText : ProposeResult → String
  | .ok => ""
  | .notLeader => "not leader"
  | .replicationFailed => "replication failed"
  | .canceled => "context canceled"

/-- The response to `PROPOSE`; `leaderID` is the node's when `Propose` has returned. -/
def proposeResponse (result : ProposeResult) (leaderID : String) : ProposeResponse where
  ok := result = .ok
  error := errorText result
  leaderID := if result = .notLeader then leaderID else ""

/-- The node after the handler, what it hands to `ApplyFunc`, and the bytes it has written; `none`
is a panic of the node. `propose` is what `Propose` returns and the node after it. -/
def handleRaftConn (json : RaftJson) (propose : String → ProposeResult × Raft.Node)
    (node : Raft.Node) (stream : List UInt8) :
    Option (Raft.Node × List (ℕ × LogEntry) × List UInt8) :=
  match raftCall json.envelope stream with
  | none => some (node, [], [])
  | some (.requestVote req) =>
    let (node, resp) := node.handleRequestVote req
    some (node, [], writeJSONFrame json.requestVote resp)
  | some (.appendEntries req) =>
    match node.handleAppendEntries req with
    | none => none
    | some (node, es, resp) => some (node, es, writeJSONFrame json.appendEntries resp)
  | some (.propose command) =>
    let (result, node) := propose command
    some (node, [], writeJSONFrame json.propose (proposeResponse result node.leaderID))

/-! ## The client -/

inductive RpcError where
  | unknownPeer (targetID : String)
  | dial
  | marshal
  | write
  | read (err : ReadError)
  | unmarshal
  deriving DecidableEq, Repr

/-- The end of `sendRaftRPC`. -/
def readResponse {α : Type} (json : Json α) (stream : List UInt8) : Except RpcError α :=
  match (readFrame stream).1 with
  | .error err => .error (.read err)
  | .ok data =>
    match json.unmarshal data with
    | none => .error .unmarshal
    | some resp => .ok resp

/-- What comes back on a connection on which bytes are written; `none` if writing them fails. -/
abbrev Conn := List UInt8 → Option (List UInt8)

/-- `conn` is what dialling the address gives. -/
def sendRaftRPC {α : Type} (json : Json RaftEnvelope) (respJson : Json α) (conn : Option Conn)
    (req : RaftEnvelope) : Except RpcError α :=
  match conn with
  | none => .error .dial
  | some conn =>
    match json.marshal req with
    | none => .error .marshal
    | some payload =>
      match conn (writeFrame payload) with
      | none => .error .write
      | some stream => readResponse respJson stream

def voteEnvelope (req : RequestVoteRequest) : RaftEnvelope := ⟨rpcRequestVote, some req, none, none⟩

def appendEnvelope (req : AppendEntriesRequest) : RaftEnvelope :=
  ⟨rpcAppendEntries, none, some req, none⟩

def proposeEnvelope (command : String) : RaftEnvelope := ⟨rpcPropose, none, none, some ⟨command⟩⟩

/-- The methods of `tcpTransport`, which differ in the envelope. `net` is what dialling an address
gives. -/
def tcpTransport {α : Type} (json : Json RaftEnvelope) (respJson : Json α) (peers : RaftPeers)
    (net : String → Option Conn) (targetID : String) (envelope : RaftEnvelope) :
    Except RpcError α :=
  match peers.lookup targetID with
  | none => .error (.unknownPeer targetID)
  | some addr => sendRaftRPC json respJson (net addr) envelope

section

variable {α : Type} {payload : List UInt8}

theorem take_lt_writeFrame {i : ℕ} (h : i < (writeFrame payload).length) :
    ((writeFrame payload).take i).length < (writeFrame payload).length := by
  rw [List.length_take]
  omega

theorem readFrame_take (h : payload.length < 2 ^ 32) (i : ℕ) :
    ((writeFrame payload).length ≤ i ∧ (readFrame ((writeFrame payload).take i)).1 = .ok payload)
      ∨ (i < (writeFrame payload).length
        ∧ ∃ e, (readFrame ((writeFrame payload).take i)).1 = .error e) := by
  rcases Nat.lt_or_ge i (writeFrame payload).length with hi | hi
  · obtain ⟨e, he⟩ := readFrame_cut h (Lists.take_isPrefix List.prefix_rfl i)
      (take_lt_writeFrame hi)
    exact .inr ⟨hi, e, by rw [he]⟩
  · have hread := readFrame_writeFrame h []
    rw [List.append_nil] at hread
    exact .inl ⟨hi, by rw [List.take_of_length_le hi, hread]⟩

/-- The server calls what the client asked for, or nothing. -/
theorem raftCall_take {json : Json RaftEnvelope} {envelope : RaftEnvelope}
    (hm : json.marshal envelope = some payload) (h : payload.length < 2 ^ 32) (i : ℕ) :
    raftCall json ((writeFrame payload).take i)
      = if (writeFrame payload).length ≤ i then envelope.call else none := by
  unfold raftCall
  rcases readFrame_take h i with ⟨hi, hread⟩ | ⟨hi, e, hread⟩
  · rw [hread, if_pos hi]
    dsimp only
    rw [json.unmarshal_marshal _ _ hm]
  · rw [hread, if_neg (by omega)]

theorem call_voteEnvelope (req : RequestVoteRequest) :
    (voteEnvelope req).call = some (.requestVote req) := rfl

theorem call_appendEnvelope (req : AppendEntriesRequest) :
    (appendEnvelope req).call = some (.appendEntries req) := rfl

theorem call_proposeEnvelope (command : String) :
    (proposeEnvelope command).call = some (.propose command) := rfl

end

/-! ## Both ends of a call -/

/-- No message is too long for the header of a frame. -/
structure RaftJson.Fits (json : RaftJson) : Prop where
  envelope : ∀ x data, json.envelope.marshal x = some data → data.length < 2 ^ 32
  requestVote : ∀ x data, json.requestVote.marshal x = some data → data.length < 2 ^ 32
  appendEntries : ∀ x data, json.appendEntries.marshal x = some data → data.length < 2 ^ 32
  propose : ∀ x data, json.propose.marshal x = some data → data.length < 2 ^ 32

section

variable {json : RaftJson} {propose : String → ProposeResult × Raft.Node} {node : Raft.Node}
  {i j : ℕ} {payload : List UInt8} {envelope : RaftEnvelope}

theorem raftCall_writeFrame (hfits : json.Fits)
    (hm : json.envelope.marshal envelope = some payload) :
    raftCall json.envelope (writeFrame payload) = envelope.call := by
  have h := raftCall_take hm (hfits.envelope _ _ hm) (writeFrame payload).length
  rwa [List.take_length, if_pos le_rfl] at h

/-- A request is handled as a whole or not at all. -/
theorem handleRaftConn_take (hfits : json.Fits)
    (hm : json.envelope.marshal envelope = some payload)
    (propose : String → ProposeResult × Raft.Node) (node : Raft.Node) (i : ℕ) :
    handleRaftConn json propose node ((writeFrame payload).take i)
      = if (writeFrame payload).length ≤ i
        then handleRaftConn json propose node (writeFrame payload)
        else some (node, [], []) := by
  unfold handleRaftConn
  rw [raftCall_take hm (hfits.envelope _ _ hm), raftCall_writeFrame hfits hm]
  split_ifs <;> rfl

theorem handleRaftConn_vote (hfits : json.Fits) {req : RequestVoteRequest}
    (hm : json.envelope.marshal (voteEnvelope req) = some payload) :
    handleRaftConn json propose node (writeFrame payload)
      = some ((node.handleRequestVote req).1, [],
        writeJSONFrame json.requestVote (node.handleRequestVote req).2) := by
  unfold handleRaftConn
  rw [raftCall_writeFrame hfits hm, call_voteEnvelope]

theorem handleRaftConn_append (hfits : json.Fits) {req : AppendEntriesRequest}
    (hm : json.envelope.marshal (appendEnvelope req) = some payload) :
    handleRaftConn json propose node (writeFrame payload) = (node.handleAppendEntries req).map
      fun x => (x.1, x.2.1, writeJSONFrame json.appendEntries x.2.2) := by
  unfold handleRaftConn
  rw [raftCall_writeFrame hfits hm, call_appendEnvelope]
  dsimp only
  rcases node.handleAppendEntries req with _ | ⟨n, es, resp⟩ <;> rfl

variable {peers : RaftPeers} {net : String → Option Conn} {targetID addr : String}

end

/-- The codec of one request for a vote and its answer. -/
def voteJson : RaftJson where
  envelope := .ofList [voteEnvelope ⟨1, "a", 0, 0⟩] (by decide)
  requestVote := .ofList [⟨1, true⟩] (by decide)
  appendEntries := .ofList [] (by decide)
  propose := .ofList [] (by decide)

end EdgeSim.Coordinator
