import EdgeSim.Raft.Replica
import Mathlib.Logic.Function.Basic

/-!
# A cluster of Raft nodes

Every goroutine of `pkg/raft` is here with the place it has reached: the `Run` loop of each node,
the goroutine each RPC runs in, and each call of `Propose`. An RPC goroutine reads `n.log` and
`n.commitIndex` without the mutex, one field after the other and at any time after it was started,
so each read is a step of its own. A request may be handled late, never or more than once; a call
takes at most one of the replies, or fails.
-/

namespace EdgeSim.Raft

/-- Where the goroutine of `Run` stands. -/
inductive RunLoop where
  /-- in the `select` of `Run` -/
  | select
  /-- past `onElectionTimeout`'s check, before the first lock of `startElection` -/
  | startElection
  /-- in the loop of `startElection` -/
  | collectVotes (term votes responses : ℕ)
  /-- before the lock of `becomeLeader` -/
  | becomeLeader
  /-- before the lock of `sendHeartbeats` -/
  | sendHeartbeats
  /-- returned, its context canceled -/
  | stopped
  deriving DecidableEq, Repr

/-- A goroutine of `startElection`: one `RequestVote` call. -/
structure VoteCall where
  caller : String
  peer : String
  term : ℕ
  /-- `n.lastLogIndex()`, once read -/
  lastLogIndex : Option ℕ
  request : Option RequestVoteRequest
  /-- the replies under way -/
  replies : List RequestVoteResponse
  /-- what `startElection` took from `respCh` -/
  received : Option RequestVoteResponse
  deriving DecidableEq, Repr

/-- What an `AppendEntries` call ended in: an error or a reply, with its sender as it was. -/
inductive Outcome where
  | failed
  | reply (answer : Answer)
  deriving DecidableEq, Repr

/-- A goroutine of `Propose` or `sendHeartbeats`: one `AppendEntries` call. -/
structure AppendCall where
  caller : String
  peer : String
  /-- the call of `Propose` it belongs to, none for a heartbeat -/
  proposal : Option ℕ
  term : ℕ
  /-- `prevIndex` in `Propose`; `n.lastLogIndex()`, once read, in `sendHeartbeats` -/
  prevLogIndex : Option ℕ
  prevLogTerm : Option ℕ
  entries : List LogEntry
  request : Option AppendEntriesRequest
  replies : List Answer
  received : Option Outcome
  deriving DecidableEq, Repr

/-- What `Propose` returns once it has appended its entry. -/
inductive ProposeResult where
  | ok
  | notLeader
  | replicationFailed
  | canceled
  deriving DecidableEq, Repr

/-- A call of `Propose` on a leader. `log` is the node's log with the entry appended, which no step
reads; `ended` has the result and the node's `commitIndex` when the loop was left. -/
structure Proposal where
  node : String
  entry : LogEntry
  log : List LogEntry
  prevIndex : ℕ
  prevTerm : ℕ
  newIndex : ℕ
  acks : ℕ
  responses : ℕ
  ended : Option (ProposeResult × ℕ)
  deriving DecidableEq, Repr

/-- `becomeLeader` made `id` leader of `term`, with `log`. -/
structure Election where
  id : String
  term : ℕ
  log : List LogEntry
  deriving DecidableEq, Repr

structure System where
  replicas : String → Replica
  loops : String → RunLoop
  voteCalls : List VoteCall
  appendCalls : List AppendCall
  proposals : List Proposal
  /-- the nodes that have panicked -/
  panicked : List String
  /-- those there have been; no step reads it -/
  elections : List Election

/-- A configuration: distinct, non-empty IDs, each node made by `NewNode` with the others as its
peers, in any order. -/
structure Cluster where
  ids : List String
  config : String → Config
  node : String → Node
  nodup : ids.Nodup
  config_id : ∀ id ∈ ids, (config id).id = id
  created : ∀ id ∈ ids, newNode (config id) = .ok (node id)
  peers_nodup : ∀ id ∈ ids, (config id).peers.Nodup
  mem_peers : ∀ id ∈ ids, ∀ p, p ∈ (config id).peers ↔ p ∈ ids ∧ p ≠ id

def Cluster.init (C : Cluster) : System where
  replicas := fun id => .start (C.node id)
  loops := fun _ => .select
  voteCalls := []
  appendCalls := []
  proposals := []
  panicked := []
  elections := []

namespace System

def node (s : System) (id : String) : Node := (s.replicas id).node

def setReplica (s : System) (id : String) (r : Replica) : System :=
  { s with replicas := Function.update s.replicas id r }

def setNode (s : System) (id : String) (n : Node) : System :=
  s.setReplica id ((s.replicas id).setNode n)

def setLoop (s : System) (id : String) (l : RunLoop) : System :=
  { s with loops := Function.update s.loops id l }

def setVoteCall (s : System) (c : ℕ) (call : VoteCall) : System :=
  { s with voteCalls := s.voteCalls.set c call }

def setAppendCall (s : System) (c : ℕ) (call : AppendCall) : System :=
  { s with appendCalls := s.appendCalls.set c call }

def setProposal (s : System) (p : ℕ) (P : Proposal) : System :=
  { s with proposals := s.proposals.set p P }

def record (s : System) (e : Election) : System := { s with elections := s.elections ++ [e] }

def panic (s : System) (id : String) : System := { s with panicked := id :: s.panicked }

/-! ## The `Run` loop -/

def onElectionTimeout (s : System) (id : String) : Option System :=
  match s.loops id with
  | .select =>
    if (s.node id).state = .leader then some s else some (s.setLoop id .startElection)
  | _ => none

def VoteCall.spawn (caller : String) (term : ℕ) (peer : String) : VoteCall :=
  { caller, peer, term, lastLogIndex := none, request := none, replies := [], received := none }

def startElection (s : System) (id : String) : Option System :=
  match s.loops id with
  | .startElection =>
    let n := (s.node id).startCandidacy
    let s := (s.setNode id n).setLoop id
      (if 0 < n.peers.length then .collectVotes n.currentTerm 1 0 else .select)
    some { s with voteCalls := s.voteCalls ++ n.peers.map (VoteCall.spawn id n.currentTerm) }
  | _ => none

/-- The loop of `startElection` goes on while `responses < len(n.peers)`. -/
def nextVote (n : Node) (term votes responses : ℕ) : RunLoop :=
  if responses < n.peers.length then .collectVotes term votes responses else .select

/-- One response taken by the loop of `startElection` of node `n`. -/
def takeVote (n : Node) (term votes responses : ℕ) (resp : RequestVoteResponse) :
    Node × RunLoop :=
  if resp.term > n.currentTerm then (n.observeTerm resp.term, .select)
  else if n.state ≠ .candidate ∨ n.currentTerm ≠ term then (n, .select)
  else if resp.voteGranted then
    if votes + 1 ≥ n.quorum then (n, .becomeLeader)
    else (n, nextVote n term (votes + 1) (responses + 1))
  else (n, nextVote n term votes (responses + 1))

def becomeLeader (s : System) (id : String) : Option System :=
  match s.loops id with
  | .becomeLeader =>
    match (s.node id).becomeLeader with
    | none => some (s.setLoop id .select)
    | some n =>
      some (((s.setNode id n).setLoop id .sendHeartbeats).record ⟨id, n.currentTerm, n.log⟩)
  | _ => none

def heartbeatTick (s : System) (id : String) : Option System :=
  match s.loops id with
  | .select => some (s.setLoop id .sendHeartbeats)
  | _ => none

def AppendCall.heartbeat (caller : String) (term : ℕ) (peer : String) : AppendCall :=
  { caller, peer, proposal := none, term, prevLogIndex := none, prevLogTerm := none
    entries := [], request := none, replies := [], received := none }

def sendHeartbeats (s : System) (id : String) : Option System :=
  match s.loops id with
  | .sendHeartbeats =>
    let n := s.node id
    let s := s.setLoop id .select
    if n.state ≠ .leader then some s
    else some { s with
      appendCalls := s.appendCalls ++ n.peers.map (AppendCall.heartbeat id n.currentTerm) }
  | _ => none

/-- The loop of `Run`, or that of `startElection`, finds its context canceled. -/
def cancelRun (s : System) (id : String) : Option System :=
  match s.loops id with
  | .select => some (s.setLoop id .stopped)
  | .collectVotes _ _ _ => some (s.setLoop id .select)
  | _ => none

/-! ## `RequestVote` -/

def readLastLogIndex (s : System) (c : ℕ) (call : VoteCall) : Option System :=
  if call.lastLogIndex = none then
    some (s.setVoteCall c { call with lastLogIndex := some (s.node call.caller).lastLogIndex })
  else none

def sendRequestVote (s : System) (c : ℕ) (call : VoteCall) : Option System :=
  match call.lastLogIndex, call.request with
  | some i, none =>
    some (s.setVoteCall c { call with
      request := some ⟨call.term, call.caller, i, (s.node call.caller).lastLogTerm⟩ })
  | _, _ => none

def handleRequestVote (s : System) (c : ℕ) (call : VoteCall) : Option System :=
  match call.request with
  | some req =>
    let (n, resp) := (s.node call.peer).handleRequestVote req
    some ((s.setNode call.peer n).setVoteCall c { call with replies := call.replies ++ [resp] })
  | none => none

/-- `startElection` takes a reply of the call, or the error it ended in. -/
def receiveVote (s : System) (c : ℕ) (call : VoteCall) (reply : Option ℕ) : Option System :=
  match s.loops call.caller with
  | .collectVotes term votes responses =>
    if call.term = term ∧ call.request ≠ none ∧ call.received = none then
      match (match reply with | none => some ⟨term, false⟩ | some k => call.replies[k]?) with
      | some resp =>
        let (n, l) := takeVote (s.node call.caller) term votes responses resp
        some (((s.setNode call.caller n).setLoop call.caller l).setVoteCall c
          { call with received := some resp })
      | none => none
    else none
  | _ => none

/-! ## `Propose` -/

def AppendCall.replicate (proposal : ℕ) (P : Proposal) (peer : String) : AppendCall :=
  { caller := P.node, peer, proposal := some proposal, term := P.entry.term
    prevLogIndex := some P.prevIndex, prevLogTerm := some P.prevTerm
    entries := [P.entry], request := none, replies := [], received := none }

def propose (s : System) (id : String) (command : String) : Option System :=
  let n := s.node id
  -- `ErrNotLeader`
  if n.state ≠ .leader then some s
  else
    let n' := n.appendCommand command
    let p := s.proposals.length
    let P : Proposal :=
      { node := id, entry := ⟨n.currentTerm, command⟩, log := n'.log
        prevIndex := n.lastLogIndex, prevTerm := n.lastLogTerm, newIndex := n'.lastLogIndex
        acks := 1, responses := 0
        ended := if 0 < n.peers.length then none
          else some (.replicationFailed, n.commitIndex) }
    let s := s.setNode id n'
    some { s with
      proposals := s.proposals ++ [P]
      appendCalls := s.appendCalls ++ n.peers.map (AppendCall.replicate p P) }

def cancelPropose (s : System) (p : ℕ) (P : Proposal) : Option System :=
  if P.ended = none then
    some (s.setProposal p { P with ended := some (.canceled, (s.node P.node).commitIndex) })
  else none

/-- One response taken by the loop of the `Propose` call `p`. -/
def takeAck (s : System) (p : ℕ) (P : Proposal) (resp : AppendEntriesResponse) : System :=
  let n := s.node P.node
  if resp.term > P.entry.term then
    (s.setNode P.node (n.observeTerm resp.term)).setProposal p
      { P with responses := P.responses + 1, ended := some (.notLeader, n.commitIndex) }
  else if resp.success then
    if P.acks + 1 ≥ n.quorum then
      match (s.replicas P.node).commitProposal P.newIndex with
      | none => s.panic P.node
      | some r => (s.setReplica P.node r).setProposal p
          { P with
            acks := P.acks + 1, responses := P.responses + 1
            ended := some (.ok, r.node.commitIndex) }
    else s.setProposal p
      { P with
        acks := P.acks + 1, responses := P.responses + 1
        ended := if P.responses + 1 < n.peers.length then none
          else some (.replicationFailed, n.commitIndex) }
  else s.setProposal p
    { P with
      responses := P.responses + 1
      ended := if P.responses + 1 < n.peers.length then none
        else some (.replicationFailed, n.commitIndex) }

/-! ## `AppendEntries` -/

def readPrevLogIndex (s : System) (c : ℕ) (call : AppendCall) : Option System :=
  if call.prevLogIndex = none then
    some (s.setAppendCall c { call with prevLogIndex := some (s.node call.caller).lastLogIndex })
  else none

def readPrevLogTerm (s : System) (c : ℕ) (call : AppendCall) : Option System :=
  if call.prevLogIndex ≠ none ∧ call.prevLogTerm = none then
    some (s.setAppendCall c { call with prevLogTerm := some (s.node call.caller).lastLogTerm })
  else none

/-- The goroutine reads `n.commitIndex` and hands the request to the transport. -/
def sendAppendEntries (s : System) (c : ℕ) (call : AppendCall) : Option System :=
  match call.prevLogIndex, call.prevLogTerm, call.request with
  | some i, some t, none =>
    some (s.setAppendCall c { call with
      request := some
        ⟨call.term, call.caller, i, t, call.entries, (s.node call.caller).commitIndex⟩ })
  | _, _, _ => none

def handleAppendEntries (s : System) (c : ℕ) (call : AppendCall) : Option System :=
  match call.request with
  | some req =>
    match (s.replicas call.peer).handleAppendEntries c req with
    | none => some (s.panic call.peer)
    | some r => some (s.setReplica call.peer r)
  | none => none

/-- The caller takes a reply of the call, or the error it ended in: in the loop of `Propose`, or
in the goroutine itself for a heartbeat. -/
def receiveAppend (s : System) (c : ℕ) (call : AppendCall) (reply : Option ℕ) : Option System :=
  if call.request ≠ none ∧ call.received = none then
    match (match reply with | none => some .failed | some k => call.replies[k]?.map .reply) with
    | some outcome =>
      let s' := s.setAppendCall c { call with received := some outcome }
      match call.proposal with
      | some p =>
        match s.proposals[p]? with
        | some P =>
          if P.ended = none then
            match outcome with
            | .failed => some (s'.takeAck p P ⟨P.entry.term, false⟩)
            | .reply a => some (s'.takeAck p P a.resp)
          else none
        | none => none
      | none =>
        match outcome with
        | .failed => some s'
        | .reply a =>
          if a.resp.term > call.term then
            some (s'.setNode call.caller ((s.node call.caller).observeTerm a.resp.term))
          else some s'
    | none => none
  else none

/-! ## Applying -/

def apply (s : System) (id : String) (b : ℕ) : Option System :=
  ((s.replicas id).apply b).map (s.setReplica id)

/-- A call that has applied its batch returns; a handler's answer goes out. -/
def finish (s : System) (id : String) (b : ℕ) : Option System :=
  match (s.replicas id).finish b with
  | none => none
  | some (r, none) => some (s.setReplica id r)
  | some (r, some a) =>
    match s.appendCalls[a.call]? with
    | none => none
    | some call => some ((s.setReplica id r).setAppendCall a.call
        { call with replies := call.replies ++ [a] })

end System

/-- A step of the cluster. -/
inductive Action where
  | onElectionTimeout (id : String)
  | startElection (id : String)
  | becomeLeader (id : String)
  | heartbeatTick (id : String)
  | sendHeartbeats (id : String)
  | cancelRun (id : String)
  | readLastLogIndex (call : ℕ)
  | sendRequestVote (call : ℕ)
  | handleRequestVote (call : ℕ)
  | receiveVote (call : ℕ) (reply : Option ℕ)
  | propose (id : String) (command : String)
  | cancelPropose (proposal : ℕ)
  | readPrevLogIndex (call : ℕ)
  | readPrevLogTerm (call : ℕ)
  | sendAppendEntries (call : ℕ)
  | handleAppendEntries (call : ℕ)
  | receiveAppend (call : ℕ) (reply : Option ℕ)
  | apply (id : String) (batch : ℕ)
  | finish (id : String) (batch : ℕ)
  deriving DecidableEq, Repr

namespace System

/-- A step of the code of node `id`: only a node of the cluster that has not panicked takes
one. -/
def at? (C : Cluster) (s : System) (id : String) (f : Option System) : Option System :=
  if id ∈ C.ids ∧ id ∉ s.panicked then f else none

def step (C : Cluster) (s : System) : Action → Option System
  | .onElectionTimeout id => s.at? C id (s.onElectionTimeout id)
  | .startElection id => s.at? C id (s.startElection id)
  | .becomeLeader id => s.at? C id (s.becomeLeader id)
  | .heartbeatTick id => s.at? C id (s.heartbeatTick id)
  | .sendHeartbeats id => s.at? C id (s.sendHeartbeats id)
  | .cancelRun id => s.at? C id (s.cancelRun id)
  | .readLastLogIndex c => s.voteCalls[c]?.bind fun call =>
      s.at? C call.caller (s.readLastLogIndex c call)
  | .sendRequestVote c => s.voteCalls[c]?.bind fun call =>
      s.at? C call.caller (s.sendRequestVote c call)
  | .handleRequestVote c => s.voteCalls[c]?.bind fun call =>
      s.at? C call.peer (s.handleRequestVote c call)
  | .receiveVote c reply => s.voteCalls[c]?.bind fun call =>
      s.at? C call.caller (s.receiveVote c call reply)
  | .propose id command => s.at? C id (s.propose id command)
  | .cancelPropose p => s.proposals[p]?.bind fun P =>
      s.at? C P.node (s.cancelPropose p P)
  | .readPrevLogIndex c => s.appendCalls[c]?.bind fun call =>
      s.at? C call.caller (s.readPrevLogIndex c call)
  | .readPrevLogTerm c => s.appendCalls[c]?.bind fun call =>
      s.at? C call.caller (s.readPrevLogTerm c call)
  | .sendAppendEntries c => s.appendCalls[c]?.bind fun call =>
      s.at? C call.caller (s.sendAppendEntries c call)
  | .handleAppendEntries c => s.appendCalls[c]?.bind fun call =>
      s.at? C call.peer (s.handleAppendEntries c call)
  | .receiveAppend c reply => s.appendCalls[c]?.bind fun call =>
      s.at? C call.caller (s.receiveAppend c call reply)
  | .apply id b => s.at? C id (s.apply id b)
  | .finish id b => s.at? C id (s.finish id b)

end System

end EdgeSim.Raft
