import Mathlib.Data.List.Basic
import Mathlib.Data.Int.Notation
import Mathlib.Data.Nat.Notation

/-!
# A Raft node

The data of `pkg/raft` and what its code does to one node while it holds the node's mutex. Terms
stay below `2^64`, and indices are lengths of logs, so both are natural numbers. The clock is left
out: `lastHeartbeat`, the election timer and the random timeouts decide when a step is taken,
never what it does.
-/

namespace EdgeSim.Raft

/-- The Raft role of a node. -/
inductive State where
  | follower
  | candidate
  | leader
  deriving DecidableEq, Repr

/-- A single replicated command. -/
structure LogEntry where
  term : ℕ
  command : String
  deriving DecidableEq, Repr

structure RequestVoteRequest where
  term : ℕ
  candidateID : String
  lastLogIndex : ℕ
  lastLogTerm : ℕ
  deriving DecidableEq, Repr

structure RequestVoteResponse where
  term : ℕ
  voteGranted : Bool
  deriving DecidableEq, Repr

structure AppendEntriesRequest where
  term : ℕ
  leaderID : String
  prevLogIndex : ℕ
  prevLogTerm : ℕ
  entries : List LogEntry
  leaderCommit : ℕ
  deriving DecidableEq, Repr

structure AppendEntriesResponse where
  term : ℕ
  success : Bool
  deriving DecidableEq, Repr

/-- What `NewNode` reads of its configuration; durations are in nanoseconds. The logger, the
random source and the RPC timeout only have defaults filled in. -/
structure Config where
  id : String
  peers : List String
  transport : Bool
  electionTimeoutMin : ℤ
  electionTimeoutMax : ℤ
  heartbeatInterval : ℤ
  deriving DecidableEq, Repr

/-- The errors of `NewNode`, those it wraps with the text it puts before them. -/
inductive ConfigError where
  | invalidConfig (context : String)
  | nilTransport
  | invalidTimeout (context : String)
  deriving DecidableEq, Repr

structure Node where
  id : String
  peers : List String
  currentTerm : ℕ
  votedFor : String
  leaderID : String
  state : State
  log : List LogEntry
  commitIndex : ℕ
  lastApplied : ℕ
  deriving DecidableEq, Repr

/-- `NewNode`: the checks in the order the code makes them. -/
def newNode (cfg : Config) : Except ConfigError Node :=
  if cfg.id = "" then .error (.invalidConfig "node id: ")
  else if cfg.transport = false then .error .nilTransport
  else if cfg.electionTimeoutMin ≤ 0 ∨ cfg.electionTimeoutMax ≤ 0 ∨ cfg.heartbeatInterval ≤ 0 then
    .error (.invalidTimeout "")
  else if cfg.electionTimeoutMax < cfg.electionTimeoutMin then
    .error (.invalidTimeout "election timeout max < min: ")
  else .ok
    { id := cfg.id, peers := cfg.peers, currentTerm := 0, votedFor := "", leaderID := ""
      state := .follower, log := [], commitIndex := 0, lastApplied := 0 }

namespace Node

/-! ## Small operations -/

def stepDownLocked (n : Node) (term : ℕ) (leaderID : String) : Node :=
  { n with
    currentTerm := if term > n.currentTerm then term else n.currentTerm
    votedFor := ""
    state := .follower
    leaderID := leaderID }

def lastLogIndex (n : Node) : ℕ := n.log.length

/-- The term at the end of a log, `0` for the empty log. -/
def lastTerm (log : List LogEntry) : ℕ :=
  match log.getLast? with
  | none => 0
  | some e => e.term

def lastLogTerm (n : Node) : ℕ := lastTerm n.log

def isLogUpToDate (n : Node) (candidateIndex candidateTerm : ℕ) : Bool :=
  if candidateTerm ≠ n.lastLogTerm then decide (candidateTerm > n.lastLogTerm)
  else decide (candidateIndex ≥ n.lastLogIndex)

def matchPrevLog (n : Node) (prevIndex prevTerm : ℕ) : Bool :=
  if prevIndex = 0 then true
  else
    match n.log[prevIndex - 1]? with
    -- `prevIndex > len(n.log)`
    | none => false
    | some e => e.term == prevTerm

/-- One iteration of the loop of `appendEntries`: `index < len(n.log)` compares terms only, and a
conflict cuts the log there. -/
def appendEntry (log : List LogEntry) (index : ℕ) (entry : LogEntry) : List LogEntry :=
  match log[index]? with
  | some e => if e.term ≠ entry.term then log.take index ++ [entry] else log
  | none => log ++ [entry]

/-- The loop of `appendEntries`, `index` being `int(prevIndex) + i`. -/
def appendFrom (log : List LogEntry) (index : ℕ) : List LogEntry → List LogEntry
  | [] => log
  | entry :: entries => appendFrom (appendEntry log index entry) (index + 1) entries

def appendEntries (n : Node) (prevIndex : ℕ) (entries : List LogEntry) : Node :=
  { n with log := appendFrom n.log prevIndex entries }

/-- The loop of `collectCommittedLocked`: `count` entries from `lastApplied` on, each with the
value `lastApplied` has when it is taken. `none` is the panic of an index out of range. -/
def collectFrom (log : List LogEntry) : ℕ → ℕ → Option (List (ℕ × LogEntry))
  | _, 0 => some []
  | lastApplied, count + 1 =>
    match log[lastApplied]?, collectFrom log (lastApplied + 1) count with
    | some e, some es => some ((lastApplied, e) :: es)
    | _, _ => none

def collectCommittedLocked (n : Node) : Option (Node × List (ℕ × LogEntry)) :=
  if n.lastApplied ≥ n.commitIndex then some (n, [])
  else
    match collectFrom n.log n.lastApplied (n.commitIndex - n.lastApplied) with
    | some es => some ({ n with lastApplied := n.commitIndex }, es)
    | none => none

def quorum (n : Node) : ℕ := (n.peers.length + 1) / 2 + 1

/-! ## Critical sections -/

def handleRequestVote (n : Node) (req : RequestVoteRequest) : Node × RequestVoteResponse :=
  if req.term < n.currentTerm then (n, ⟨n.currentTerm, false⟩)
  else
    let n := if req.term > n.currentTerm then n.stepDownLocked req.term "" else n
    if n.isLogUpToDate req.lastLogIndex req.lastLogTerm = false then (n, ⟨n.currentTerm, false⟩)
    else if n.votedFor = "" ∨ n.votedFor = req.candidateID then
      ({ n with votedFor := req.candidateID }, ⟨n.currentTerm, true⟩)
    else (n, ⟨n.currentTerm, false⟩)

/-- The step `HandleAppendEntries` makes of `commitIndex`. -/
def raiseCommit (n : Node) (leaderCommit : ℕ) : Node :=
  if leaderCommit > n.commitIndex then
    { n with
      commitIndex := if leaderCommit < n.lastLogIndex then leaderCommit else n.lastLogIndex }
  else n

/-- `HandleAppendEntries` up to its first return or to the call of `collectCommittedLocked`. -/
inductive AppendOutcome where
  /-- It returned, with the node as it left it. -/
  | returned (n : Node) (resp : AppendEntriesResponse)
  /-- It is about to collect from `n`. -/
  | collecting (n : Node)

def receiveEntries (n : Node) (req : AppendEntriesRequest) : AppendOutcome :=
  if req.term < n.currentTerm then .returned n ⟨n.currentTerm, false⟩
  else
    let n := if req.term > n.currentTerm then n.stepDownLocked req.term req.leaderID else n
    if req.entries ≠ [] ∧ n.matchPrevLog req.prevLogIndex req.prevLogTerm = false then
      .returned n ⟨n.currentTerm, false⟩
    else
      -- an empty request leaves the log alone, with no check of the previous entry
      let n := if req.entries ≠ [] then n.appendEntries req.prevLogIndex req.entries else n
      .collecting (n.raiseCommit req.leaderCommit)

/-- `HandleAppendEntries` while it holds the mutex: the node it leaves, the entries it hands to
`applyEntries` and its response. -/
def handleAppendEntries (n : Node) (req : AppendEntriesRequest) :
    Option (Node × List (ℕ × LogEntry) × AppendEntriesResponse) :=
  match n.receiveEntries req with
  | .returned n resp => some (n, [], resp)
  | .collecting n =>
    match n.collectCommittedLocked with
    | none => none
    | some (n, es) =>
      some ({ n with state := .follower, leaderID := req.leaderID }, es, ⟨n.currentTerm, true⟩)

/-- The first critical section of `startElection`. -/
def startCandidacy (n : Node) : Node :=
  { n with
    state := .candidate
    currentTerm := n.currentTerm + 1
    votedFor := n.id
    leaderID := "" }

/-- The critical section of `becomeLeader`; `none` where it returns early. -/
def becomeLeader (n : Node) : Option Node :=
  if n.state ≠ .candidate then none
  else if n.leaderID = n.id then none
  else some { n with state := .leader, leaderID := n.id }

/-- The reaction to a reply of a higher term in `startElection`, `Propose` and
`sendHeartbeats`. -/
def observeTerm (n : Node) (term : ℕ) : Node :=
  if term > n.currentTerm then n.stepDownLocked term "" else n

/-- The first critical section of `Propose` on a leader: the log grows by one entry. -/
def appendCommand (n : Node) (command : String) : Node :=
  { n with log := n.log ++ [⟨n.currentTerm, command⟩] }

/-- What the last critical section of `Propose` makes of `commitIndex`; `none` where there is
nothing to collect. -/
def ackCommit (n : Node) (newIndex : ℕ) : Option Node :=
  if n.commitIndex < newIndex then some { n with commitIndex := newIndex } else none

/-- The critical section of `Propose` once a quorum has acknowledged the entry at `newIndex`. It
looks at neither the role, the term nor the log. -/
def commitProposal (n : Node) (newIndex : ℕ) : Option (Node × List (ℕ × LogEntry)) :=
  match n.ackCommit newIndex with
  | none => some (n, [])
  | some n => n.collectCommittedLocked

end Node

end EdgeSim.Raft
