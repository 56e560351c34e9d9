import EdgeSim.Coordinator.RaftRpc
import EdgeSim.Raft.Refinement

/-!
# The cluster over TCP

The coordinators send their Raft RPCs through `tcpTransport` to the addresses in their
`RAFT_PEERS`. Every connection is accepted at most once and carries any part of a frame there and
any part of one back. If each address is that of the coordinator it stands for, what happens is a
run of the cluster in which RPCs are handled or lost as a whole, each at most once.
-/

namespace EdgeSim.Coordinator

open Lists
open Raft (Action AppendCall Cluster System VoteCall)
open Stdlib (Json)
open Wire

structure Deployment (C : Cluster) where
  json : RaftJson
  /-- the addresses that each coordinator is given -/
  peers : String → RaftPeers
  /-- the coordinator whose Raft server listens on an address -/
  listens : String → Option String

/-- The addresses are right, and no message is too long for the header of a frame. -/
structure Deployment.Genuine {C : Cluster} (D : Deployment C) : Prop where
  addr : ∀ id ∈ C.ids, ∀ p a, (D.peers id).lookup p = some a → D.listens a = some p
  fits : D.json.Fits

/-- The cluster, with the calls whose connection a server has accepted. -/
structure Net where
  sys : System
  votes : List ℕ
  appends : List ℕ

inductive NetAction where
  /-- a step in which no RPC arrives -/
  | raft (a : Action)
  /-- the server gets `i` bytes of the request of a vote call -/
  | acceptVote (call i : ℕ)
  | acceptAppend (call i : ℕ)
  /-- the client of a vote call gets `j` bytes of the response `k`, or none -/
  | returnVote (call : ℕ) (reply : Option (ℕ × ℕ))
  | returnAppend (call : ℕ) (reply : Option (ℕ × ℕ))
  deriving DecidableEq, Repr

/-- The steps that the transport takes part in. -/
def isRpc : Action → Bool
  | .handleRequestVote _ | .receiveVote _ _ | .handleAppendEntries _ | .receiveAppend _ _ => true
  | _ => false

section

variable {C : Cluster} (D : Deployment C)

/-- The server that a call of `caller` to `peer` reaches. -/
def Deployment.server (caller peer : String) : Option String :=
  ((D.peers caller).lookup peer).bind D.listens

/-- A server accepts the connection of the vote call `c`, and gets `i` bytes. -/
def Net.acceptVote (s : Net) (c i : ℕ) : Option Net :=
  s.sys.voteCalls[c]?.bind fun call => call.request.bind fun req =>
    (D.server call.caller call.peer).bind fun server =>
      (D.json.envelope.marshal (voteEnvelope req)).bind fun payload =>
        if c ∈ s.votes then none
        else
          match raftCall D.json.envelope ((writeFrame payload).take i) with
          | some (.requestVote req) =>
            (s.sys.at? C server (s.sys.handleRequestVote c
              { call with peer := server, request := some req })).map
                fun sys => { s with sys := sys, votes := c :: s.votes }
          | some _ => none
          | none => some { s with votes := c :: s.votes }

def Net.acceptAppend (s : Net) (c i : ℕ) : Option Net :=
  s.sys.appendCalls[c]?.bind fun call => call.request.bind fun req =>
    (D.server call.caller call.peer).bind fun server =>
      (D.json.envelope.marshal (appendEnvelope req)).bind fun payload =>
        if c ∈ s.appends then none
        else
          match raftCall D.json.envelope ((writeFrame payload).take i) with
          | some (.appendEntries req) =>
            (s.sys.at? C server (s.sys.handleAppendEntries c
              { call with peer := server, request := some req })).map
                fun sys => { s with sys := sys, appends := c :: s.appends }
          | some _ => none
          | none => some { s with appends := c :: s.appends }

/-- `sendRaftRPC` returns at the client of the vote call `c`. -/
def Net.returnVote (s : Net) (c : ℕ) (reply : Option (ℕ × ℕ)) : Option Net :=
  s.sys.voteCalls[c]?.bind fun call => (s.sys.at? C call.caller (
    match reply with
    | none => s.sys.receiveVote c call none
    | some (k, j) => call.replies[k]?.bind fun resp =>
      match readResponse D.json.requestVote
        ((writeJSONFrame D.json.requestVote resp).take j) with
      | .error _ => s.sys.receiveVote c call none
      | .ok resp => s.sys.receiveVote c { call with replies := call.replies.set k resp } (some k)
    )).map fun sys => { s with sys := sys }

def Net.returnAppend (s : Net) (c : ℕ) (reply : Option (ℕ × ℕ)) : Option Net :=
  s.sys.appendCalls[c]?.bind fun call => (s.sys.at? C call.caller (
    match reply with
    | none => s.sys.receiveAppend c call none
    | some (k, j) => call.replies[k]?.bind fun answer =>
      match readResponse D.json.appendEntries
        ((writeJSONFrame D.json.appendEntries answer.resp).take j) with
      | .error _ => s.sys.receiveAppend c call none
      | .ok resp => s.sys.receiveAppend c
          { call with replies := call.replies.set k { answer with resp } } (some k)
    )).map fun sys => { s with sys := sys }

def Net.step (s : Net) : NetAction → Option Net
  | .raft a => if isRpc a then none else (s.sys.step C a).map fun sys => { s with sys := sys }
  | .acceptVote c i => s.acceptVote D c i
  | .acceptAppend c i => s.acceptAppend D c i
  | .returnVote c reply => s.returnVote D c reply
  | .returnAppend c reply => s.returnAppend D c reply

def Deployment.init (C : Cluster) : Net := ⟨C.init, [], []⟩

abbrev Deployment.Run : Net → List NetAction → Net → Prop := Runs.Run (Net.step D) fun _ _ => True

end

section

variable {C : Cluster} {D : Deployment C} {s t : Net} {c : ℕ}

/-! ## The code at both ends -/

section

variable {server caller peer addr : String} {payload : List UInt8} {i : ℕ}
  (propose : String → Raft.ProposeResult × Raft.Node)

/-- A server that accepts a vote call runs `handleRaftConn`, and what that writes are the replies
the call gets. -/
theorem acceptVote_handleRaftConn {call : VoteCall} {req : Raft.RequestVoteRequest}
    (hc : s.sys.voteCalls[c]? = some call) (hreq : call.request = some req)
    (hserver : D.server call.caller call.peer = some server)
    (hm : D.json.envelope.marshal (voteEnvelope req) = some payload)
    (hfits : D.json.Fits) (h : s.acceptVote D c i = some t) :
    ∃ replies : List Raft.RequestVoteResponse,
      handleRaftConn D.json propose (s.sys.node server) ((writeFrame payload).take i)
        = some (t.sys.node server, [], replies.flatMap (writeJSONFrame D.json.requestVote))
      ∧ t.sys.voteCalls[c]?.map VoteCall.replies = some (call.replies ++ replies) := by
  have hlt := (List.getElem?_eq_some_iff.1 hc).1
  rw [Net.acceptVote, hc, Option.bind_some, hreq, Option.bind_some, hserver, Option.bind_some, hm,
    Option.bind_some, raftCall_take hm (hfits.envelope _ _ hm), call_voteEnvelope] at h
  rw [handleRaftConn_take hfits hm, handleRaftConn_vote hfits hm]
  split_ifs at h ⊢
  · obtain ⟨sys, hsys, rfl⟩ := Option.map_eq_some_iff.1 h
    rw [System.at?] at hsys
    split_ifs at hsys
    simp only [System.handleRequestVote, Option.some.injEq] at hsys
    subst hsys
    refine ⟨[((s.sys.node server).handleRequestVote req).2], ?_, ?_⟩
    · change _ = some ((s.sys.setNode server _).node server, _, _)
      rw [System.node_setNode, Function.update_self, List.flatMap_singleton]
    · exact congrArg (Option.map VoteCall.replies) (List.getElem?_set_self hlt)
  · cases h
    refine ⟨[], rfl, ?_⟩
    rw [List.append_nil]
    exact congrArg (Option.map VoteCall.replies) hc

/-- The same for an append call. What the node has to apply, and to answer then, is a batch. -/
theorem acceptAppend_handleRaftConn {call : AppendCall} {req : Raft.AppendEntriesRequest}
    (hc : s.sys.appendCalls[c]? = some call) (hreq : call.request = some req)
    (hserver : D.server call.caller call.peer = some server)
    (hm : D.json.envelope.marshal (appendEnvelope req) = some payload)
    (hfits : D.json.Fits) (h : s.acceptAppend D c i = some t) :
    handleRaftConn D.json propose (s.sys.node server) ((writeFrame payload).take i) = none
        ∧ server ∈ t.sys.panicked
      ∨ ∃ (es : List (ℕ × Raft.LogEntry)) (answers : List Raft.Answer),
        handleRaftConn D.json propose (s.sys.node server) ((writeFrame payload).take i)
          = some (t.sys.node server, es,
            answers.flatMap fun a => writeJSONFrame D.json.appendEntries a.resp)
        ∧ (t.sys.replicas server).batches
          = (s.sys.replicas server).batches ++ answers.map fun a => ⟨es, some a⟩ := by
  rw [Net.acceptAppend, hc, Option.bind_some, hreq, Option.bind_some, hserver, Option.bind_some,
    hm, Option.bind_some, raftCall_take hm (hfits.envelope _ _ hm), call_appendEnvelope] at h
  rw [handleRaftConn_take hfits hm, handleRaftConn_append hfits hm]
  split_ifs at h ⊢
  · obtain ⟨sys, hsys, rfl⟩ := Option.map_eq_some_iff.1 h
    rw [System.at?] at hsys
    split_ifs at hsys
    simp only [System.handleAppendEntries, Raft.Replica.handleAppendEntries] at hsys
    rw [System.node]
    rcases hn : (s.sys.replicas server).node.handleAppendEntries req with _ | ⟨n, es, resp⟩
    · rw [hn] at hsys
      cases hsys
      exact .inl ⟨rfl, List.mem_cons_self⟩
    · rw [hn] at hsys
      cases hsys
      refine .inr ⟨es, [⟨c, resp, (s.sys.replicas server).node, n⟩], ?_, ?_⟩
      · rw [System.node_setReplica, Function.update_self, List.flatMap_singleton]
        rfl
      · change (Function.update s.sys.replicas server _ server).batches = _
        rw [Function.update_self]
        rfl
  · cases h
    exact .inr ⟨[], [], rfl, (List.append_nil _).symm⟩

/-- `tcpTransport` returns what the client reads. -/
theorem tcpTransport_readResponse {α : Type} {respJson : Json α} {envelope : RaftEnvelope}
    {net : String → Option Conn} {conn : Conn} {stream : List UInt8}
    (hpeer : (D.peers caller).lookup peer = some addr) (hnet : net addr = some conn)
    (hm : D.json.envelope.marshal envelope = some payload)
    (hconn : conn (writeFrame payload) = some stream) :
    tcpTransport D.json.envelope respJson (D.peers caller) net peer envelope
      = readResponse respJson stream := by
  rw [tcpTransport, hpeer]
  dsimp only
  rw [hnet, sendRaftRPC, hm]
  dsimp only
  rw [hconn]

end

/-! ## Refinement -/

/-- What a step of the network is to the cluster: one step or none. A request is handled only when
its connection has not been accepted before. -/
inductive Matches (C : Cluster) (s t : Net) : Prop
  | none (hsys : t.sys = s.sys) (hv : s.votes ⊆ t.votes) (ha : s.appends ⊆ t.appends)
  | other (a : Action) (hrpc : ∀ c, a ≠ .handleRequestVote c ∧ a ≠ .handleAppendEntries c)
      (hstep : s.sys.step C a = some t.sys) (hv : t.votes = s.votes) (ha : t.appends = s.appends)
  | vote (c : ℕ) (hnew : c ∉ s.votes) (hstep : s.sys.step C (.handleRequestVote c) = some t.sys)
      (hv : t.votes = c :: s.votes) (ha : t.appends = s.appends)
  | append (c : ℕ) (hnew : c ∉ s.appends)
      (hstep : s.sys.step C (.handleAppendEntries c) = some t.sys) (hv : t.votes = s.votes)
      (ha : t.appends = c :: s.appends)

/-- The run of the cluster that a state has come by: a request is handled at most once, and only
if a server has accepted its connection. -/
structure Refines (C : Cluster) (bs : List Action) (s : Net) : Prop where
  run : C.Run C.init bs s.sys
  votes : ∀ c, bs.count (.handleRequestVote c) ≤ if c ∈ s.votes then 1 else 0
  appends : ∀ c, bs.count (.handleAppendEntries c) ≤ if c ∈ s.appends then 1 else 0

/-- Handling a request for the first time. -/
theorem count_accept {bs : List Action} {l : List ℕ} {f : ℕ → Action}
    (hf : Function.Injective f) (h : ∀ c, bs.count (f c) ≤ if c ∈ l then 1 else 0)
    (hnew : c ∉ l) (d : ℕ) :
    (bs ++ [f c]).count (f d) ≤ if d ∈ c :: l then 1 else 0 := by
  by_cases hdc : d = c
  · subst hdc
    have hzero := h d
    rw [if_neg hnew] at hzero
    rw [if_pos List.mem_cons_self, List.count_append, List.count_singleton_self]
    omega
  · rw [count_concat_of_ne fun heq => hdc (hf heq).symm]
    exact (h d).trans (ite_mem_mono (List.subset_cons_self _ _) d)

theorem Refines.step {bs : List Action} (h : Refines C bs s) (hm : Matches C s t) :
    ∃ bs', Refines C bs' t := by
  cases hm with
  | none hsys hv ha =>
    exact ⟨bs, hsys ▸ h.run, fun c => (h.votes c).trans (ite_mem_mono hv c),
      fun c => (h.appends c).trans (ite_mem_mono ha c)⟩
  | other a hrpc hstep hv ha =>
    refine ⟨bs ++ [a], h.run.snoc trivial hstep, fun c => ?_, fun c => ?_⟩
    · rw [count_concat_of_ne (hrpc c).1, hv]
      exact h.votes c
    · rw [count_concat_of_ne (hrpc c).2, ha]
      exact h.appends c
  | vote c hnew hstep hv ha =>
    refine ⟨bs ++ [.handleRequestVote c], h.run.snoc trivial hstep, fun d => ?_, fun d => ?_⟩
    · rw [hv]
      exact count_accept (fun _ _ heq => Action.handleRequestVote.inj heq) h.votes hnew d
    · rw [count_concat_of_ne (y := Action.handleAppendEntries d) (by simp), ha]
      exact h.appends d
  | append c hnew hstep hv ha =>
    refine ⟨bs ++ [.handleAppendEntries c], h.run.snoc trivial hstep, fun d => ?_, fun d => ?_⟩
    · rw [count_concat_of_ne (y := Action.handleRequestVote d) (by simp), hv]
      exact h.votes d
    · rw [ha]
      exact count_accept (fun _ _ heq => Action.handleAppendEntries.inj heq) h.appends hnew d

/-- `RAFT_PEERS` of the coordinators `a`, `b` and `c`. -/
def trioPeers : RaftPeers :=
  ((Finmap.singleton "a" "10.0.0.1:7000").insert "b" "10.0.0.2:7000").insert "c" "10.0.0.3:7000"

def trioDeployment : Deployment Raft.trio where
  json := voteJson
  peers _ := trioPeers
  listens addr :=
    if addr = "10.0.0.1:7000" then some "a"
    else if addr = "10.0.0.2:7000" then some "b"
    else if addr = "10.0.0.3:7000" then some "c"
    else none

end

end EdgeSim.Coordinator
