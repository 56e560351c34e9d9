import EdgeSim.Raft.Cluster
import EdgeSim.Raft.NodeSpec

/-!
# What a step of the cluster does

`Transition` has a case for each way a step can go, with the checks it has passed and the state it
leads to. `step_cases` takes the functions of the cluster apart once; what is proved of all steps
is proved by the cases of `Transition`.
-/

namespace EdgeSim.Raft

/-- What a call that ended in the outcome counts as in the loop of `Propose`. -/
def Outcome.response (term : ℕ) : Outcome → AppendEntriesResponse
  | .failed => ⟨term, false⟩
  | .reply a => a.resp

theorem Outcome.reply_of_success {o : Outcome} {term : ℕ} (h : (o.response term).success = true) :
    ∃ a, o = .reply a ∧ a.resp.success = true := by
  cases o with
  | failed => cases h
  | reply a => exact ⟨a, rfl, h⟩

theorem Outcome.reply_of_term_lt {o : Outcome} {term : ℕ} (h : term < (o.response term).term) :
    ∃ a, o = .reply a ∧ term < a.resp.term := by
  cases o with
  | failed => exact absurd h (lt_irrefl _)
  | reply a => exact ⟨a, rfl, h⟩

/-- The loop of `startElection` takes `resp` for the call `c`. -/
structure VoteTaken (C : Cluster) (s : System) (c : ℕ) (call : VoteCall) (votes responses : ℕ)
    (resp : RequestVoteResponse) : Prop where
  call_eq : s.voteCalls[c]? = some call
  caller_mem : call.caller ∈ C.ids
  loop_eq : s.loops call.caller = .collectVotes call.term votes responses
  requested : call.request ≠ none
  received_eq : call.received = none
  resp_mem : resp ∈ call.replies ∨ resp = ⟨call.term, false⟩

theorem VoteTaken.mem_replies {C : Cluster} {s : System} {c : ℕ} {call : VoteCall}
    {votes responses : ℕ} {resp : RequestVoteResponse}
    (h : VoteTaken C s c call votes responses resp) (hg : resp.voteGranted = true) :
    resp ∈ call.replies := by
  refine h.resp_mem.resolve_right ?_
  rintro rfl
  cases hg

/-- The `AppendEntries` call `c` ends in `outcome`. -/
structure OutcomeTaken (C : Cluster) (s : System) (c : ℕ) (call : AppendCall)
    (outcome : Outcome) : Prop where
  call_eq : s.appendCalls[c]? = some call
  caller_mem : call.caller ∈ C.ids
  requested : call.request ≠ none
  received_eq : call.received = none
  reply_mem : ∀ a, outcome = .reply a → a ∈ call.replies

/-- The loop of the `Propose` call `p` takes `outcome` for the call `c`. -/
structure AckTaken (C : Cluster) (s : System) (c : ℕ) (call : AppendCall) (p : ℕ) (P : Proposal)
    (outcome : Outcome) : Prop extends OutcomeTaken C s c call outcome where
  proposal_eq : call.proposal = some p
  proposals_eq : s.proposals[p]? = some P
  ended_eq : P.ended = none

/-- The step `a` leads from `s` to the state given last. -/
inductive Transition (C : Cluster) (s : System) : Action → System → Prop
  /-- a leader's timeout -/
  | ignoreTimeout {id : String} (hid : id ∈ C.ids) (hl : (s.node id).state = .leader) :
      Transition C s (.onElectionTimeout id) s
  | onElectionTimeout {id : String} (hid : id ∈ C.ids) (hloop : s.loops id = .select)
      (hl : (s.node id).state ≠ .leader) :
      Transition C s (.onElectionTimeout id) (s.setLoop id .startElection)
  | startElection {id : String} {n : Node} (hid : id ∈ C.ids)
      (hloop : s.loops id = .startElection) (hn : n = (s.node id).startCandidacy) :
      Transition C s (.startElection id)
        { (s.setNode id n).setLoop id
            (if 0 < n.peers.length then .collectVotes n.currentTerm 1 0 else .select) with
          voteCalls := s.voteCalls ++ n.peers.map (System.VoteCall.spawn id n.currentTerm) }
  | becomeLeader {id : String} {n : Node} (hid : id ∈ C.ids) (hloop : s.loops id = .becomeLeader)
      (hn : (s.node id).becomeLeader = some n) :
      Transition C s (.becomeLeader id)
        (((s.setNode id n).setLoop id .sendHeartbeats).record ⟨id, n.currentTerm, n.log⟩)
  /-- no longer a candidate -/
  | giveUp {id : String} (hid : id ∈ C.ids) (hloop : s.loops id = .becomeLeader)
      (hn : (s.node id).becomeLeader = none) :
      Transition C s (.becomeLeader id) (s.setLoop id .select)
  | heartbeatTick {id : String} (hid : id ∈ C.ids) (hloop : s.loops id = .select) :
      Transition C s (.heartbeatTick id) (s.setLoop id .sendHeartbeats)
  | sendHeartbeats {id : String} (hid : id ∈ C.ids) (hloop : s.loops id = .sendHeartbeats)
      (hl : (s.node id).state = .leader) :
      Transition C s (.sendHeartbeats id)
        { s.setLoop id .select with
          appendCalls := s.appendCalls
            ++ (s.node id).peers.map (System.AppendCall.heartbeat id (s.node id).currentTerm) }
  /-- no leader, so no heartbeats -/
  | skipHeartbeats {id : String} (hid : id ∈ C.ids) (hloop : s.loops id = .sendHeartbeats)
      (hl : (s.node id).state ≠ .leader) :
      Transition C s (.sendHeartbeats id) (s.setLoop id .select)
  | cancelRun {id : String} (hid : id ∈ C.ids) (hloop : s.loops id = .select) :
      Transition C s (.cancelRun id) (s.setLoop id .stopped)
  | cancelElection {id : String} {t v r : ℕ} (hid : id ∈ C.ids)
      (hloop : s.loops id = .collectVotes t v r) :
      Transition C s (.cancelRun id) (s.setLoop id .select)
  | readLastLogIndex {c : ℕ} {call : VoteCall} (hid : call.caller ∈ C.ids)
      (hc : s.voteCalls[c]? = some call) (hi : call.lastLogIndex = none) :
      Transition C s (.readLastLogIndex c)
        (s.setVoteCall c { call with lastLogIndex := some (s.node call.caller).lastLogIndex })
  | sendRequestVote {c i : ℕ} {call : VoteCall} (hid : call.caller ∈ C.ids)
      (hc : s.voteCalls[c]? = some call) (hi : call.lastLogIndex = some i)
      (hreq : call.request = none) :
      Transition C s (.sendRequestVote c)
        (s.setVoteCall c { call with
          request := some ⟨call.term, call.caller, i, (s.node call.caller).lastLogTerm⟩ })
  | handleRequestVote {c : ℕ} {call : VoteCall} {req : RequestVoteRequest}
      (hid : call.peer ∈ C.ids) (hc : s.voteCalls[c]? = some call)
      (hreq : call.request = some req) :
      Transition C s (.handleRequestVote c)
        ((s.setNode call.peer ((s.node call.peer).handleRequestVote req).1).setVoteCall c
          { call with
            replies := call.replies ++ [((s.node call.peer).handleRequestVote req).2] })
  /-- the loop steps down -/
  | voteDeposes {c votes responses : ℕ} {call : VoteCall} {reply : Option ℕ}
      {resp : RequestVoteResponse} (h : VoteTaken C s c call votes responses resp)
      (hterm : (s.node call.caller).currentTerm < resp.term) :
      Transition C s (.receiveVote c reply)
        (((s.setNode call.caller ((s.node call.caller).observeTerm resp.term)).setLoop
          call.caller .select).setVoteCall c { call with received := some resp })
  /-- the election is over -/
  | voteLate {c votes responses : ℕ} {call : VoteCall} {reply : Option ℕ}
      {resp : RequestVoteResponse} (h : VoteTaken C s c call votes responses resp)
      (hlate : (s.node call.caller).state ≠ .candidate
        ∨ (s.node call.caller).currentTerm ≠ call.term) :
      Transition C s (.receiveVote c reply)
        ((s.setLoop call.caller .select).setVoteCall c { call with received := some resp })
  | voteElects {c votes responses : ℕ} {call : VoteCall} {reply : Option ℕ}
      {resp : RequestVoteResponse} (h : VoteTaken C s c call votes responses resp)
      (hcand : (s.node call.caller).state = .candidate)
      (hterm : (s.node call.caller).currentTerm = call.term) (hgrant : resp.voteGranted = true)
      (hq : (s.node call.caller).quorum ≤ votes + 1) :
      Transition C s (.receiveVote c reply)
        ((s.setLoop call.caller .becomeLeader).setVoteCall c { call with received := some resp })
  | voteCounts {c votes responses : ℕ} {call : VoteCall} {reply : Option ℕ}
      {resp : RequestVoteResponse} (h : VoteTaken C s c call votes responses resp)
      (hcand : (s.node call.caller).state = .candidate)
      (hterm : (s.node call.caller).currentTerm = call.term)
      (hq : resp.voteGranted = true → votes + 1 < (s.node call.caller).quorum) :
      Transition C s (.receiveVote c reply)
        ((s.setLoop call.caller (System.nextVote (s.node call.caller) call.term
          (votes + if resp.voteGranted then 1 else 0) (responses + 1))).setVoteCall c
            { call with received := some resp })
  /-- `ErrNotLeader` -/
  | refuse {id command : String} (hid : id ∈ C.ids) (hl : (s.node id).state ≠ .leader) :
      Transition C s (.propose id command) s
  | propose {id command : String} {P : Proposal} (hid : id ∈ C.ids)
      (hl : (s.node id).state = .leader)
      (hP : P =
        { node := id, entry := ⟨(s.node id).currentTerm, command⟩
          log := (s.node id).log ++ [⟨(s.node id).currentTerm, command⟩]
          prevIndex := (s.node id).lastLogIndex, prevTerm := (s.node id).lastLogTerm
          newIndex := (s.node id).log.length + 1, acks := 1, responses := 0
          ended := if 0 < (s.node id).peers.length then none
            else some (.replicationFailed, (s.node id).commitIndex) }) :
      Transition C s (.propose id command)
        { s.setNode id ((s.node id).appendCommand command) with
          proposals := s.proposals ++ [P]
          appendCalls := s.appendCalls
            ++ (s.node id).peers.map (System.AppendCall.replicate s.proposals.length P) }
  | cancelPropose {p : ℕ} {P : Proposal} (hid : P.node ∈ C.ids) (hP : s.proposals[p]? = some P)
      (hend : P.ended = none) :
      Transition C s (.cancelPropose p)
        (s.setProposal p { P with ended := some (.canceled, (s.node P.node).commitIndex) })
  | readPrevLogIndex {c : ℕ} {call : AppendCall} (hid : call.caller ∈ C.ids)
      (hc : s.appendCalls[c]? = some call) (hi : call.prevLogIndex = none) :
      Transition C s (.readPrevLogIndex c)
        (s.setAppendCall c { call with prevLogIndex := some (s.node call.caller).lastLogIndex })
  | readPrevLogTerm {c : ℕ} {call : AppendCall} (hid : call.caller ∈ C.ids)
      (hc : s.appendCalls[c]? = some call) (hi : call.prevLogIndex ≠ none)
      (ht : call.prevLogTerm = none) :
      Transition C s (.readPrevLogTerm c)
        (s.setAppendCall c { call with prevLogTerm := some (s.node call.caller).lastLogTerm })
  | sendAppendEntries {c i t : ℕ} {call : AppendCall} (hid : call.caller ∈ C.ids)
      (hc : s.appendCalls[c]? = some call) (hi : call.prevLogIndex = some i)
      (ht : call.prevLogTerm = some t) (hreq : call.request = none) :
      Transition C s (.sendAppendEntries c)
        (s.setAppendCall c { call with
          request := some
            ⟨call.term, call.caller, i, t, call.entries, (s.node call.caller).commitIndex⟩ })
  | handleAppendEntries {c : ℕ} {call : AppendCall} {req : AppendEntriesRequest} {r : Replica}
      (hid : call.peer ∈ C.ids) (hc : s.appendCalls[c]? = some call)
      (hreq : call.request = some req)
      (hr : (s.replicas call.peer).handleAppendEntries c req = some r) :
      Transition C s (.handleAppendEntries c) (s.setReplica call.peer r)
  | handlerPanics {c : ℕ} {call : AppendCall} {req : AppendEntriesRequest}
      (hid : call.peer ∈ C.ids) (hc : s.appendCalls[c]? = some call)
      (hreq : call.request = some req)
      (hr : (s.replicas call.peer).handleAppendEntries c req = none) :
      Transition C s (.handleAppendEntries c) (s.panic call.peer)
  /-- the proposer steps down -/
  | ackDeposes {c p : ℕ} {call : AppendCall} {P : Proposal} {reply : Option ℕ} {o : Outcome}
      (h : AckTaken C s c call p P o) (hterm : P.entry.term < (o.response P.entry.term).term) :
      Transition C s (.receiveAppend c reply)
        (((s.setAppendCall c { call with received := some o }).setNode P.node
          ((s.node P.node).observeTerm (o.response P.entry.term).term)).setProposal p
            { P with
              responses := P.responses + 1
              ended := some (.notLeader, (s.node P.node).commitIndex) })
  | ackCommits {c p : ℕ} {call : AppendCall} {P : Proposal} {reply : Option ℕ} {o : Outcome}
      {r : Replica} (h : AckTaken C s c call p P o)
      (hsucc : (o.response P.entry.term).success = true)
      (hq : (s.node P.node).quorum ≤ P.acks + 1)
      (hr : (s.replicas P.node).commitProposal P.newIndex = some r) :
      Transition C s (.receiveAppend c reply)
        (((s.setAppendCall c { call with received := some o }).setReplica P.node r).setProposal p
          { P with
            acks := P.acks + 1, responses := P.responses + 1
            ended := some (.ok, r.node.commitIndex) })
  | proposerPanics {c p : ℕ} {call : AppendCall} {P : Proposal} {reply : Option ℕ} {o : Outcome}
      (h : AckTaken C s c call p P o) (hsucc : (o.response P.entry.term).success = true)
      (hq : (s.node P.node).quorum ≤ P.acks + 1)
      (hr : (s.replicas P.node).commitProposal P.newIndex = none) :
      Transition C s (.receiveAppend c reply)
        ((s.setAppendCall c { call with received := some o }).panic P.node)
  | ackCounts {c p : ℕ} {call : AppendCall} {P : Proposal} {reply : Option ℕ} {o : Outcome}
      (h : AckTaken C s c call p P o)
      (hq : (o.response P.entry.term).success = true → P.acks + 1 < (s.node P.node).quorum) :
      Transition C s (.receiveAppend c reply)
        ((s.setAppendCall c { call with received := some o }).setProposal p
          { P with
            acks := P.acks + if (o.response P.entry.term).success then 1 else 0
            responses := P.responses + 1
            ended := if P.responses + 1 < (s.node P.node).peers.length then none
              else some (.replicationFailed, (s.node P.node).commitIndex) })
  | heartbeatReturns {c : ℕ} {call : AppendCall} {reply : Option ℕ} {o : Outcome}
      (h : OutcomeTaken C s c call o) (hp : call.proposal = none) :
      Transition C s (.receiveAppend c reply)
        (s.setAppendCall c { call with received := some o })
  /-- the sender steps down -/
  | heartbeatDeposes {c : ℕ} {call : AppendCall} {reply : Option ℕ} {a : Answer}
      (h : OutcomeTaken C s c call (.reply a)) (hp : call.proposal = none)
      (hterm : call.term < a.resp.term) :
      Transition C s (.receiveAppend c reply)
        ((s.setAppendCall c { call with received := some (.reply a) }).setNode call.caller
          ((s.node call.caller).observeTerm a.resp.term))
  | apply {id : String} {b : ℕ} {r : Replica} (hid : id ∈ C.ids)
      (hr : (s.replicas id).apply b = some r) :
      Transition C s (.apply id b) (s.setReplica id r)
  | finish {id : String} {b : ℕ} {r : Replica} (hid : id ∈ C.ids)
      (hr : (s.replicas id).finish b = some (r, none)) :
      Transition C s (.finish id b) (s.setReplica id r)
  | answer {id : String} {b : ℕ} {r : Replica} {a : Answer} {call : AppendCall}
      (hid : id ∈ C.ids) (hr : (s.replicas id).finish b = some (r, some a))
      (hc : s.appendCalls[a.call]? = some call) :
      Transition C s (.finish id b)
        ((s.setReplica id r).setAppendCall a.call { call with replies := call.replies ++ [a] })

section

variable {C : Cluster} {s s' : System} {id : String} {c p : ℕ}

theorem at?_eq_some {f : Option System} (h : s.at? C id f = some s') :
    id ∈ C.ids ∧ f = some s' := by
  unfold System.at? at h
  split_ifs at h with hid
  exact ⟨hid.1, h⟩

theorem bind_at?_eq_some {α : Type*} {o : Option α} {node : α → String} {f : α → Option System}
    (h : (o.bind fun x => s.at? C (node x) (f x)) = some s') :
    ∃ x, o = some x ∧ node x ∈ C.ids ∧ f x = some s' := by
  obtain ⟨x, hx, h⟩ := Option.bind_eq_some_iff.1 h
  exact ⟨x, hx, at?_eq_some h⟩

theorem System.setNode_self (s : System) (id : String) : s.setNode id (s.node id) = s := by
  simp [System.setNode, System.setReplica, Replica.setNode, System.node]

theorem transition_onElectionTimeout (hid : id ∈ C.ids) (h : s.onElectionTimeout id = some s') :
    Transition C s (.onElectionTimeout id) s' := by
  unfold System.onElectionTimeout at h
  split at h
  · rename_i hloop
    split_ifs at h with hl <;> obtain rfl := Option.some.inj h
    · exact .ignoreTimeout hid hl
    · exact .onElectionTimeout hid hloop hl
  · cases h

theorem transition_startElection (hid : id ∈ C.ids) (h : s.startElection id = some s') :
    Transition C s (.startElection id) s' := by
  unfold System.startElection at h
  split at h
  · rename_i hloop
    obtain rfl := Option.some.inj h
    exact .startElection hid hloop rfl
  · cases h

theorem transition_becomeLeader (hid : id ∈ C.ids) (h : s.becomeLeader id = some s') :
    Transition C s (.becomeLeader id) s' := by
  unfold System.becomeLeader at h
  split at h
  · rename_i hloop
    split at h <;> rename_i hn <;> obtain rfl := Option.some.inj h
    · exact .giveUp hid hloop hn
    · exact .becomeLeader hid hloop hn
  · cases h

theorem transition_heartbeatTick (hid : id ∈ C.ids) (h : s.heartbeatTick id = some s') :
    Transition C s (.heartbeatTick id) s' := by
  unfold System.heartbeatTick at h
  split at h
  · rename_i hloop
    obtain rfl := Option.some.inj h
    exact .heartbeatTick hid hloop
  · cases h

theorem transition_sendHeartbeats (hid : id ∈ C.ids) (h : s.sendHeartbeats id = some s') :
    Transition C s (.sendHeartbeats id) s' := by
  unfold System.sendHeartbeats at h
  split at h
  · rename_i hloop
    dsimp only at h
    split_ifs at h with hl <;> obtain rfl := Option.some.inj h
    · exact .skipHeartbeats hid hloop hl
    · exact .sendHeartbeats hid hloop (not_not.1 hl)
  · cases h

theorem transition_cancelRun (hid : id ∈ C.ids) (h : s.cancelRun id = some s') :
    Transition C s (.cancelRun id) s' := by
  unfold System.cancelRun at h
  split at h
  · rename_i hloop
    obtain rfl := Option.some.inj h
    exact .cancelRun hid hloop
  · rename_i hloop
    obtain rfl := Option.some.inj h
    exact .cancelElection hid hloop
  · cases h

/-! ## `RequestVote` -/

section

variable {call : VoteCall} (hc : s.voteCalls[c]? = some call)

include hc

theorem transition_readLastLogIndex (hid : call.caller ∈ C.ids)
    (h : s.readLastLogIndex c call = some s') : Transition C s (.readLastLogIndex c) s' := by
  unfold System.readLastLogIndex at h
  split_ifs at h with hi
  obtain rfl := Option.some.inj h
  exact .readLastLogIndex hid hc hi

theorem transition_sendRequestVote (hid : call.caller ∈ C.ids)
    (h : s.sendRequestVote c call = some s') : Transition C s (.sendRequestVote c) s' := by
  unfold System.sendRequestVote at h
  split at h
  · rename_i hi hreq
    obtain rfl := Option.some.inj h
    exact .sendRequestVote hid hc hi hreq
  · cases h

theorem transition_handleRequestVote (hid : call.peer ∈ C.ids)
    (h : s.handleRequestVote c call = some s') : Transition C s (.handleRequestVote c) s' := by
  unfold System.handleRequestVote at h
  split at h
  · rename_i hreq
    obtain rfl := Option.some.inj h
    exact .handleRequestVote hid hc hreq
  · cases h

end

/-- What a response makes of the node and the loop. -/
theorem transition_takeVote {call : VoteCall} {votes responses : ℕ} {resp : RequestVoteResponse}
    (h : VoteTaken C s c call votes responses resp) (reply : Option ℕ) {n : Node} {l : RunLoop}
    (hn : System.takeVote (s.node call.caller) call.term votes responses resp = (n, l)) :
    Transition C s (.receiveVote c reply) (((s.setNode call.caller n).setLoop call.caller
      l).setVoteCall c { call with received := some resp }) := by
  unfold System.takeVote at hn
  split_ifs at hn with hterm hlate hgrant hq <;> obtain ⟨rfl, rfl⟩ := Prod.mk.inj hn
  · exact .voteDeposes h hterm
  all_goals rw [System.setNode_self]
  · exact .voteLate h hlate
  all_goals push Not at hlate
  · exact .voteElects h hlate.1 hlate.2 hgrant hq
  · have hcounts : Transition C s (.receiveVote c reply) _ :=
      .voteCounts h hlate.1 hlate.2 fun _ => not_le.1 hq
    rwa [if_pos hgrant] at hcounts
  · have hcounts : Transition C s (.receiveVote c reply) _ :=
      .voteCounts h hlate.1 hlate.2 fun hg => absurd hg hgrant
    rwa [if_neg hgrant] at hcounts

theorem transition_receiveVote {call : VoteCall} (hc : s.voteCalls[c]? = some call)
    (hid : call.caller ∈ C.ids) {reply : Option ℕ} (h : s.receiveVote c call reply = some s') :
    Transition C s (.receiveVote c reply) s' := by
  unfold System.receiveVote at h
  split at h
  swap
  · cases h
  rename_i term votes responses hloop
  split_ifs at h with hcond
  obtain ⟨rfl, hreq, hrec⟩ := hcond
  split at h
  swap
  · cases h
  rename_i resp hresp
  obtain rfl := Option.some.inj h
  refine transition_takeVote ⟨hc, hid, hloop, hreq, hrec, ?_⟩ reply rfl
  cases reply with
  | none => exact .inr (Option.some.inj hresp).symm
  | some k => exact .inl (List.mem_of_getElem? hresp)

/-! ## `Propose` -/

theorem transition_propose (hid : id ∈ C.ids) {command : String}
    (h : s.propose id command = some s') : Transition C s (.propose id command) s' := by
  unfold System.propose at h
  dsimp only at h
  by_cases hl : (s.node id).state ≠ .leader
  · rw [if_pos hl, Option.some.injEq] at h
    subst h
    exact .refuse hid hl
  · rw [if_neg hl, Option.some.injEq] at h
    subst h
    refine .propose hid (not_not.1 hl) ?_
    simp [Node.lastLogIndex, Node.appendCommand]

theorem transition_cancelPropose {P : Proposal} (hP : s.proposals[p]? = some P)
    (hid : P.node ∈ C.ids) (h : s.cancelPropose p P = some s') :
    Transition C s (.cancelPropose p) s' := by
  unfold System.cancelPropose at h
  split_ifs at h with hend
  obtain rfl := Option.some.inj h
  exact .cancelPropose hid hP hend

/-! ## `AppendEntries` -/

section

variable {call : AppendCall} (hc : s.appendCalls[c]? = some call)

include hc

theorem transition_readPrevLogIndex (hid : call.caller ∈ C.ids)
    (h : s.readPrevLogIndex c call = some s') : Transition C s (.readPrevLogIndex c) s' := by
  unfold System.readPrevLogIndex at h
  split_ifs at h with hi
  obtain rfl := Option.some.inj h
  exact .readPrevLogIndex hid hc hi

theorem transition_readPrevLogTerm (hid : call.caller ∈ C.ids)
    (h : s.readPrevLogTerm c call = some s') : Transition C s (.readPrevLogTerm c) s' := by
  unfold System.readPrevLogTerm at h
  split_ifs at h with ht
  obtain rfl := Option.some.inj h
  exact .readPrevLogTerm hid hc ht.1 ht.2

theorem transition_sendAppendEntries (hid : call.caller ∈ C.ids)
    (h : s.sendAppendEntries c call = some s') : Transition C s (.sendAppendEntries c) s' := by
  unfold System.sendAppendEntries at h
  split at h
  · rename_i hi ht hreq
    obtain rfl := Option.some.inj h
    exact .sendAppendEntries hid hc hi ht hreq
  · cases h

theorem transition_handleAppendEntries (hid : call.peer ∈ C.ids)
    (h : s.handleAppendEntries c call = some s') : Transition C s (.handleAppendEntries c) s' := by
  unfold System.handleAppendEntries at h
  split at h
  · rename_i hreq
    split at h <;> rename_i hr <;> obtain rfl := Option.some.inj h
    · exact .handlerPanics hid hc hreq hr
    · exact .handleAppendEntries hid hc hreq hr
  · cases h

end

/-- What the loop of `Propose` makes of a response. -/
theorem transition_takeAck {call : AppendCall} {P : Proposal} {o : Outcome}
    (h : AckTaken C s c call p P o) (reply : Option ℕ) :
    Transition C s (.receiveAppend c reply)
      ((s.setAppendCall c { call with received := some o }).takeAck p P
        (o.response P.entry.term)) := by
  unfold System.takeAck
  dsimp only
  by_cases hterm : (o.response P.entry.term).term > P.entry.term
  · rw [if_pos hterm]
    exact .ackDeposes h hterm
  rw [if_neg hterm]
  by_cases hsucc : (o.response P.entry.term).success = true
  · rw [if_pos hsucc]
    by_cases hq : P.acks + 1 ≥ (s.node P.node).quorum
    · refine (if_pos hq).symm ▸ ?_
      split
      · rename_i hr
        exact .proposerPanics h hsucc hq hr
      · rename_i hr
        exact .ackCommits h hsucc hq hr
    · refine (if_neg hq).symm ▸ ?_
      have hcounts : Transition C s (.receiveAppend c reply) _ :=
        .ackCounts h fun _ => not_le.1 hq
      rwa [if_pos hsucc] at hcounts
  · rw [if_neg hsucc]
    have hcounts : Transition C s (.receiveAppend c reply) _ :=
      .ackCounts h fun hs => absurd hs hsucc
    rwa [if_neg hsucc] at hcounts

theorem transition_receiveAppend {call : AppendCall} (hc : s.appendCalls[c]? = some call)
    (hid : call.caller ∈ C.ids) {reply : Option ℕ} (h : s.receiveAppend c call reply = some s') :
    Transition C s (.receiveAppend c reply) s' := by
  unfold System.receiveAppend at h
  split_ifs at h with hcond
  split at h
  swap
  · cases h
  rename_i o ho
  have htaken : OutcomeTaken C s c call o := by
    refine ⟨hc, hid, hcond.1, hcond.2, ?_⟩
    rintro a rfl
    cases reply with
    | none => cases ho
    | some k =>
      obtain ⟨b, hb, heq⟩ := Option.map_eq_some_iff.1 ho
      exact Outcome.reply.inj heq ▸ List.mem_of_getElem? hb
  dsimp only at h
  split at h
  · rename_i p hp
    split at h
    swap
    · cases h
    rename_i P hP
    split_ifs at h with hend
    split at h <;> obtain rfl := Option.some.inj h <;>
      exact transition_takeAck ⟨htaken, hp, hP, hend⟩ reply
  · rename_i hp
    split at h
    · obtain rfl := Option.some.inj h
      exact .heartbeatReturns htaken hp
    · split_ifs at h with hterm <;> obtain rfl := Option.some.inj h
      · exact .heartbeatDeposes htaken hp hterm
      · exact .heartbeatReturns htaken hp

/-! ## Applying -/

theorem transition_finish (hid : id ∈ C.ids) {b : ℕ} (h : s.finish id b = some s') :
    Transition C s (.finish id b) s' := by
  unfold System.finish at h
  split at h
  · cases h
  · rename_i hr
    obtain rfl := Option.some.inj h
    exact .finish hid hr
  · rename_i hr
    split at h
    · cases h
    · rename_i hcall
      obtain rfl := Option.some.inj h
      exact .answer hid hr hcall

theorem step_cases {a : Action} (h : s.step C a = some s') : Transition C s a s' := by
  cases a with
  | onElectionTimeout id =>
    obtain ⟨hid, h⟩ := at?_eq_some h
    exact transition_onElectionTimeout hid h
  | startElection id =>
    obtain ⟨hid, h⟩ := at?_eq_some h
    exact transition_startElection hid h
  | becomeLeader id =>
    obtain ⟨hid, h⟩ := at?_eq_some h
    exact transition_becomeLeader hid h
  | heartbeatTick id =>
    obtain ⟨hid, h⟩ := at?_eq_some h
    exact transition_heartbeatTick hid h
  | sendHeartbeats id =>
    obtain ⟨hid, h⟩ := at?_eq_some h
    exact transition_sendHeartbeats hid h
  | cancelRun id =>
    obtain ⟨hid, h⟩ := at?_eq_some h
    exact transition_cancelRun hid h
  | readLastLogIndex c =>
    obtain ⟨call, hc, hid, h⟩ := bind_at?_eq_some h
    exact transition_readLastLogIndex hc hid h
  | sendRequestVote c =>
    obtain ⟨call, hc, hid, h⟩ := bind_at?_eq_some h
    exact transition_sendRequestVote hc hid h
  | handleRequestVote c =>
    obtain ⟨call, hc, hid, h⟩ := bind_at?_eq_some h
    exact transition_handleRequestVote hc hid h
  | receiveVote c reply =>
    obtain ⟨call, hc, hid, h⟩ := bind_at?_eq_some h
    exact transition_receiveVote hc hid h
  | propose id command =>
    obtain ⟨hid, h⟩ := at?_eq_some h
    exact transition_propose hid h
  | cancelPropose p =>
    obtain ⟨P, hP, hid, h⟩ := bind_at?_eq_some h
    exact transition_cancelPropose hP hid h
  | readPrevLogIndex c =>
    obtain ⟨call, hc, hid, h⟩ := bind_at?_eq_some h
    exact transition_readPrevLogIndex hc hid h
  | readPrevLogTerm c =>
    obtain ⟨call, hc, hid, h⟩ := bind_at?_eq_some h
    exact transition_readPrevLogTerm hc hid h
  | sendAppendEntries c =>
    obtain ⟨call, hc, hid, h⟩ := bind_at?_eq_some h
    exact transition_sendAppendEntries hc hid h
  | handleAppendEntries c =>
    obtain ⟨call, hc, hid, h⟩ := bind_at?_eq_some h
    exact transition_handleAppendEntries hc hid h
  | receiveAppend c reply =>
    obtain ⟨call, hc, hid, h⟩ := bind_at?_eq_some h
    exact transition_receiveAppend hc hid h
  | apply id b =>
    obtain ⟨hid, h⟩ := at?_eq_some h
    obtain ⟨r, hr, rfl⟩ := Option.map_eq_some_iff.1 h
    exact .apply hid hr
  | finish id b =>
    obtain ⟨hid, h⟩ := at?_eq_some h
    exact transition_finish hid h

theorem outcomeTaken_of_step {reply : Option ℕ} (h : s.step C (.receiveAppend c reply) = some s') :
    ∃ call o, OutcomeTaken C s c call o := by
  cases step_cases h with
  | ackDeposes ho => exact ⟨_, _, ho.toOutcomeTaken⟩
  | ackCommits ho => exact ⟨_, _, ho.toOutcomeTaken⟩
  | proposerPanics ho => exact ⟨_, _, ho.toOutcomeTaken⟩
  | ackCounts ho => exact ⟨_, _, ho.toOutcomeTaken⟩
  | heartbeatReturns ho => exact ⟨_, _, ho⟩
  | heartbeatDeposes ho => exact ⟨_, _, ho⟩

end

end EdgeSim.Raft
