import EdgeSim.Raft.Trace

/-!
# What a step does to an election

A vote call gets a reply when its request is handled, and takes one of its replies or none. A node
goes to `becomeLeader` on taking a vote that makes a quorum, and becomes leader from there, if it is
still a candidate. Only `startElection` makes it one.
-/

namespace EdgeSim.Raft

/-- What a step makes of the vote call `c`. -/
structure Polled (a : Action) (c : ℕ) (call call' : VoteCall) : Prop where
  caller_eq : call'.caller = call.caller
  peer_eq : call'.peer = call.peer
  term_eq : call'.term = call.term
  replies : call'.replies = call.replies ∨ a = .handleRequestVote c
  received : ∀ r, call'.received = some r →
    call.received = some r ∨ r ∈ call.replies ∨ r.voteGranted = false

/-- The vote calls after a step: those that were there, and new ones. -/
def VotesFrom (s : System) (a : Action) (calls : List VoteCall) : Prop :=
  ∀ (c : ℕ) (call' : VoteCall), calls[c]? = some call' →
    (∃ call, s.voteCalls[c]? = some call ∧ Polled a c call call')
      ∨ call'.replies = [] ∧ call'.received = none ∧ s.voteCalls.length ≤ c

/-- A reply to one of its calls gives the candidate a quorum of votes. -/
def Won (s : System) (id : String) : Prop :=
  ∃ (c : ℕ) (call : VoteCall) (v r : ℕ), s.voteCalls[c]? = some call ∧ call.caller = id
    ∧ call.received = none ∧ s.loops id = .collectVotes call.term v r
    ∧ (s.node id).currentTerm = call.term ∧ (s.node id).quorum ≤ v + 1
    ∧ ∃ resp ∈ call.replies, resp.voteGranted = true

structure Ballot (s : System) (a : Action) (s' : System) : Prop where
  calls : VotesFrom s a s'.voteCalls
  nodes : ∀ id, s.loops id ≠ .startElection → Node.Moves (s.node id) (s'.node id)
  loops : ∀ id, s'.loops id = .becomeLeader → s.loops id = .becomeLeader ∨ Won s id
  elections : ∀ e ∈ s'.elections, e ∈ s.elections ∨ s.loops e.id = .becomeLeader
    ∧ (s.node e.id).state = .candidate ∧ e.term = (s.node e.id).currentTerm

section

variable {C : Cluster} {s s' : System} {a : Action} {id v : String} {r : Replica} {c p : ℕ}
  {l : RunLoop}

theorem votesFrom_refl (s : System) (a : Action) : VotesFrom s a s.voteCalls :=
  fun _ call hc => .inl ⟨call, hc, rfl, rfl, rfl, .inl rfl, fun _ hr => .inl hr⟩

theorem votesFrom_set {call y : VoteCall} (hc : s.voteCalls[c]? = some call)
    (hy : Polled a c call y) : VotesFrom s a (s.voteCalls.set c y) := by
  intro d call' hd
  rcases getElem?_set_cases hc hd with ⟨hd, -⟩ | ⟨rfl, rfl⟩
  · exact votesFrom_refl s a d call' hd
  · exact .inl ⟨call, hc, hy⟩

theorem votesFrom_append {calls : List VoteCall}
    (h : ∀ call ∈ calls, call.replies = [] ∧ call.received = none) :
    VotesFrom s a (s.voteCalls ++ calls) := by
  intro d call' hd
  rcases Nat.lt_or_ge d s.voteCalls.length with hlt | hge
  · rw [List.getElem?_append_left hlt] at hd
    exact votesFrom_refl s a d call' hd
  · rw [List.getElem?_append_right hge] at hd
    obtain ⟨hreplies, hreceived⟩ := h call' (List.mem_of_getElem? hd)
    exact .inr ⟨hreplies, hreceived, hge⟩

theorem VoteTaken.votesFrom {call : VoteCall} {v r : ℕ} {resp : RequestVoteResponse}
    (h : VoteTaken C s c call v r resp) :
    VotesFrom s a (s.voteCalls.set c { call with received := some resp }) := by
  refine votesFrom_set h.call_eq ⟨rfl, rfl, rfl, .inl rfl, fun x hx => .inr ?_⟩
  cases hx
  exact h.resp_mem.imp_right fun hresp => by rw [hresp]

theorem moves_update {n : Node} (hm : Node.Moves (s.node v) n) (x : String) :
    Node.Moves (s.node x) (Function.update s.node v n x) := by
  by_cases hx : x = v
  · subst hx
    rw [Function.update_self]
    exact hm
  · rw [Function.update_of_ne hx]
    exact .refl _

theorem loops_update (hloops : s'.loops = Function.update s.loops id l)
    (hl : l = .becomeLeader → s.loops id = .becomeLeader ∨ Won s id) (x : String)
    (hx : s'.loops x = .becomeLeader) : s.loops x = .becomeLeader ∨ Won s x := by
  rw [hloops] at hx
  by_cases hid : x = id
  · subst hid
    rw [Function.update_self] at hx
    exact hl hx
  · rw [Function.update_of_ne hid] at hx
    exact .inl hx

/-- A step that leaves all nodes as they are and gives one loop another place. -/
theorem ballot_setLoop (hl : l = .becomeLeader → s.loops id = .becomeLeader ∨ Won s id)
    (hnode : s'.replicas = s.replicas) (hcalls : VotesFrom s a s'.voteCalls)
    (hloops : s'.loops = Function.update s.loops id l)
    (helections : s'.elections = s.elections) : Ballot s a s' where
  calls := hcalls
  nodes x _ := by
    rw [System.node, System.node, hnode]
    exact .refl _
  loops := loops_update hloops hl
  elections e he := .inl (helections ▸ he)

/-- A step that leaves the loops as they are and moves one node. -/
theorem ballot_setNode {n : Node} (hnode : s'.node = Function.update s.node v n)
    (hm : Node.Moves (s.node v) n) (hcalls : VotesFrom s a s'.voteCalls)
    (hloops : s'.loops = s.loops) (helections : s'.elections = s.elections) :
    Ballot s a s' where
  calls := hcalls
  nodes x _ := by
    rw [hnode]
    exact moves_update hm x
  loops x hx := .inl (hloops ▸ hx)
  elections e he := .inl (helections ▸ he)

/-- A step that changes none of this. -/
theorem ballot_stay (hnode : s'.replicas = s.replicas) (hcalls : VotesFrom s a s'.voteCalls)
    (hloops : s'.loops = s.loops) (helections : s'.elections = s.elections) : Ballot s a s' where
  calls := hcalls
  nodes x _ := by
    rw [System.node, System.node, hnode]
    exact .refl _
  loops x hx := .inl (hloops ▸ hx)
  elections e he := .inl (helections ▸ he)

/-! ## The steps -/

theorem ballot_startElection {n : Node} (hloop : s.loops id = .startElection) : Ballot s a
    { (s.setNode id n).setLoop id
        (if 0 < n.peers.length then .collectVotes n.currentTerm 1 0 else .select) with
      voteCalls := s.voteCalls ++ n.peers.map (System.VoteCall.spawn id n.currentTerm) } := by
  refine ⟨votesFrom_append fun call hc => ?_, fun x hx => ?_, loops_update rfl fun hl => ?_,
    fun _ => .inl⟩
  · obtain ⟨q, -, rfl⟩ := List.mem_map.1 hc
    exact ⟨rfl, rfl⟩
  · have hne : x ≠ id := fun heq => hx (heq ▸ hloop)
    change Node.Moves _ ((s.setNode id n).node x)
    rw [System.node_setNode, Function.update_of_ne hne]
    exact .refl _
  · split_ifs at hl

theorem ballot_becomeLeader {n : Node} (hloop : s.loops id = .becomeLeader)
    (hn : (s.node id).becomeLeader = some n) : Ballot s a
    (((s.setNode id n).setLoop id .sendHeartbeats).record ⟨id, n.currentTerm, n.log⟩) := by
  obtain ⟨hcand, rfl⟩ := Node.becomeLeader_eq hn
  refine ⟨votesFrom_refl s a, fun x _ => ?_, loops_update rfl fun hl => ?_, fun e he => ?_⟩
  · change Node.Moves _ ((s.setNode id _).node x)
    rw [System.node_setNode]
    refine moves_update ?_ x
    exact ⟨le_rfl, fun hc => by cases hc⟩
  · cases hl
  · rcases List.mem_append.1 he with he | he
    · exact .inl he
    · obtain rfl := List.mem_singleton.1 he
      exact .inr ⟨hloop, hcand, rfl⟩

theorem ballot_voteDeposes {call : VoteCall} {v r : ℕ} {resp : RequestVoteResponse}
    (h : VoteTaken C s c call v r resp) : Ballot s a
    (((s.setNode call.caller ((s.node call.caller).observeTerm resp.term)).setLoop
      call.caller .select).setVoteCall c { call with received := some resp }) := by
  refine ⟨h.votesFrom, fun x _ => ?_, loops_update rfl fun hl => ?_, fun _ => .inl⟩
  · change Node.Moves _ ((s.setNode call.caller _).node x)
    rw [System.node_setNode]
    exact moves_update (Node.moves_adopt _ _ _) x
  · cases hl

theorem VoteTaken.won {call : VoteCall} {v r : ℕ} {resp : RequestVoteResponse}
    (h : VoteTaken C s c call v r resp) (hterm : (s.node call.caller).currentTerm = call.term)
    (hgrant : resp.voteGranted = true) (hq : (s.node call.caller).quorum ≤ v + 1) :
    Won s call.caller :=
  ⟨c, call, v, r, h.call_eq, rfl, h.received_eq, h.loop_eq, hterm, hq, resp,
    h.mem_replies hgrant, hgrant⟩

theorem step_ballot (h : s.step C a = some s') : Ballot s a s' := by
  cases step_cases h with
  | ignoreTimeout | refuse | cancelPropose | readPrevLogIndex | readPrevLogTerm
  | sendAppendEntries | handlerPanics | proposerPanics | ackCounts | heartbeatReturns =>
    exact ballot_stay rfl (votesFrom_refl s _) rfl rfl
  | onElectionTimeout | giveUp | heartbeatTick | sendHeartbeats | skipHeartbeats | cancelRun
  | cancelElection =>
    exact ballot_setLoop (fun hl => by cases hl) rfl (votesFrom_refl s _) rfl rfl
  | startElection _ hloop => exact ballot_startElection hloop
  | becomeLeader _ hloop hn => exact ballot_becomeLeader hloop hn
  | readLastLogIndex _ hc =>
    exact ballot_stay rfl (votesFrom_set hc ⟨rfl, rfl, rfl, .inl rfl, fun _ => .inl⟩) rfl rfl
  | sendRequestVote _ hc =>
    exact ballot_stay rfl (votesFrom_set hc ⟨rfl, rfl, rfl, .inl rfl, fun _ => .inl⟩) rfl rfl
  | handleRequestVote _ hc =>
    exact ballot_setNode (System.node_setNode s _ _) (Node.moves_handleRequestVote _ _)
      (votesFrom_set hc ⟨rfl, rfl, rfl, .inr rfl, fun _ => .inl⟩) rfl rfl
  | voteDeposes hv => exact ballot_voteDeposes hv
  | voteLate hv => exact ballot_setLoop (fun hl => by cases hl) rfl hv.votesFrom rfl rfl
  | voteElects hv _ hterm hgrant hq =>
    exact ballot_setLoop (fun _ => .inr (hv.won hterm hgrant hq)) rfl hv.votesFrom rfl rfl
  | voteCounts hv =>
    refine ballot_setLoop (fun hl => ?_) rfl hv.votesFrom rfl rfl
    unfold System.nextVote at hl
    split_ifs at hl
  | propose _ hl =>
    refine ballot_setNode (System.node_setNode s _ _) ⟨le_rfl, fun hc => ?_⟩
      (votesFrom_refl s _) rfl rfl
    change (s.node _).state = .candidate at hc
    rw [hl] at hc
    cases hc
  | handleAppendEntries _ _ _ hr =>
    obtain ⟨n, es, resp, hn, rfl⟩ := Replica.handleAppendEntries_eq hr
    exact ballot_setNode (System.node_setReplica s _ _) (Node.moves_handleAppendEntries hn)
      (votesFrom_refl s _) rfl rfl
  | ackDeposes =>
    exact ballot_setNode (System.node_setNode s _ _) (Node.moves_adopt _ _ _)
      (votesFrom_refl s _) rfl rfl
  | ackCommits _ _ _ hr =>
    obtain ⟨n, es, hn, rfl⟩ := Replica.commitProposal_eq hr
    exact ballot_setNode (System.node_setReplica s _ _) (Node.moves_commitProposal hn)
      (votesFrom_refl s _) rfl rfl
  | heartbeatDeposes =>
    exact ballot_setNode (System.node_setNode s _ _) (Node.moves_adopt _ _ _)
      (votesFrom_refl s _) rfl rfl
  | apply _ hr =>
    obtain ⟨e, todo, answer, -, rfl⟩ := Replica.apply_eq hr
    exact ballot_setNode (System.node_setReplica s _ _) (.refl _) (votesFrom_refl s _) rfl rfl
  | finish _ hr =>
    obtain ⟨-, rfl⟩ := Replica.finish_eq hr
    exact ballot_setNode (System.node_setReplica s _ _) (.refl _) (votesFrom_refl s _) rfl rfl
  | answer _ hr =>
    obtain ⟨-, rfl⟩ := Replica.finish_eq hr
    exact ballot_setNode (System.node_setReplica s _ _) (.refl _) (votesFrom_refl s _) rfl rfl

end

end EdgeSim.Raft
