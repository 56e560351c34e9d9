import EdgeSim.Raft.Refinement

/-!
# What a step does to one node

At each node a step of the cluster is a step of the replica or none, and only two kinds of them
touch `commitIndex`: an `AppendEntries` request that is handled, and a `Propose` call that has its
quorum. The commit indices in flight are those nodes had when the requests were sent.
-/

namespace EdgeSim.Raft

/-- A step of a replica that leaves `commitIndex` and `lastApplied` alone. -/
def ReplicaAction.Quiet : ReplicaAction → Prop
  | .handleAppendEntries _ _ => False
  | .commitProposal _ => False
  | _ => True

theorem Replica.quiet_step {r r' : Replica} {x : ReplicaAction} (hx : x.Quiet)
    (h : r.step x = some r') :
    r'.node.commitIndex = r.node.commitIndex ∧ r'.node.lastApplied = r.node.lastApplied
      ∧ r'.collected = r.collected := by
  cases x with
  | handleAppendEntries c req => exact absurd hx id
  | commitProposal i => exact absurd hx id
  | handleRequestVote req =>
    simp only [Replica.step, Option.some.injEq] at h
    subst h
    rcases Node.handleRequestVote_cases (n := r.node) req with
      ⟨-, hr⟩ | ⟨-, hr⟩ | ⟨-, -, -, hr⟩ <;> simp [Replica.setNode, hr]
  | observeTerm t =>
    simp only [Replica.step, Option.some.injEq] at h
    subst h
    simp [Replica.setNode, Node.observeTerm_eq_adopt]
  | startCandidacy =>
    simp only [Replica.step, Option.some.injEq] at h
    subst h
    exact ⟨rfl, rfl, rfl⟩
  | becomeLeader =>
    obtain ⟨n, hn, rfl⟩ := Option.map_eq_some_iff.1 h
    obtain ⟨-, rfl⟩ := Node.becomeLeader_eq hn
    exact ⟨rfl, rfl, rfl⟩
  | appendCommand command =>
    simp only [Replica.step] at h
    split_ifs at h
    simp only [Option.some.injEq] at h
    subst h
    exact ⟨rfl, rfl, rfl⟩
  | apply b =>
    obtain ⟨e, todo, answer, -, rfl⟩ := Replica.apply_eq h
    exact ⟨rfl, rfl, rfl⟩
  | finish b =>
    obtain ⟨⟨r'', answer⟩, hr, rfl⟩ := Option.map_eq_some_iff.1 h
    obtain ⟨-, rfl⟩ := Replica.finish_eq hr
    exact ⟨rfl, rfl, rfl⟩

/-- What the step `a` from `s` to `s'` is for the node `id`. -/
inductive Local (s : System) (a : Action) (s' : System) (id : String) : Prop
  | stay (h : s'.replicas id = s.replicas id)
  | quiet {x : ReplicaAction} (hx : x.Quiet) (h : (s.replicas id).step x = some (s'.replicas id))
  | handle {c : ℕ} {call : AppendCall} {req : AppendEntriesRequest}
      (ha : a = .handleAppendEntries c) (hc : s.appendCalls[c]? = some call)
      (hpeer : call.peer = id) (hreq : call.request = some req)
      (h : (s.replicas id).handleAppendEntries c req = some (s'.replicas id))
  | commit {p c : ℕ} {P : Proposal} (hP : s'.proposals[p]? = some P) (hnode : P.node = id)
      (hend : P.ended = some (.ok, c))
      (h : (s.replicas id).commitProposal P.newIndex = some (s'.replicas id))

theorem Local.step {s s' : System} {a : Action} {id : String} (h : Local s a s' id) :
    s'.replicas id = s.replicas id
      ∨ ∃ x, (s.replicas id).step x = some (s'.replicas id) := by
  cases h with
  | stay h => exact .inl h
  | quiet hx h => exact .inr ⟨_, h⟩
  | @handle c call req ha hc hpeer hreq h => exact .inr ⟨.handleAppendEntries c req, h⟩
  | @commit p c P hP hnode hend h => exact .inr ⟨.commitProposal P.newIndex, h⟩

/-- What a step does to the nodes, to the requests and to the proposals that have ended. -/
structure Effect (s : System) (a : Action) (s' : System) : Prop where
  nodes : ∀ id, Local s a s' id
  requests : ∀ call ∈ s'.appendCalls, ∀ req, call.request = some req →
    (∃ call' ∈ s.appendCalls, call'.caller = call.caller ∧ call'.request = some req)
      ∨ req.leaderCommit = (s.node call.caller).commitIndex
  ended : ∀ (p : ℕ) (P : Proposal), s.proposals[p]? = some P → P.ended ≠ none →
    s'.proposals[p]? = some P

section

variable {s s' : System} {a : Action} {id v : String} {r : Replica}

theorem local_of_update (h : s'.replicas = Function.update s.replicas v r)
    (hl : Local s a s' v) (x : String) : Local s a s' x := by
  by_cases hx : x = v
  · subst hx
    exact hl
  · exact .stay (by rw [h, Function.update_of_ne hx])

/-- A step of the replica of `v` that leaves the calls and the proposals alone. -/
theorem effect_replica (hrep : s'.replicas = Function.update s.replicas v r)
    (hcalls : s'.appendCalls = s.appendCalls) (hps : s'.proposals = s.proposals)
    (hl : Local s a s' v) : Effect s a s' where
  nodes := local_of_update hrep hl
  requests call hc _ hreq := .inl ⟨call, hcalls ▸ hc, rfl, hreq⟩
  ended _ _ hP _ := hps ▸ hP

/-- A quiet step of the replica of `v`. -/
theorem effect_quiet {x : ReplicaAction} (hx : x.Quiet)
    (hstep : (s.replicas v).step x = some r)
    (hrep : s'.replicas = Function.update s.replicas v r)
    (hcalls : s'.appendCalls = s.appendCalls) (hps : s'.proposals = s.proposals) :
    Effect s a s' := by
  refine effect_replica hrep hcalls hps (.quiet hx ?_)
  rw [hrep, Function.update_self]
  exact hstep

theorem effect_stay (hrep : s'.replicas = s.replicas) (hcalls : s'.appendCalls = s.appendCalls)
    (hps : s'.proposals = s.proposals) : Effect s a s' where
  nodes id := .stay (by rw [hrep])
  requests call hc _ hreq := .inl ⟨call, hcalls ▸ hc, rfl, hreq⟩
  ended _ _ hP _ := hps ▸ hP

theorem requests_set {c : ℕ} {call y : AppendCall} (hc : s.appendCalls[c]? = some call)
    (hcaller : y.caller = call.caller)
    (hreq : ∀ req, y.request = some req → call.request = some req
      ∨ req.leaderCommit = (s.node call.caller).commitIndex) :
    ∀ x ∈ s.appendCalls.set c y, ∀ req, x.request = some req →
      (∃ call' ∈ s.appendCalls, call'.caller = x.caller ∧ call'.request = some req)
        ∨ req.leaderCommit = (s.node x.caller).commitIndex := by
  intro x hx req hxreq
  rcases List.mem_or_eq_of_mem_set hx with hx | rfl
  · exact .inl ⟨x, hx, rfl, hxreq⟩
  · rw [hcaller]
    exact (hreq req hxreq).imp_left fun h => ⟨call, List.mem_of_getElem? hc, rfl, h⟩

theorem requests_append {calls : List AppendCall} (hnone : ∀ call ∈ calls, call.request = none) :
    ∀ x ∈ s.appendCalls ++ calls, ∀ req, x.request = some req →
      (∃ call' ∈ s.appendCalls, call'.caller = x.caller ∧ call'.request = some req)
        ∨ req.leaderCommit = (s.node x.caller).commitIndex := by
  intro x hx req hreq
  rcases List.mem_append.1 hx with hx | hx
  · exact .inl ⟨x, hx, rfl, hreq⟩
  · rw [hnone x hx] at hreq
    cases hreq

theorem ended_set {p : ℕ} {P P' : Proposal} (hP : s.proposals[p]? = some P)
    (hend : P.ended = none) : ∀ (q : ℕ) (R : Proposal), s.proposals[q]? = some R →
      R.ended ≠ none → (s.proposals.set p P')[q]? = some R := by
  intro q R hR hne
  rw [List.getElem?_set_ne]
  · exact hR
  · rintro rfl
    rw [hP, Option.some.injEq] at hR
    exact hne (hR ▸ hend)

/-! ## The steps -/

variable {C : Cluster} {c p : ℕ} {call : AppendCall} {P : Proposal} {o : Outcome}

theorem effect_setAppendCall {y : AppendCall} (hc : s.appendCalls[c]? = some call)
    (hcaller : y.caller = call.caller)
    (hreq : ∀ req, y.request = some req → call.request = some req
      ∨ req.leaderCommit = (s.node call.caller).commitIndex) :
    Effect s a (s.setAppendCall c y) where
  nodes _ := .stay rfl
  requests := requests_set hc hcaller hreq
  ended _ _ hP _ := hP

theorem effect_sendHeartbeats : Effect s a
    { s.setLoop id .select with
      appendCalls := s.appendCalls
        ++ (s.node id).peers.map (System.AppendCall.heartbeat id (s.node id).currentTerm) } where
  nodes _ := .stay rfl
  requests := by
    refine requests_append (s := s) fun call hc => ?_
    obtain ⟨q, -, rfl⟩ := List.mem_map.1 hc
    rfl
  ended _ _ hP _ := hP

theorem effect_propose {command : String} (hl : (s.node id).state = .leader) : Effect s a
    { s.setNode id ((s.node id).appendCommand command) with
      proposals := s.proposals ++ [P]
      appendCalls := s.appendCalls
        ++ (s.node id).peers.map (System.AppendCall.replicate s.proposals.length P) } where
  nodes := local_of_update rfl (.quiet (x := .appendCommand command) trivial (by
    rw [System.node] at hl
    simp [Replica.step, hl, System.setNode, System.setReplica, System.node]))
  requests := by
    refine requests_append (s := s) fun call hc => ?_
    obtain ⟨q, -, rfl⟩ := List.mem_map.1 hc
    rfl
  ended p R hR _ := by
    change (s.proposals ++ _)[p]? = _
    rw [List.getElem?_append_left (List.getElem?_eq_some_iff.1 hR).1]
    exact hR

theorem effect_ackDeposes (h : AckTaken C s c call p P o) {P' : Proposal} {term : ℕ} :
    Effect s a (((s.setAppendCall c { call with received := some o }).setNode P.node
      ((s.node P.node).observeTerm term)).setProposal p P') where
  nodes := local_of_update rfl (.quiet (x := .observeTerm term) trivial (by
    simp [Replica.step, System.setProposal, System.setNode, System.setReplica,
      System.setAppendCall, System.node]))
  requests := requests_set h.call_eq rfl fun _ => .inl
  ended := ended_set h.proposals_eq h.ended_eq

theorem effect_ackCommits (h : AckTaken C s c call p P o)
    (hr : (s.replicas P.node).commitProposal P.newIndex = some r) :
    Effect s a (((s.setAppendCall c { call with received := some o }).setReplica P.node
      r).setProposal p
        { P with
          acks := P.acks + 1, responses := P.responses + 1
          ended := some (.ok, r.node.commitIndex) }) := by
  have hget : (s.proposals.set p
      { P with
        acks := P.acks + 1, responses := P.responses + 1
        ended := some (.ok, r.node.commitIndex) })[p]? = some _ :=
    List.getElem?_set_self (List.getElem?_eq_some_iff.1 h.proposals_eq).1
  refine
    { nodes := local_of_update (v := P.node) (r := r) rfl (.commit hget rfl rfl ?_)
      requests := requests_set h.call_eq rfl fun _ => .inl
      ended := ended_set h.proposals_eq h.ended_eq }
  simpa [System.setProposal, System.setReplica] using hr

theorem effect_answer {b : ℕ} {x : Answer} (hr : (s.replicas id).finish b = some (r, some x))
    (hc : s.appendCalls[x.call]? = some call) :
    Effect s a ((s.setReplica id r).setAppendCall x.call
      { call with replies := call.replies ++ [x] }) where
  nodes := local_of_update rfl (.quiet (x := .finish b) trivial (by
    simp [System.setReplica, System.setAppendCall, Replica.step, hr]))
  requests := requests_set hc rfl fun _ => .inl
  ended _ _ hP _ := hP

theorem step_effect (h : s.step C a = some s') (halive : s'.panicked = []) : Effect s a s' := by
  cases step_cases h with
  | ignoreTimeout | onElectionTimeout | giveUp | heartbeatTick | skipHeartbeats | cancelRun
  | cancelElection | readLastLogIndex | sendRequestVote | voteLate | voteElects | voteCounts
  | refuse => exact effect_stay rfl rfl rfl
  | startElection _ _ hn =>
    subst hn
    exact effect_quiet (x := .startCandidacy) trivial rfl rfl rfl rfl
  | becomeLeader _ _ hn =>
    refine effect_quiet (x := .becomeLeader) trivial ?_ rfl rfl rfl
    rw [System.node] at hn
    simp [Replica.step, hn]
  | sendHeartbeats => exact effect_sendHeartbeats
  | @handleRequestVote _ _ req =>
    exact effect_quiet (x := .handleRequestVote req) trivial rfl rfl rfl rfl
  | @voteDeposes _ _ _ _ _ resp =>
    exact effect_quiet (x := .observeTerm resp.term) trivial rfl rfl rfl rfl
  | propose _ hl => exact effect_propose hl
  | cancelPropose _ hP hend =>
    exact
      { nodes := fun _ => .stay rfl
        requests := fun call hc _ hreq => .inl ⟨call, hc, rfl, hreq⟩
        ended := ended_set hP hend }
  | readPrevLogIndex _ hc => exact effect_setAppendCall hc rfl fun _ => .inl
  | readPrevLogTerm _ hc => exact effect_setAppendCall hc rfl fun _ => .inl
  | sendAppendEntries _ hc =>
    refine effect_setAppendCall hc rfl fun req hreq => .inr ?_
    simp only [Option.some.injEq] at hreq
    rw [← hreq]
  | @handleAppendEntries _ call _ r _ hc hreq hr =>
    refine effect_replica (v := call.peer) (r := r) rfl rfl rfl (.handle rfl hc rfl hreq ?_)
    simpa [System.setReplica] using hr
  | handlerPanics | proposerPanics => cases halive
  | ackDeposes ho => exact effect_ackDeposes ho
  | ackCommits ho _ _ hr => exact effect_ackCommits ho hr
  | ackCounts ho =>
    exact
      { nodes := fun _ => .stay rfl
        requests := requests_set ho.call_eq rfl fun _ => .inl
        ended := ended_set ho.proposals_eq ho.ended_eq }
  | heartbeatReturns ho => exact effect_setAppendCall ho.call_eq rfl fun _ => .inl
  | @heartbeatDeposes _ _ _ x ho =>
    exact
      { nodes := local_of_update rfl (.quiet (x := .observeTerm x.resp.term) trivial (by
          simp [Replica.step, System.setNode, System.setReplica, System.setAppendCall,
            System.node]))
        requests := requests_set ho.call_eq rfl fun _ => .inl
        ended := fun _ _ hP _ => hP }
  | @apply _ b _ _ hr => exact effect_quiet (x := .apply b) trivial hr rfl rfl rfl
  | @finish _ b _ _ hr =>
    exact effect_quiet (x := .finish b) trivial (by simp [Replica.step, hr]) rfl rfl rfl
  | answer _ hr hc => exact effect_answer hr hc

/-- At each node a run of the cluster is a run of the replica. -/
theorem run_replica {as : List Action} (h : C.Run C.init as s) (id : String) :
    ∃ xs, Runs.Run Replica.step (fun _ _ => True) (.start (C.node id)) xs (s.replicas id) := by
  induction h with
  | nil => exact ⟨[], .nil⟩
  | snoc hrun _ hstep ih =>
    obtain ⟨xs, hxs⟩ := ih
    obtain ⟨A, hR⟩ := reached hrun
    obtain ⟨B, -, hR'⟩ := hR.step hstep
    rcases ((step_effect hstep hR'.sim.alive).nodes id).step with heq | ⟨x, hx⟩
    · exact ⟨xs, heq ▸ hxs⟩
    · exact ⟨xs ++ [x], hxs.snoc trivial hx⟩

end

end EdgeSim.Raft
