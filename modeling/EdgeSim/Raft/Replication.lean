import EdgeSim.Raft.Elections

/-!
# Replication

The steps of `Propose`, of the `AppendEntries` calls and of the goroutines that apply, each
matched by steps of the group. When `Propose` has its quorum, a majority has stored the entry in
the term it was proposed in, so the node that proposed it still has it, whatever its role and term
are by then: the entries it is about to collect are in its log.
-/

namespace EdgeSim.Raft

open TermLog TermLog.Group

section

variable {C : Cluster} {s : System} {A : Group String LogEntry} {id : String}

/-! ## `Propose` -/

/-- The entry `Propose` has appended. -/
theorem Sim.proposed (hA : GroupInv C A) (hS : Sim C s A) (hid : id ∈ C.ids)
    (hl : (s.node id).state = .leader) {P : Proposal} {command : String} (hnode : P.node = id)
    (hentry : P.entry = ⟨(s.node id).currentTerm, command⟩)
    (hprev : P.prevIndex = (s.node id).log.length)
    (hterm : P.prevTerm = TermLog.lastTerm LogEntry.term (s.node id).log)
    (hnew : P.newIndex = (s.node id).log.length + 1)
    (hPlog : P.log = (s.node id).log ++ [P.entry]) : P.OK C (A.append id P.entry) := by
  have hn := hS.follows.tracks id hid
  obtain ⟨l, hled⟩ := hn.leader.1 hl
  have hledA : A.led id (A.term id) = some l := by rw [hn.term_eq]; exact hled
  have hlog : A.lead id (A.term id) = (s.node id).log := by rw [← hA.led_log hledA, hn.log_eq]
  have hlead : (A.append id P.entry).lead id P.entry.term = (s.node id).log ++ [P.entry] := by
    rw [← hn.log_eq, hentry, ← hn.term_eq]
    exact lead_append_self
  refine ⟨?_, ?_, ⟨l, ?_, ?_, ?_, ?_⟩, ?_, ?_⟩
  · rw [hnode]
    exact hid
  · rw [hnew, hprev]
  · rw [hnode, hentry]
    exact hled
  · have := (hA.led_pre hledA).length_le
    rw [hlog] at this
    rw [hprev]
    exact this
  · rw [hnode, hlead, hprev]
    simp
  · rw [hnode, hlead, hprev, hterm]
    simp
  · refine .inr ⟨hnode, ?_, ?_⟩
    · rw [hentry, hn.term_eq]
    · rw [hnew, hn.log_eq]
  · rw [hnode, hlead, hPlog, hnew, List.take_of_length_le (by simp)]

theorem matched_propose (hA : GroupInv C A) (hS : Sim C s A) (hT : Tally C s) (hid : id ∈ C.ids)
    {command : String} (hl : (s.node id).state = .leader) {P : Proposal}
    (hP : P =
      { node := id, entry := ⟨(s.node id).currentTerm, command⟩
        log := (s.node id).log ++ [⟨(s.node id).currentTerm, command⟩]
        prevIndex := (s.node id).lastLogIndex, prevTerm := (s.node id).lastLogTerm
        newIndex := (s.node id).log.length + 1, acks := 1, responses := 0
        ended := if 0 < (s.node id).peers.length then none
          else some (.replicationFailed, (s.node id).commitIndex) }) :
    Matched C A
      { s.setNode id ((s.node id).appendCommand command) with
        proposals := s.proposals ++ [P]
        appendCalls := s.appendCalls
          ++ (s.node id).peers.map (System.AppendCall.replicate s.proposals.length P) } := by
  set n := s.node id with hn
  have hPnode : P.node = id := by rw [hP]
  have hPentry : P.entry = ⟨n.currentTerm, command⟩ := by rw [hP]
  obtain ⟨hB, hF⟩ := hS.follows.appendCommand hA hid hl command
  rw [← hn, ← hPentry] at hB hF
  have hok := hS.proposed hA hid hl (P := P) hPnode hPentry (by rw [hP]; rfl)
    (by rw [hP]; exact Node.lastTerm_eq _) (by rw [hP]) (by rw [hP])
  have hm : Node.Moves n (n.appendCommand command) := ⟨le_rfl, fun hc => by
    change n.state = _ at hc
    rw [hl] at hc
    cases hc⟩
  have hpeers : n.peers = (C.config id).peers := (hS.follows.tracks id hid).peers_eq
  have hledB : ∃ l, (A.append id P.entry).led id P.entry.term = some l :=
    hPnode ▸ hok.entry.imp fun _ h => h.1
  have hS₁ := (hS.setNode hA hid hB rfl hF hm rfl rfl).addProposal hok
  have hget : (s.proposals ++ [P])[s.proposals.length]? = some P := by simp
  have hnew : ∀ call ∈ s.appendCalls, call.proposal ≠ some s.proposals.length := by
    intro call hc hp
    obtain ⟨R, hR, -⟩ := (hS.calls call hc).proposal _ hp
    have := (List.getElem?_eq_some_iff.1 hR).1
    omega
  have hnode : (C.node P.node).peers = n.peers := by rw [hPnode, C.node_eq hid, hpeers]
  have hend : P.EndOK (C.node P.node).quorum (C.node P.node).peers [] s.proposals.length := by
    rw [Node.quorum, hnode]
    by_cases hpos : 0 < n.peers.length
    · simp only [Proposal.EndOK, hP, if_pos hpos]
      omega
    · have hnil : n.peers = [] := List.eq_nil_of_length_eq_zero (by omega)
      simp [Proposal.EndOK, hP, hnil]
  refine ⟨_, hB, hS₁.addAppendCalls fun call hcall => ?_,
    (hT.setReplica id _).addProposal hnode.symm (hpeers ▸ C.peers_nodup id hid) hnew
      (by rw [hP]) (by rw [hP]) hend⟩
  · obtain ⟨q, hq, rfl⟩ := List.mem_map.1 hcall
    exact
      { caller_mem := by rw [System.AppendCall.replicate, hPnode]; exact hid
        peer_mem := by rw [System.AppendCall.replicate, hPnode]; exact hpeers ▸ hq
        led := by rw [System.AppendCall.replicate, hPnode]; exact hledB
        heartbeat := fun hp => by simp [System.AppendCall.replicate] at hp
        proposal := fun p hp => by
          simp only [System.AppendCall.replicate, Option.some.injEq] at hp
          subst hp
          exact ⟨P, hget, rfl, rfl, rfl, rfl, rfl⟩
        request := fun req hreq => by simp [System.AppendCall.replicate] at hreq
        replies := fun a ha => by simp [System.AppendCall.replicate] at ha
        received := fun a ha => by simp [System.AppendCall.replicate] at ha }

variable {p : ℕ} {P : Proposal}

/-- A proposal is changed and its calls are not. -/
theorem Tally.setProposal (hT : Tally C s) (hP : s.proposals[p]? = some P) {P' : Proposal}
    (hnode : P'.node = P.node) (hacks : P'.acks = P.acks) (hresp : P'.responses = P.responses)
    (hend : P'.EndOK (C.node P'.node).quorum (C.node P'.node).peers s.appendCalls p) :
    Tally C (s.setProposal p P') :=
  { hT with
    acks := fun q R hR => by
      rcases getElem?_set_cases hP hR with ⟨hR, -⟩ | ⟨rfl, rfl⟩
      · exact hT.acks q R hR
      · exact hacks.trans (hT.acks q P hP)
    calls := fun q R hR => by
      rcases getElem?_set_cases hP hR with ⟨hR, -⟩ | ⟨rfl, rfl⟩
      · exact hT.calls q R hR
      · rw [hnode]
        exact hT.calls q P hP
    responses := fun q R hR => by
      rcases getElem?_set_cases hP hR with ⟨hR, -⟩ | ⟨rfl, rfl⟩
      · exact hT.responses q R hR
      · exact hresp.trans (hT.responses q P hP)
    ended := fun q R hR => by
      rcases getElem?_set_cases hP hR with ⟨hR, -⟩ | ⟨rfl, rfl⟩
      · exact hT.ended q R hR
      · exact hend }

theorem matched_cancelPropose (hS : Sim C s A) (hT : Tally C s) (hP : s.proposals[p]? = some P)
    (hend : P.ended = none) :
    Matched C A
      (s.setProposal p { P with ended := some (.canceled, (s.node P.node).commitIndex) }) := by
  refine ⟨A, .refl, hS.setProposal hP ⟨rfl, rfl, rfl, rfl, rfl, rfl⟩,
    hT.setProposal hP rfl rfl rfl ?_⟩
  have := hT.ended p P hP
  simp only [Proposal.EndOK, hend] at this ⊢
  exact this.1

/-! ## `AppendEntries` -/

variable {c : ℕ} {call : AppendCall}

/-- A call that makes no difference to the counters goes on. -/
theorem matched_setAppendCall (hS : Sim C s A) (hT : Tally C s)
    (hc : s.appendCalls[c]? = some call) {call' : AppendCall} (hok : call'.OK C A s.proposals)
    (hp : call'.proposal = call.proposal) (hpeer : call'.peer = call.peer)
    (hrec : call'.received = call.received)
    (hreq : ∀ req, call.request = some req → call'.request = some req) :
    Matched C A (s.setAppendCall c call') :=
  ⟨A, .refl, hS.setAppendCall hc hok hpeer hreq, hT.setAppendCall hc hp hpeer hrec⟩

theorem matched_readPrevLogIndex (hS : Sim C s A) (hT : Tally C s)
    (hc : s.appendCalls[c]? = some call) (hnone : call.prevLogIndex = none) :
    Matched C A
      (s.setAppendCall c
        { call with prevLogIndex := some (s.node call.caller).lastLogIndex }) := by
  have hok := hS.calls call (List.mem_of_getElem? hc)
  refine matched_setAppendCall hS hT hc { hok with proposal := ?_, request := ?_ } rfl rfl rfl
    fun _ hr => hr
  · intro p hp
    obtain ⟨P, -, -, -, -, hi, -⟩ := hok.proposal p hp
    rw [hnone] at hi
    cases hi
  · intro req hreq
    obtain ⟨-, -, -, hi, -⟩ := hok.request req hreq
    rw [hnone] at hi
    cases hi

theorem matched_readPrevLogTerm (hS : Sim C s A) (hT : Tally C s)
    (hc : s.appendCalls[c]? = some call) (hnone : call.prevLogTerm = none) :
    Matched C A
      (s.setAppendCall c { call with prevLogTerm := some (s.node call.caller).lastLogTerm }) := by
  have hok := hS.calls call (List.mem_of_getElem? hc)
  refine matched_setAppendCall hS hT hc { hok with proposal := ?_, request := ?_ } rfl rfl rfl
    fun _ hr => hr
  · intro p hp
    obtain ⟨P, -, -, -, -, -, ht⟩ := hok.proposal p hp
    rw [hnone] at ht
    cases ht
  · intro req hreq
    obtain ⟨-, -, -, -, ht⟩ := hok.request req hreq
    rw [hnone] at ht
    cases ht

theorem matched_sendAppendEntries (hS : Sim C s A) (hT : Tally C s)
    (hc : s.appendCalls[c]? = some call) {i t : ℕ} (hi : call.prevLogIndex = some i)
    (ht : call.prevLogTerm = some t) (hreq : call.request = none) :
    Matched C A
      (s.setAppendCall c { call with
        request := some
          ⟨call.term, call.caller, i, t, call.entries, (s.node call.caller).commitIndex⟩ }) := by
  have hok := hS.calls call (List.mem_of_getElem? hc)
  have hno : ∀ {a}, ¬ ∃ req, call.request = some req ∧ Answer.OK A call.peer req a := by
    rintro a ⟨req, hr, -⟩
    rw [hreq] at hr
    cases hr
  refine matched_setAppendCall hS hT hc
    { hok with request := ?_, replies := ?_, received := ?_ } rfl rfl rfl ?_
  · intro req hr
    simp only [Option.some.injEq] at hr
    subst hr
    exact ⟨rfl, rfl, rfl, hi, ht⟩
  · exact fun a ha => absurd (hok.replies a ha) hno
  · exact fun a ha => absurd (hok.received a ha) hno
  · intro req hr
    rw [hreq] at hr
    cases hr

/-- What a follower is sent comes from a leader of its term. -/
theorem Sim.genuine (hS : Sim C s A) (hcall : call ∈ s.appendCalls) {req : AppendEntriesRequest}
    (hreq : call.request = some req) : Genuine A req := by
  have hok := hS.calls call hcall
  obtain ⟨h1, h2, h3, h4, h5⟩ := hok.request req hreq
  rcases hp : call.proposal with _ | p
  · obtain ⟨l, hl⟩ := hok.led
    exact ⟨l, by rw [h1, h2]; exact hl, .inl (by rw [h3]; exact hok.heartbeat hp)⟩
  · obtain ⟨P, hP, p1, p2, p3, p4, p5⟩ := hok.proposal p hp
    obtain ⟨l, e1, e2, e3, e4⟩ := (hS.proposals P (List.mem_of_getElem? hP)).entry
    rw [p4, Option.some.injEq] at h4
    rw [p5, Option.some.injEq] at h5
    refine ⟨l, ?_, .inr ⟨P.entry, ?_, ?_, ?_, ?_⟩⟩
    · rw [h1, h2, p1, p2]
      exact e1
    · rw [h3, p3]
    · rw [← h4]
      exact e2
    · rw [h1, h2, p1, p2, ← h4]
      exact e3
    · rw [h1, h2, p1, p2, ← h4, ← h5]
      exact e4

/-- No handler panics. -/
theorem Sim.handleAppendEntries_ne_none (hS : Sim C s A) (hid : id ∈ C.ids) (c : ℕ)
    (req : AppendEntriesRequest) : (s.replicas id).handleAppendEntries c req ≠ none := by
  obtain ⟨⟨n, es, resp⟩, hr⟩ := Node.handleAppendEntries_isSome (hS.applied _ hid) req
  have hr' : (s.replicas id).node.handleAppendEntries req = some (n, es, resp) := hr
  simp [Replica.handleAppendEntries, hr']

theorem matched_handleAppendEntries (hA : GroupInv C A) (hS : Sim C s A) (hT : Tally C s)
    (hc : s.appendCalls[c]? = some call) (hid : call.peer ∈ C.ids) {req : AppendEntriesRequest}
    (hreq : call.request = some req) {r : Replica}
    (h : (s.replicas call.peer).handleAppendEntries c req = some r) :
    Matched C A (s.setReplica call.peer r) := by
  have hmem := List.mem_of_getElem? hc
  have hok := hS.calls call hmem
  obtain ⟨-, h2, -⟩ := hok.request req hreq
  have hne : req.leaderID ≠ call.peer := by
    rw [h2]
    exact (C.mem_of_peer hok.caller_mem hok.peer_mem).2.symm
  obtain ⟨n, es, resp, hr, rfl⟩ := Replica.handleAppendEntries_eq h
  change (s.node call.peer).handleAppendEntries req = _ at hr
  obtain ⟨B, hB, hF, hled, hst⟩ :=
    hS.follows.handleAppendEntries hA hid (hS.genuine hmem hreq) hne hr
  have hx := (steps_inv hA hB).2
  refine ⟨B, hB, hS.setReplica hA hid hB hled hF (Node.moves_handleAppendEntries hr) ?_ ?_,
    hT.setReplica _ _⟩
  · have hap := hS.applied _ hid
    change n.commitIndex ≤ n.lastApplied
    rcases Node.handleAppendEntries_cases hr with
      ⟨-, rfl, -⟩ | ⟨-, -, -, rfl, -⟩ | ⟨-, -, -, rfl, -⟩
    · exact hap
    · simpa using hap
    · exact le_max_right _ _
  · intro b hb a ha
    rcases List.mem_append.1 hb with hb | hb
    · exact (hS.answers _ hid b hb a ha).mono hx
    · rw [List.mem_singleton.1 hb] at ha
      simp only [Option.some.injEq] at ha
      subst ha
      exact ⟨call, req, hc, rfl, hreq, ⟨es, hr⟩, hst⟩

/-- The tally with the outcome of call `c` taken. -/
theorem Tally.receiveAck (hT : Tally C s) (hc : s.appendCalls[c]? = some call)
    (hp : call.proposal = some p) (hrec : call.received = none) (hP : s.proposals[p]? = some P)
    {outcome : Outcome} {P' : Proposal}
    (hnode : P'.node = P.node) (hacks : P'.acks = P.acks +
      if AppendCall.counted p { call with received := some outcome } then 1 else 0)
    (hresp : P'.responses = P.responses + 1)
    (hend : P'.EndOK (C.node P'.node).quorum (C.node P'.node).peers
      (s.appendCalls.set c { call with received := some outcome }) p) :
    Tally C ((s.setAppendCall c { call with received := some outcome }).setProposal p P') := by
  have hmono := received_set hc (y := { call with received := some outcome }) rfl
    fun a ha => by rw [hrec] at ha; cases ha
  have hcount : ∀ q, (s.appendCalls.set c { call with received := some outcome }).countP
      (AppendCall.counted q) = s.appendCalls.countP (AppendCall.counted q)
        + if AppendCall.counted q { call with received := some outcome } then 1 else 0 :=
    fun q => countP_set_of_false hc (by simp [AppendCall.counted, hrec])
  exact
    { hT with
      append_keys := by
        simp only [System.setProposal, System.setAppendCall]
        rw [map_set_of_eq hc (by simp)]
        exact hT.append_keys
      acks := fun q R hR => by
        simp only [System.setProposal, System.setAppendCall] at hR ⊢
        rw [hcount]
        rcases getElem?_set_cases hP hR with ⟨hR, hq⟩ | ⟨rfl, rfl⟩
        · rw [hT.acks q R hR]
          simp [AppendCall.counted, hp, Ne.symm hq]
        · rw [hacks, hT.acks q P hP, Nat.add_assoc]
      calls := fun q R hR => by
        simp only [System.setProposal, System.setAppendCall] at hR ⊢
        rw [countP_set_of_eq hc (by simp)]
        rcases getElem?_set_cases hP hR with ⟨hR, -⟩ | ⟨rfl, rfl⟩
        · exact hT.calls q R hR
        · rw [hnode]
          exact hT.calls q P hP
      responses := fun q R hR => by
        simp only [System.setProposal, System.setAppendCall] at hR ⊢
        rw [countP_set_of_false hc (by simp [AppendCall.taken, hrec])]
        rcases getElem?_set_cases hP hR with ⟨hR, hq⟩ | ⟨rfl, rfl⟩
        · rw [hT.responses q R hR]
          simp [AppendCall.taken, hp, Ne.symm hq]
        · rw [hresp, hT.responses q P hP]
          simp [AppendCall.taken, hp]
      ended := fun q R hR => by
        simp only [System.setProposal, System.setAppendCall] at hR ⊢
        rcases getElem?_set_cases hP hR with ⟨hR, -⟩ | ⟨rfl, rfl⟩
        · exact (hT.ended q R hR).mono hmono
        · exact hend }

/-- A follower that answered `Success` to a call of `Propose` has stored the entry. -/
theorem Sim.stored (hS : Sim C s A) (hcall : call ∈ s.appendCalls) (hp : call.proposal = some p)
    (hP : s.proposals[p]? = some P) {req : AppendEntriesRequest} (hreq : call.request = some req)
    {a : Answer} (ha : a.OK A call.peer req) (hsucc : a.resp.success = true) :
    A.stored call.peer P.entry.term P.newIndex ∧ a.left.log[P.prevIndex]? = some P.entry := by
  have hok := hS.calls call hcall
  obtain ⟨h1, -, h3, h4, -⟩ := hok.request req hreq
  obtain ⟨P', hP', p1, p2, p3, p4, p5⟩ := hok.proposal p hp
  rw [hP, Option.some.injEq] at hP'
  subst hP'
  rw [p4, Option.some.injEq] at h4
  obtain ⟨hst, hget⟩ := ha.2 hsucc P.entry (by rw [h3, p3])
  rw [h1, p2, ← h4, ← (hS.proposals P (List.mem_of_getElem? hP)).newIndex_eq] at hst
  rw [← h4] at hget
  exact ⟨hst, hget⟩

/-- The peers whose acknowledgement a proposal has counted have stored the entry. -/
theorem Sim.counted_stored (hS : Sim C s A) (hcall : call ∈ s.appendCalls)
    (hcnt : call.counted p = true) (hP : s.proposals[p]? = some P) :
    call.peer ∈ (C.config P.node).peers ∧ A.stored call.peer P.entry.term P.newIndex
      ∧ ∃ a, call.received = some (.reply a) ∧ a.resp.success = true
        ∧ a.left.log[P.prevIndex]? = some P.entry := by
  have hok := hS.calls call hcall
  simp only [AppendCall.counted, Bool.and_eq_true, decide_eq_true_eq] at hcnt
  obtain ⟨hp, hsucc⟩ := hcnt
  split at hsucc
  swap
  · cases hsucc
  rename_i a ha
  obtain ⟨req, hreq, hans⟩ := hok.received a ha
  obtain ⟨P', hP', p1, -⟩ := hok.proposal p hp
  rw [hP, Option.some.injEq] at hP'
  subst hP'
  obtain ⟨hst, hget⟩ := hS.stored hcall hp hP hreq hans hsucc
  exact ⟨p1 ▸ hok.peer_mem, hst, a, ha, hsucc, hget⟩

/-- Distinct peers that have stored the entry are, with its proposer, a quorum that has. -/
theorem Sim.quorumStored (hS : Sim C s A) (hP : P ∈ s.proposals) {F : Finset String}
    (hF : ∀ q ∈ F, q ∈ (C.config P.node).peers ∧ A.stored q P.entry.term P.newIndex)
    (hcard : (C.node P.node).quorum ≤ F.card + 1) :
    QuorumStored C.quorums A P.entry.term P.newIndex := by
  have hok := hS.proposals P hP
  refine ⟨_, C.isQuorum hok.node_mem (fun q hq => (hF q hq).1) hcard, ?_⟩
  rintro v (rfl | hv)
  · exact hok.stored
  · exact (hF v hv).2

/-- A tally of a quorum, with the acknowledgement just taken. -/
theorem Sim.acknowledged (hS : Sim C s A) (hT : Tally C s) (hc : s.appendCalls[c]? = some call)
    (hp : call.proposal = some p) (hrec : call.received = none) (hP : s.proposals[p]? = some P)
    (hq : (C.node P.node).quorum ≤ P.acks + 1)
    (hst : A.stored call.peer P.entry.term P.newIndex) :
    QuorumStored C.quorums A P.entry.term P.newIndex := by
  have hmem := List.mem_of_getElem? hc
  obtain ⟨F, hcard, hF⟩ := hT.ackers p
  have hnew : call.peer ∉ F := by
    intro hin
    obtain ⟨call', hc', hcnt, hpeer⟩ := (hF _).1 hin
    obtain ⟨i, hi⟩ := List.mem_iff_getElem?.1 hc'
    have hne : i ≠ c := by
      rintro rfl
      rw [hc, Option.some.injEq] at hi
      rw [← hi] at hcnt
      simp [AppendCall.counted, hrec] at hcnt
    simp only [AppendCall.counted, Bool.and_eq_true, decide_eq_true_eq] at hcnt
    have hkeys := hT.append_keys
    rw [List.pairwise_iff_getElem] at hkeys
    obtain ⟨hil, hiv⟩ := List.getElem?_eq_some_iff.1 hi
    obtain ⟨hcl, hcv⟩ := List.getElem?_eq_some_iff.1 hc
    rcases Nat.lt_or_gt_of_ne hne with hlt | hlt
    · refine hkeys i c (by simpa using hil) (by simpa using hcl) hlt ?_ ?_
      · simp [hiv, hcnt.1]
      · simp [hiv, hcv, hcnt.1, hp, hpeer]
    · refine hkeys c i (by simpa using hcl) (by simpa using hil) hlt ?_ ?_
      · simp [hcv, hp]
      · simp [hiv, hcv, hcnt.1, hp, hpeer]
  have hok := hS.calls call hmem
  obtain ⟨P', hP', p1, -⟩ := hok.proposal p hp
  rw [hP, Option.some.injEq] at hP'
  subst hP'
  refine hS.quorumStored (F := insert call.peer F) (List.mem_of_getElem? hP) ?_ ?_
  · intro q hq
    rcases Finset.mem_insert.1 hq with rfl | hq
    · exact ⟨p1 ▸ hok.peer_mem, hst⟩
    · obtain ⟨call', hc', hcnt, rfl⟩ := (hF q).1 hq
      obtain ⟨h1, h2, -⟩ := hS.counted_stored hc' hcnt hP
      exact ⟨h1, h2⟩
  · rw [Finset.card_insert_of_notMem hnew, hcard]
    have := hT.acks p P hP
    omega

/-- The node that proposed an entry a quorum has stored still has it. -/
theorem Sim.newIndex_le (hA : GroupInv C A) (hS : Sim C s A) (hP : P ∈ s.proposals)
    (hq : QuorumStored C.quorums A P.entry.term P.newIndex) :
    (A.lead P.node P.entry.term).take P.newIndex <+: (s.node P.node).log
      ∧ P.newIndex ≤ (s.node P.node).log.length := by
  have hok := hS.proposals P hP
  obtain ⟨l, hl, -⟩ := hok.entry
  have hret := stored_retained hA hq hl hok.stored
  rw [(hS.follows.tracks _ hok.node_mem).log_eq] at hret
  refine ⟨hret, ?_⟩
  have := hret.length_le
  rw [List.length_take, min_eq_left hok.newIndex_le] at this
  exact this

theorem OutcomeTaken.ok {o : Outcome} (h : OutcomeTaken C s c call o) (hS : Sim C s A) {a : Answer}
    (ha : o = .reply a) : ∃ req, call.request = some req ∧ a.OK A call.peer req :=
  (hS.calls call (List.mem_of_getElem? h.call_eq)).replies a (h.reply_mem a ha)

theorem OutcomeTaken.sim {o : Outcome} (h : OutcomeTaken C s c call o) (hS : Sim C s A) :
    Sim C (s.setAppendCall c { call with received := some o }) A := by
  have hok := hS.calls call (List.mem_of_getElem? h.call_eq)
  refine hS.setAppendCall h.call_eq { hok with received := fun a ha => ?_ } rfl fun _ hr => hr
  simp only [Option.some.injEq] at ha
  exact h.ok hS ha

/-- A follower of a higher term refuses. -/
theorem Answer.OK.refused {peer : String} {req : AppendEntriesRequest} {a : Answer}
    (h : a.OK A peer req) (ht : req.term < a.resp.term) : a.resp.success = false := by
  obtain ⟨⟨es, hr⟩, -⟩ := h
  rcases Node.handleAppendEntries_cases hr with
    ⟨-, -, -, hresp⟩ | ⟨-, -, -, -, -, hresp⟩ | ⟨-, -, -, -, hresp⟩ <;> rw [hresp] at ht ⊢
  exact absurd ht (lt_irrefl _)

variable {o : Outcome}

theorem AckTaken.counted (h : AckTaken C s c call p P o) :
    AppendCall.counted p { call with received := some o }
      = (o.response P.entry.term).success := by
  cases o <;> simp [AppendCall.counted, h.proposal_eq, Outcome.response]

theorem matched_ackDeposes (hA : GroupInv C A) (hS : Sim C s A) (hT : Tally C s)
    (h : AckTaken C s c call p P o) (hterm : P.entry.term < (o.response P.entry.term).term) :
    Matched C A
      (((s.setAppendCall c { call with received := some o }).setNode P.node
        ((s.node P.node).observeTerm (o.response P.entry.term).term)).setProposal p
          { P with
            responses := P.responses + 1
            ended := some (.notLeader, (s.node P.node).commitIndex) }) := by
  have hok := hS.calls call (List.mem_of_getElem? h.call_eq)
  have hnode := (hS.proposals P (List.mem_of_getElem? h.proposals_eq)).node_mem
  have hS₁ := h.sim hS
  have hcnt := h.counted
  obtain ⟨a, rfl, hlt⟩ := Outcome.reply_of_term_lt hterm
  obtain ⟨req, hreq, hans⟩ := h.ok hS rfl
  obtain ⟨P', hP', -, p2, -⟩ := hok.proposal p h.proposal_eq
  rw [h.proposals_eq, Option.some.injEq] at hP'
  subst hP'
  have hno : a.resp.success = false :=
    hans.refused (by rw [(hok.request req hreq).1, p2]; exact hlt)
  obtain ⟨B, hB, hF, hled⟩ := hS₁.follows.adopt hA hnode a.resp.term "" (.inl rfl)
  refine ⟨B, hB, ?_, ?_⟩
  · exact (hS₁.setNode hA hnode hB hled hF (Node.moves_adopt _ _ _) Node.adopt_commitIndex
      Node.adopt_lastApplied).setProposal h.proposals_eq ⟨rfl, rfl, rfl, rfl, rfl, rfl⟩
  · refine (hT.setReplica P.node _).receiveAck h.call_eq h.proposal_eq h.received_eq
      h.proposals_eq rfl ?_ rfl ?_
    · rw [hcnt, Outcome.response, hno]
      rfl
    · exact ⟨_, List.mem_of_getElem? (List.getElem?_set_self
        (List.getElem?_eq_some_iff.1 h.call_eq).1), h.proposal_eq, a, rfl, hlt⟩

/-- With the acknowledgement a quorum has stored the entry, so its proposer has it in its log. -/
theorem AckTaken.newIndex_le (hA : GroupInv C A) (hS : Sim C s A) (hT : Tally C s)
    (h : AckTaken C s c call p P o) (hsucc : (o.response P.entry.term).success = true)
    (hq : (s.node P.node).quorum ≤ P.acks + 1) : P.newIndex ≤ (s.node P.node).log.length := by
  have hmem := List.mem_of_getElem? h.call_eq
  have hPm := List.mem_of_getElem? h.proposals_eq
  rw [hS.quorum_eq (hS.proposals P hPm).node_mem] at hq
  obtain ⟨a, rfl, hsucc⟩ := Outcome.reply_of_success hsucc
  obtain ⟨req, hreq, hans⟩ := h.ok hS rfl
  have hst := (hS.stored hmem h.proposal_eq h.proposals_eq hreq hans hsucc).1
  exact (hS.newIndex_le hA hPm
    (hS.acknowledged hT h.call_eq h.proposal_eq h.received_eq h.proposals_eq hq hst)).2

/-- No proposer panics. -/
theorem AckTaken.commitProposal_ne_none (hA : GroupInv C A) (hS : Sim C s A) (hT : Tally C s)
    (h : AckTaken C s c call p P o) (hsucc : (o.response P.entry.term).success = true)
    (hq : (s.node P.node).quorum ≤ P.acks + 1) :
    (s.replicas P.node).commitProposal P.newIndex ≠ none := by
  obtain ⟨⟨n, es⟩, hn⟩ := Node.commitProposal_isSome (h.newIndex_le hA hS hT hsucc hq)
  have hn' : (s.replicas P.node).node.commitProposal P.newIndex = some (n, es) := hn
  simp [Replica.commitProposal, hn']

theorem matched_ackCommits (hA : GroupInv C A) (hS : Sim C s A) (hT : Tally C s)
    (h : AckTaken C s c call p P o) (hsucc : (o.response P.entry.term).success = true)
    (hq : (s.node P.node).quorum ≤ P.acks + 1) {r : Replica}
    (hr : (s.replicas P.node).commitProposal P.newIndex = some r) :
    Matched C A
      (((s.setAppendCall c { call with received := some o }).setReplica P.node r).setProposal p
        { P with
          acks := P.acks + 1, responses := P.responses + 1
          ended := some (.ok, r.node.commitIndex) }) := by
  have hnode := (hS.proposals P (List.mem_of_getElem? h.proposals_eq)).node_mem
  have hS₁ := h.sim hS
  obtain ⟨n, es, hn, rfl⟩ := Replica.commitProposal_eq hr
  change (s.node P.node).commitProposal P.newIndex = _ at hn
  have hap := hS.applied _ hnode
  have hF : Follows C (Function.update s.node P.node n) A := by
    rcases Node.commitProposal_cases hn with ⟨-, rfl, -⟩ | ⟨-, -, rfl⟩
    · rw [Function.update_eq_self]
      exact hS.follows
    · exact hS.follows.commit hnode _ _
  have hbound : P.newIndex ≤ n.commitIndex ∧ n.commitIndex ≤ n.lastApplied := by
    rcases Node.commitProposal_cases hn with ⟨hle, rfl, -⟩ | ⟨-, -, rfl⟩
    · exact ⟨hle, hap⟩
    · exact ⟨le_rfl, le_max_right _ _⟩
  refine ⟨A, .refl, ?_, ?_⟩
  · refine (hS₁.setReplica (r := (s.replicas P.node).collect n es none) hA hnode .refl rfl hF
      (Node.moves_commitProposal hn) hbound.2 ?_).setProposal h.proposals_eq
        ⟨rfl, rfl, rfl, rfl, rfl, rfl⟩
    intro b hb a' ha'
    rcases List.mem_append.1 hb with hb | hb
    · exact hS₁.answers _ hnode b hb a' ha'
    · rw [List.mem_singleton.1 hb] at ha'
      cases ha'
  · rw [hS.quorum_eq hnode] at hq
    refine (hT.setReplica P.node _).receiveAck h.call_eq h.proposal_eq h.received_eq
      h.proposals_eq rfl ?_ rfl ⟨hbound.1, hq⟩
    rw [h.counted, hsucc]
    rfl

theorem matched_ackCounts (hS : Sim C s A) (hT : Tally C s) (h : AckTaken C s c call p P o)
    (hq : (o.response P.entry.term).success = true → P.acks + 1 < (s.node P.node).quorum) :
    Matched C A
      ((s.setAppendCall c { call with received := some o }).setProposal p
        { P with
          acks := P.acks + if (o.response P.entry.term).success then 1 else 0
          responses := P.responses + 1
          ended := if P.responses + 1 < (s.node P.node).peers.length then none
            else some (.replicationFailed, (s.node P.node).commitIndex) }) := by
  have hnode := (hS.proposals P (List.mem_of_getElem? h.proposals_eq)).node_mem
  have hlt := hT.ended p P h.proposals_eq
  simp only [Proposal.EndOK, h.ended_eq] at hlt
  rw [hS.quorum_eq hnode] at hq
  refine ⟨A, .refl, (h.sim hS).setProposal h.proposals_eq ⟨rfl, rfl, rfl, rfl, rfl, rfl⟩,
    hT.receiveAck h.call_eq h.proposal_eq h.received_eq h.proposals_eq rfl (by rw [h.counted])
      rfl ?_⟩
  have hacks : P.acks + (if (o.response P.entry.term).success = true then 1 else 0)
      < (C.node P.node).quorum := by
    split_ifs with hs
    · exact hq hs
    · exact hlt.1
  rw [hS.peers_eq hnode]
  by_cases hlen : P.responses + 1 < (C.node P.node).peers.length
  · simp only [Proposal.EndOK, if_pos hlen]
    exact ⟨hacks, hlen⟩
  · simp only [Proposal.EndOK, if_neg hlen]
    exact ⟨by omega, .inl hacks⟩

theorem matched_heartbeatReturns (hS : Sim C s A) (hT : Tally C s)
    (h : OutcomeTaken C s c call o) (hp : call.proposal = none) :
    Matched C A (s.setAppendCall c { call with received := some o }) :=
  ⟨A, .refl, h.sim hS, hT.receiveHeartbeat h.call_eq hp rfl rfl h.received_eq⟩

theorem matched_heartbeatDeposes (hA : GroupInv C A) (hS : Sim C s A) (hT : Tally C s)
    (h : OutcomeTaken C s c call o) (hp : call.proposal = none) (term : ℕ) :
    Matched C A
      ((s.setAppendCall c { call with received := some o }).setNode call.caller
        ((s.node call.caller).observeTerm term)) := by
  obtain ⟨B, hB, hF, hled⟩ := (h.sim hS).follows.adopt hA h.caller_mem term "" (.inl rfl)
  exact ⟨B, hB, (h.sim hS).setNode hA h.caller_mem hB hled hF (Node.moves_adopt _ _ _)
      Node.adopt_commitIndex Node.adopt_lastApplied,
    (hT.receiveHeartbeat h.call_eq hp (y := { call with received := some o }) rfl rfl
      h.received_eq).setReplica _ _⟩

/-! ## Applying -/

/-- Only the batches of a node change. -/
theorem Sim.setBatches (hA : GroupInv C A) (hS : Sim C s A) (hid : id ∈ C.ids) {r : Replica}
    (hn : r.node = s.node id)
    (hb : ∀ b ∈ r.batches, ∀ a, b.answer = some a → ∃ b' ∈ (s.replicas id).batches,
      b'.answer = some a) : Sim C (s.setReplica id r) A := by
  refine hS.setReplica hA hid .refl rfl ?_ ?_ ?_ ?_
  · rw [hn, Function.update_eq_self]
    exact hS.follows
  · rw [hn]
    exact .refl _
  · rw [hn]
    exact hS.applied id hid
  · intro b hbr a ha
    obtain ⟨b', hb', ha'⟩ := hb b hbr a ha
    exact hS.answers id hid b' hb' a ha'

theorem matched_apply (hA : GroupInv C A) (hS : Sim C s A) (hT : Tally C s) (hid : id ∈ C.ids)
    {b : ℕ} {r : Replica} (hr : (s.replicas id).apply b = some r) :
    Matched C A (s.setReplica id r) := by
  obtain ⟨e, todo, answer, hb, rfl⟩ := Replica.apply_eq hr
  refine ⟨A, .refl, hS.setBatches hA hid rfl fun x hx a ha => ?_, hT.setReplica id _⟩
  rcases List.mem_or_eq_of_mem_set hx with hx | rfl
  · exact ⟨x, hx, ha⟩
  · exact ⟨_, List.mem_of_getElem? hb, ha⟩

theorem Sim.finish (hA : GroupInv C A) (hS : Sim C s A) (hid : id ∈ C.ids) {b : ℕ} {r : Replica}
    {answer : Option Answer} (hr : (s.replicas id).finish b = some (r, answer)) :
    Sim C (s.setReplica id r) A := by
  obtain ⟨-, rfl⟩ := Replica.finish_eq hr
  exact hS.setBatches hA hid rfl fun x hx a ha => ⟨x, List.mem_of_mem_eraseIdx hx, ha⟩

theorem matched_answer (hA : GroupInv C A) (hS : Sim C s A) (hT : Tally C s) (hid : id ∈ C.ids)
    {b : ℕ} {r : Replica} {a : Answer} (hr : (s.replicas id).finish b = some (r, some a))
    (hc : s.appendCalls[a.call]? = some call) :
    Matched C A
      ((s.setReplica id r).setAppendCall a.call
        { call with replies := call.replies ++ [a] }) := by
  obtain ⟨call', req, h1, rfl, h3, h4⟩ :=
    hS.answers id hid _ (List.mem_of_getElem? (Replica.finish_eq hr).1) a rfl
  rw [hc, Option.some.injEq] at h1
  subst h1
  have hok := hS.calls call (List.mem_of_getElem? hc)
  refine matched_setAppendCall (hS.finish hA hid hr) (hT.setReplica _ r) hc
    { hok with replies := fun x hx => ?_ } rfl rfl rfl fun _ hr => hr
  rcases List.mem_append.1 hx with hx | hx
  · exact hok.replies x hx
  · rw [List.mem_singleton.1 hx]
    exact ⟨req, h3, h4⟩

end

end EdgeSim.Raft
