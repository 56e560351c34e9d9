import EdgeSim.Raft.Campaign

/-!
# Commands that can be committed

Where a quorum of nodes has the same log, a command can still be committed, whatever has happened
so far: one of the nodes is elected by the others, appends the command, and they acknowledge it.
Without such a quorum there need not be a way on, as a leader has no means to bring a peer that is
behind up to date.
-/

namespace EdgeSim.Raft

section

variable {C : Cluster} {s t : System} {A : TermLog.Group String LogEntry} {id q : String}
  {c p : ℕ} {P : Proposal} {todo : List String}

/-! ## One acknowledgement -/

theorem setReplica_setReplica (r r' : Replica) :
    (s.setReplica q r).setReplica q r' = s.setReplica q r' := by
  simp only [System.setReplica, Function.update_idem]

theorem replicas_setReplica_self (r : Replica) : (s.setReplica q r).replicas q = r :=
  Function.update_self ..

/-- The entries of a batch are applied. -/
theorem reaches_applied (hq : q ∈ C.ids) (halive : s.panicked = []) {b : ℕ}
    {es : List (ℕ × LogEntry)} {answer : Option Answer}
    (hb : (s.replicas q).batches[b]? = some ⟨es, answer⟩) :
    ∃ r, C.Reaches s (s.setReplica q r) ∧ r.batches[b]? = some ⟨[], answer⟩ := by
  induction es generalizing s with
  | nil =>
    refine ⟨s.replicas q, ?_, hb⟩
    rw [System.setReplica, Function.update_eq_self]
    exact .refl C s
  | cons e es ih =>
    set r : Replica := { s.replicas q with
      batches := (s.replicas q).batches.set b ⟨es, answer⟩
      applied := (s.replicas q).applied ++ [e] } with hr
    have hstep : s.step C (.apply q b) = some (s.setReplica q r) := by
      refine (at?_eq hq halive _).trans ?_
      rw [System.apply, Replica.apply, hb]
      rfl
    have hlt := (List.getElem?_eq_some_iff.1 hb).1
    obtain ⟨r', hr', hdone⟩ := ih (s := s.setReplica q r) halive (by
      rw [replicas_setReplica_self]
      exact List.getElem?_set_self hlt)
    rw [setReplica_setReplica] at hr'
    exact ⟨r', (reaches_step hstep).trans hr', hdone⟩

theorem step_handleAppendEntries {call : AppendCall} {req : AppendEntriesRequest} {n : Node}
    {es : List (ℕ × LogEntry)} {resp : AppendEntriesResponse}
    (hc : s.appendCalls[c]? = some call) (hq : call.peer ∈ C.ids) (halive : s.panicked = [])
    (hreq : call.request = some req)
    (hn : (s.node call.peer).handleAppendEntries req = some (n, es, resp)) :
    s.step C (.handleAppendEntries c) = some (s.setReplica call.peer
      ((s.replicas call.peer).collect n es (some ⟨c, resp, s.node call.peer, n⟩))) := by
  refine (bind_at?_eq hc hq halive).trans ?_
  have hr : (s.replicas call.peer).handleAppendEntries c req
      = some ((s.replicas call.peer).collect n es (some ⟨c, resp, s.node call.peer, n⟩)) := by
    rw [Replica.handleAppendEntries, show (s.replicas call.peer).node.handleAppendEntries req = _
      from hn]
    rfl
  rw [System.handleAppendEntries, hreq]
  dsimp only
  rw [hr]

theorem step_finish {call : AppendCall} {a : Answer} {b : ℕ} (hq : q ∈ C.ids)
    (halive : s.panicked = []) (hb : (s.replicas q).batches[b]? = some ⟨[], some a⟩)
    (hc : s.appendCalls[a.call]? = some call) :
    s.step C (.finish q b) = some ((s.setReplica q
        { s.replicas q with batches := (s.replicas q).batches.eraseIdx b }).setAppendCall a.call
      { call with replies := call.replies ++ [a] }) := by
  refine (at?_eq hq halive _).trans ?_
  rw [System.finish, Replica.finish, hb]
  dsimp only
  rw [hc]

/-- The request of a call is handled and its answer goes out. -/
theorem Reached.answer (hR : Reached C s A) {call : AppendCall} {req : AppendEntriesRequest}
    (hc : s.appendCalls[c]? = some call) (hq : call.peer ∈ C.ids) (hreq : call.request = some req)
    (hterm : (s.node call.peer).currentTerm ≤ req.term)
    (hmatch : (s.node call.peer).matchPrevLog req.prevLogIndex req.prevLogTerm = true) :
    ∃ (r : Replica) (a : Answer), a.resp = ⟨req.term, true⟩
      ∧ C.Reaches s ((s.setReplica call.peer r).setAppendCall c
        { call with replies := call.replies ++ [a] }) := by
  obtain ⟨⟨n, es, resp⟩, hn⟩ := Node.handleAppendEntries_isSome (hR.sim.applied _ hq) req
  have hhandle := step_handleAppendEntries hc hq hR.sim.alive hreq hn
  obtain ⟨r, hr, hb⟩ := reaches_applied (C := C) (q := call.peer)
    (s := s.setReplica call.peer ((s.replicas call.peer).collect n es
      (some ⟨c, resp, s.node call.peer, n⟩))) (b := (s.replicas call.peer).batches.length)
    hq hR.sim.alive (by rw [replicas_setReplica_self]; exact List.getElem?_concat_length)
  rw [setReplica_setReplica] at hr
  have hfinish := step_finish (C := C) (s := s.setReplica call.peer r)
    (a := ⟨c, resp, s.node call.peer, n⟩) hq hR.sim.alive
    (by rw [replicas_setReplica_self]; exact hb) hc
  rw [setReplica_setReplica] at hfinish
  exact ⟨_, _, Node.handleAppendEntries_success hn hterm hmatch,
    ((reaches_step hhandle).trans hr).trans (reaches_step hfinish)⟩

/-- `Propose` takes the first answer of a call. -/
theorem step_receiveAppend {call : AppendCall} {a : Answer} (hc : s.appendCalls[c]? = some call)
    (hid : call.caller ∈ C.ids) (halive : s.panicked = []) (hreq : call.request ≠ none)
    (hrec : call.received = none) (hproposal : call.proposal = some p)
    (hP : s.proposals[p]? = some P) (hended : P.ended = none) (ha : call.replies[0]? = some a) :
    s.step C (.receiveAppend c (some 0)) = some ((s.setAppendCall c
      { call with received := some (.reply a) }).takeAck p P a.resp) := by
  refine (bind_at?_eq hc hid halive).trans ?_
  rw [System.receiveAppend, if_pos ⟨hreq, hrec⟩]
  dsimp only
  rw [ha]
  dsimp only [Option.map_some]
  rw [hproposal]
  dsimp only
  rw [hP]
  dsimp only
  rw [if_pos hended]

/-! ## A quorum of them -/

/-- The call once its request has been sent. -/
def AppendCall.sent (s : System) (p : ℕ) (P : Proposal) (q : String) : AppendCall :=
  ⟨P.node, q, some p, P.entry.term, some P.prevIndex, some P.prevTerm, [P.entry],
    some ⟨P.entry.term, P.node, P.prevIndex, P.prevTerm, [P.entry], (s.node P.node).commitIndex⟩,
    [], none⟩

/-- The call waits, and of its requests those to `todo`, which can accept the entry, have not been
sent. -/
structure Replicating (C : Cluster) (s : System) (p : ℕ) (P : Proposal) (todo : List String) :
    Prop where
  proposal : s.proposals[p]? = some P
  ended : P.ended = none
  nodup : todo.Nodup
  calls : ∀ q ∈ todo, ∃ c : ℕ, s.appendCalls[c]? = some (System.AppendCall.replicate p P q)
  peers : ∀ q ∈ todo, q ∈ C.ids ∧ q ≠ P.node ∧ (s.node q).currentTerm ≤ P.entry.term
    ∧ (s.node q).matchPrevLog P.prevIndex P.prevTerm = true

theorem setAppendCall_idem (call call' : AppendCall) :
    (s.setAppendCall c call).setAppendCall c call' = s.setAppendCall c call' := by
  simp only [System.setAppendCall, List.set_set]

theorem setAppendCall_setAppendCall (r : Replica) (call call' : AppendCall) :
    ((s.setAppendCall c call).setReplica q r).setAppendCall c call'
      = (s.setReplica q r).setAppendCall c call' := by
  simp only [System.setAppendCall, System.setReplica, List.set_set]

/-- A peer acknowledges the entry. -/
theorem Replicating.exchange (h : Replicating C s p P (q :: todo)) (hR : Reached C s A) :
    ∃ (c : ℕ) (r : Replica) (call : AppendCall),
      s.appendCalls[c]? = some (System.AppendCall.replicate p P q)
      ∧ C.Reaches s (((s.setReplica q r).setAppendCall c call).takeAck p P
        ⟨P.entry.term, true⟩) := by
  obtain ⟨c, hc⟩ := h.calls q List.mem_cons_self
  obtain ⟨hq, -, hterm, hmatch⟩ := h.peers q List.mem_cons_self
  have hlt := (List.getElem?_eq_some_iff.1 hc).1
  have hnode := (hR.sim.proposals P (List.mem_of_getElem? h.proposal)).node_mem
  have hsend : s.step C (.sendAppendEntries c) = some (s.setAppendCall c (.sent s p P q)) :=
    bind_at?_eq (g := AppendCall.caller) hc hnode hR.sim.alive
  obtain ⟨B, -, hR'⟩ := hR.step hsend
  obtain ⟨r, a, hresp, hanswer⟩ := hR'.answer (List.getElem?_set_self hlt) hq rfl hterm hmatch
  rw [setAppendCall_setAppendCall] at hanswer
  have hreceive := step_receiveAppend (C := C)
    (s := (s.setReplica q r).setAppendCall c { AppendCall.sent s p P q with replies := [a] })
    (List.getElem?_set_self hlt) hnode hR.sim.alive (by simp [AppendCall.sent]) rfl rfl h.proposal
    h.ended rfl
  rw [hresp, setAppendCall_idem] at hreceive
  exact ⟨c, r, _, hc, ((reaches_step hsend).trans hanswer).trans (reaches_step hreceive)⟩

/-- One more acknowledgement, which is not enough. -/
theorem takeAck_waits (hquorum : P.acks + 1 < (s.node P.node).quorum)
    (hpeers : P.responses + 1 < (s.node P.node).peers.length) (hended : P.ended = none) :
    s.takeAck p P ⟨P.entry.term, true⟩
      = s.setProposal p { P with acks := P.acks + 1, responses := P.responses + 1 } := by
  unfold System.takeAck
  dsimp only
  rw [if_neg (lt_irrefl _), if_pos rfl, if_neg (by omega), if_pos hpeers, hended]

/-- The acknowledgement that completes a quorum. -/
theorem takeAck_commits (hquorum : P.acks + 1 ≥ (s.node P.node).quorum)
    (halive : (s.takeAck p P ⟨P.entry.term, true⟩).panicked = []) :
    ∃ r c, s.takeAck p P ⟨P.entry.term, true⟩ = (s.setReplica P.node r).setProposal p
      { P with acks := P.acks + 1, responses := P.responses + 1, ended := some (.ok, c) } := by
  unfold System.takeAck at halive ⊢
  dsimp only at halive ⊢
  rw [if_neg (lt_irrefl _), if_pos rfl, if_pos hquorum] at halive ⊢
  cases hr : (s.replicas P.node).commitProposal P.newIndex with
  | none =>
    rw [hr] at halive
    cases halive
  | some r => exact ⟨r, _, rfl⟩

theorem Replicating.rest (h : Replicating C s p P (q :: todo))
    (hc : s.appendCalls[c]? = some (System.AppendCall.replicate p P q)) (r : Replica)
    (call : AppendCall) :
    Replicating C (((s.setReplica q r).setAppendCall c call).setProposal p
      { P with acks := P.acks + 1, responses := P.responses + 1 }) p
      { P with acks := P.acks + 1, responses := P.responses + 1 } todo where
  proposal := List.getElem?_set_self (List.getElem?_eq_some_iff.1 h.proposal).1
  ended := h.ended
  nodup := (List.nodup_cons.1 h.nodup).2
  calls x hx := by
    obtain ⟨d, hd⟩ := h.calls x (List.mem_cons_of_mem q hx)
    refine ⟨d, ?_⟩
    change (s.appendCalls.set c call)[d]? = _
    rw [List.getElem?_set_ne, hd]
    · rfl
    · rintro rfl
      rw [hc, Option.some.injEq] at hd
      have hqx : q = x := congrArg AppendCall.peer hd
      exact (List.nodup_cons.1 h.nodup).1 (hqx ▸ hx)
  peers x hx := by
    have hne : x ≠ q := fun hxq => (List.nodup_cons.1 h.nodup).1 (hxq ▸ hx)
    have hnode : (((s.setReplica q r).setAppendCall c call).setProposal p
        { P with acks := P.acks + 1, responses := P.responses + 1 }).node x = s.node x := by
      change (s.setReplica q r).node x = _
      rw [System.node_setReplica, Function.update_of_ne hne]
    rw [hnode]
    exact h.peers x (List.mem_cons_of_mem q hx)

/-- Enough acknowledgements. -/
theorem Replicating.commit (h : Replicating C s p P todo) (hR : Reached C s A)
    (hacks : P.acks + todo.length = (C.node P.node).quorum)
    (hresponses : P.responses + todo.length ≤ (C.node P.node).peers.length) :
    ∃ t P' c, C.Reaches s t ∧ t.proposals[p]? = some P' ∧ P.Same P'
      ∧ P'.ended = some (.ok, c) := by
  induction todo generalizing s A P with
  | nil =>
    have hend := hR.tally.ended p P h.proposal
    rw [Proposal.EndOK, h.ended] at hend
    simp only [List.length_nil] at hacks
    omega
  | cons q todo ih =>
    rw [List.length_cons] at hacks hresponses
    obtain ⟨-, hne, -⟩ := h.peers q List.mem_cons_self
    have hmem := (hR.sim.proposals P (List.mem_of_getElem? h.proposal)).node_mem
    obtain ⟨c, r, call, hc, hreach⟩ := h.exchange hR
    have hnode : ((s.setReplica q r).setAppendCall c call).node P.node = s.node P.node := by
      change (s.setReplica q r).node P.node = _
      rw [System.node_setReplica, Function.update_of_ne hne.symm]
    have hquorum := hR.sim.quorum_eq hmem
    have hpeers := hR.sim.peers_eq hmem
    rw [← hnode] at hquorum hpeers
    by_cases hlast : P.acks + 1 = (C.node P.node).quorum
    · obtain ⟨B, hR'⟩ := hR.reaches hreach
      obtain ⟨r', i, hcommit⟩ := takeAck_commits (by omega) hR'.sim.alive
      refine ⟨_, { P with
        acks := P.acks + 1
        responses := P.responses + 1
        ended := some (.ok, i) }, i, hreach, ?_, ⟨rfl, rfl, rfl, rfl, rfl, rfl⟩, rfl⟩
      rw [hcommit]
      exact List.getElem?_set_self (List.getElem?_eq_some_iff.1 h.proposal).1
    · rw [takeAck_waits (by omega) (by rw [hpeers]; omega) h.ended] at hreach
      obtain ⟨B, hR'⟩ := hR.reaches hreach
      obtain ⟨t, P', i, ht, hP', hsame, hended⟩ := ih (h.rest hc r call) hR'
        (by simp only; omega) (by simp only; omega)
      exact ⟨t, P', i, hreach.trans ht, hP', hsame, hended⟩

/-! ## From any state -/

theorem matchPrevLog_of_log_eq {n m : Node} (h : n.log = m.log) :
    n.matchPrevLog m.lastLogIndex m.lastLogTerm = true := by
  unfold Node.matchPrevLog
  rw [h, Node.lastLogIndex, Node.lastLogTerm, Node.lastTerm]
  split_ifs with h0
  · rfl
  · rw [← List.getLast?_eq_getElem?]
    cases hlast : m.log.getLast? with
    | none => exact absurd (by rw [List.getLast?_eq_none_iff.1 hlast]; rfl) h0
    | some e => simp

theorem isLogUpToDate_of_log_eq {n m : Node} (h : n.log = m.log) :
    n.isLogUpToDate m.lastLogIndex m.lastLogTerm = true := by
  simp [Node.isLogUpToDate, Node.lastLogIndex, Node.lastLogTerm, h]

/-- The call that `Propose` makes of a command. -/
def proposalOf (n : Node) (id command : String) : Proposal where
  node := id
  entry := ⟨n.currentTerm, command⟩
  log := (n.appendCommand command).log
  prevIndex := n.lastLogIndex
  prevTerm := n.lastLogTerm
  newIndex := (n.appendCommand command).lastLogIndex
  acks := 1
  responses := 0
  ended := none

/-- A leader appends a command, and its peers can accept it. -/
theorem Reached.propose (hR : Reached C s A) (hid : id ∈ C.ids) (hC : 2 ≤ C.ids.length)
    (hleader : (s.node id).state = .leader) (hnodup : todo.Nodup)
    (htodo : ∀ q ∈ todo, q ∈ C.ids ∧ q ≠ id ∧ (s.node q).currentTerm = (s.node id).currentTerm
      ∧ (s.node q).log = (s.node id).log) (command : String) :
    ∃ t, s.step C (.propose id command) = some t
      ∧ Replicating C t s.proposals.length (proposalOf (s.node id) id command) todo := by
  have hn := hR.sim.follows.tracks id hid
  have hpeers := C.ids_length hid
  rw [← hR.sim.peers_eq hid] at hpeers
  refine ⟨_, (at?_eq hid hR.sim.alive _).trans (if_neg (not_not_intro hleader)), ?_⟩
  rw [if_pos (by omega)]
  refine
    { proposal := List.getElem?_concat_length
      ended := rfl
      nodup := hnodup
      calls := fun q hq => ?_
      peers := fun q hq => ?_ }
  · obtain ⟨hq, hne, -⟩ := htodo q hq
    have hpeer : q ∈ (s.node id).peers := by
      rw [hn.peers_eq, C.mem_peers id hid]
      exact ⟨hq, hne⟩
    obtain ⟨c, hc⟩ := List.mem_iff_getElem?.1 hpeer
    refine ⟨s.appendCalls.length + c, ?_⟩
    change (s.appendCalls ++ _)[_]? = _
    rw [List.getElem?_append_right (by omega), Nat.add_sub_cancel_left, List.getElem?_map, hc]
    rfl
  · obtain ⟨hq, hne, hterm, hlog⟩ := htodo q hq
    change q ∈ C.ids ∧ q ≠ id ∧ ((s.setNode id _).node q).currentTerm ≤ _
      ∧ ((s.setNode id _).node q).matchPrevLog _ _ = true
    rw [System.node_setNode, Function.update_of_ne hne]
    exact ⟨hq, hne, hterm.le, matchPrevLog_of_log_eq hlog⟩

variable {as : List Action} {F : Finset String}

/-- In whatever state the cluster is, a node that waits in `select` and does not lead is elected in
some continuation and a `Propose` call on it returns nil, if with it there is a quorum of nodes that
have its log. -/
theorem recovers (hs : C.Run C.init as s) (hC : 2 ≤ C.ids.length) (hid : id ∈ C.ids)
    (hloop : s.loops id = .select) (hstate : (s.node id).state ≠ .leader)
    (hcard : (s.node id).quorum ≤ F.card + 1)
    (hF : ∀ q ∈ F, q ∈ C.ids ∧ q ≠ id ∧ (s.node q).log = (s.node id).log) (command : String) :
    ∃ bs bs' t u P c, C.Run s bs t ∧ C.Run t (.propose id command :: bs') u
      ∧ u.proposals[t.proposals.length]? = some P ∧ P.node = id ∧ P.entry.command = command
      ∧ P.newIndex = (s.node id).log.length + 1 ∧ P.ended = some (.ok, c) ∧ P.newIndex ≤ c := by
  obtain ⟨A, hR⟩ := reached hs
  obtain ⟨todo, hnodup, hlength, htodo⟩ := exists_voters hcard
  obtain ⟨t, ht, hleader, hterms, hlogs⟩ := hR.elect hid hloop hstate hC hnodup hlength
    fun q hq => by
      obtain ⟨hmem, hne, hlog⟩ := hF q (htodo q hq)
      exact ⟨hmem, hne, isLogUpToDate_of_log_eq hlog⟩
  obtain ⟨B, hRt⟩ := hR.reaches ht
  obtain ⟨v, hv, hrep⟩ := hRt.propose hid hC hleader hnodup (fun q hq => by
    obtain ⟨hmem, hne, hlog⟩ := hF q (htodo q hq)
    exact ⟨hmem, hne, hterms q hq, by rw [hlogs, hlogs, hlog]⟩) command
  obtain ⟨B', -, hRv⟩ := hRt.step hv
  obtain ⟨u, P, c, hu, hP, hsame, hended⟩ := hrep.commit hRv
    (by
      change 1 + todo.length = (C.node id).quorum
      rw [← hR.sim.quorum_eq hid]
      omega)
    (by
      have hpeers := C.ids_length hid
      have hquorum : (C.node id).quorum = ((C.node id).peers.length + 1) / 2 + 1 := rfl
      rw [hR.sim.quorum_eq hid] at hlength
      change 0 + todo.length ≤ (C.node id).peers.length
      omega)
  obtain ⟨B'', hRu⟩ := hRv.reaches hu
  obtain ⟨bs, hbs⟩ := ht
  obtain ⟨bs', hbs'⟩ := hu
  obtain ⟨hnode, hentry, -, -, -, hnew⟩ := hsame
  have hle := hRu.tally.ended _ P hP
  rw [Proposal.EndOK, hended] at hle
  refine ⟨bs, bs', t, u, P, c, hbs, (Runs.Run.single trivial hv).append hbs', hP, hnode, ?_, ?_,
    hended, hle.1⟩
  · rw [hentry]
    rfl
  · rw [hnew]
    change ((t.node id).log ++ [_]).length = _
    rw [List.length_append, hlogs]
    rfl

/-- `a` leads and has an entry that no one else gets; `b` and `c` go on without it. -/
theorem recovers_trio : ∃ s, trio.Run trio.init (electBy "a" 0 ++ [.propose "a" "x"]) s
    ∧ (s.node "a").state = .leader
    ∧ ∃ bs bs' t u P c, trio.Run s bs t ∧ trio.Run t (.propose "b" "y" :: bs') u
      ∧ u.proposals[t.proposals.length]? = some P ∧ P.entry.command = "y"
      ∧ P.ended = some (.ok, c) := by
  obtain ⟨s, hs, hp⟩ : ∃ s, trio.Run trio.init _ s ∧ _ :=
    Runs.exists_run (electBy "a" 0 ++ [.propose "a" "x"]) (fun s => (s.node "a").state = .leader
      ∧ s.loops "b" = .select ∧ (s.node "b").state ≠ .leader ∧ (s.node "b").quorum = 2
      ∧ (s.node "c").log = (s.node "b").log) (by decide +kernel)
  simp only [decide_eq_true_eq] at hp
  obtain ⟨hleader, hloop, hstate, hquorum, hlog⟩ := hp
  obtain ⟨bs, bs', t, u, P, c, hbs, hbs', hP, -, hcommand, -, hended, -⟩ :=
    recovers (F := {"c"}) hs (by decide) (by decide) hloop hstate (by rw [hquorum]; decide)
      (fun q hq => by
        rw [Finset.mem_singleton.1 hq]
        exact ⟨by decide, by decide, hlog⟩) "y"
  exact ⟨s, hs, hleader, bs, bs', t, u, P, c, hbs, hbs', hP, hcommand, hended⟩

end

end EdgeSim.Raft
