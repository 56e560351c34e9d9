import EdgeSim.Raft.Effect

/-!
# What a step does to logs, calls and proposals

Only two kinds of steps change a log: a `Propose` call on a leader, which also starts its RPCs, and
an `AppendEntries` request that is accepted. An answer to a request goes from the batch of its
handler to the replies of the call it answers, and from there to what the call has received.
-/

namespace EdgeSim.Raft

open TermLog TermLog.Group

/-- `x` answers the call `c`, wherever it stands. -/
def System.Answered (s : System) (c : ℕ) (call : AppendCall) (x : Answer) : Prop :=
  x ∈ call.replies ∨ call.received = some (.reply x)
    ∨ x.call = c ∧ ∃ b ∈ (s.replicas call.peer).batches, b.answer = some x

/-- `id` appends a command to its log, as the entry of a new call of `Propose`. -/
structure Proposed (s s' : System) (id : String) (command : String) (P : Proposal) : Prop where
  leader : (s.node id).state = .leader
  node_eq : P.node = id
  entry_eq : P.entry = ⟨(s.node id).currentTerm, command⟩
  newIndex_eq : P.newIndex = (s.node id).log.length + 1
  log_eq : (s'.node id).log = (s.node id).log ++ [P.entry]
  others : ∀ v ≠ id, (s'.node v).log = (s.node v).log
  proposals_eq : s'.proposals = s.proposals ++ [P]

/-- The request of the call `c` is handled. -/
structure Handled (s s' : System) (c : ℕ) (call : AppendCall) (req : AppendEntriesRequest)
    (n : Node) (es : List (ℕ × LogEntry)) (resp : AppendEntriesResponse) : Prop where
  call_eq : s.appendCalls[c]? = some call
  request_eq : call.request = some req
  result_eq : (s.node call.peer).handleAppendEntries req = some (n, es, resp)
  node_eq : s'.node = Function.update s.node call.peer n
  proposals_eq : s'.proposals = s.proposals

/-- `call'` is what has become of the call `c`. -/
structure Became (s : System) (c : ℕ) (call call' : AppendCall) : Prop where
  proposal : call'.proposal = call.proposal
  peer : call'.peer = call.peer
  answers : ∀ x, x ∈ call'.replies ∨ call'.received = some (.reply x) → s.Answered c call x

/-- Every call was there before or has no answer yet. -/
def CallsFrom (s : System) (calls : List AppendCall) : Prop :=
  ∀ c call', calls[c]? = some call' →
    (call'.replies = [] ∧ call'.received = none ∧ s.appendCalls.length ≤ c)
      ∨ ∃ call, s.appendCalls[c]? = some call ∧ Became s c call call'

structure Trace (s : System) (a : Action) (s' : System) : Prop where
  logs : ((∀ id, (s'.node id).log = (s.node id).log) ∧ s'.proposals.length = s.proposals.length)
    ∨ (∃ id command P, a = .propose id command ∧ Proposed s s' id command P)
    ∨ ∃ c call req n es resp, a = .handleAppendEntries c ∧ Handled s s' c call req n es resp
  retains : Retains s.proposals s'.proposals
  calls : CallsFrom s s'.appendCalls

section

variable {s s' : System} {a : Action} {id v : String} {c p : ℕ} {call y : AppendCall}
  {P : Proposal}

theorem retains_refl (ps : List Proposal) : Retains ps ps :=
  fun _ R hR => ⟨R, hR, rfl, rfl, rfl, rfl, rfl, rfl⟩

theorem became_refl (s : System) (c : ℕ) (call : AppendCall) : Became s c call call :=
  ⟨rfl, rfl, fun _ hx => hx.imp_right .inl⟩

theorem callsFrom_refl (s : System) : CallsFrom s s.appendCalls :=
  fun c call hc => .inr ⟨call, hc, became_refl s c call⟩

theorem callsFrom_set (hc : s.appendCalls[c]? = some call) (hy : Became s c call y) :
    CallsFrom s (s.appendCalls.set c y) := by
  intro j call' hj
  rcases getElem?_set_cases hc hj with ⟨hj, -⟩ | ⟨rfl, rfl⟩
  · exact callsFrom_refl s j call' hj
  · exact .inr ⟨call, hc, hy⟩

theorem callsFrom_append {calls : List AppendCall}
    (h : ∀ call ∈ calls, call.replies = [] ∧ call.received = none) :
    CallsFrom s (s.appendCalls ++ calls) := by
  intro j call' hj
  rcases Nat.lt_or_ge j s.appendCalls.length with hlt | hge
  · rw [List.getElem?_append_left hlt] at hj
    exact callsFrom_refl s j call' hj
  · rw [List.getElem?_append_right hge] at hj
    obtain ⟨hreplies, hreceived⟩ := h call' (List.mem_of_getElem? hj)
    exact .inl ⟨hreplies, hreceived, hge⟩

theorem log_update {n : Node} (h : n.log = (s.node v).log) (id : String) :
    (Function.update s.node v n id).log = (s.node id).log := by
  by_cases hid : id = v
  · subst hid
    rw [Function.update_self, h]
  · rw [Function.update_of_ne hid]

theorem trace_stay (hlogs : ∀ id, (s'.node id).log = (s.node id).log)
    (hcalls : s'.appendCalls = s.appendCalls) (hps : s'.proposals = s.proposals) :
    Trace s a s' where
  logs := .inl ⟨hlogs, by rw [hps]⟩
  retains := by
    rw [hps]
    exact retains_refl _
  calls := by
    rw [hcalls]
    exact callsFrom_refl s

/-- The mutex was held at `v`, and the log left alone. -/
theorem trace_setNode {n : Node} (hlog : n.log = (s.node v).log)
    (hnodes : s'.node = (s.setNode v n).node) (hcalls : s'.appendCalls = s.appendCalls)
    (hps : s'.proposals = s.proposals) : Trace s a s' := by
  refine trace_stay (fun id => ?_) hcalls hps
  rw [hnodes, System.node_setNode]
  exact log_update hlog id

theorem trace_setAppendCall (hc : s.appendCalls[c]? = some call)
    (hproposal : y.proposal = call.proposal) (hpeer : y.peer = call.peer)
    (hreplies : y.replies = call.replies) (hreceived : y.received = call.received) :
    Trace s a (s.setAppendCall c y) where
  logs := .inl ⟨fun _ => rfl, rfl⟩
  retains := retains_refl _
  calls := by
    refine callsFrom_set hc ⟨hproposal, hpeer, fun x hx => ?_⟩
    rw [hreplies, hreceived] at hx
    exact hx.imp_right .inl

theorem became_received {o : Outcome} (ho : ∀ x, o = .reply x → x ∈ call.replies) :
    Became s c call { call with received := some o } := by
  refine ⟨rfl, rfl, fun x hx => .inl ?_⟩
  rcases hx with hx | hx
  · exact hx
  · exact ho x (Option.some.inj hx)

theorem OutcomeTaken.callsFrom {C : Cluster} {o : Outcome} (h : OutcomeTaken C s c call o) :
    CallsFrom s (s.appendCalls.set c { call with received := some o }) :=
  callsFrom_set h.call_eq (became_received h.reply_mem)

theorem trace_sendHeartbeats : Trace s a
    { s.setLoop id .select with
      appendCalls := s.appendCalls
        ++ (s.node id).peers.map (System.AppendCall.heartbeat id (s.node id).currentTerm) } := by
  refine ⟨.inl ⟨fun _ => rfl, rfl⟩, retains_refl _, callsFrom_append fun call hc => ?_⟩
  obtain ⟨q, -, rfl⟩ := List.mem_map.1 hc
  exact ⟨rfl, rfl⟩

theorem trace_propose {command : String} (hl : (s.node id).state = .leader)
    (hnode : P.node = id) (hentry : P.entry = ⟨(s.node id).currentTerm, command⟩)
    (hnew : P.newIndex = (s.node id).log.length + 1) : Trace s (.propose id command)
    { s.setNode id ((s.node id).appendCommand command) with
      proposals := s.proposals ++ [P]
      appendCalls := s.appendCalls
        ++ (s.node id).peers.map (System.AppendCall.replicate s.proposals.length P) } := by
  refine ⟨.inr (.inl ⟨id, command, P, rfl, hl, hnode, hentry, hnew, ?_, ?_, rfl⟩), ?_, ?_⟩
  · change (System.node (System.setNode _ _ _) id).log = _
    rw [System.node_setNode, Function.update_self, hentry]
    rfl
  · intro v hv
    change (System.node (System.setNode _ _ _) v).log = _
    rw [System.node_setNode, Function.update_of_ne hv]
  · intro q R hR
    refine ⟨R, ?_, rfl, rfl, rfl, rfl, rfl, rfl⟩
    exact (List.getElem?_append_left (List.getElem?_eq_some_iff.1 hR).1).trans hR
  · refine callsFrom_append fun call hc => ?_
    obtain ⟨q, -, rfl⟩ := List.mem_map.1 hc
    exact ⟨rfl, rfl⟩

variable {C : Cluster} {A : Group String LogEntry} {o : Outcome} {r : Replica}

/-- A `Propose` call takes an acknowledgement, and its node keeps its log. -/
theorem trace_ack (h : AckTaken C s c call p P o) {P' : Proposal}
    (hcalls : s'.appendCalls = s.appendCalls.set c { call with received := some o })
    (hps : s'.proposals = s.proposals.set p P') (hP : P.Same P')
    (hlogs : ∀ id, (s'.node id).log = (s.node id).log) : Trace s a s' where
  logs := .inl ⟨hlogs, by rw [hps, List.length_set]⟩
  retains := by
    rw [hps]
    exact retains_set h.proposals_eq hP
  calls := by
    rw [hcalls]
    exact h.callsFrom

theorem trace_ackCommits (h : AckTaken C s c call p P o)
    (hr : (s.replicas P.node).commitProposal P.newIndex = some r) :
    Trace s a (((s.setAppendCall c { call with received := some o }).setReplica P.node
      r).setProposal p
        { P with
          acks := P.acks + 1, responses := P.responses + 1
          ended := some (.ok, r.node.commitIndex) }) := by
  obtain ⟨n, es, hn, rfl⟩ := Replica.commitProposal_eq hr
  refine trace_ack h rfl rfl ⟨rfl, rfl, rfl, rfl, rfl, rfl⟩ fun id => ?_
  change (System.node (System.setReplica _ _ _) id).log = _
  rw [System.node_setReplica]
  refine log_update (s := s) ?_ id
  rcases Node.commitProposal_cases hn with ⟨-, rfl, -⟩ | ⟨-, -, rfl⟩
  · rfl
  · rfl

theorem log_finish {b : ℕ} {answer : Option Answer}
    (hr : (s.replicas id).finish b = some (r, answer)) (v : String) :
    (System.node (s.setReplica id r) v).log = (s.node v).log := by
  obtain ⟨-, rfl⟩ := Replica.finish_eq hr
  rw [System.node_setReplica]
  exact log_update (s := s) rfl v

theorem trace_answer (hR : Reached C s A) (hid : id ∈ C.ids) {b : ℕ} {x : Answer}
    (hr : (s.replicas id).finish b = some (r, some x)) (hc : s.appendCalls[x.call]? = some call) :
    Trace s a ((s.setReplica id r).setAppendCall x.call
      { call with replies := call.replies ++ [x] }) := by
  have hb := List.mem_of_getElem? (Replica.finish_eq hr).1
  obtain ⟨call', -, hcall', hpeer, -⟩ := hR.sim.answers id hid _ hb x rfl
  rw [hc, Option.some.injEq] at hcall'
  subst hcall'
  refine ⟨.inl ⟨log_finish hr, rfl⟩, retains_refl _, callsFrom_set hc ⟨rfl, rfl, fun y hy => ?_⟩⟩
  rcases hy with hy | hy
  · rcases List.mem_append.1 hy with hy | hy
    · exact .inl hy
    · obtain rfl := List.mem_singleton.1 hy
      exact .inr (.inr ⟨rfl, _, hpeer ▸ hb, rfl⟩)
  · exact .inr (.inl hy)

theorem step_handled (h : s.step C (.handleAppendEntries c) = some s') (halive : s'.panicked = []) :
    ∃ call req n es resp, Handled s s' c call req n es resp := by
  cases step_cases h with
  | handlerPanics => cases halive
  | handleAppendEntries _ hc hreq hr =>
    obtain ⟨n, es, resp, hn, rfl⟩ := Replica.handleAppendEntries_eq hr
    exact ⟨_, _, n, es, resp, hc, hreq, hn, System.node_setReplica s _ _, rfl⟩

theorem step_trace (hR : Reached C s A) (h : s.step C a = some s') (halive : s'.panicked = []) :
    Trace s a s' := by
  cases step_cases h with
  | ignoreTimeout | onElectionTimeout | giveUp | heartbeatTick | skipHeartbeats | cancelRun
  | cancelElection | readLastLogIndex | sendRequestVote | voteLate | voteElects | voteCounts
  | refuse => exact trace_stay (fun _ => rfl) rfl rfl
  | startElection _ _ hn =>
    subst hn
    exact trace_setNode (n := (s.node _).startCandidacy) rfl rfl rfl rfl
  | becomeLeader _ _ hn =>
    obtain ⟨-, rfl⟩ := Node.becomeLeader_eq hn
    exact trace_setNode (n := { s.node _ with state := .leader, leaderID := _ }) rfl rfl rfl rfl
  | sendHeartbeats => exact trace_sendHeartbeats
  | @handleRequestVote _ call req =>
    refine trace_setNode (v := call.peer) ?_ rfl rfl rfl
    rcases Node.handleRequestVote_cases (n := s.node call.peer) req with
      ⟨-, hr⟩ | ⟨-, hr⟩ | ⟨-, -, -, hr⟩ <;> simp [hr]
  | voteDeposes => exact trace_setNode Node.adopt_log rfl rfl rfl
  | propose _ hl hP =>
    subst hP
    exact trace_propose hl rfl rfl rfl
  | cancelPropose _ hP =>
    exact ⟨.inl ⟨fun _ => rfl, by simp [System.setProposal]⟩,
      retains_set hP ⟨rfl, rfl, rfl, rfl, rfl, rfl⟩, callsFrom_refl s⟩
  | readPrevLogIndex _ hc => exact trace_setAppendCall hc rfl rfl rfl rfl
  | readPrevLogTerm _ hc => exact trace_setAppendCall hc rfl rfl rfl rfl
  | sendAppendEntries _ hc => exact trace_setAppendCall hc rfl rfl rfl rfl
  | handleAppendEntries =>
    obtain ⟨call, req, n, es, resp, hh⟩ := step_handled h halive
    exact ⟨.inr (.inr ⟨_, call, req, n, es, resp, rfl, hh⟩), retains_refl _, callsFrom_refl s⟩
  | handlerPanics | proposerPanics => cases halive
  | ackDeposes ho =>
    refine trace_ack ho rfl rfl ⟨rfl, rfl, rfl, rfl, rfl, rfl⟩ fun id => ?_
    change (System.node (System.setNode _ _ _) id).log = _
    rw [System.node_setNode]
    exact log_update (s := s) Node.adopt_log id
  | ackCommits ho _ _ hr => exact trace_ackCommits ho hr
  | ackCounts ho => exact trace_ack ho rfl rfl ⟨rfl, rfl, rfl, rfl, rfl, rfl⟩ fun _ => rfl
  | heartbeatReturns ho => exact ⟨.inl ⟨fun _ => rfl, rfl⟩, retains_refl _, ho.callsFrom⟩
  | heartbeatDeposes ho =>
    refine ⟨.inl ⟨fun id => ?_, rfl⟩, retains_refl _, ho.callsFrom⟩
    rw [System.node_setNode]
    exact log_update (s := s) Node.adopt_log id
  | apply _ hr =>
    obtain ⟨e, todo, answer, -, rfl⟩ := Replica.apply_eq hr
    exact trace_stay (fun v => by
      rw [System.node_setReplica]
      exact log_update (s := s) rfl v) rfl rfl
  | finish _ hr => exact trace_stay (log_finish hr) rfl rfl
  | answer hid hr hc => exact trace_answer hR hid hr hc

end

end EdgeSim.Raft
