import EdgeSim.Raft.Handlers

/-!
# The cluster follows the group

`Sim` ties a whole state of the cluster, its goroutines and messages included, to a group of
replicas: a granted vote was cast, a request comes from a leader of its term, a `Success` was
answered by a follower that had taken the entry. The lemmas here change one part of the state at a
time; the steps of the cluster are made of them.
-/

namespace EdgeSim.Raft

open Lists TermLog TermLog.Group

structure VoteCall.OK (C : Cluster) (nd : String → Node) (A : Group String LogEntry)
    (call : VoteCall) : Prop where
  caller_mem : call.caller ∈ C.ids
  peer_mem : call.peer ∈ (C.config call.caller).peers
  term_le : call.term ≤ (nd call.caller).currentTerm
  index : ∀ i, call.lastLogIndex = some i → (nd call.caller).state = .candidate →
    (nd call.caller).currentTerm = call.term → i = (nd call.caller).log.length
  request : ∀ req, call.request = some req →
    req.term = call.term ∧ req.candidateID = call.caller ∧ Current nd req
  replies : ∀ r ∈ call.replies, r.voteGranted = true →
    ∃ l, A.vote call.peer call.term = some (call.caller, l)
  received : ∀ r, call.received = some r → r.voteGranted = true →
    ∃ l, A.vote call.peer call.term = some (call.caller, l)

/-- What stands behind the answer `a` of `peer` to `req`. -/
def Answer.OK (A : Group String LogEntry) (peer : String) (req : AppendEntriesRequest)
    (a : Answer) : Prop :=
  (∃ es, a.seen.handleAppendEntries req = some (a.left, es, a.resp))
    ∧ (a.resp.success = true → ∀ e, req.entries = [e] →
      A.stored peer req.term (req.prevLogIndex + 1) ∧ a.left.log[req.prevLogIndex]? = some e)

structure AppendCall.OK (C : Cluster) (A : Group String LogEntry) (ps : List Proposal)
    (call : AppendCall) : Prop where
  caller_mem : call.caller ∈ C.ids
  peer_mem : call.peer ∈ (C.config call.caller).peers
  led : ∃ l, A.led call.caller call.term = some l
  heartbeat : call.proposal = none → call.entries = []
  proposal : ∀ p, call.proposal = some p → ∃ P, ps[p]? = some P ∧ call.caller = P.node
    ∧ call.term = P.entry.term ∧ call.entries = [P.entry]
    ∧ call.prevLogIndex = some P.prevIndex ∧ call.prevLogTerm = some P.prevTerm
  request : ∀ req, call.request = some req → req.term = call.term ∧ req.leaderID = call.caller
    ∧ req.entries = call.entries ∧ call.prevLogIndex = some req.prevLogIndex
    ∧ call.prevLogTerm = some req.prevLogTerm
  replies : ∀ a ∈ call.replies, ∃ req, call.request = some req ∧ a.OK A call.peer req
  received : ∀ a, call.received = some (.reply a) →
    ∃ req, call.request = some req ∧ a.OK A call.peer req

/-- The entry stands in the log its term is led with. -/
structure Proposal.OK (C : Cluster) (A : Group String LogEntry) (P : Proposal) : Prop where
  node_mem : P.node ∈ C.ids
  newIndex_eq : P.newIndex = P.prevIndex + 1
  entry : ∃ l, A.led P.node P.entry.term = some l ∧ l.length ≤ P.prevIndex
    ∧ (A.lead P.node P.entry.term)[P.prevIndex]? = some P.entry
    ∧ P.prevTerm = TermLog.lastTerm LogEntry.term
        ((A.lead P.node P.entry.term).take P.prevIndex)
  stored : A.stored P.node P.entry.term P.newIndex
  log_eq : P.log = (A.lead P.node P.entry.term).take P.newIndex

def LoopOK (C : Cluster) (A : Group String LogEntry) (id : String) (n : Node) : RunLoop → Prop
  | .becomeLeader => n.state = .candidate → ∃ S, C.quorums.IsQuorum S ∧ ∀ v ∈ S,
      ∃ l, A.vote v n.currentTerm = some (id, l)
  | _ => True

/-- An answer that has not gone out yet belongs to a call to its node. -/
def Pending (A : Group String LogEntry) (calls : List AppendCall) (id : String) (a : Answer) :
    Prop :=
  ∃ call req, calls[a.call]? = some call ∧ call.peer = id ∧ call.request = some req
    ∧ a.OK A id req

structure Sim (C : Cluster) (s : System) (A : Group String LogEntry) : Prop where
  follows : Follows C s.node A
  votes : ∀ call ∈ s.voteCalls, call.OK C s.node A
  loops : ∀ id ∈ C.ids, LoopOK C A id (s.node id) (s.loops id)
  calls : ∀ call ∈ s.appendCalls, call.OK C A s.proposals
  proposals : ∀ P ∈ s.proposals, P.OK C A
  answers : ∀ id ∈ C.ids, ∀ b ∈ (s.replicas id).batches, ∀ a, b.answer = some a →
    Pending A s.appendCalls id a
  elections : ∀ {id term log}, A.led id term = some log ↔ ⟨id, term, log⟩ ∈ s.elections
  applied : ∀ id ∈ C.ids, (s.node id).commitIndex ≤ (s.node id).lastApplied
  alive : s.panicked = []

theorem sim_init (C : Cluster) : Sim C C.init start where
  follows := follows_init C
  votes call h := by simp [Cluster.init] at h
  loops id _ := trivial
  calls call h := by simp [Cluster.init] at h
  proposals P h := by simp [Cluster.init] at h
  answers id _ b h := by simp [Cluster.init, Replica.start] at h
  elections := by simp [start, Cluster.init]
  applied id hid := by
    change (C.node id).commitIndex ≤ (C.node id).lastApplied
    rw [C.node_eq hid]
  alive := rfl

/-! ## Reading the state -/

section Read

variable (s : System) (id : String)

@[simp] theorem System.node_setReplica (r : Replica) :
    (s.setReplica id r).node = Function.update s.node id r.node := by
  funext x
  by_cases hx : x = id
  · subst hx
    simp [System.node, System.setReplica]
  · simp [System.node, System.setReplica, Function.update_of_ne hx]

@[simp] theorem System.node_setNode (n : Node) :
    (s.setNode id n).node = Function.update s.node id n := by
  simp [System.setNode, Replica.setNode]

@[simp] theorem System.node_setLoop (l : RunLoop) : (s.setLoop id l).node = s.node := rfl

theorem System.setLoop_self : s.setLoop id (s.loops id) = s := by
  simp [System.setLoop]

end Read

section Mono

variable {C : Cluster} {A B : Group String LogEntry} {nd nd' : String → Node}

/-- A node moves as `Moves` says, or to a new term. -/
def Onward (n n' : Node) : Prop := Node.Moves n n' ∨ n.currentTerm < n'.currentTerm

theorem Onward.term_le {n n' : Node} (h : Onward n n') : n.currentTerm ≤ n'.currentTerm := by
  rcases h with h | h
  · exact h.term_le
  · exact h.le

/-- A candidate of a term it had reached was one already, with the same log. -/
theorem Onward.candidate {n n' : Node} (h : Onward n n') {t : ℕ} (ht : t ≤ n.currentTerm)
    (hc : n'.state = .candidate) (hc' : n'.currentTerm = t) :
    n.state = .candidate ∧ n.currentTerm = t ∧ n'.log = n.log := by
  rcases h with h | h
  · obtain ⟨h1, h2, h3⟩ := h.candidate hc
    exact ⟨h1, h2 ▸ hc', h3⟩
  · omega

theorem onward_update {id : String} {n : Node} (h : Onward (nd id) n) (x : String) :
    Onward (nd x) (Function.update nd id n x) := by
  by_cases hx : x = id
  · subst hx
    rw [Function.update_self]
    exact h
  · rw [Function.update_of_ne hx]
    exact .inl (.refl _)

theorem VoteCall.OK.mono {call : VoteCall} (h : call.OK C nd A)
    (hm : ∀ x, Onward (nd x) (nd' x)) (hx : Ext A B) : call.OK C nd' B where
  caller_mem := h.caller_mem
  peer_mem := h.peer_mem
  term_le := h.term_le.trans (hm _).term_le
  index i hi hc ht := by
    obtain ⟨h1, h2, h3⟩ := (hm call.caller).candidate h.term_le hc ht
    rw [h3]
    exact h.index i hi h1 h2
  request req hreq := by
    obtain ⟨h1, h2, h3⟩ := h.request req hreq
    refine ⟨h1, h2, fun hc ht => ?_⟩
    have hle : req.term ≤ (nd req.candidateID).currentTerm := by
      rw [h1, h2]
      exact h.term_le
    obtain ⟨h4, h5, h6⟩ := (hm req.candidateID).candidate hle hc ht
    rw [h6]
    exact h3 h4 h5
  replies r hr hg := by
    obtain ⟨l, hl⟩ := h.replies r hr hg
    exact ⟨l, hx.vote hl⟩
  received r hr hg := by
    obtain ⟨l, hl⟩ := h.received r hr hg
    exact ⟨l, hx.vote hl⟩

theorem LoopOK.mono {id : String} {n n' : Node} {l : RunLoop} (h : LoopOK C A id n l)
    (hm : Node.Moves n n') (hx : Ext A B) : LoopOK C B id n' l := by
  cases l with
  | becomeLeader =>
    intro hc
    obtain ⟨h1, h2, -⟩ := hm.candidate hc
    obtain ⟨S, hS, hv⟩ := h h1
    refine ⟨S, hS, fun v hvS => ?_⟩
    obtain ⟨l, hl⟩ := hv v hvS
    rw [h2]
    exact ⟨l, hx.vote hl⟩
  | _ => trivial

theorem Answer.OK.mono {peer : String} {req : AppendEntriesRequest} {a : Answer}
    (h : a.OK A peer req) (hx : Ext A B) : a.OK B peer req := by
  refine ⟨h.1, fun hs e he => ?_⟩
  obtain ⟨h1, h2⟩ := h.2 hs e he
  exact ⟨hx.stored h1, h2⟩

theorem AppendCall.OK.mono {call : AppendCall} {ps : List Proposal} (h : call.OK C A ps)
    (hx : Ext A B) : call.OK C B ps :=
  { h with
    led := h.led.imp fun _ hl => hx.led hl
    replies := fun a ha => (h.replies a ha).imp fun _ hr => ⟨hr.1, hr.2.mono hx⟩
    received := fun a ha => (h.received a ha).imp fun _ hr => ⟨hr.1, hr.2.mono hx⟩ }

theorem Proposal.OK.newIndex_le {P : Proposal} (h : P.OK C A) :
    P.newIndex ≤ (A.lead P.node P.entry.term).length := by
  obtain ⟨l, -, -, h3, -⟩ := h.entry
  have := (List.getElem?_eq_some_iff.1 h3).1
  rw [h.newIndex_eq]
  omega

theorem Proposal.OK.mono {P : Proposal} (h : P.OK C A) (hx : Ext A B) : P.OK C B where
  node_mem := h.node_mem
  newIndex_eq := h.newIndex_eq
  entry := by
    obtain ⟨l, h1, h2, h3, h4⟩ := h.entry
    have hlen := (List.getElem?_eq_some_iff.1 h3).1
    refine ⟨l, hx.led h1, h2, ?_, ?_⟩
    · rw [prefix_getElem? (hx.lead h1) hlen]
      exact h3
    · rw [take_eq_of_isPrefix (hx.lead h1) hlen.le]
      exact h4
  stored := hx.stored h.stored
  log_eq := by
    obtain ⟨l, h1, -⟩ := h.entry
    rw [take_eq_of_isPrefix (hx.lead h1) h.newIndex_le]
    exact h.log_eq

theorem Pending.mono {calls : List AppendCall} {id : String} {a : Answer}
    (h : Pending A calls id a) (hx : Ext A B) : Pending B calls id a := by
  obtain ⟨call, req, h1, h2, h3, h4⟩ := h
  exact ⟨call, req, h1, h2, h3, h4.mono hx⟩

end Mono

/-! ## Changing a node -/

section Change

variable {C : Cluster} {s : System} {A B : Group String LogEntry} {id : String}

/-- A node and its `Run` loop move, perhaps with an election; the calls stay. -/
theorem Sim.change (h : Sim C s A) (hA : GroupInv C A) (hB : Steps C A B) {r : Replica}
    {l : RunLoop} {E : List Election} (hF : Follows C (Function.update s.node id r.node) B)
    (hm : Onward (s.node id) r.node) (hl : LoopOK C B id r.node l)
    (hap : r.node.commitIndex ≤ r.node.lastApplied)
    (hb : ∀ b ∈ r.batches, ∀ a, b.answer = some a → Pending B s.appendCalls id a)
    (hled : ∀ {n t l}, B.led n t = some l ↔ ⟨n, t, l⟩ ∈ E) :
    Sim C { (s.setReplica id r).setLoop id l with elections := E } B := by
  obtain ⟨-, hx⟩ := steps_inv hA hB
  have hnode : ((s.setReplica id r).setLoop id l).node = Function.update s.node id r.node := by
    simp
  refine
    { follows := by rw [← hnode] at hF; exact hF
      votes := fun call hc => by
        have := (h.votes call hc).mono (onward_update hm) hx
        rw [← hnode] at this
        exact this
      loops := fun x hx' => ?_
      calls := fun call hc => (h.calls call hc).mono hx
      proposals := fun P hP => (h.proposals P hP).mono hx
      answers := fun x hx' => ?_
      elections := hled
      applied := fun x hx' => ?_
      alive := h.alive }
  · change LoopOK C B x (((s.setReplica id r).setLoop id l).node x) _
    rw [hnode]
    by_cases hne : x = id
    · subst hne
      simpa [System.setLoop] using hl
    · simp only [System.setLoop, System.setReplica, Function.update_of_ne hne]
      exact (h.loops x hx').mono (.refl _) hx
  · by_cases hne : x = id
    · subst hne
      simpa [System.setLoop, System.setReplica] using hb
    · simp only [System.setLoop, System.setReplica, Function.update_of_ne hne]
      exact fun b hbx a ha => (h.answers x hx' b hbx a ha).mono hx
  · change (((s.setReplica id r).setLoop id l).node x).commitIndex
      ≤ (((s.setReplica id r).setLoop id l).node x).lastApplied
    rw [hnode]
    by_cases hne : x = id
    · subst hne
      rw [Function.update_self]
      exact hap
    · rw [Function.update_of_ne hne]
      exact h.applied x hx'

/-- A node moves and its loop stays where it is; nobody is elected. -/
theorem Sim.setReplica (h : Sim C s A) (hA : GroupInv C A) (hid : id ∈ C.ids) (hB : Steps C A B)
    (hled : B.led = A.led) {r : Replica} (hF : Follows C (Function.update s.node id r.node) B)
    (hm : Node.Moves (s.node id) r.node) (hap : r.node.commitIndex ≤ r.node.lastApplied)
    (hb : ∀ b ∈ r.batches, ∀ a, b.answer = some a → Pending B s.appendCalls id a) :
    Sim C (s.setReplica id r) B := by
  have hx := (steps_inv hA hB).2
  have hl := (h.loops id hid).mono hm hx
  have : Sim C ((s.setReplica id r).setLoop id (s.loops id)) B :=
    h.change hA hB hF (.inl hm) hl hap hb (by rw [hled]; exact h.elections)
  rwa [show (s.setReplica id r).setLoop id (s.loops id) = s.setReplica id r from
    System.setLoop_self (s.setReplica id r) id] at this

/-- A node moves, with its loop, and collects nothing; nobody is elected. -/
theorem Sim.changeNode (h : Sim C s A) (hA : GroupInv C A) (hid : id ∈ C.ids) (hB : Steps C A B)
    (hled : B.led = A.led) {n : Node} {l : RunLoop}
    (hF : Follows C (Function.update s.node id n) B) (hm : Onward (s.node id) n)
    (hl : LoopOK C B id n l) (hc : n.commitIndex = (s.node id).commitIndex)
    (ha : n.lastApplied = (s.node id).lastApplied) :
    Sim C ((s.setNode id n).setLoop id l) B := by
  have hx := (steps_inv hA hB).2
  refine h.change hA hB (r := (s.replicas id).setNode n) hF hm hl ?_ ?_
    (by rw [hled]; exact h.elections)
  · change n.commitIndex ≤ n.lastApplied
    rw [hc, ha]
    exact h.applied id hid
  · exact fun b hb a ha => (h.answers id hid b hb a ha).mono hx

theorem Sim.setNode (h : Sim C s A) (hA : GroupInv C A) (hid : id ∈ C.ids) (hB : Steps C A B)
    (hled : B.led = A.led) {n : Node} (hF : Follows C (Function.update s.node id n) B)
    (hm : Node.Moves (s.node id) n) (hc : n.commitIndex = (s.node id).commitIndex)
    (ha : n.lastApplied = (s.node id).lastApplied) : Sim C (s.setNode id n) B := by
  have hl := (h.loops id hid).mono hm (steps_inv hA hB).2
  have := h.changeNode hA hid hB hled hF (.inl hm) hl hc ha
  rwa [show (s.setNode id n).setLoop id (s.loops id) = s.setNode id n from
    System.setLoop_self (s.setNode id n) id] at this

theorem Sim.setLoop (h : Sim C s A) {l : RunLoop} (hl : LoopOK C A id (s.node id) l) :
    Sim C (s.setLoop id l) A :=
  { h with
    loops := fun x hx => by
      by_cases hne : x = id
      · subst hne
        rw [System.node_setLoop]
        simpa [System.setLoop] using hl
      · simp only [System.setLoop, Function.update_of_ne hne]
        exact h.loops x hx }

end Change

/-! ## Changing the calls -/

section Calls

variable {C : Cluster} {s : System} {A : Group String LogEntry}

theorem Sim.setVoteCall (h : Sim C s A) {c : ℕ} {call : VoteCall} (hc : call.OK C s.node A) :
    Sim C (s.setVoteCall c call) A :=
  { h with
    votes := fun call' hc' => by
      rcases List.mem_or_eq_of_mem_set hc' with hc' | rfl
      · exact h.votes call' hc'
      · exact hc }

theorem Sim.addVoteCalls (h : Sim C s A) {calls : List VoteCall}
    (hc : ∀ call ∈ calls, call.OK C s.node A) :
    Sim C { s with voteCalls := s.voteCalls ++ calls } A :=
  { h with
    votes := fun call hc' => by
      rcases List.mem_append.1 hc' with hc' | hc'
      · exact h.votes call hc'
      · exact hc call hc' }

/-- A changed call keeps its peer and its request, so what is pending stays so. -/
theorem Sim.setAppendCall (h : Sim C s A) {c : ℕ} {call call' : AppendCall}
    (hc : s.appendCalls[c]? = some call) (hok : call'.OK C A s.proposals)
    (hpeer : call'.peer = call.peer)
    (hreq : ∀ req, call.request = some req → call'.request = some req) :
    Sim C (s.setAppendCall c call') A :=
  { h with
    calls := fun x hx => by
      rcases List.mem_or_eq_of_mem_set hx with hx | rfl
      · exact h.calls x hx
      · exact hok
    answers := fun id hid b hb a ha => by
      obtain ⟨x, req, h1, h2, h3, h4⟩ := h.answers id hid b hb a ha
      by_cases hca : c = a.call
      · subst hca
        rw [hc] at h1
        simp only [Option.some.injEq] at h1
        subst h1
        refine ⟨call', req, ?_, hpeer.trans h2, hreq req h3, h4⟩
        exact List.getElem?_set_self (List.getElem?_eq_some_iff.1 hc).1
      · exact ⟨x, req, by rw [System.setAppendCall, List.getElem?_set_ne hca]; exact h1, h2, h3,
          h4⟩ }

theorem Sim.addAppendCalls (h : Sim C s A) {calls : List AppendCall}
    (hc : ∀ call ∈ calls, call.OK C A s.proposals) :
    Sim C { s with appendCalls := s.appendCalls ++ calls } A :=
  { h with
    calls := fun call hc' => by
      rcases List.mem_append.1 hc' with hc' | hc'
      · exact h.calls call hc'
      · exact hc call hc'
    answers := fun id hid b hb a ha => by
      obtain ⟨x, req, h1, h2⟩ := h.answers id hid b hb a ha
      refine ⟨x, req, ?_, h2⟩
      rw [List.getElem?_append_left (List.getElem?_eq_some_iff.1 h1).1]
      exact h1 }

/-- What a call of `Propose` fixes before it waits for replies. -/
def Proposal.Same (P P' : Proposal) : Prop :=
  P'.node = P.node ∧ P'.entry = P.entry ∧ P'.log = P.log ∧ P'.prevIndex = P.prevIndex
    ∧ P'.prevTerm = P.prevTerm ∧ P'.newIndex = P.newIndex

/-- `ps'` has every call of `ps`, perhaps further on. -/
def Retains (ps ps' : List Proposal) : Prop :=
  ∀ (q : ℕ) (R : Proposal), ps[q]? = some R → ∃ R', ps'[q]? = some R' ∧ R.Same R'

theorem Proposal.OK.same {P P' : Proposal} (h : P.OK C A) (hs : P.Same P') : P'.OK C A := by
  obtain ⟨h1, h2, hlog, h3, h4, h5⟩ := hs
  refine ⟨?_, ?_, ?_, ?_, ?_⟩
  · rw [h1]
    exact h.node_mem
  · rw [h5, h3]
    exact h.newIndex_eq
  · rw [h1, h2, h3, h4]
    exact h.entry
  · rw [h1, h2, h5]
    exact h.stored
  · rw [hlog, h1, h2, h5]
    exact h.log_eq

theorem retains_set {ps : List Proposal} {p : ℕ} {P P' : Proposal} (hP : ps[p]? = some P)
    (hs : P.Same P') : Retains ps (ps.set p P') := by
  intro q R hR
  by_cases hpq : p = q
  · subst hpq
    rw [hP] at hR
    simp only [Option.some.injEq] at hR
    subst hR
    exact ⟨P', List.getElem?_set_self (List.getElem?_eq_some_iff.1 hP).1, hs⟩
  · exact ⟨R, by rw [List.getElem?_set_ne hpq]; exact hR, rfl, rfl, rfl, rfl, rfl, rfl⟩

theorem AppendCall.OK.proposals {call : AppendCall} {ps ps' : List Proposal} (h : call.OK C A ps)
    (hps : Retains ps ps') : call.OK C A ps' :=
  { h with
    proposal := fun p hp => by
      obtain ⟨P, hP, h1, h2, h3, h4, h5⟩ := h.proposal p hp
      obtain ⟨P', hP', s1, s2, -, s3, s4, -⟩ := hps _ _ hP
      refine ⟨P', hP', ?_, ?_, ?_, ?_, ?_⟩
      · rw [s1]; exact h1
      · rw [s2]; exact h2
      · rw [s2]; exact h3
      · rw [s3]; exact h4
      · rw [s4]; exact h5 }

theorem Sim.setProposal (h : Sim C s A) {p : ℕ} {P P' : Proposal} (hP : s.proposals[p]? = some P)
    (hs : P.Same P') : Sim C (s.setProposal p P') A :=
  { h with
    calls := fun call hc => (h.calls call hc).proposals (retains_set hP hs)
    proposals := fun R hR => by
      rcases List.mem_or_eq_of_mem_set hR with hR | rfl
      · exact h.proposals R hR
      · exact (h.proposals P (List.mem_of_getElem? hP)).same hs }

theorem Sim.addProposal (h : Sim C s A) {P : Proposal} (hP : P.OK C A) :
    Sim C { s with proposals := s.proposals ++ [P] } A := by
  have hps : Retains s.proposals (s.proposals ++ [P]) := by
    intro q R hR
    refine ⟨R, ?_, rfl, rfl, rfl, rfl, rfl, rfl⟩
    rw [List.getElem?_append_left (List.getElem?_eq_some_iff.1 hR).1]
    exact hR
  exact
    { h with
      calls := fun call hc => (h.calls call hc).proposals hps
      proposals := fun R hR => by
        rcases List.mem_append.1 hR with hR | hR
        · exact h.proposals R hR
        · rw [List.mem_singleton.1 hR]
          exact hP }

end Calls

end EdgeSim.Raft
