import EdgeSim.Raft.Safety
import Mathlib.Data.Finset.Lattice.Fold

/-!
# Elections that can be won

From any state the cluster can be in, a node that waits in the `select` of `Run` and does not lead
can be elected by any quorum whose logs are not ahead of its own, whatever the terms and the votes
so far: it stands in elections that come to nothing, with no call answered, until its term has
caught up with the voters', and then in one that they answer. Nobody's log is changed by that.
-/

namespace EdgeSim.Raft

/-- There is a run from `s` to `t`. -/
def Cluster.Reaches (C : Cluster) (s t : System) : Prop := ∃ as, C.Run s as t

section

variable {C : Cluster} {s t u : System} {id q : String} {n : Node} {c : ℕ} {todo : List String}
  {votes responses : ℕ}

theorem Cluster.Reaches.refl (C : Cluster) (s : System) : C.Reaches s s := ⟨[], .nil⟩

theorem Cluster.Reaches.trans (h : C.Reaches s t) (h' : C.Reaches t u) : C.Reaches s u := by
  obtain ⟨as, has⟩ := h
  obtain ⟨bs, hbs⟩ := h'
  exact ⟨as ++ bs, has.append hbs⟩

theorem reaches_step {a : Action} (h : s.step C a = some t) : C.Reaches s t :=
  ⟨[a], .single trivial h⟩

theorem at?_eq (hid : id ∈ C.ids) (halive : s.panicked = []) (f : Option System) :
    s.at? C id f = f := by
  rw [System.at?, if_pos ⟨hid, by simp [halive]⟩]

theorem bind_at?_eq {α : Type*} {x : α} {o : Option α} {g : α → String} {f : α → Option System}
    (ho : o = some x) (hid : g x ∈ C.ids) (halive : s.panicked = []) :
    (o.bind fun x => s.at? C (g x) (f x)) = f x := by
  rw [ho, Option.bind_some, at?_eq hid halive]

theorem setNode_self (s : System) (id : String) : s.setNode id (s.node id) = s := by
  rw [System.setNode, System.setReplica]
  exact congrArg (fun replicas => { s with replicas }) (Function.update_eq_self id s.replicas)

/-! ## Calls -/

/-- The node is the candidate `n`, and its calls to `todo` have not started. -/
structure Calling (C : Cluster) (n : Node) (s : System) (todo : List String) : Prop where
  mem : n.id ∈ C.ids
  alive : s.panicked = []
  node : s.node n.id = n
  candidate : n.state = .candidate
  nodup : todo.Nodup
  calls : ∀ q ∈ todo, ∃ c : ℕ,
    s.voteCalls[c]? = some (System.VoteCall.spawn n.id n.currentTerm q)

/-- The call once its request has been sent. -/
def VoteCall.asked (n : Node) (q : String) : VoteCall :=
  ⟨n.id, q, n.currentTerm, some n.lastLogIndex,
    some ⟨n.currentTerm, n.id, n.lastLogIndex, n.lastLogTerm⟩, [], none⟩

theorem Calling.ask (h : Calling C n s todo)
    (hc : s.voteCalls[c]? = some (System.VoteCall.spawn n.id n.currentTerm q)) :
    C.Reaches s (s.setVoteCall c (.asked n q)) := by
  have hlt := (List.getElem?_eq_some_iff.1 hc).1
  have hread : s.step C (.readLastLogIndex c) = some (s.setVoteCall c
      ⟨n.id, q, n.currentTerm, some n.lastLogIndex, none, [], none⟩) := by
    refine (bind_at?_eq hc h.mem h.alive).trans ?_
    simp [System.readLastLogIndex, System.VoteCall.spawn, h.node]
  refine (reaches_step hread).trans (reaches_step (a := .sendRequestVote c) ?_)
  refine (bind_at?_eq (List.getElem?_set_self hlt) h.mem h.alive).trans ?_
  rw [System.sendRequestVote]
  dsimp only
  rw [show (s.setVoteCall c _).node n.id = n from h.node]
  simp only [System.setVoteCall, List.set_set, VoteCall.asked]

/-- The other calls are left as they are. -/
theorem Calling.rest (h : Calling C n s (q :: todo))
    (hc : s.voteCalls[c]? = some (System.VoteCall.spawn n.id n.currentTerm q))
    (hcalls : ∃ call, t.voteCalls = s.voteCalls.set c call) (halive : t.panicked = [])
    (hnode : t.node n.id = n) : Calling C n t todo where
  mem := h.mem
  alive := halive
  node := hnode
  candidate := h.candidate
  nodup := (List.nodup_cons.1 h.nodup).2
  calls p hp := by
    obtain ⟨d, hd⟩ := h.calls p (List.mem_cons_of_mem q hp)
    obtain ⟨call, hcalls⟩ := hcalls
    refine ⟨d, ?_⟩
    rw [hcalls, List.getElem?_set_ne, hd]
    rintro rfl
    rw [hc, Option.some.injEq] at hd
    have hpq : q = p := congrArg VoteCall.peer hd
    exact (List.nodup_cons.1 h.nodup).1 (hpq ▸ hp)

/-- A response that leaves the candidate what it is. -/
theorem step_receiveVote (reply : Option ℕ) {call : VoteCall} {resp : RequestVoteResponse}
    {l : RunLoop} (hc : s.voteCalls[c]? = some call) (hid : call.caller ∈ C.ids)
    (halive : s.panicked = [])
    (hloop : s.loops call.caller = .collectVotes call.term votes responses)
    (hreq : call.request ≠ none) (hrec : call.received = none)
    (hresp : reply = none ∧ resp = ⟨call.term, false⟩
      ∨ ∃ k, reply = some k ∧ call.replies[k]? = some resp)
    (htake : System.takeVote (s.node call.caller) call.term votes responses resp
      = (s.node call.caller, l)) :
    s.step C (.receiveVote c reply) = some ((s.setLoop call.caller l).setVoteCall c
      { call with received := some resp }) := by
  refine (bind_at?_eq hc hid halive).trans ?_
  rw [System.receiveVote, hloop]
  dsimp only
  rw [if_pos ⟨rfl, hreq, hrec⟩]
  rcases hresp with ⟨rfl, rfl⟩ | ⟨k, rfl, hk⟩
  · dsimp only
    rw [htake, setNode_self]
  · dsimp only
    rw [hk]
    dsimp only
    rw [htake, setNode_self]

/-- A call fails. -/
theorem Calling.fail (h : Calling C n s (q :: todo))
    (hloop : s.loops n.id = .collectVotes n.currentTerm votes responses) :
    ∃ t, C.Reaches s t ∧ Calling C n t todo
      ∧ t.loops n.id = System.nextVote n n.currentTerm votes (responses + 1)
      ∧ t.replicas = s.replicas := by
  obtain ⟨c, hc⟩ := h.calls q List.mem_cons_self
  have hlt := (List.getElem?_eq_some_iff.1 hc).1
  have htake : System.takeVote (s.node n.id) n.currentTerm votes responses ⟨n.currentTerm, false⟩
      = (s.node n.id, System.nextVote n n.currentTerm votes (responses + 1)) := by
    rw [h.node]
    simp [System.takeVote, h.candidate]
  have hstep := step_receiveVote (s := s.setVoteCall c (.asked n q)) (C := C) none
    (List.getElem?_set_self hlt) h.mem h.alive hloop (by simp [VoteCall.asked]) rfl
    (.inl ⟨rfl, rfl⟩) htake
  refine ⟨_, (h.ask hc).trans (reaches_step hstep),
    h.rest hc ⟨_, List.set_set _⟩ h.alive h.node, ?_, rfl⟩
  exact Function.update_self ..

/-- No call is answered. -/
theorem Calling.fail_all (h : Calling C n s todo)
    (hloop : s.loops n.id = System.nextVote n n.currentTerm votes responses)
    (hlength : responses + todo.length = n.peers.length) :
    ∃ t, C.Reaches s t ∧ t.loops n.id = .select ∧ t.replicas = s.replicas := by
  induction todo generalizing s responses with
  | nil =>
    refine ⟨s, .refl C s, ?_, rfl⟩
    rw [hloop, System.nextVote, if_neg (by simpa using hlength.ge)]
  | cons q todo ih =>
    rw [List.length_cons] at hlength
    rw [System.nextVote, if_pos (by omega)] at hloop
    obtain ⟨t, ht, hcalling, hloop', hreplicas⟩ := h.fail hloop
    obtain ⟨u, hu, hselect, hreplicas'⟩ := ih hcalling hloop' (by omega)
    exact ⟨u, ht.trans hu, hselect, hreplicas'.trans hreplicas⟩

/-- The vote of a peer that is behind in terms and not ahead in its log. -/
theorem handleRequestVote_grants {m : Node} (req : RequestVoteRequest)
    (hterm : m.currentTerm < req.term)
    (hlog : m.isLogUpToDate req.lastLogIndex req.lastLogTerm = true) :
    ∃ m', m.handleRequestVote req = (m', ⟨req.term, true⟩) ∧ m'.currentTerm = req.term
      ∧ m'.log = m.log := by
  have hstep : (m.stepDownLocked req.term "").currentTerm = req.term := if_pos hterm
  have hup : (m.stepDownLocked req.term "").isLogUpToDate req.lastLogIndex req.lastLogTerm
      = true := hlog
  unfold Node.handleRequestVote
  rw [if_neg (by omega), if_pos hterm]
  dsimp only
  rw [hup, if_neg (by decide), if_pos (.inl rfl), hstep]
  exact ⟨_, rfl, rfl, rfl⟩

/-- A peer grants its vote. -/
theorem Calling.grant (h : Calling C n s (q :: todo))
    (hloop : s.loops n.id = .collectVotes n.currentTerm votes responses) (hq : q ∈ C.ids)
    (hne : q ≠ n.id) (hterm : (s.node q).currentTerm < n.currentTerm)
    (hlog : (s.node q).isLogUpToDate n.lastLogIndex n.lastLogTerm = true) :
    ∃ t, C.Reaches s t ∧ Calling C n t todo
      ∧ t.loops n.id = (if votes + 1 ≥ n.quorum then .becomeLeader
        else System.nextVote n n.currentTerm (votes + 1) (responses + 1))
      ∧ (t.node q).currentTerm = n.currentTerm ∧ (t.node q).log = (s.node q).log
      ∧ ∀ x ≠ q, t.replicas x = s.replicas x := by
  obtain ⟨c, hc⟩ := h.calls q List.mem_cons_self
  have hlt := (List.getElem?_eq_some_iff.1 hc).1
  obtain ⟨m, hm, hmterm, hmlog⟩ := handleRequestVote_grants (m := s.node q)
    ⟨n.currentTerm, n.id, n.lastLogIndex, n.lastLogTerm⟩ hterm hlog
  set call : VoteCall := { VoteCall.asked n q with replies := [⟨n.currentTerm, true⟩] } with hcall
  have hhandle : (s.setVoteCall c (.asked n q)).step C (.handleRequestVote c)
      = some ((s.setNode q m).setVoteCall c call) := by
    refine (bind_at?_eq (g := VoteCall.peer) (List.getElem?_set_self hlt) hq h.alive).trans ?_
    change some (((s.setVoteCall c (.asked n q)).setNode q
      ((s.node q).handleRequestVote _).1).setVoteCall c
        { VoteCall.asked n q with replies := [((s.node q).handleRequestVote _).2] }) = _
    rw [hm]
    simp only [System.setVoteCall, System.setNode, System.setReplica, List.set_set, hcall]
  have hnode : (s.setNode q m).node n.id = n := by
    rw [System.node_setNode, Function.update_of_ne hne.symm, h.node]
  have htake : System.takeVote ((s.setNode q m).node n.id) n.currentTerm votes responses
      ⟨n.currentTerm, true⟩ = ((s.setNode q m).node n.id, if votes + 1 ≥ n.quorum
        then .becomeLeader else System.nextVote n n.currentTerm (votes + 1) (responses + 1)) := by
    rw [hnode]
    unfold System.takeVote
    rw [if_neg (lt_irrefl _), if_neg (by simp [h.candidate]), if_pos rfl]
    split_ifs <;> rfl
  have hstep := step_receiveVote (s := (s.setNode q m).setVoteCall c call) (C := C)
    (some 0) (List.getElem?_set_self hlt) h.mem h.alive hloop
    (by simp [hcall, VoteCall.asked]) rfl (.inr ⟨0, rfl, rfl⟩) htake
  refine ⟨_, ((h.ask hc).trans (reaches_step hhandle)).trans (reaches_step hstep),
    h.rest hc ⟨_, List.set_set _⟩ h.alive hnode, Function.update_self .., ?_, ?_, fun x hx => ?_⟩
  · change ((s.setNode q m).node q).currentTerm = _
    rw [System.node_setNode, Function.update_self, hmterm]
  · change ((s.setNode q m).node q).log = _
    rw [System.node_setNode, Function.update_self, hmlog]
  · exact Function.update_of_ne hx ..

/-- A quorum grants its votes. -/
theorem Calling.grant_all (h : Calling C n s todo)
    (hloop : s.loops n.id = if votes ≥ n.quorum then .becomeLeader
      else System.nextVote n n.currentTerm votes responses)
    (hvotes : votes + todo.length = n.quorum) (hlength : responses + todo.length ≤ n.peers.length)
    (htodo : ∀ q ∈ todo, q ∈ C.ids ∧ q ≠ n.id ∧ (s.node q).currentTerm < n.currentTerm
      ∧ (s.node q).isLogUpToDate n.lastLogIndex n.lastLogTerm = true) :
    ∃ t, C.Reaches s t ∧ Calling C n t [] ∧ t.loops n.id = .becomeLeader
      ∧ (∀ q ∈ todo, (t.node q).currentTerm = n.currentTerm ∧ (t.node q).log = (s.node q).log)
      ∧ ∀ x ∉ todo, t.replicas x = s.replicas x := by
  induction todo generalizing s votes responses with
  | nil =>
    rw [if_pos (by simpa using hvotes.ge)] at hloop
    exact ⟨s, .refl C s, h, hloop, by simp, fun _ _ => rfl⟩
  | cons q todo ih =>
    rw [List.length_cons] at hvotes hlength
    rw [if_neg (by omega), System.nextVote, if_pos (by omega)] at hloop
    obtain ⟨hq, hne, hterm, hlog⟩ := htodo q List.mem_cons_self
    obtain ⟨t, ht, hcalling, hloop', hterm', hlog', hrest⟩ := h.grant hloop hq hne hterm hlog
    have hnot := (List.nodup_cons.1 h.nodup).1
    have hsame : ∀ p ∈ todo, t.node p = s.node p := fun p hp => by
      rw [System.node, hrest p (fun hpq => hnot (hpq ▸ hp)), System.node]
    obtain ⟨u, hu, hcalling', hleader, hdone, hrest'⟩ := ih hcalling hloop' (by omega) (by omega)
      fun p hp => by
        rw [hsame p hp]
        exact htodo p (List.mem_cons_of_mem q hp)
    refine ⟨u, ht.trans hu, hcalling', hleader, fun p hp => ?_, fun x hx => ?_⟩
    · rcases List.mem_cons.1 hp with rfl | hp
      · rw [System.node, hrest' p hnot]
        exact ⟨hterm', hlog'⟩
      · rw [← hsame p hp]
        exact hdone p hp
    · rw [List.mem_cons, not_or] at hx
      rw [hrest' x hx.2, hrest x hx.1]

/-- The candidate becomes leader. -/
theorem Calling.lead (h : Calling C n s todo) (hloop : s.loops n.id = .becomeLeader)
    (hleader : n.leaderID ≠ n.id) :
    ∃ t, C.Reaches s t ∧ t.node n.id = { n with state := .leader, leaderID := n.id }
      ∧ ∀ x ≠ n.id, t.replicas x = s.replicas x := by
  have hlead : (s.node n.id).becomeLeader
      = some { n with state := .leader, leaderID := n.id } := by
    rw [h.node, Node.becomeLeader, if_neg (not_not_intro h.candidate), if_neg hleader]
  have hstep : s.becomeLeader n.id = some (((s.setNode n.id
      { n with state := .leader, leaderID := n.id }).setLoop n.id .sendHeartbeats).record
        ⟨n.id, n.currentTerm, n.log⟩) := by
    rw [System.becomeLeader, hloop]
    dsimp only
    rw [hlead]
  refine ⟨_, reaches_step (a := .becomeLeader n.id) ((at?_eq h.mem h.alive _).trans hstep), ?_,
    fun x hx => Function.update_of_ne hx ..⟩
  change (s.setNode n.id _).node n.id = _
  rw [System.node_setNode, Function.update_self]

/-! ## Elections -/

variable {A : TermLog.Group String LogEntry}

/-- The state after the first critical section of `startElection`. -/
def System.standing (s : System) (id : String) : System :=
  { (s.setNode id (s.node id).startCandidacy).setLoop id
      (nextVote (s.node id).startCandidacy ((s.node id).currentTerm + 1) 1 0) with
    voteCalls := s.voteCalls ++ (s.node id).peers.map
      (VoteCall.spawn id ((s.node id).currentTerm + 1)) }

/-- A node that waits stands for election. -/
theorem Reached.stand (hR : Reached C s A) (hid : id ∈ C.ids) (hloop : s.loops id = .select)
    (hstate : (s.node id).state ≠ .leader) : C.Reaches s (s.standing id) := by
  have htimeout : s.step C (.onElectionTimeout id) = some (s.setLoop id .startElection) := by
    refine (at?_eq hid hR.sim.alive _).trans ?_
    rw [System.onElectionTimeout, hloop]
    exact if_neg hstate
  refine (reaches_step htimeout).trans (reaches_step (a := .startElection id) ?_)
  refine (at?_eq hid hR.sim.alive _).trans ?_
  rw [System.startElection, show (s.setLoop id .startElection).loops id = .startElection from
    Function.update_self ..]
  simp only [System.standing, System.setLoop, System.setNode, System.setReplica,
    Function.update_idem]
  rfl

theorem Reached.calling (hR : Reached C s A) (hid : id ∈ C.ids) :
    Calling C (s.node id).startCandidacy (s.standing id) (s.node id).peers := by
  have hn := hR.sim.follows.tracks id hid
  have hself : (s.node id).startCandidacy.id = id := hn.id_eq
  exact
    { mem := hself.symm ▸ hid
      alive := hR.sim.alive
      node := by
        rw [hself]
        change ((s.setNode id _).node id) = _
        rw [System.node_setNode, Function.update_self]
      candidate := rfl
      nodup := hn.peers_eq ▸ C.peers_nodup id hid
      calls := fun q hq => by
        obtain ⟨c, hc⟩ := List.mem_iff_getElem?.1 hq
        refine ⟨s.voteCalls.length + c, ?_⟩
        rw [System.standing, List.getElem?_append_right (by omega), Nat.add_sub_cancel_left,
          List.getElem?_map, hc, hself]
        rfl }

/-- An election without answers leaves the node in the next term. -/
theorem Reached.raise (hR : Reached C s A) (hid : id ∈ C.ids) (hloop : s.loops id = .select)
    (hstate : (s.node id).state ≠ .leader) :
    ∃ t, C.Reaches s t ∧ t.loops id = .select ∧ (t.node id).state ≠ .leader
      ∧ (t.node id).currentTerm = (s.node id).currentTerm + 1
      ∧ (t.node id).log = (s.node id).log ∧ ∀ x ≠ id, t.replicas x = s.replicas x := by
  have hself : (s.node id).startCandidacy.id = id := (hR.sim.follows.tracks id hid).id_eq
  have hcalling := hR.calling hid
  have hfirst : (s.standing id).loops (s.node id).startCandidacy.id
      = System.nextVote (s.node id).startCandidacy (s.node id).startCandidacy.currentTerm 1 0 := by
    rw [hself]
    exact Function.update_self ..
  obtain ⟨t, ht, hselect, hreplicas⟩ := hcalling.fail_all hfirst (Nat.zero_add _)
  have hnode : t.node id = (s.node id).startCandidacy := by
    rw [System.node, hreplicas]
    exact (congrArg _ hself.symm).trans hcalling.node
  rw [hself] at hselect
  refine ⟨t, (hR.stand hid hloop hstate).trans ht, hselect, ?_, ?_, ?_, fun x hx => ?_⟩
  · rw [hnode]
    simp [Node.startCandidacy]
  · rw [hnode]
    rfl
  · rw [hnode]
    rfl
  · rw [hreplicas]
    exact Function.update_of_ne hx ..

theorem Reached.reaches (hR : Reached C s A) (h : C.Reaches s t) : ∃ B, Reached C t B := by
  obtain ⟨as, has⟩ := h
  obtain ⟨B, -, hR'⟩ := hR.run has
  exact ⟨B, hR'⟩

/-- Elections without answers, one after the other. -/
theorem Reached.catch_up (hR : Reached C s A) (hid : id ∈ C.ids) (hloop : s.loops id = .select)
    (hstate : (s.node id).state ≠ .leader) (k : ℕ) :
    ∃ t, C.Reaches s t ∧ t.loops id = .select ∧ (t.node id).state ≠ .leader
      ∧ (t.node id).currentTerm = (s.node id).currentTerm + k
      ∧ (t.node id).log = (s.node id).log ∧ ∀ x ≠ id, t.replicas x = s.replicas x := by
  induction k with
  | zero => exact ⟨s, .refl C s, hloop, hstate, rfl, rfl, fun _ _ => rfl⟩
  | succ k ih =>
    obtain ⟨t, ht, hloop', hstate', hterm, hlog, hrest⟩ := ih
    obtain ⟨B, hR'⟩ := hR.reaches ht
    obtain ⟨u, hu, hloop'', hstate'', hterm', hlog', hrest'⟩ := hR'.raise hid hloop' hstate'
    exact ⟨u, ht.trans hu, hloop'', hstate'', by omega, hlog'.trans hlog,
      fun x hx => (hrest' x hx).trans (hrest x hx)⟩

/-- An election in a term that is new to the voters. -/
theorem Reached.win (hR : Reached C s A) (hid : id ∈ C.ids) (hloop : s.loops id = .select)
    (hstate : (s.node id).state ≠ .leader) (hC : 2 ≤ C.ids.length) (hnodup : todo.Nodup)
    (hlength : todo.length + 1 = (s.node id).quorum)
    (htodo : ∀ q ∈ todo, q ∈ C.ids ∧ q ≠ id
      ∧ (s.node q).currentTerm ≤ (s.node id).currentTerm
      ∧ (s.node q).isLogUpToDate (s.node id).lastLogIndex (s.node id).lastLogTerm = true) :
    ∃ t, C.Reaches s t ∧ (t.node id).state = .leader ∧ (t.node id).log = (s.node id).log
      ∧ (∀ q ∈ todo, (t.node q).currentTerm = (t.node id).currentTerm
        ∧ (t.node q).log = (s.node q).log)
      ∧ ∀ x ≠ id, x ∉ todo → t.replicas x = s.replicas x := by
  have hn := hR.sim.follows.tracks id hid
  have hpeers := C.ids_length hid
  rw [← hR.sim.peers_eq hid] at hpeers
  have hquorum : (s.node id).quorum = ((s.node id).peers.length + 1) / 2 + 1 := rfl
  obtain ⟨n, hdef⟩ : ∃ n, n = (s.node id).startCandidacy := ⟨_, rfl⟩
  have hself : n.id = id := by
    rw [hdef]
    exact hn.id_eq
  have hother : ∀ q ≠ id, (s.standing id).replicas q = s.replicas q :=
    fun q hq => Function.update_of_ne hq ..
  have hcalling : Calling C n (s.standing id) todo :=
    { hdef ▸ hR.calling hid with
      nodup := hnodup
      calls := fun q hq => by
        obtain ⟨hq, hne, -⟩ := htodo q hq
        rw [hdef]
        refine (hR.calling hid).calls q ?_
        rw [hn.peers_eq, C.mem_peers id hid]
        exact ⟨hq, hne⟩ }
  have hfirst : (s.standing id).loops n.id = if 1 ≥ n.quorum then .becomeLeader
      else System.nextVote n n.currentTerm 1 0 := by
    rw [hself, hdef]
    refine (Function.update_self ..).trans (if_neg ?_).symm
    change ¬ 1 ≥ (s.node id).quorum
    omega
  obtain ⟨t, ht, hdone, hleader, hvoters, hrest⟩ := hcalling.grant_all hfirst
    (by
      rw [hdef]
      change 1 + todo.length = (s.node id).quorum
      omega)
    (by
      rw [hdef]
      change 0 + todo.length ≤ (s.node id).peers.length
      omega)
    (fun q hq => by
      obtain ⟨hq, hne, hterm, hlog⟩ := htodo q hq
      rw [hself, System.node, hother q hne, hdef]
      exact ⟨hq, hne, Nat.lt_succ_of_le hterm, hlog⟩)
  obtain ⟨u, hu, hnode, hrest'⟩ := hdone.lead hleader (by
    rw [hself, hdef]
    exact (C.id_ne_empty hid).symm)
  rw [hself] at hnode hrest'
  refine ⟨u, ((hR.stand hid hloop hstate).trans ht).trans hu, by rw [hnode], ?_, fun q hq => ?_,
    fun x hx hxt => ?_⟩
  · rw [hnode, hdef]
    rfl
  · obtain ⟨-, hne, -⟩ := htodo q hq
    obtain ⟨hterm, hlog⟩ := hvoters q hq
    rw [System.node, hrest' q hne, hnode]
    refine ⟨hterm, hlog.trans ?_⟩
    rw [System.node, hother q hne]
    rfl
  · rw [hrest' x hx, hrest x hxt, hother x hx]

/-- The node first catches up with the terms of the voters. -/
theorem Reached.elect (hR : Reached C s A) (hid : id ∈ C.ids) (hloop : s.loops id = .select)
    (hstate : (s.node id).state ≠ .leader) (hC : 2 ≤ C.ids.length) (hnodup : todo.Nodup)
    (hlength : todo.length + 1 = (s.node id).quorum)
    (htodo : ∀ q ∈ todo, q ∈ C.ids ∧ q ≠ id
      ∧ (s.node q).isLogUpToDate (s.node id).lastLogIndex (s.node id).lastLogTerm = true) :
    ∃ t, C.Reaches s t ∧ (t.node id).state = .leader
      ∧ (∀ q ∈ todo, (t.node q).currentTerm = (t.node id).currentTerm)
      ∧ ∀ x, (t.node x).log = (s.node x).log := by
  obtain ⟨t, ht, hloop', hstate', hterm, hlog, hrest⟩ := hR.catch_up hid hloop hstate
    (todo.toFinset.sup fun q => (s.node q).currentTerm)
  obtain ⟨B, hR'⟩ := hR.reaches ht
  have hsame : ∀ q ≠ id, t.node q = s.node q := fun q hq => by
    rw [System.node, hrest q hq, System.node]
  obtain ⟨u, hu, hleader, hlog', hvoters, hrest'⟩ := hR'.win hid hloop' hstate' hC
    hnodup (by rw [hlength, hR'.sim.quorum_eq hid, hR.sim.quorum_eq hid]) fun q hq => by
      obtain ⟨hmem, hne, hup⟩ := htodo q hq
      have hle := Finset.le_sup (f := fun q => (s.node q).currentTerm) (List.mem_toFinset.2 hq)
      refine ⟨hmem, hne, ?_, ?_⟩
      · rw [hsame q hne, hterm]
        exact hle.trans (Nat.le_add_left _ _)
      · rw [hsame q hne, Node.lastLogIndex, Node.lastLogTerm, hlog]
        exact hup
  refine ⟨u, ht.trans hu, hleader, fun q hq => (hvoters q hq).1, fun x => ?_⟩
  by_cases hx : x = id
  · rw [hx, hlog', hlog]
  by_cases hxt : x ∈ todo
  · rw [(hvoters x hxt).2, hsame x hx]
  · rw [System.node, hrest' x hx hxt]
    exact congrArg Node.log (hsame x hx)

variable {as : List Action} {F : Finset String}

/-- As many nodes as a quorum needs besides the candidate. -/
theorem exists_voters (hcard : n.quorum ≤ F.card + 1) :
    ∃ todo : List String, todo.Nodup ∧ todo.length + 1 = n.quorum ∧ ∀ q ∈ todo, q ∈ F := by
  obtain ⟨G, hG, hGcard⟩ := Finset.exists_subset_card_eq (show n.quorum - 1 ≤ F.card by omega)
  have hpos : 0 < n.quorum := Nat.succ_pos _
  refine ⟨G.toList, Finset.nodup_toList G, ?_, fun q hq => hG (Finset.mem_toList.1 hq)⟩
  rw [Finset.length_toList, hGcard]
  omega

/-- In whatever state the cluster is, a node that waits in `select` and does not lead becomes leader
in some continuation, if with it there is a quorum of nodes whose logs are not more up to date than
its own. All logs stay as they are. -/
theorem electable (hs : C.Run C.init as s) (hC : 2 ≤ C.ids.length) (hid : id ∈ C.ids)
    (hloop : s.loops id = .select) (hstate : (s.node id).state ≠ .leader)
    (hcard : (s.node id).quorum ≤ F.card + 1)
    (hF : ∀ q ∈ F, q ∈ C.ids ∧ q ≠ id
      ∧ (s.node q).isLogUpToDate (s.node id).lastLogIndex (s.node id).lastLogTerm = true) :
    ∃ bs t, C.Run s bs t ∧ (t.node id).state = .leader
      ∧ ∀ x, (t.node x).log = (s.node x).log := by
  obtain ⟨A, hR⟩ := reached hs
  obtain ⟨todo, hnodup, hlength, htodo⟩ := exists_voters hcard
  obtain ⟨t, ⟨bs, hbs⟩, hleader, -, hlogs⟩ := hR.elect hid hloop hstate hC hnodup hlength
    fun q hq => hF q (htodo q hq)
  exact ⟨bs, t, hbs, hleader, hlogs⟩

/-- `a` leads, with an entry that no one else has, and `b` can be elected by `c`. -/
theorem electable_trio : ∃ s, trio.Run trio.init (electBy "a" 0 ++ [.propose "a" "x"]) s
    ∧ (s.node "a").state = .leader
    ∧ ∃ bs t, trio.Run s bs t ∧ (t.node "b").state = .leader
      ∧ ∀ x, (t.node x).log = (s.node x).log := by
  obtain ⟨s, hs, hp⟩ : ∃ s, trio.Run trio.init _ s ∧ _ :=
    Runs.exists_run (electBy "a" 0 ++ [.propose "a" "x"]) (fun s => (s.node "a").state = .leader
      ∧ s.loops "b" = .select ∧ (s.node "b").state ≠ .leader ∧ (s.node "b").quorum = 2
      ∧ (s.node "c").isLogUpToDate (s.node "b").lastLogIndex (s.node "b").lastLogTerm = true)
      (by decide +kernel)
  simp only [decide_eq_true_eq] at hp
  obtain ⟨hleader, hloop, hstate, hquorum, hup⟩ := hp
  refine ⟨s, hs, hleader, electable (F := {"c"}) hs (by decide) (by decide) hloop hstate
    (by rw [hquorum]; decide) fun q hq => ?_⟩
  rw [Finset.mem_singleton.1 hq]
  exact ⟨by decide, by decide, hup⟩

end

end EdgeSim.Raft
