import EdgeSim.Raft.Effect
import EdgeSim.Raft.Safety

/-!
# What is committed

`commitIndex` travels by two routes: a `Propose` call that has its quorum sets it, and requests
carry it to the followers, heartbeats and entries alike, however late they arrive. Whatever it is
at a node, some `Propose` call with an index at least as high had a quorum. Collecting up to it
stays within the log.
-/

namespace EdgeSim.Raft

open TermLog TermLog.Group

/-! ## Collecting -/

/-- The node as `collectCommittedLocked` finds it, in a step that calls it. -/
def System.collecting (s : System) : Action → Option Node
  | .handleAppendEntries c =>
    s.appendCalls[c]?.bind fun call => call.request.bind fun req =>
      match (s.node call.peer).receiveEntries req with
      | .returned _ _ => none
      | .collecting n => some n
  | .receiveAppend c (some k) =>
    s.appendCalls[c]?.bind fun call => call.replies[k]?.bind fun a =>
      call.proposal.bind fun p => s.proposals[p]?.bind fun P =>
        if a.resp.term ≤ P.entry.term ∧ a.resp.success = true
            ∧ P.acks + 1 ≥ (s.node P.node).quorum then
          (s.node P.node).ackCommit P.newIndex
        else none
  | _ => none

section

variable {C : Cluster} {s s' : System} {A : Group String LogEntry} {as : List Action} {a : Action}

/-- A `Propose` call that has its quorum finds its entry in the log, whatever has become of its
node. -/
theorem Reached.ackCommit_bound (hR : Reached C s A) {c k p : ℕ} {call : AppendCall}
    {ans : Answer} {P : Proposal} {n : Node} (hc : s.appendCalls[c]? = some call)
    (hans : call.replies[k]? = some ans) (hp : call.proposal = some p)
    (hP : s.proposals[p]? = some P) (hrec : call.received = none)
    (hsucc : ans.resp.success = true) (hq : P.acks + 1 ≥ (s.node P.node).quorum)
    (hn : (s.node P.node).ackCommit P.newIndex = some n) : n.commitIndex ≤ n.log.length := by
  have hmem := List.mem_of_getElem? hc
  have hPm := List.mem_of_getElem? hP
  obtain ⟨req, hreq, hok⟩ := (hR.sim.calls call hmem).replies ans (List.mem_of_getElem? hans)
  have hst := (hR.sim.stored hmem hp hP hreq hok hsucc).1
  rw [hR.sim.quorum_eq (hR.sim.proposals P hPm).node_mem] at hq
  have hlen :=
    (hR.sim.newIndex_le hR.inv hPm (hR.sim.acknowledged hR.tally hc hp hrec hP hq hst)).2
  unfold Node.ackCommit at hn
  split_ifs at hn
  simp only [Option.some.injEq] at hn
  subst hn
  exact hlen

/-- No node ever indexes its log out of range. -/
theorem collecting_in_bounds (hs : C.Run C.init as s) (h : s.step C a = some s') :
    s'.panicked = [] ∧ ∀ n, s.collecting a = some n → n.lastApplied < n.commitIndex →
      n.commitIndex ≤ n.log.length := by
  obtain ⟨A, hR⟩ := reached hs
  obtain ⟨B, -, hR'⟩ := hR.step h
  refine ⟨hR'.sim.alive, fun n hn hlt => ?_⟩
  unfold System.collecting at hn
  split at hn
  · rename_i c
    obtain ⟨call, hc, hn⟩ := Option.bind_eq_some_iff.1 hn
    obtain ⟨req, hreq, hn⟩ := Option.bind_eq_some_iff.1 hn
    have hok := hR.sim.calls call (List.mem_of_getElem? hc)
    have hap := hR.sim.applied _ (C.mem_of_peer hok.caller_mem hok.peer_mem).1
    rcases Node.receiveEntries_cases (n := s.node call.peer) req with
      ⟨-, hr⟩ | ⟨-, -, -, hr⟩ | ⟨-, -, hr⟩ <;> rw [hr] at hn <;> cases hn
    exact Node.accept_bound hap req hlt
  · rename_i c k
    obtain ⟨call, hc, hn⟩ := Option.bind_eq_some_iff.1 hn
    obtain ⟨ans, hans, hn⟩ := Option.bind_eq_some_iff.1 hn
    obtain ⟨p, hp, hn⟩ := Option.bind_eq_some_iff.1 hn
    obtain ⟨P, hP, hn⟩ := Option.bind_eq_some_iff.1 hn
    split_ifs at hn with hcond
    obtain ⟨call', o, ho⟩ := outcomeTaken_of_step h
    obtain rfl := Option.some.inj (hc.symm.trans ho.call_eq)
    exact hR.ackCommit_bound hc hans hp hP ho.received_eq hcond.2.1 hcond.2.2 hn
  · cases hn

theorem collecting_in_bounds_trio : ∃ s s' n, trio.Run trio.init
      (electBy "a" 0 ++ [.propose "a" "x", .sendAppendEntries 2, .handleAppendEntries 2,
        .finish "b" 0]) s
    ∧ s.step trio (.receiveAppend 2 (some 0)) = some s'
    ∧ s.collecting (.receiveAppend 2 (some 0)) = some n
    ∧ n.lastApplied < n.commitIndex ∧ n.commitIndex ≤ n.log.length := by
  obtain ⟨s, hs, hp⟩ : ∃ s, trio.Run trio.init _ s ∧ _ :=
    Runs.exists_run (electBy "a" 0 ++ [.propose "a" "x", .sendAppendEntries 2,
        .handleAppendEntries 2, .finish "b" 0])
      (fun s => (s.step trio (.receiveAppend 2 (some 0))).isSome ∧
        (s.collecting (.receiveAppend 2 (some 0))).any fun n => n.lastApplied < n.commitIndex)
      (by decide +kernel)
  simp only [decide_eq_true_eq] at hp
  obtain ⟨s', hs'⟩ := Option.isSome_iff_exists.1 hp.1
  obtain ⟨n, hn, hlt⟩ := (Option.any_eq_true _ _).1 hp.2
  simp only [decide_eq_true_eq] at hlt
  exact ⟨s, s', n, hs, hs', hn, hlt, (collecting_in_bounds hs hs').2 n hn hlt⟩

/-! ## No commit without a quorum -/

/-- Some `Propose` call has returned `nil` with an index of at least `i`. -/
def Backed (s : System) (i : ℕ) : Prop :=
  i = 0 ∨ ∃ (p c : ℕ) (P : Proposal), s.proposals[p]? = some P ∧ P.ended = some (.ok, c)
    ∧ i ≤ P.newIndex

theorem Backed.mono {i j : ℕ} (hij : i ≤ j) (h : Backed s j) : Backed s i := by
  rcases h with rfl | ⟨p, c, P, hP, hend, hj⟩
  · exact .inl (by omega)
  · exact .inr ⟨p, c, P, hP, hend, hij.trans hj⟩

theorem Backed.step {i : ℕ} (h : Backed s i) (he : Effect s a s') : Backed s' i := by
  rcases h with rfl | ⟨p, c, P, hP, hend, hi⟩
  · exact .inl rfl
  · exact .inr ⟨p, c, P, he.ended p P hP (by simp [hend]), hend, hi⟩

/-- The commit indices of the nodes, and those in flight. -/
structure CommitsBacked (C : Cluster) (s : System) : Prop where
  nodes : ∀ id ∈ C.ids, Backed s (s.node id).commitIndex
  requests : ∀ call ∈ s.appendCalls, ∀ req, call.request = some req → Backed s req.leaderCommit

theorem commitsBacked_init (C : Cluster) : CommitsBacked C C.init where
  nodes id hid := by
    refine .inl ?_
    change (C.node id).commitIndex = 0
    rw [C.node_eq hid]
  requests call hc := by simp [Cluster.init] at hc

theorem raised_le (i leaderCommit : ℕ) (log : List LogEntry) :
    Node.raised i leaderCommit log = i ∨ Node.raised i leaderCommit log ≤ leaderCommit := by
  unfold Node.raised
  split_ifs
  · exact .inr (min_le_left _ _)
  · exact .inl rfl

theorem Local.backed {id : String} (hl : Local s a s' id) (he : Effect s a s')
    (h : CommitsBacked C s) (hid : id ∈ C.ids) : Backed s' (s'.node id).commitIndex := by
  have hold : Backed s' (s.node id).commitIndex := (h.nodes id hid).step he
  cases hl with
  | stay h' =>
    rw [System.node, h']
    exact hold
  | quiet hx h' =>
    rw [System.node, (Replica.quiet_step hx h').1]
    exact hold
  | @handle c call req ha hc hpeer hreq h' =>
    obtain ⟨n, es, resp, hn, hr⟩ := Replica.handleAppendEntries_eq h'
    rw [System.node, hr]
    have hreq' := (h.requests call (List.mem_of_getElem? hc) req hreq).step he
    rcases Node.handleAppendEntries_cases hn with
      ⟨-, rfl, -⟩ | ⟨-, -, -, rfl, -⟩ | ⟨-, -, -, rfl, -⟩
    · exact hold
    · exact hold.mono (by simp [Replica.collect, System.node])
    · rcases raised_le (s.node id).commitIndex req.leaderCommit
        (Node.appendFrom (s.node id).log req.prevLogIndex req.entries) with hr | hr
      · exact hold.mono hr.le
      · exact hreq'.mono hr
  | @commit p c P hP hnode hend h' =>
    obtain ⟨n, es, hn, hr⟩ := Replica.commitProposal_eq h'
    rw [System.node, hr]
    rcases Node.commitProposal_cases hn with ⟨-, rfl, -⟩ | ⟨-, -, rfl⟩
    · exact hold
    · exact .inr ⟨p, c, P, hP, hend, le_rfl⟩

theorem commitsBacked_step (hR : Reached C s A) (h : CommitsBacked C s)
    (hstep : s.step C a = some s') : CommitsBacked C s' := by
  obtain ⟨B, -, hR'⟩ := hR.step hstep
  have he := step_effect hstep hR'.sim.alive
  refine ⟨fun id hid => (he.nodes id).backed he h hid, fun call hc req hreq => ?_⟩
  rcases he.requests call hc req hreq with ⟨call', hc', -, hreq'⟩ | heq
  · exact (h.requests call' hc' req hreq').step he
  · rw [heq]
    exact (h.nodes _ (hR'.sim.calls call hc).caller_mem).step he

/-- Whatever is committed at a node, a `Propose` call with an index at least as high had received
`Success` from `quorum() - 1` peers, which had its entry when they answered. -/
theorem commit_has_quorum (hs : C.Run C.init as s) {id : String} (hid : id ∈ C.ids) {i : ℕ}
    (hpos : 0 < i) (hi : i ≤ (s.node id).commitIndex) :
    ∃ (p : ℕ) (P : Proposal) (F : Finset String), s.proposals[p]? = some P ∧ i ≤ P.newIndex
      ∧ (s.node P.node).quorum - 1 ≤ F.card
      ∧ ∀ q ∈ F, q ∈ (s.node P.node).peers ∧ ∃ call ∈ s.appendCalls, call.proposal = some p
        ∧ call.peer = q ∧ ∃ a, call.received = some (.reply a) ∧ a.resp.success = true
          ∧ a.left.log[P.newIndex - 1]? = some P.entry := by
  obtain ⟨⟨A, hR⟩, hB⟩ := hs.invariant
    (I := fun s => (∃ A, Reached C s A) ∧ CommitsBacked C s)
    ⟨⟨_, reached_init C⟩, commitsBacked_init C⟩ (by
      rintro t a u ⟨⟨A, hR⟩, hB⟩ - hstep
      obtain ⟨B, -, hR'⟩ := hR.step hstep
      exact ⟨⟨B, hR'⟩, commitsBacked_step hR hB hstep⟩)
  rcases (hB.nodes id hid).mono hi with rfl | ⟨p, c, P, hP, hend, hle⟩
  · omega
  obtain ⟨F, hcard, hF⟩ := hR.ackers hP hend
  refine ⟨p, P, F, hP, hle, hcard, fun q hq => ?_⟩
  obtain ⟨call, hc, hcnt, rfl⟩ := acked_iff.1 (hF q hq)
  obtain ⟨hpeer, -, a, ha, hsucc, hget⟩ := hR.sim.counted_stored hc hcnt hP
  have hok := hR.sim.proposals P (List.mem_of_getElem? hP)
  simp only [AppendCall.counted, Bool.and_eq_true, decide_eq_true_eq] at hcnt
  rw [hok.newIndex_eq, (hR.sim.follows.tracks _ hok.node_mem).peers_eq]
  exact ⟨hpeer, call, hc, hcnt.1, rfl, a, ha, hsucc, hget⟩

theorem commit_has_quorum_trio : ∃ s, trio.Run trio.init
      (electBy "a" 0 ++ [.propose "a" "x"] ++ exchange "b" 2) s
    ∧ (s.node "a").commitIndex = 1
    ∧ ∃ (p : ℕ) (P : Proposal), s.proposals[p]? = some P ∧ 1 ≤ P.newIndex := by
  obtain ⟨s, hs, hp⟩ : ∃ s, trio.Run trio.init _ s ∧ _ :=
    Runs.exists_run (electBy "a" 0 ++ [.propose "a" "x"] ++ exchange "b" 2)
      (fun s => (s.node "a").commitIndex = 1) (by decide +kernel)
  simp only [decide_eq_true_eq] at hp
  obtain ⟨p, P, -, hP, hle, -⟩ :=
    commit_has_quorum hs (show "a" ∈ trio.ids by decide) Nat.one_pos hp.ge
  exact ⟨s, hs, hp, p, P, hP, hle⟩

end

end EdgeSim.Raft
