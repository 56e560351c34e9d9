import EdgeSim.Raft.Refinement

/-!
# Elections and logs of a cluster

One leader a term, logs that agree below any common entry, and leaders of later terms that start
with every entry a quorum has acknowledged. Each is a fact about the group that the state follows.
-/

namespace EdgeSim.Raft

open Lists TermLog TermLog.Group

/-! ## A cluster of three -/

/-- The nodes `a`, `b` and `c`. -/
def trio : Cluster where
  ids := ["a", "b", "c"]
  config id := ⟨id, ["a", "b", "c"].filter (· ≠ id), true, 150, 300, 50⟩
  node id :=
    { id, peers := ["a", "b", "c"].filter (· ≠ id), currentTerm := 0, votedFor := ""
      leaderID := "", state := .follower, log := [], commitIndex := 0, lastApplied := 0 }
  nodup := by decide
  config_id _ _ := rfl
  created := by decide
  peers_nodup := by decide
  mem_peers id _ p := by simp

/-- `id` starts an election and the vote of its call `c` makes it leader. -/
def electBy (id : String) (c : ℕ) : List Action :=
  [.onElectionTimeout id, .startElection id, .readLastLogIndex c, .sendRequestVote c,
    .handleRequestVote c, .receiveVote c (some 0), .becomeLeader id, .sendHeartbeats id]

/-- The request of call `c` goes to `peer`, which answers, and the answer is taken. -/
def exchange (peer : String) (c : ℕ) : List Action :=
  [.sendAppendEntries c, .handleAppendEntries c, .finish peer 0, .receiveAppend c (some 0)]

section

variable {C : Cluster} {s : System} {A : Group String LogEntry} {as : List Action}

/-! ## Elections -/

theorem Reached.leader_led (hR : Reached C s A) {id : String} (hid : id ∈ C.ids)
    (h : (s.node id).state = .leader) : ∃ l, A.led id (s.node id).currentTerm = some l :=
  (hR.sim.follows.tracks id hid).leader.1 h

/-- At most one node is ever leader of a term, be it at the same time or later. -/
theorem election_safety {t : System} {bs : List Action} (hs : C.Run C.init as s)
    (ht : C.Run s bs t) {v w : String} (hv : v ∈ C.ids) (hw : w ∈ C.ids)
    (hlv : (s.node v).state = .leader) (hlw : (t.node w).state = .leader)
    (hterm : (s.node v).currentTerm = (t.node w).currentTerm) : v = w := by
  obtain ⟨A, hR⟩ := reached hs
  obtain ⟨B, hB, hR'⟩ := hR.run ht
  obtain ⟨l, hl⟩ := hR.leader_led hv hlv
  obtain ⟨l', hl'⟩ := hR'.leader_led hw hlw
  rw [← hterm] at hl'
  exact hR'.inv.leader_unique ((steps_inv hR.inv hB).2.led hl) hl'

theorem election_safety_trio : ∃ s, trio.Run trio.init (electBy "a" 0) s
    ∧ (s.node "a").state = .leader ∧ ∀ t bs, trio.Run s bs t → ∀ w ∈ trio.ids,
      (t.node w).state = .leader → (t.node w).currentTerm = 1 → "a" = w := by
  obtain ⟨s, hs, hp⟩ : ∃ s, trio.Run trio.init (electBy "a" 0) s ∧ _ :=
    Runs.exists_run _ (fun s => (s.node "a").state = .leader ∧ (s.node "a").currentTerm = 1)
      (by decide +kernel)
  simp only [decide_eq_true_eq] at hp
  refine ⟨s, hs, hp.1, fun t bs ht w hw hl hterm => ?_⟩
  exact election_safety hs ht (by decide) hw hp.1 hl (by rw [hp.2, hterm])

/-- A `leaderID` names the leader of the node's term. -/
theorem leader_agreement (hs : C.Run C.init as s) :
    (∀ id ∈ C.ids, (s.node id).leaderID ≠ "" →
      ∃ log, ⟨(s.node id).leaderID, (s.node id).currentTerm, log⟩ ∈ s.elections)
    ∧ (∀ v ∈ C.ids, ∀ w ∈ C.ids, (s.node v).currentTerm = (s.node w).currentTerm →
      (s.node v).leaderID ≠ "" → (s.node w).leaderID ≠ "" →
        (s.node v).leaderID = (s.node w).leaderID)
    ∧ ∀ id ∈ C.ids, (s.node id).state = .leader ↔ (s.node id).leaderID = (s.node id).id := by
  obtain ⟨A, hR⟩ := reached hs
  have htracks := hR.sim.follows.tracks
  refine ⟨fun id hid hne => ?_, fun v hv w hw hterm hnv hnw => ?_, fun id hid => ?_⟩
  · obtain ⟨l, hl⟩ := (htracks id hid).leaderID_led hne
    exact ⟨l, hR.sim.elections.1 hl⟩
  · obtain ⟨l, hl⟩ := (htracks v hv).leaderID_led hnv
    obtain ⟨l', hl'⟩ := (htracks w hw).leaderID_led hnw
    rw [← hterm] at hl'
    exact hR.inv.leader_unique hl hl'
  · rw [(htracks id hid).id_eq]
    exact (htracks id hid).leaderID_self

theorem leader_agreement_trio : ∃ s, trio.Run trio.init
      (electBy "a" 0 ++ [.readPrevLogIndex 0, .readPrevLogTerm 0] ++ exchange "b" 0) s
    ∧ (s.node "b").leaderID = "a" ∧ ∃ log, ⟨"a", (s.node "b").currentTerm, log⟩ ∈ s.elections := by
  obtain ⟨s, hs, hp⟩ : ∃ s, trio.Run trio.init _ s ∧ _ :=
    Runs.exists_run
      (electBy "a" 0 ++ [.readPrevLogIndex 0, .readPrevLogTerm 0] ++ exchange "b" 0)
      (fun s => (s.node "b").leaderID = "a") (by decide +kernel)
  simp only [decide_eq_true_eq] at hp
  refine ⟨s, hs, hp, ?_⟩
  have := (leader_agreement hs).1 "b" (by decide) (by rw [hp]; decide)
  rwa [hp] at this

/-! ## Logs -/

theorem cluster_log_matching (hs : C.Run C.init as s) {v w : String} (hv : v ∈ C.ids)
    (hw : w ∈ C.ids) {k : ℕ} {e e' : LogEntry} (he : (s.node v).log[k]? = some e)
    (he' : (s.node w).log[k]? = some e') (hterm : e.term = e'.term) :
    ∀ j ≤ k, (s.node v).log[j]? = (s.node w).log[j]? := by
  obtain ⟨A, hR⟩ := reached hs
  have hlv := (hR.sim.follows.tracks v hv).log_eq
  have hlw := (hR.sim.follows.tracks w hw).log_eq
  have htake := log_matching hR.inv (hlv ▸ hR.inv.wf_log v) (hlw ▸ hR.inv.wf_log w) he he' hterm
  intro j hj
  rw [← List.getElem?_take_of_lt (show j < k + 1 by omega), htake,
    List.getElem?_take_of_lt (by omega)]

theorem cluster_log_matching_trio : ∃ s, trio.Run trio.init
      (electBy "a" 0 ++ [.propose "a" "x"] ++ exchange "b" 2) s
    ∧ (s.node "a").log[0]? = some ⟨1, "x"⟩
    ∧ ∀ j ≤ 0, (s.node "a").log[j]? = (s.node "b").log[j]? := by
  obtain ⟨s, hs, hp⟩ : ∃ s, trio.Run trio.init _ s ∧ _ :=
    Runs.exists_run (electBy "a" 0 ++ [.propose "a" "x"] ++ exchange "b" 2)
      (fun s => (s.node "a").log = [⟨1, "x"⟩] ∧ (s.node "b").log = [⟨1, "x"⟩])
      (by decide +kernel)
  simp only [decide_eq_true_eq] at hp
  have ha : (s.node "a").log[0]? = some ⟨1, "x"⟩ := by rw [hp.1]; rfl
  have hb : (s.node "b").log[0]? = some ⟨1, "x"⟩ := by rw [hp.2]; rfl
  exact ⟨s, hs, ha, cluster_log_matching hs (by decide) (by decide) ha hb rfl⟩

/-! ## Acknowledged entries -/

/-- The `Propose` call `p` received `Success` from `peer`. -/
def Acked (s : System) (p : ℕ) (peer : String) : Prop :=
  ∃ call ∈ s.appendCalls, call.proposal = some p ∧ call.peer = peer
    ∧ ∃ a, call.received = some (.reply a) ∧ a.resp.success = true

theorem acked_iff {p : ℕ} {q : String} :
    Acked s p q ↔ ∃ call ∈ s.appendCalls, call.counted p = true ∧ call.peer = q := by
  refine exists_congr fun call => and_congr_right fun _ => ?_
  simp only [AppendCall.counted, Bool.and_eq_true, decide_eq_true_eq]
  constructor
  · rintro ⟨hp, hq, a, ha, hsucc⟩
    rw [ha]
    exact ⟨⟨hp, hsucc⟩, hq⟩
  · rintro ⟨⟨hp, hsucc⟩, hq⟩
    split at hsucc
    · rename_i a ha
      exact ⟨hp, hq, a, ha, hsucc⟩
    · cases hsucc

instance (s : System) (p : ℕ) (q : String) : Decidable (Acked s p q) :=
  decidable_of_iff _ acked_iff.symm

variable {p : ℕ} {P : Proposal}

theorem Reached.acked (hR : Reached C s A) (hP : s.proposals[p]? = some P) {F : Finset String}
    (hF : ∀ q ∈ F, Acked s p q) (hcard : (s.node P.node).quorum - 1 ≤ F.card) :
    QuorumStored C.quorums A P.entry.term P.newIndex := by
  have hPm := List.mem_of_getElem? hP
  refine hR.sim.quorumStored hPm (F := F) (fun q hq => ?_) ?_
  · obtain ⟨call, hc, hcnt, rfl⟩ := acked_iff.1 (hF q hq)
    obtain ⟨h1, h2, -⟩ := hR.sim.counted_stored hc hcnt hP
    exact ⟨h1, h2⟩
  · rw [← hR.sim.quorum_eq (hR.sim.proposals P hPm).node_mem]
    omega

/-- A proposal that returned `nil` has its quorum of acknowledgements. -/
theorem Reached.ackers (hR : Reached C s A) (hP : s.proposals[p]? = some P) {c : ℕ}
    (hend : P.ended = some (.ok, c)) : ∃ F : Finset String,
      (s.node P.node).quorum - 1 ≤ F.card ∧ ∀ q ∈ F, Acked s p q := by
  have hok := hR.sim.proposals P (List.mem_of_getElem? hP)
  obtain ⟨F, hcard, hF⟩ := hR.tally.ackers p
  refine ⟨F, ?_, fun q hq => acked_iff.2 ((hF q).1 hq)⟩
  have hend' := hR.tally.ended p P hP
  simp only [Proposal.EndOK, hend] at hend'
  have hacks := hR.tally.acks p P hP
  rw [hR.sim.quorum_eq hok.node_mem]
  omega

theorem Reached.committed (hR : Reached C s A) (hP : s.proposals[p]? = some P) {c : ℕ}
    (hend : P.ended = some (.ok, c)) : QuorumStored C.quorums A P.entry.term P.newIndex := by
  obtain ⟨F, hcard, hF⟩ := hR.ackers hP hend
  exact hR.acked hP hF hcard

/-- The log a proposal made ends in its entry. -/
theorem Proposal.OK.log_spec (h : P.OK C A) :
    P.log.length = P.newIndex ∧ P.log[P.newIndex - 1]? = some P.entry := by
  obtain ⟨l, -, -, hget, -⟩ := h.entry
  have hnew := h.newIndex_eq
  rw [h.log_eq]
  refine ⟨by rw [List.length_take, min_eq_left h.newIndex_le], ?_⟩
  rw [List.getElem?_take_of_lt (by omega), hnew]
  exact hget

theorem Reached.chosen (hR : Reached C s A) (hP : P ∈ s.proposals)
    (hq : QuorumStored C.quorums A P.entry.term P.newIndex) : Chosen C.quorums A P.log := by
  have hok := hR.sim.proposals P hP
  obtain ⟨l, hl, -⟩ := hok.entry
  refine .inr ⟨P.node, P.entry.term, l, hl, ?_, ?_⟩
  · rw [hok.log_eq]
    exact List.take_prefix _ _
  · rw [hok.log_spec.1]
    exact hq

/-- Whoever becomes leader later has what a quorum has acknowledged, and all that stood before it;
two proposals that return `nil` do not get different entries to one index. -/
theorem acknowledged_in_later_leaders (hs : C.Run C.init as s) :
    (∀ (p : ℕ) (P : Proposal) (F : Finset String), s.proposals[p]? = some P →
      (s.node P.node).quorum - 1 ≤ F.card → (∀ q ∈ F, Acked s p q) →
        P.log.length = P.newIndex ∧ P.log[P.newIndex - 1]? = some P.entry
          ∧ ∀ e ∈ s.elections, P.entry.term < e.term → e.log.take P.newIndex = P.log
            ∧ e.log[P.newIndex - 1]? = some P.entry)
    ∧ ∀ (p q : ℕ) (P R : Proposal) (c d : ℕ), s.proposals[p]? = some P →
      s.proposals[q]? = some R → P.ended = some (.ok, c) → R.ended = some (.ok, d) →
      P.newIndex = R.newIndex → P.entry = R.entry := by
  obtain ⟨A, hR⟩ := reached hs
  constructor
  · intro p P F hP hcard hF
    have hok := hR.sim.proposals P (List.mem_of_getElem? hP)
    obtain ⟨hlen, hget⟩ := hok.log_spec
    refine ⟨hlen, hget, fun e he hterm => ?_⟩
    obtain ⟨l, hl, -⟩ := hok.entry
    have hpre := leader_completeness hR.inv (hR.acked hP hF hcard) hl hterm
      (hR.sim.elections.2 he)
    rw [← hok.log_eq] at hpre
    refine ⟨?_, ?_⟩
    · rw [take_eq_of_isPrefix hpre hlen.ge, List.take_of_length_le hlen.le]
    · have hnew := hok.newIndex_eq
      rw [prefix_getElem? hpre (by omega)]
      exact hget
  · intro p q P R c d hP hQ hc hd hi
    have hPm := List.mem_of_getElem? hP
    have hQm := List.mem_of_getElem? hQ
    obtain ⟨hlen, hget⟩ := (hR.sim.proposals P hPm).log_spec
    obtain ⟨hlen', hget'⟩ := (hR.sim.proposals R hQm).log_spec
    have hlog : P.log = R.log := by
      rcases (hR.chosen hPm (hR.committed hP hc)).comparable hR.inv
        (hR.chosen hQm (hR.committed hQ hd)) with hpre | hpre
      · exact hpre.eq_of_length (by omega)
      · exact (hpre.eq_of_length (by omega)).symm
    rw [hlog, hi, hget'] at hget
    exact (Option.some.inj hget).symm

theorem acknowledged_in_later_leaders_trio : ∃ s, trio.Run trio.init
      (electBy "a" 0 ++ [.propose "a" "x"] ++ exchange "b" 2 ++ electBy "b" 3) s
    ∧ ∃ e ∈ s.elections, e.id = "b" ∧ e.log[0]? = some ⟨1, "x"⟩ := by
  obtain ⟨s, hs, hp⟩ : ∃ s, trio.Run trio.init _ s ∧ _ :=
    Runs.exists_run (electBy "a" 0 ++ [.propose "a" "x"] ++ exchange "b" 2 ++ electBy "b" 3)
      (fun s => Acked s 0 "b" ∧ (s.proposals[0]?).any (fun P => P.entry = ⟨1, "x"⟩
        ∧ P.newIndex = 1 ∧ (s.node P.node).quorum = 2)
        ∧ ∃ e ∈ s.elections, e.id = "b" ∧ e.term = 2) (by decide +kernel)
  simp only [decide_eq_true_eq] at hp
  obtain ⟨hack, hP, e, he, hid, hterm⟩ := hp
  obtain ⟨P, hP, hP'⟩ := (Option.any_eq_true _ _).1 hP
  simp only [decide_eq_true_eq] at hP'
  obtain ⟨-, -, hall⟩ := (acknowledged_in_later_leaders hs).1 0 P {"b"} hP
    (by rw [hP'.2.2]; decide) (by simpa using hack)
  obtain ⟨-, hget⟩ := hall e he (by rw [hP'.1, hterm]; decide)
  rw [hP'.1, hP'.2.1] at hget
  exact ⟨s, hs, e, he, hid, hget⟩

end

end EdgeSim.Raft
