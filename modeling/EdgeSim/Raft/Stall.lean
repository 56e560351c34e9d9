import EdgeSim.Lib.TermLogApart
import EdgeSim.Raft.Apply
import EdgeSim.Raft.Commit

/-!
# Clusters that can no longer commit

`Propose` sends its entry with the term of the one before it and never goes back further in the
log, so no leader brings a follower up to date that lacks that one. When leaders fail one after
the other before their first entry gets anywhere, the logs end up with nothing in common, and from
then on every `Propose` fails: a node that has an entry asks for its own before the next, and one
that has none is not elected. No order of elections, messages and retries mends this.
-/

namespace EdgeSim.Raft

open TermLog TermLog.Group

/-- No two nodes have the same first entry, those without one are no quorum, and all are in a term
that nobody leads and in which no node with an entry has voted for one without. -/
structure Stalled (C : Cluster) (s : System) (T : ℕ) : Prop where
  two : 1 < C.ids.length
  first : ∀ v ∈ C.ids, ∀ w ∈ C.ids, (s.node v).log.head? = (s.node w).log.head? →
    (s.node v).log ≠ [] → v = w
  empty : ∀ id ∈ C.ids, (C.ids.filter fun v => (s.node v).log = []).length < (s.node id).quorum
  term : ∀ id ∈ C.ids, (s.node id).currentTerm = T
  elections : ∀ e ∈ s.elections, e.term < T
  votes : ∀ id ∈ C.ids, (s.node id).log ≠ [] → (s.node id).votedFor ≠ "" →
    (s.node (s.node id).votedFor).log ≠ []

section

variable {C : Cluster} {s s' t : System} {A : Group String LogEntry} {as bs : List Action}
  {a : Action} {id : String} {T : ℕ}

/-! ## What is applied -/

theorem Local.lastApplied_le (hl : Local s a s' id) :
    (s'.node id).lastApplied ≤ max (s.node id).lastApplied (s'.node id).commitIndex := by
  cases hl with
  | stay h =>
    rw [System.node, h]
    exact le_max_left _ _
  | quiet hx h => exact le_max_of_le_left (Replica.quiet_step hx h).2.1.le
  | handle ha hc hpeer hreq h =>
    obtain ⟨n, es, resp, hn, hr⟩ := Replica.handleAppendEntries_eq h
    rw [System.node, hr]
    rcases Node.handleAppendEntries_cases hn with
      ⟨-, rfl, -⟩ | ⟨-, -, -, rfl, -⟩ | ⟨-, -, -, rfl, -⟩
    · exact le_max_left _ _
    · exact le_max_of_le_left Node.adopt_lastApplied.le
    · exact le_rfl
  | commit hP hnode hend h =>
    obtain ⟨n, es, hn, hr⟩ := Replica.commitProposal_eq h
    rw [System.node, hr]
    rcases Node.commitProposal_cases hn with ⟨-, rfl, -⟩ | ⟨-, -, rfl⟩
    · exact le_max_left _ _
    · exact le_rfl

/-- Behind all that is committed or applied, at any node, there is a `Propose` call that has
returned `nil`. -/
theorem run_backed (hs : C.Run C.init as s) :
    CommitsBacked C s ∧ ∀ id ∈ C.ids, Backed s (s.node id).lastApplied := by
  induction hs with
  | nil =>
    refine ⟨commitsBacked_init C, fun id hid => .inl ?_⟩
    change (C.node id).lastApplied = 0
    rw [C.node_eq hid]
  | snoc hs hok hstep ih =>
    obtain ⟨A, hR⟩ := reached hs
    obtain ⟨B, -, hR'⟩ := hR.step hstep
    have he := step_effect hstep hR'.sim.alive
    have hcommits := commitsBacked_step hR ih.1 hstep
    refine ⟨hcommits, fun id hid => ?_⟩
    rcases le_max_iff.1 (he.nodes id).lastApplied_le with hle | hle
    · exact ((ih.2 id hid).step he).mono hle
    · exact (hcommits.nodes id hid).mono hle

/-! ## A stalled cluster -/

theorem Cluster.quorum_card (C : Cluster) {S : Set String} (hS : C.quorums.IsQuorum S) :
    ∃ F : Finset String, (∀ v ∈ F, v ∈ C.ids ∧ v ∈ S) ∧ C.ids.length < 2 * F.card := by
  obtain ⟨F, hF, hcard, hFS⟩ := hS
  rw [List.toFinset_card_of_nodup C.nodup] at hcard
  exact ⟨F, fun v hv => ⟨List.mem_toFinset.1 (hF hv), hFS v hv⟩, hcard⟩

theorem Stalled.quorum_two (h : Stalled C s T) {S : Set String} (hS : C.quorums.IsQuorum S) :
    ∃ v ∈ S, ∃ w ∈ S, v ∈ C.ids ∧ w ∈ C.ids ∧ v ≠ w := by
  obtain ⟨F, hF, hcard⟩ := C.quorum_card hS
  have htwo := h.two
  obtain ⟨v, hv, w, hw, hne⟩ := Finset.one_lt_card.1 (show 1 < F.card by omega)
  exact ⟨v, (hF v hv).2, w, (hF w hw).2, (hF v hv).1, (hF w hw).1, hne⟩

theorem Stalled.quorum_first (h : Stalled C s T) (hR : Reached C s A) {S : Set String}
    (hS : C.quorums.IsQuorum S) : ∃ v ∈ S, v ∈ C.ids ∧ (s.node v).log.head? ≠ none := by
  obtain ⟨F, hF, hcard⟩ := C.quorum_card hS
  by_contra hnone
  push Not at hnone
  have hsub : F ⊆ (C.ids.filter fun v => (s.node v).log = []).toFinset := by
    intro v hv
    rw [List.mem_toFinset, List.mem_filter, decide_eq_true_eq, ← List.head?_eq_none_iff]
    exact ⟨(hF v hv).1, hnone v (hF v hv).2 (hF v hv).1⟩
  have hle := (Finset.card_le_card hsub).trans (List.toFinset_card_le _)
  obtain ⟨v, hv⟩ : ∃ v, v ∈ F := Finset.card_pos.1 (by omega)
  have hlt := h.empty v (hF v hv).1
  rw [hR.sim.quorum_eq (hF v hv).1, Node.quorum, ← C.ids_length (hF v hv).1] at hlt
  omega

theorem Stalled.apart (h : Stalled C s T) (hR : Reached C s A) :
    Apart {id | id ∈ C.ids} (fun id => (s.node id).log.head?) T A where
  head v hv := by rw [(hR.sim.follows.tracks v hv).log_eq]
  term v hv := by rw [(hR.sim.follows.tracks v hv).term_eq, h.term v hv]
  vote v hv u c l hu hvote hc hfirst := by
    have htracks := hR.sim.follows.tracks v hv
    -- the only term from `T` on it can have voted in is its own
    have hle := hR.inv.vote_le hvote
    rw [htracks.term_eq, h.term v hv] at hle
    obtain rfl : u = (s.node v).currentTerm := by rw [h.term v hv]; omega
    by_cases hnone : (s.node v).votedFor = ""
    · rw [htracks.unvoted hnone] at hvote
      cases hvote
    · obtain ⟨l', hl'⟩ := htracks.voted hnone
      rw [hvote, Option.some.injEq, Prod.mk.injEq] at hl'
      rw [List.head?_eq_none_iff, hl'.1] at hc
      exact absurd hc (h.votes v hv (fun hnil => hfirst (by rw [hnil]; rfl)) hnone)
  led n u l hu hled := by
    have := h.elections _ (hR.sim.elections.1 hled)
    dsimp only at this
    omega

/-- In a stalled cluster nothing is ever committed or applied, whatever happens, and no call of
`Propose` returns `nil`. Each node keeps its first entry, if it has one. -/
theorem stalled_forever (hs : C.Run C.init as s) (h : Stalled C s T) (ht : C.Run s bs t) :
    (∀ id ∈ C.ids, (t.node id).commitIndex = 0 ∧ (t.replicas id).applied = []
      ∧ (t.node id).log.head? = (s.node id).log.head?)
    ∧ ∀ P ∈ t.proposals, ∀ c, P.ended ≠ some (.ok, c) := by
  obtain ⟨A, hR⟩ := reached hs
  obtain ⟨B, hB, hR'⟩ := hR.run ht
  have hapart : Apart {id | id ∈ C.ids} (fun id => (s.node id).log.head?) T B :=
    (h.apart hR).steps hR.inv hB (fun S hS => h.quorum_first hR hS)
      fun n u l hn => hR'.sim.follows.led_mem hn
  have hended : ∀ P ∈ t.proposals, ∀ c, P.ended ≠ some (.ok, c) := by
    intro P hP c hend
    obtain ⟨p, hp⟩ := List.mem_iff_getElem?.1 hP
    refine hapart.not_quorumStored hR'.inv (fun v hv w hw heq hne => ?_)
      (fun S hS => h.quorum_two hS) _ _ (hR'.committed hp hend)
    exact h.first v hv w hw heq fun hnil => hne (by rw [hnil]; rfl)
  have hzero : ∀ i, Backed t i → i = 0 := by
    rintro i (rfl | ⟨p, c, P, hP, hend, -⟩)
    · rfl
    · exact absurd hend (hended P (List.mem_of_getElem? hP) c)
  have hrun := hs.append ht
  obtain ⟨hcommits, hlast⟩ := run_backed hrun
  refine ⟨fun id hid => ⟨hzero _ (hcommits.nodes id hid), ?_, ?_⟩, hended⟩
  · obtain ⟨xs, hreplica⟩ := run_replica hrun id
    have hsound := run_sound (C.created id hid) hreplica
    have hindices := hsound.indices
    rw [show (t.replicas id).node.lastApplied = 0 from hzero _ (hlast id hid), List.range_zero,
      List.map_eq_nil_iff] at hindices
    rw [List.eq_nil_iff_forall_not_mem]
    intro x hx
    have := hsound.applied x hx
    rw [hindices] at this
    cases this
  · rw [← (hR'.sim.follows.tracks id hid).log_eq]
    exact hapart.head id hid

/-- `a` and then `b` are elected, and each appends an entry that it sends to no one; `c`, which has
none, starts an election and loses it. -/
def twoLostEntries : List Action :=
  electBy "a" 0 ++ [.propose "a" "x"] ++ electBy "b" 3 ++ [.propose "b" "y"]
    ++ [.onElectionTimeout "c", .startElection "c", .readLastLogIndex 4, .sendRequestVote 4,
      .handleRequestVote 4, .readLastLogIndex 5, .sendRequestVote 5, .handleRequestVote 5]

theorem stalled_forever_trio : ∃ s, trio.Run trio.init twoLostEntries s
    ∧ (s.node "a").log = [⟨1, "x"⟩] ∧ (s.node "b").log = [⟨2, "y"⟩] ∧ (s.node "c").log = []
    ∧ ∀ bs t, trio.Run s bs t → ∀ id ∈ trio.ids,
      (t.node id).commitIndex = 0 ∧ (t.replicas id).applied = [] := by
  obtain ⟨s, hs, hp⟩ : ∃ s, trio.Run trio.init _ s ∧ _ :=
    Runs.exists_run twoLostEntries (fun s => (s.node "a").log = [⟨1, "x"⟩]
      ∧ (s.node "b").log = [⟨2, "y"⟩] ∧ (s.node "c").log = []
      ∧ (∀ id ∈ trio.ids, (s.node id).quorum = 2 ∧ (s.node id).currentTerm = 3
        ∧ ((s.node id).votedFor = "" ∨ (s.node id).log = []))
      ∧ ∀ e ∈ s.elections, e.term < 3) (by decide +kernel)
  simp only [decide_eq_true_eq] at hp
  obtain ⟨ha, hb, hc, hids, helections⟩ := hp
  have hstalled : Stalled trio s 3 := by
    refine ⟨by decide, ?_, fun id hid => ?_, fun id hid => (hids id hid).2.1, helections,
      fun id hid hne hvote => ?_⟩
    · simp [trio, ha, hb, hc]
    · rw [(hids id hid).1]
      simp [trio, ha, hb, hc]
    · exact absurd (hids id hid).2.2 (by simp [hne, hvote])
  refine ⟨s, hs, ha, hb, hc, fun bs t ht id hid => ?_⟩
  obtain ⟨hcommit, happlied, -⟩ := (stalled_forever hs hstalled ht).1 id hid
  exact ⟨hcommit, happlied⟩

end

end EdgeSim.Raft
