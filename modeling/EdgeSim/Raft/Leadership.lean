import EdgeSim.Lib.TermLogSingle
import EdgeSim.Raft.Agreement

/-!
# Terms and their leaders along a run

Terms only rise. While a node's term stays the same it keeps its vote and the leader it follows,
and a leader stays leader and only appends to its log. Before a second leader is elected, in any
term, every log is a prefix of the leader's, so that every commit index refers to the same entries
everywhere: the requests that commit what a follower does not share need a change of leader.
-/

namespace EdgeSim.Raft

open Lists TermLog TermLog.Group

section

variable {C : Cluster} {s s' t : System} {A B : Group String LogEntry} {as bs : List Action}
  {a : Action} {id : String}

/-! ## Within a term -/

theorem Node.adopt_eq_self {n : Node} {u : ℕ} {lid : String}
    (h : (n.adopt u lid).currentTerm = n.currentTerm) : n.adopt u lid = n := by
  unfold Node.adopt at h ⊢
  split_ifs at h ⊢ with hu
  · simp only [Node.stepDownLocked, if_pos hu] at h
    omega
  · rfl

/-- A quiet step in which the node keeps its term. -/
theorem leaderID_quiet {r r' : Replica} {x : ReplicaAction} (hx : x.Quiet)
    (h : r.step x = some r') (hterm : r'.node.currentTerm = r.node.currentTerm) :
    r'.node.leaderID = r.node.leaderID ∨ r'.node.leaderID = r.node.id := by
  cases x with
  | handleAppendEntries c req => exact hx.elim
  | commitProposal i => exact hx.elim
  | handleRequestVote req =>
    simp only [Replica.step, Option.some.injEq] at h
    subst h
    rw [Replica.setNode] at hterm ⊢
    dsimp only at hterm ⊢
    rcases Node.handleRequestVote_cases (n := r.node) req with
      ⟨-, hr⟩ | ⟨-, hr⟩ | ⟨-, -, -, hr⟩ <;> rw [hr] at hterm ⊢
    · exact .inl rfl
    · exact .inl (congrArg Node.leaderID (Node.adopt_eq_self hterm))
    · left
      change (r.node.adopt req.term "").leaderID = _
      rw [Node.adopt_eq_self hterm]
  | observeTerm u =>
    simp only [Replica.step, Option.some.injEq] at h
    subst h
    exact .inl (congrArg Node.leaderID (Node.adopt_eq_self hterm))
  | startCandidacy =>
    simp only [Replica.step, Option.some.injEq] at h
    subst h
    change r.node.currentTerm + 1 = _ at hterm
    omega
  | becomeLeader =>
    obtain ⟨n, hn, rfl⟩ := Option.map_eq_some_iff.1 h
    obtain ⟨-, rfl⟩ := Node.becomeLeader_eq hn
    exact .inr rfl
  | appendCommand command =>
    simp only [Replica.step] at h
    split_ifs at h
    simp only [Option.some.injEq] at h
    subst h
    exact .inl rfl
  | apply b =>
    obtain ⟨e, todo, answer, -, rfl⟩ := Replica.apply_eq h
    exact .inl rfl
  | finish b =>
    obtain ⟨⟨r'', answer⟩, hr, rfl⟩ := Option.map_eq_some_iff.1 h
    obtain ⟨-, rfl⟩ := Replica.finish_eq hr
    exact .inl rfl

/-- A node that knows the leader of its term does not forget it in a step. -/
theorem leaderID_step (hR : Reached C s A) (hid : id ∈ C.ids) (hl : Local s a s' id)
    (hterm : (s'.node id).currentTerm = (s.node id).currentTerm)
    (hne : (s.node id).leaderID ≠ "") : (s'.node id).leaderID ≠ "" := by
  cases hl with
  | stay h =>
    rw [System.node, h]
    exact hne
  | quiet hx h =>
    rcases leaderID_quiet hx h hterm with heq | heq
    · exact fun h0 => hne (heq.symm.trans h0)
    · have hself := (hR.sim.follows.tracks id hid).id_eq
      exact fun h0 => C.id_ne_empty hid (hself.symm.trans (heq.symm.trans h0))
  | @handle c call req ha hc hpeer hreq h =>
    obtain ⟨n, es, resp, hn, hr⟩ := Replica.handleAppendEntries_eq h
    rw [System.node, hr] at hterm ⊢
    have hok := hR.sim.calls call (List.mem_of_getElem? hc)
    rcases Node.handleAppendEntries_cases hn with
      ⟨-, rfl, -, -⟩ | ⟨-, -, -, rfl, -, -⟩ | ⟨-, -, -, rfl, -⟩
    · exact hne
    · exact fun h0 => hne ((congrArg Node.leaderID (Node.adopt_eq_self hterm)).symm.trans h0)
    · change req.leaderID ≠ ""
      rw [(hok.request req hreq).2.1]
      exact C.id_ne_empty hok.caller_mem
  | commit hP hnode hend h =>
    obtain ⟨n, es, hn, hr⟩ := Replica.commitProposal_eq h
    rw [System.node, hr]
    rcases Node.commitProposal_cases hn with ⟨-, rfl, -⟩ | ⟨-, -, rfl⟩ <;> exact hne

theorem term_le_step (hR : Reached C s A) (hB : Steps C A B) (hR' : Reached C s' B)
    (hid : id ∈ C.ids) : (s.node id).currentTerm ≤ (s'.node id).currentTerm := by
  rw [← (hR.sim.follows.tracks id hid).term_eq, ← (hR'.sim.follows.tracks id hid).term_eq]
  exact (steps_inv hR.inv hB).2.term id

/-- The leader a node follows in a term stays the same along a run. -/
theorem leaderID_run (hR : Reached C s A) (ht : C.Run s bs t) (hid : id ∈ C.ids)
    (hterm : (t.node id).currentTerm = (s.node id).currentTerm)
    (hne : (s.node id).leaderID ≠ "") : (t.node id).leaderID = (s.node id).leaderID := by
  refine (ht.related (I := fun s => ∃ A, Reached C s A)
    (R := fun s t => (s.node id).currentTerm ≤ (t.node id).currentTerm
      ∧ ((t.node id).currentTerm = (s.node id).currentTerm → (s.node id).leaderID ≠ "" →
        (t.node id).leaderID = (s.node id).leaderID))
    (fun _ => ⟨le_rfl, fun _ _ => rfl⟩) ?_ ⟨A, hR⟩ ?_).2 hterm hne
  · rintro s t u ⟨hst, h⟩ ⟨htu, h'⟩
    refine ⟨hst.trans htu, fun heq hne => ?_⟩
    have hleader := h (by omega) hne
    exact (h' (by omega) (by rwa [hleader])).trans hleader
  · rintro s a u ⟨A, hR⟩ - hstep
    obtain ⟨B, hB, hR'⟩ := hR.step hstep
    refine ⟨⟨B, hR'⟩, term_le_step hR hB hR' hid, fun heq hne => ?_⟩
    have hne' := leaderID_step hR hid ((step_effect hstep hR'.sim.alive).nodes id) heq hne
    obtain ⟨l, hl⟩ := (hR.sim.follows.tracks id hid).leaderID_led hne
    obtain ⟨l', hl'⟩ := (hR'.sim.follows.tracks id hid).leaderID_led hne'
    rw [heq] at hl'
    exact hR'.inv.leader_unique hl' ((steps_inv hR.inv hB).2.led hl)

/-- Terms never fall. Within a term a node keeps its vote and its leader, and a leader stays leader
and only appends. -/
theorem term_stable (hs : C.Run C.init as s) (ht : C.Run s bs t) (hid : id ∈ C.ids) :
    (s.node id).currentTerm ≤ (t.node id).currentTerm
    ∧ ((t.node id).currentTerm = (s.node id).currentTerm →
      ((s.node id).votedFor ≠ "" → (t.node id).votedFor = (s.node id).votedFor)
      ∧ ((s.node id).leaderID ≠ "" → (t.node id).leaderID = (s.node id).leaderID)
      ∧ ((s.node id).state = .leader →
        (t.node id).state = .leader ∧ (s.node id).log <+: (t.node id).log)) := by
  obtain ⟨A, hR⟩ := reached hs
  obtain ⟨B, hB, hR'⟩ := hR.run ht
  have hx := (steps_inv hR.inv hB).2
  have hn := hR.sim.follows.tracks id hid
  have hn' := hR'.sim.follows.tracks id hid
  refine ⟨term_le_step hR hB hR' hid, fun hterm => ⟨fun hv => ?_, leaderID_run hR ht hid hterm,
    fun hl => ?_⟩⟩
  · obtain ⟨l, hl⟩ := hn.voted hv
    have hvote := hx.vote hl
    by_cases hv' : (t.node id).votedFor = ""
    · have hnone := hn'.unvoted hv'
      rw [hterm, hvote] at hnone
      cases hnone
    · obtain ⟨l', hl'⟩ := hn'.voted hv'
      rw [hterm, hvote, Option.some.injEq, Prod.mk.injEq] at hl'
      exact hl'.1.symm
  · obtain ⟨l, hled⟩ := hn.leader.1 hl
    have hled' := hx.led hled
    refine ⟨hn'.leader.2 ⟨l, by rw [hterm]; exact hled'⟩, ?_⟩
    have hlog := hR.inv.led_log (n := id) (l := l) (by rw [hn.term_eq]; exact hled)
    have hlog' := hR'.inv.led_log (n := id) (l := l) (by rw [hn'.term_eq, hterm]; exact hled')
    rw [hn.log_eq, hn.term_eq] at hlog
    rw [hn'.log_eq, hn'.term_eq, hterm] at hlog'
    rw [hlog, hlog']
    exact hx.lead hled

theorem term_stable_trio : ∃ s t, trio.Run trio.init (electBy "a" 0) s
    ∧ trio.Run s [.propose "a" "x", .propose "a" "y"] t
    ∧ (t.node "a").votedFor = "a" ∧ (t.node "a").leaderID = "a"
    ∧ (t.node "a").state = .leader := by
  obtain ⟨s, hs, hp⟩ : ∃ s, trio.Run trio.init _ s ∧ _ :=
    Runs.exists_run (electBy "a" 0) (fun s => (s.node "a").votedFor = "a"
      ∧ (s.node "a").leaderID = "a" ∧ (s.node "a").state = .leader
      ∧ (Runs.exec (System.step trio) (fun _ _ => True) s
        [.propose "a" "x", .propose "a" "y"]).any
          fun t => (t.node "a").currentTerm = (s.node "a").currentTerm) (by decide +kernel)
  simp only [decide_eq_true_eq] at hp
  obtain ⟨hvote, hleader, hstate, ht⟩ := hp
  obtain ⟨t, ht, hterm⟩ := Runs.exists_run _ _ ht
  simp only [decide_eq_true_eq] at hterm
  obtain ⟨hv, hl, hst⟩ := (term_stable hs ht (show "a" ∈ trio.ids by decide)).2 hterm
  exact ⟨s, t, hs, ht, (hv (by rw [hvote]; decide)).trans hvote,
    (hl (by rw [hleader]; decide)).trans hleader, (hst hstate).1⟩

/-! ## Before a second leader -/

/-- At most one election has been won so far. -/
def OneElection (s : System) : Prop := ∀ e ∈ s.elections, ∀ f ∈ s.elections, e = f

instance (s : System) : Decidable (OneElection s) :=
  inferInstanceAs (Decidable (∀ e ∈ s.elections, ∀ f ∈ s.elections, e = f))

theorem OneElection.back (h : OneElection s') (hR : Reached C s A) (hB : Steps C A B)
    (hR' : Reached C s' B) : OneElection s := by
  have hmem : ∀ e ∈ s.elections, e ∈ s'.elections := fun e he =>
    hR'.sim.elections.1 ((steps_inv hR.inv hB).2.led (hR.sim.elections.2 he))
  exact fun e he f hf => h e (hmem e he) f (hmem f hf)

theorem OneElection.single (h : OneElection s) (hR : Reached C s A) {L : String} {u : ℕ}
    {l : List LogEntry} (hL : A.led L u = some l) : A.Single L u := by
  intro m v l' hm
  have := h _ (hR.sim.elections.1 hm) _ (hR.sim.elections.1 hL)
  simp only [Election.mk.injEq] at this
  exact ⟨this.1, this.2.1⟩

/-- Every request commits what its receiver shares with its sender. -/
theorem OneElection.checked (h : OneElection s) (hR : Reached C s A) (hst : LeaderStored A)
    (a : Action) : Checked s a := by
  cases a with
  | handleAppendEntries c =>
    intro call hc req hreq hterm hm hlt
    have hmem := List.mem_of_getElem? hc
    have hok := hR.sim.calls call hmem
    have hid := (C.mem_of_peer hok.caller_mem hok.peer_mem).1
    obtain ⟨l, hl⟩ := hok.led
    have hsingle := h.single hR hl
    have hsender : (s.node call.caller).log = A.lead call.caller call.term := by
      rw [← (hR.sim.follows.tracks _ hok.caller_mem).log_eq]
      exact hsingle.log_eq hR.inv hst hl
    have hpre : (s.node call.peer).log <+: (s.node call.caller).log := by
      rw [hsender, ← (hR.sim.follows.tracks _ hid).log_eq]
      exact hsingle.log_isPrefix hR.inv call.peer
    refine ⟨fun j _ _ => ?_, fun _ => ?_⟩
    · rcases Nat.lt_or_ge j (s.node call.peer).log.length with hj | hj
      · exact .inr (prefix_getElem? hpre hj).symm
      · exact .inl (List.getElem?_eq_none hj)
    · obtain ⟨l', -, hnil | ⟨e, he, -, hget, -⟩⟩ := hR.sim.genuine hmem hreq
      · exact .inl hnil
      · obtain ⟨hreqt, hreql, -⟩ := hok.request req hreq
        rw [hreqt, hreql, ← hsender] at hget
        exact .inr (by rw [hget, he]; rfl)
  | _ => trivial

theorem run_leaderStored (hs : C.Run C.init as s) : ∃ A, Reached C s A ∧ LeaderStored A :=
  hs.invariant (I := fun s => ∃ A, Reached C s A ∧ LeaderStored A)
    ⟨_, reached_init C, leaderStored_start⟩ (by
      rintro s a u ⟨A, hR, hst⟩ - hstep
      obtain ⟨B, hB, hR'⟩ := hR.step hstep
      exact ⟨B, hR', hst.steps hR.inv hB⟩)

theorem OneElection.run (h : OneElection s) (hs : C.Run C.init as s) :
    Runs.Run (System.step C) Checked C.init as s := by
  induction hs with
  | nil => exact .nil
  | @snoc as t u a hs _ hstep ih =>
    obtain ⟨A, hR, hst⟩ := run_leaderStored hs
    obtain ⟨B, hB, hR'⟩ := hR.step hstep
    have hone := h.back hR hB hR'
    exact (ih hone).snoc (hone.checked hR hst a) hstep

/-- There is one log that all others, and all that is chosen, are prefixes of. -/
theorem OneElection.common (h : OneElection s) (hR : Reached C s A) : ∃ log : List LogEntry,
    (∀ id ∈ C.ids, (s.node id).log <+: log) ∧ ∀ q, Chosen C.quorums A q → q <+: log := by
  by_cases hled : ∃ L u l, A.led L u = some l
  · obtain ⟨L, u, l, hL⟩ := hled
    have hsingle := h.single hR hL
    refine ⟨A.lead L u, fun id hid => ?_, fun q hq => ?_⟩
    · rw [← (hR.sim.follows.tracks id hid).log_eq]
      exact hsingle.log_isPrefix hR.inv id
    · rcases hq with rfl | ⟨m, v, l', hm, hp, -⟩
      · exact List.nil_prefix
      · obtain ⟨rfl, rfl⟩ := hsingle m v l' hm
        exact hp
  · refine ⟨[], fun id hid => ?_, fun q hq => ?_⟩
    · rw [← (hR.sim.follows.tracks id hid).log_eq, List.prefix_nil]
      by_contra hne
      obtain ⟨m, l, hm, -⟩ := (hR.inv.wf_log id).prefix_lead hne
      exact hled ⟨m, _, l, hm⟩
    · rcases hq with rfl | ⟨m, v, l', hm, -⟩
      · exact List.prefix_rfl
      · exact absurd ⟨m, v, l', hm⟩ hled

/-- Everything that is applied stands in one log. -/
theorem OneElection.applied (h : OneElection s) (hs : C.Run C.init as s) :
    ∃ log : List LogEntry, (∀ id ∈ C.ids, (s.node id).log <+: log)
      ∧ ∀ id ∈ C.ids, ∀ x ∈ (s.replicas id).applied, log[x.1]? = some x.2 := by
  obtain ⟨A, hR, hI⟩ := run_agreed (h.run hs)
  obtain ⟨log, hlogs, hchosen⟩ := h.common hR
  refine ⟨log, hlogs, fun id hid x hx => ?_⟩
  obtain ⟨xs, hrun⟩ := run_replica hs id
  obtain ⟨q, hq, hget⟩ :=
    hI.collected id hid x ((run_sound (C.created id hid) hrun).applied x hx)
  rw [prefix_getElem? (hchosen q hq) (List.getElem?_eq_some_iff.1 hget).1]
  exact hget

/-- Until a second election is won all logs are prefixes of one another, no commit index points
beyond its log, and no two nodes apply different entries at one index, whatever the order of the
messages. -/
theorem one_leader_agreement (hs : C.Run C.init as s) (hone : OneElection s) {v w : String}
    (hv : v ∈ C.ids) (hw : w ∈ C.ids) :
    ((s.node v).log <+: (s.node w).log ∨ (s.node w).log <+: (s.node v).log)
    ∧ (s.node v).commitIndex ≤ (s.node v).log.length
    ∧ ∀ i e e', (i, e) ∈ (s.replicas v).applied → (i, e') ∈ (s.replicas w).applied → e = e' := by
  obtain ⟨A, -, hI⟩ := run_agreed (hone.run hs)
  obtain ⟨log, hlogs, happlied⟩ := hone.applied hs
  refine ⟨List.prefix_or_prefix_of_prefix (hlogs v hv) (hlogs w hw), hI.bound v hv,
    fun i e e' he he' => ?_⟩
  exact Option.some.inj ((happlied v hv _ he).symm.trans (happlied w hw _ he'))

theorem one_leader_agreement_trio : ∃ s, trio.Run trio.init
      (sharedHeartbeat ++ [.apply "a" 0, .apply "b" 0]) s ∧ OneElection s
    ∧ (0, ⟨1, "x"⟩) ∈ (s.replicas "a").applied
    ∧ ∀ e, (0, e) ∈ (s.replicas "b").applied → e = ⟨1, "x"⟩ := by
  obtain ⟨s, hs, hp⟩ : ∃ s, trio.Run trio.init _ s ∧ _ :=
    Runs.exists_run (sharedHeartbeat ++ [.apply "a" 0, .apply "b" 0])
      (fun s => OneElection s ∧ (0, ⟨1, "x"⟩) ∈ (s.replicas "a").applied) (by decide +kernel)
  simp only [decide_eq_true_eq] at hp
  refine ⟨s, hs, hp.1, hp.2, fun e he => ?_⟩
  exact (one_leader_agreement hs hp.1 (by decide) (by decide)).2.2 0 _ _ he hp.2

end

end EdgeSim.Raft
