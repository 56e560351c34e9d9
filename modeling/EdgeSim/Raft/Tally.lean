import EdgeSim.Raft.SimRelation
import Mathlib.Data.List.Nodup

/-!
# The tallies of votes and acknowledgements

`startElection` and `Propose` count replies in local variables. Each counter is one more than the
number of calls whose reply was taken and counts, and no two calls of one election, or of one
proposal, go to the same peer: so a tally of a quorum comes from that many distinct nodes.
-/

namespace EdgeSim.Raft

open Lists TermLog TermLog.Group

/-! ## Counting in a list that is changed at one place -/

section Count

variable {α β : Type*} {l : List α} {i : ℕ} {x y : α}

theorem map_set_of_eq {f : α → β} (hx : l[i]? = some x) (h : f y = f x) :
    (l.set i y).map f = l.map f := by
  obtain ⟨hi, rfl⟩ := List.getElem?_eq_some_iff.1 hx
  rw [List.map_set, h]
  exact List.ext_getElem? fun j => by
    by_cases hij : i = j
    · subst hij
      rw [List.getElem?_set_self (by simpa using hi)]
      simp [hi]
    · rw [List.getElem?_set_ne hij]

theorem countP_set_of_eq {p : α → Bool} (hx : l[i]? = some x) (h : p y = p x) :
    (l.set i y).countP p = l.countP p := by
  obtain ⟨hi, rfl⟩ := List.getElem?_eq_some_iff.1 hx
  rw [List.countP_set hi, h]
  have hle : (if p l[i] = true then 1 else 0) ≤ l.countP p := by
    split_ifs with hp
    · exact List.countP_pos_iff.2 ⟨_, List.getElem_mem hi, hp⟩
    · exact Nat.zero_le _
  omega

theorem countP_set_of_false {p : α → Bool} (hx : l[i]? = some x) (h : p x = false) :
    (l.set i y).countP p = l.countP p + if p y then 1 else 0 := by
  obtain ⟨hi, rfl⟩ := List.getElem?_eq_some_iff.1 hx
  rw [List.countP_set hi, h]
  simp

theorem getElem?_set_cases {j : ℕ} {z : α} (hx : l[i]? = some x)
    (h : (l.set i y)[j]? = some z) : l[j]? = some z ∧ j ≠ i ∨ j = i ∧ z = y := by
  by_cases hij : i = j
  · subst hij
    rw [List.getElem?_set_self (List.getElem?_eq_some_iff.1 hx).1] at h
    exact .inr ⟨rfl, by simpa using h.symm⟩
  · rw [List.getElem?_set_ne hij] at h
    exact .inl ⟨h, Ne.symm hij⟩

end Count

/-- A vote that the election of `id` in term `t` has counted. -/
def VoteCall.counted (id : String) (t : ℕ) (call : VoteCall) : Bool :=
  decide (call.caller = id) && decide (call.term = t) &&
    match call.received with
    | some r => r.voteGranted
    | none => false

/-- An acknowledgement that the proposal `p` has counted. -/
def AppendCall.counted (p : ℕ) (call : AppendCall) : Bool :=
  decide (call.proposal = some p) &&
    match call.received with
    | some (.reply a) => a.resp.success
    | _ => false

/-- A call whose outcome the proposal `p` has taken. -/
def AppendCall.taken (p : ℕ) (call : AppendCall) : Bool :=
  decide (call.proposal = some p) && call.received.isSome

/-- Why the loop of `Propose` was left, or that it was not. -/
def Proposal.EndOK (needed : ℕ) (peers : List String) (calls : List AppendCall) (p : ℕ)
    (P : Proposal) : Prop :=
  match P.ended with
  | none => P.acks < needed ∧ P.responses < peers.length
  | some (.ok, c) => P.newIndex ≤ c ∧ needed ≤ P.acks
  | some (.notLeader, _) => ∃ call ∈ calls, call.proposal = some p
      ∧ ∃ a, call.received = some (.reply a) ∧ P.entry.term < a.resp.term
  | some (.replicationFailed, _) => peers.length ≤ P.responses ∧ (P.acks < needed ∨ peers = [])
  | some (.canceled, _) => P.acks < needed

structure Tally (C : Cluster) (s : System) : Prop where
  vote_keys : (s.voteCalls.map fun c => (c.caller, c.term, c.peer)).Nodup
  votes : ∀ id ∈ C.ids, ∀ t v r, s.loops id = .collectVotes t v r →
    v = 1 + s.voteCalls.countP (VoteCall.counted id t)
  append_keys : (s.appendCalls.map fun c => (c.proposal, c.peer)).Pairwise
    fun x y => x.1 ≠ none → x ≠ y
  acks : ∀ (p : ℕ) (P : Proposal), s.proposals[p]? = some P →
    P.acks = 1 + s.appendCalls.countP (AppendCall.counted p)
  calls : ∀ (p : ℕ) (P : Proposal), s.proposals[p]? = some P →
    s.appendCalls.countP (fun call => decide (call.proposal = some p))
      = (C.node P.node).peers.length
  responses : ∀ (p : ℕ) (P : Proposal), s.proposals[p]? = some P →
    P.responses = s.appendCalls.countP (AppendCall.taken p)
  ended : ∀ (p : ℕ) (P : Proposal), s.proposals[p]? = some P →
    P.EndOK (C.node P.node).quorum (C.node P.node).peers s.appendCalls p

theorem tally_init (C : Cluster) : Tally C C.init where
  vote_keys := by simp [Cluster.init]
  votes id _ t v r h := by simp [Cluster.init] at h
  append_keys := by simp [Cluster.init]
  acks p P h := by simp [Cluster.init] at h
  calls p P h := by simp [Cluster.init] at h
  responses p P h := by simp [Cluster.init] at h
  ended p P h := by simp [Cluster.init] at h

section Frame

variable {C : Cluster} {s : System}

/-- The tallies do not look at the nodes. -/
theorem Tally.setReplica (h : Tally C s) (id : String) (r : Replica) :
    Tally C (s.setReplica id r) :=
  ⟨h.vote_keys, h.votes, h.append_keys, h.acks, h.calls, h.responses, h.ended⟩

theorem Tally.record (h : Tally C s) (e : Election) : Tally C (s.record e) :=
  ⟨h.vote_keys, h.votes, h.append_keys, h.acks, h.calls, h.responses, h.ended⟩

theorem Tally.setLoop (h : Tally C s) {id : String} {l : RunLoop}
    (hl : ∀ t v r, l = .collectVotes t v r →
      v = 1 + s.voteCalls.countP (VoteCall.counted id t)) : Tally C (s.setLoop id l) :=
  { h with
    votes := fun x hx t v r hloop => by
      by_cases hne : x = id
      · subst hne
        simp only [System.setLoop, Function.update_self] at hloop
        exact hl t v r hloop
      · simp only [System.setLoop, Function.update_of_ne hne] at hloop
        exact h.votes x hx t v r hloop }

/-- A vote call goes on without a reply being taken. -/
theorem Tally.setVoteCall (h : Tally C s) {c : ℕ} {call call' : VoteCall}
    (hc : s.voteCalls[c]? = some call) (hcaller : call'.caller = call.caller)
    (hpeer : call'.peer = call.peer) (hterm : call'.term = call.term)
    (hrec : call'.received = call.received) : Tally C (s.setVoteCall c call') :=
  { h with
    vote_keys := by
      simp only [System.setVoteCall]
      rw [map_set_of_eq hc (by rw [hcaller, hpeer, hterm])]
      exact h.vote_keys
    votes := fun x hx t v r hloop => by
      simp only [System.setVoteCall]
      rw [countP_set_of_eq hc (by simp only [VoteCall.counted, hcaller, hterm, hrec])]
      exact h.votes x hx t v r hloop }

theorem Proposal.EndOK.mono {needed : ℕ} {peers : List String} {calls calls' : List AppendCall}
    {p : ℕ} {P : Proposal} (h : P.EndOK needed peers calls p)
    (hc : ∀ call ∈ calls, ∀ a, call.received = some (.reply a) → ∃ call' ∈ calls',
      call'.proposal = call.proposal ∧ call'.received = some (.reply a)) :
    P.EndOK needed peers calls' p := by
  unfold Proposal.EndOK at h ⊢
  split at h
  · exact h
  · exact h
  · obtain ⟨call, h1, h2, a, h3, h4⟩ := h
    obtain ⟨call', h5, h6, h7⟩ := hc call h1 a h3
    exact ⟨call', h5, h6.trans h2, a, h7, h4⟩
  · exact h
  · exact h

theorem received_set {calls : List AppendCall} {c : ℕ} {call y : AppendCall}
    (hc : calls[c]? = some call) (hp : y.proposal = call.proposal)
    (hrec : ∀ a, call.received = some (.reply a) → y.received = some (.reply a)) :
    ∀ x ∈ calls, ∀ a, x.received = some (.reply a) → ∃ x' ∈ calls.set c y,
      x'.proposal = x.proposal ∧ x'.received = some (.reply a) := by
  intro x hx a ha
  obtain ⟨j, hj⟩ := List.mem_iff_getElem?.1 hx
  by_cases hcj : c = j
  · subst hcj
    rw [hc] at hj
    simp only [Option.some.injEq] at hj
    subst hj
    exact ⟨y, List.mem_of_getElem?
      (List.getElem?_set_self (List.getElem?_eq_some_iff.1 hc).1), hp, hrec a ha⟩
  · refine ⟨x, List.mem_of_getElem? (i := j) ?_, rfl, ha⟩
    rw [List.getElem?_set_ne hcj]
    exact hj

/-- An append call goes on without a reply being taken. -/
theorem Tally.setAppendCall (h : Tally C s) {c : ℕ} {call call' : AppendCall}
    (hc : s.appendCalls[c]? = some call) (hp : call'.proposal = call.proposal)
    (hpeer : call'.peer = call.peer) (hrec : call'.received = call.received) :
    Tally C (s.setAppendCall c call') :=
  { h with
    append_keys := by
      simp only [System.setAppendCall]
      rw [map_set_of_eq hc (by rw [hp, hpeer])]
      exact h.append_keys
    acks := fun p P hP => by
      simp only [System.setAppendCall]
      rw [countP_set_of_eq hc (by simp only [AppendCall.counted, hp, hrec])]
      exact h.acks p P hP
    calls := fun p P hP => by
      simp only [System.setAppendCall]
      rw [countP_set_of_eq hc (by rw [hp])]
      exact h.calls p P hP
    responses := fun p P hP => by
      simp only [System.setAppendCall]
      rw [countP_set_of_eq hc (by simp only [AppendCall.taken, hp, hrec])]
      exact h.responses p P hP
    ended := fun p P hP => (h.ended p P hP).mono
      (received_set hc hp fun a ha => by rw [hrec]; exact ha) }

/-- A heartbeat takes a reply: no proposal counts it. -/
theorem Tally.receiveHeartbeat (h : Tally C s) {c : ℕ} {call y : AppendCall}
    (hc : s.appendCalls[c]? = some call) (hnone : call.proposal = none)
    (hp : y.proposal = call.proposal) (hpeer : y.peer = call.peer)
    (hrec : call.received = none) : Tally C (s.setAppendCall c y) :=
  { h with
    append_keys := by
      simp only [System.setAppendCall]
      rw [map_set_of_eq hc (by rw [hp, hpeer])]
      exact h.append_keys
    acks := fun p P hP => by
      simp only [System.setAppendCall]
      rw [countP_set_of_eq hc (by simp [AppendCall.counted, hp, hnone])]
      exact h.acks p P hP
    calls := fun p P hP => by
      simp only [System.setAppendCall]
      rw [countP_set_of_eq hc (by rw [hp])]
      exact h.calls p P hP
    responses := fun p P hP => by
      simp only [System.setAppendCall]
      rw [countP_set_of_eq hc (by simp [AppendCall.taken, hp, hnone])]
      exact h.responses p P hP
    ended := fun p P hP => (h.ended p P hP).mono
      (received_set hc hp fun a ha => by rw [hrec] at ha; cases ha) }

/-- New vote calls of `id` in a term it has made none in. -/
theorem Tally.addVoteCalls (h : Tally C s) {id : String} {t : ℕ} {peers : List String}
    (hnd : peers.Nodup) (hold : ∀ call ∈ s.voteCalls, call.caller = id → call.term < t) :
    Tally C { s with voteCalls := s.voteCalls ++ peers.map (System.VoteCall.spawn id t) } :=
  { h with
    vote_keys := by
      simp only [List.map_append, List.map_map]
      refine List.nodup_append'.2 ⟨h.vote_keys, ?_, ?_⟩
      · refine hnd.map fun p q hpq => ?_
        simp only [Function.comp, System.VoteCall.spawn, Prod.mk.injEq, true_and] at hpq
        exact hpq
      · intro k hk hk'
        obtain ⟨call, hcall, rfl⟩ := List.mem_map.1 hk
        obtain ⟨p, -, hp⟩ := List.mem_map.1 hk'
        simp only [Function.comp, System.VoteCall.spawn, Prod.mk.injEq] at hp
        have := hold call hcall hp.1.symm
        omega
    votes := fun x hx u v r hloop => by
      have hzero : (peers.map (System.VoteCall.spawn id t)).countP (VoteCall.counted x u) = 0 := by
        rw [List.countP_eq_zero]
        intro call hcall
        obtain ⟨p, -, rfl⟩ := List.mem_map.1 hcall
        simp [VoteCall.counted, System.VoteCall.spawn]
      simp only [List.countP_append, hzero, Nat.add_zero]
      exact h.votes x hx u v r hloop }

/-- Heartbeats are no proposal's calls. -/
theorem Tally.addHeartbeats (h : Tally C s) {calls : List AppendCall}
    (hnone : ∀ call ∈ calls, call.proposal = none) :
    Tally C { s with appendCalls := s.appendCalls ++ calls } := by
  have hzero : ∀ {f : AppendCall → Bool} {p : ℕ},
      (∀ call, f call = true → call.proposal = some p) → calls.countP f = 0 := by
    intro f p hf
    rw [List.countP_eq_zero]
    intro call hc hfc
    have := hf call hfc
    rw [hnone call hc] at this
    cases this
  exact
    { h with
      append_keys := by
        simp only [List.map_append]
        refine List.pairwise_append.2 ⟨h.append_keys, ?_, ?_⟩
        · rw [List.pairwise_map]
          refine List.pairwise_of_forall_mem_list fun x hx y _ hne => ?_
          exact absurd (hnone x hx) hne
        · intro x _ y hy hne hxy
          obtain ⟨call, hc, rfl⟩ := List.mem_map.1 hy
          rw [hxy] at hne
          exact hne (hnone call hc)
      acks := fun p P hP => by
        simp only [List.countP_append]
        rw [hzero (p := p) (by simp +contextual [AppendCall.counted]), Nat.add_zero]
        exact h.acks p P hP
      calls := fun p P hP => by
        simp only [List.countP_append]
        rw [hzero (p := p) (by simp), Nat.add_zero]
        exact h.calls p P hP
      responses := fun p P hP => by
        simp only [List.countP_append]
        rw [hzero (p := p) (by simp +contextual [AppendCall.taken]), Nat.add_zero]
        exact h.responses p P hP
      ended := fun p P hP => (h.ended p P hP).mono fun call hc a ha =>
        ⟨call, List.mem_append_left _ hc, rfl, ha⟩ }

/-- A proposal with its calls, one to each peer. -/
theorem Tally.addProposal (h : Tally C s) {P : Proposal} {peers : List String}
    (hpeers : peers = (C.node P.node).peers) (hnd : peers.Nodup)
    (hold : ∀ call ∈ s.appendCalls, call.proposal ≠ some s.proposals.length) (hacks : P.acks = 1)
    (hresp : P.responses = 0)
    (hend : P.EndOK (C.node P.node).quorum (C.node P.node).peers [] s.proposals.length) :
    Tally C
      { s with
        proposals := s.proposals ++ [P]
        appendCalls := s.appendCalls
          ++ peers.map (System.AppendCall.replicate s.proposals.length P) } := by
  have hcases : ∀ {p : ℕ} {R : Proposal}, (s.proposals ++ [P])[p]? = some R →
      s.proposals[p]? = some R ∧ p ≠ s.proposals.length ∨ p = s.proposals.length ∧ R = P := by
    exact fun hR => (getElem?_concat_cases hR).imp_left fun h => ⟨h.1, h.2.ne⟩
  -- the calls there were are not of this proposal, and none of the new ones is answered
  have hzero : ∀ {f : AppendCall → Bool},
      (∀ call, f call = true → call.proposal = some s.proposals.length) →
      s.appendCalls.countP f = 0 := by
    intro f hf
    rw [List.countP_eq_zero]
    exact fun call hc hfc => hold call hc (hf call hfc)
  have hnew : ∀ {f : AppendCall → Bool},
      (∀ q, f (System.AppendCall.replicate s.proposals.length P q) = false) →
      (peers.map (System.AppendCall.replicate s.proposals.length P)).countP f = 0 := by
    intro f hf
    rw [List.countP_eq_zero]
    intro call hc
    obtain ⟨q, -, rfl⟩ := List.mem_map.1 hc
    simp [hf q]
  exact
    { h with
      append_keys := by
        simp only [List.map_append, List.map_map]
        refine List.pairwise_append.2 ⟨h.append_keys, ?_, ?_⟩
        · rw [List.pairwise_map]
          refine hnd.imp fun hpq _ heq => hpq ?_
          simpa [System.AppendCall.replicate] using heq
        · intro x hx y hy _ hxy
          obtain ⟨call, hc, rfl⟩ := List.mem_map.1 hx
          obtain ⟨q, -, rfl⟩ := List.mem_map.1 hy
          exact hold call hc (congrArg Prod.fst hxy)
      acks := fun p R hR => by
        simp only [List.countP_append]
        rw [hnew (by simp [AppendCall.counted, System.AppendCall.replicate]), Nat.add_zero]
        rcases hcases hR with ⟨hR, -⟩ | ⟨rfl, rfl⟩
        · exact h.acks p R hR
        · rw [hzero (by simp +contextual [AppendCall.counted]), hacks]
      calls := fun p R hR => by
        simp only [List.countP_append]
        rcases hcases hR with ⟨hR, hp⟩ | ⟨rfl, rfl⟩
        · rw [hnew (by simp [System.AppendCall.replicate, Ne.symm hp]), Nat.add_zero]
          exact h.calls p R hR
        · rw [hzero (by simp), Nat.zero_add, List.countP_map, ← hpeers]
          simp [Function.comp_def, System.AppendCall.replicate]
      responses := fun p R hR => by
        simp only [List.countP_append]
        rw [hnew (by simp [AppendCall.taken, System.AppendCall.replicate]), Nat.add_zero]
        rcases hcases hR with ⟨hR, -⟩ | ⟨rfl, rfl⟩
        · exact h.responses p R hR
        · rw [hzero (by simp +contextual [AppendCall.taken]), hresp]
      ended := fun p R hR => by
        rcases hcases hR with ⟨hR, -⟩ | ⟨rfl, rfl⟩
        · exact (h.ended p R hR).mono fun call hc a ha =>
            ⟨call, List.mem_append_left _ hc, rfl, ha⟩
        · exact hend.mono fun call hc => by cases hc }

end Frame

/-! ## What a full tally means -/

section Quorum

variable {C : Cluster} {s : System} {A : Group String LogEntry} {id : String}

theorem Cluster.mem_of_peer (C : Cluster) {p : String} (hid : id ∈ C.ids)
    (h : p ∈ (C.config id).peers) : p ∈ C.ids ∧ p ≠ id := (C.mem_peers id hid p).1 h

/-- A cluster is a node and its peers. -/
theorem Cluster.ids_length (C : Cluster) (hid : id ∈ C.ids) :
    C.ids.length = (C.node id).peers.length + 1 := by
  have hperm : C.ids.toFinset = insert id (C.config id).peers.toFinset := by
    ext p
    simp only [List.mem_toFinset, Finset.mem_insert, C.mem_peers id hid]
    by_cases hp : p = id
    · simp [hp, hid]
    · simp [hp]
  have hcard := congrArg Finset.card hperm
  rw [Finset.card_insert_of_notMem, List.toFinset_card_of_nodup (C.peers_nodup id hid),
    List.toFinset_card_of_nodup C.nodup] at hcard
  · rw [hcard, C.node_eq hid]
  · rw [List.mem_toFinset]
    exact fun h => (C.mem_of_peer hid h).2 rfl

/-- `quorum()` nodes are a majority. -/
theorem Cluster.card_lt_quorum (C : Cluster) (hid : id ∈ C.ids) :
    C.ids.toFinset.card < 2 * (C.node id).quorum := by
  rw [List.toFinset_card_of_nodup C.nodup, C.ids_length hid, Node.quorum]
  omega

/-- A node with `quorum() - 1` distinct peers is a quorum. -/
theorem Cluster.isQuorum (C : Cluster) (hid : id ∈ C.ids) {F : Finset String}
    (hF : ∀ p ∈ F, p ∈ (C.config id).peers) (hcard : (C.node id).quorum ≤ F.card + 1) :
    C.quorums.IsQuorum {v | v = id ∨ v ∈ F} := by
  have hnot : id ∉ F := fun h => (C.mem_of_peer hid (hF id h)).2 rfl
  refine ⟨insert id F, fun v hv => ?_, ?_, fun v hv => Finset.mem_insert.1 hv⟩
  · rw [List.mem_toFinset]
    rcases Finset.mem_insert.1 hv with rfl | hv
    · exact hid
    · exact (C.mem_of_peer hid (hF v hv)).1
  · rw [Finset.card_insert_of_notMem hnot]
    have := C.card_lt_quorum hid
    omega

theorem Sim.quorum_eq (h : Sim C s A) (hid : id ∈ C.ids) :
    (s.node id).quorum = (C.node id).quorum := by
  rw [Node.quorum, Node.quorum, (h.follows.tracks id hid).peers_eq, C.node_eq hid]

theorem Sim.peers_eq (h : Sim C s A) (hid : id ∈ C.ids) :
    (s.node id).peers = (C.node id).peers := by
  rw [(h.follows.tracks id hid).peers_eq, C.node_eq hid]

/-- The peers whose votes an election has counted, all distinct. -/
theorem Tally.voters (h : Tally C s) (id : String) (t : ℕ) :
    ∃ F : Finset String, F.card = s.voteCalls.countP (VoteCall.counted id t)
      ∧ ∀ p, p ∈ F ↔ ∃ call ∈ s.voteCalls, call.counted id t = true ∧ call.peer = p := by
  set l := (s.voteCalls.filter (VoteCall.counted id t)).map VoteCall.peer with hl
  have hnd : l.Nodup := by
    have hk : ((s.voteCalls.filter (VoteCall.counted id t)).map
        fun c => (c.caller, c.term, c.peer)).Nodup :=
      h.vote_keys.sublist (List.filter_sublist.map _)
    have hmap : (s.voteCalls.filter (VoteCall.counted id t)).map
        (fun c => (c.caller, c.term, c.peer)) = l.map fun p => (id, t, p) := by
      rw [hl, List.map_map]
      refine List.map_congr_left fun c hc => ?_
      have := (List.mem_filter.1 hc).2
      simp only [VoteCall.counted, Bool.and_eq_true, decide_eq_true_eq] at this
      simp [this.1.1, this.1.2]
    rw [hmap] at hk
    exact List.Nodup.of_map _ hk
  refine ⟨l.toFinset, ?_, fun p => ?_⟩
  · rw [List.toFinset_card_of_nodup hnd, hl, List.length_map, List.countP_eq_length_filter]
  · simp [hl, List.mem_filter, and_assoc]

/-- The peers whose acknowledgement a proposal has counted, all distinct. -/
theorem Tally.ackers (h : Tally C s) (p : ℕ) :
    ∃ F : Finset String, F.card = s.appendCalls.countP (AppendCall.counted p)
      ∧ ∀ q, q ∈ F ↔ ∃ call ∈ s.appendCalls, call.counted p = true ∧ call.peer = q := by
  set l := (s.appendCalls.filter (AppendCall.counted p)).map AppendCall.peer with hl
  have hnd : l.Nodup := by
    have hk : ((s.appendCalls.filter (AppendCall.counted p)).map
        fun c => (c.proposal, c.peer)).Pairwise fun x y => x.1 ≠ none → x ≠ y :=
      h.append_keys.sublist (List.filter_sublist.map _)
    have hmap : (s.appendCalls.filter (AppendCall.counted p)).map
        (fun c => (c.proposal, c.peer)) = l.map fun q => (some p, q) := by
      rw [hl, List.map_map]
      refine List.map_congr_left fun c hc => ?_
      have := (List.mem_filter.1 hc).2
      simp only [AppendCall.counted, Bool.and_eq_true, decide_eq_true_eq] at this
      simp [this.1]
    rw [hmap, List.pairwise_map] at hk
    exact hk.imp fun hab heq => hab (by simp) (by rw [heq])
  refine ⟨l.toFinset, ?_, fun q => ?_⟩
  · rw [List.toFinset_card_of_nodup hnd, hl, List.length_map, List.countP_eq_length_filter]
  · simp [hl, List.mem_filter, and_assoc]

end Quorum

end EdgeSim.Raft
