import EdgeSim.Raft.Tally
import EdgeSim.Raft.Transition

/-!
# Elections

The steps of the `Run` loop and of the `RequestVote` calls, each matched by steps of the group.
The tally, the check that the node is still the candidate it was, and `becomeLeader` are three
critical sections; a node that is a candidate in the last of them is so in the same term, since
only its own `Run` loop could have made it a candidate again.
-/

namespace EdgeSim.Raft

open TermLog TermLog.Group

/-- The group can follow to the state `s`. -/
def Matched (C : Cluster) (A : Group String LogEntry) (s : System) : Prop :=
  ∃ B, Steps C A B ∧ Sim C s B ∧ Tally C s

section

variable {C : Cluster} {s : System} {A : Group String LogEntry} {id : String}

/-! ## The `Run` loop -/

theorem matched_setLoop (hS : Sim C s A) (hT : Tally C s) (id : String) {l : RunLoop}
    (hl : l ≠ .becomeLeader) (hl' : ∀ t v r, l ≠ .collectVotes t v r) :
    Matched C A (s.setLoop id l) := by
  refine ⟨A, .refl, hS.setLoop ?_, hT.setLoop fun t v r h => absurd h (hl' t v r)⟩
  cases l with
  | becomeLeader => exact absurd rfl hl
  | _ => trivial

theorem matched_startElection (hA : GroupInv C A) (hS : Sim C s A) (hT : Tally C s)
    (hid : id ∈ C.ids) {n : Node} (hn : n = (s.node id).startCandidacy) :
    Matched C A
      { (s.setNode id n).setLoop id
          (if 0 < n.peers.length then .collectVotes n.currentTerm 1 0 else .select) with
        voteCalls := s.voteCalls ++ n.peers.map (System.VoteCall.spawn id n.currentTerm) } := by
  set l : RunLoop := if 0 < n.peers.length then .collectVotes n.currentTerm 1 0 else .select
    with hl
  have hpeers : n.peers = (C.config id).peers := by
    rw [hn]
    exact (hS.follows.tracks id hid).peers_eq
  have hterm : n.currentTerm = (s.node id).currentTerm + 1 := by rw [hn]; rfl
  obtain ⟨B, hB, hF, hled⟩ := hS.follows.startCandidacy hA hid
  rw [← hn] at hF
  have hloop : LoopOK C B id n l := by
    rw [hl]
    split_ifs <;> trivial
  have hS₁ : Sim C ((s.setNode id n).setLoop id l) B :=
    hS.changeNode hA hid hB hled hF (.inr (by omega)) hloop (by rw [hn]; rfl) (by rw [hn]; rfl)
  have hold : ∀ call ∈ s.voteCalls, call.caller = id → call.term < n.currentTerm := by
    rintro call hcall rfl
    have := (hS.votes call hcall).term_le
    omega
  have hT₁ : Tally C ((s.setNode id n).setLoop id l) := by
    refine (hT.setReplica id _).setLoop fun t v r hlt => ?_
    rw [hl] at hlt
    split_ifs at hlt
    simp only [RunLoop.collectVotes.injEq] at hlt
    obtain ⟨rfl, rfl, -⟩ := hlt
    have hzero : s.voteCalls.countP (VoteCall.counted id n.currentTerm) = 0 := by
      rw [List.countP_eq_zero]
      intro call hcall hc
      simp only [VoteCall.counted, Bool.and_eq_true, decide_eq_true_eq] at hc
      have := hold call hcall hc.1.1
      omega
    change 1 = 1 + s.voteCalls.countP _
    rw [hzero]
  refine ⟨B, hB, hS₁.addVoteCalls fun call hcall => ?_, hT₁.addVoteCalls ?_ hold⟩
  · obtain ⟨p, hp, rfl⟩ := List.mem_map.1 hcall
    exact
      { caller_mem := hid
        peer_mem := hpeers ▸ hp
        term_le := by simp [System.VoteCall.spawn]
        index := fun i hi => by simp [System.VoteCall.spawn] at hi
        request := fun req hreq => by simp [System.VoteCall.spawn] at hreq
        replies := fun r hr => by simp [System.VoteCall.spawn] at hr
        received := fun r hr => by simp [System.VoteCall.spawn] at hr }
  · rw [hpeers]
    exact C.peers_nodup id hid

theorem matched_becomeLeader (hA : GroupInv C A) (hS : Sim C s A) (hT : Tally C s)
    (hid : id ∈ C.ids) {n : Node} (hloop : s.loops id = .becomeLeader)
    (hn : (s.node id).becomeLeader = some n) :
    Matched C A
      (((s.setNode id n).setLoop id .sendHeartbeats).record ⟨id, n.currentTerm, n.log⟩) := by
  obtain ⟨hc, rfl⟩ := Node.becomeLeader_eq hn
  have hl := hS.loops id hid
  rw [hloop] at hl
  obtain ⟨Q, hQ, hv⟩ := hl hc
  obtain ⟨hB, hF, hled⟩ := hS.follows.becomeLeader hid hc hQ hv
  have hx := (steps_inv hA hB).2
  refine ⟨_, hB, ?_, ((hT.setReplica id _).setLoop fun t v r hlt => by cases hlt).record _⟩
  refine hS.change hA hB (r := (s.replicas id).setNode _) hF
    (.inl ⟨le_rfl, fun hc => by cases hc⟩) trivial (hS.applied id hid) ?_ ?_
  · exact fun b hb a ha => (hS.answers id hid b hb a ha).mono hx
  · intro m t l
    change _ ↔ ⟨m, t, l⟩ ∈ s.elections ++ [⟨id, (s.node id).currentTerm, (s.node id).log⟩]
    rw [List.mem_append, List.mem_singleton, ← hS.elections]
    constructor
    · intro hm
      rcases led_elect hm with hm | ⟨rfl, rfl, rfl⟩
      · exact .inl hm
      · have hn := hS.follows.tracks m hid
        rw [hn.term_eq, hn.log_eq]
        exact .inr rfl
    · rintro (hm | hm)
      · exact hx.led hm
      · simp only [Election.mk.injEq] at hm
        obtain ⟨rfl, rfl, rfl⟩ := hm
        exact hled

theorem matched_sendHeartbeats (hS : Sim C s A) (hT : Tally C s) (hid : id ∈ C.ids)
    (hl : (s.node id).state = .leader) :
    Matched C A
      { s.setLoop id .select with
        appendCalls := s.appendCalls
          ++ (s.node id).peers.map (System.AppendCall.heartbeat id (s.node id).currentTerm) } := by
  obtain ⟨B, hB, hS₁, hT₁⟩ := matched_setLoop hS hT id (l := .select) (by simp) (by simp)
  have hn := hS₁.follows.tracks id hid
  have hpeers : (s.node id).peers = (C.config id).peers := hn.peers_eq
  refine ⟨B, hB, hS₁.addAppendCalls fun call hcall => ?_, hT₁.addHeartbeats fun call hcall => ?_⟩
  · obtain ⟨p, hp, rfl⟩ := List.mem_map.1 hcall
    exact
      { caller_mem := hid
        peer_mem := hpeers ▸ hp
        led := hn.leader.1 hl
        heartbeat := fun _ => rfl
        proposal := fun p hp => by simp [System.AppendCall.heartbeat] at hp
        request := fun req hreq => by simp [System.AppendCall.heartbeat] at hreq
        replies := fun a ha => by simp [System.AppendCall.heartbeat] at ha
        received := fun a ha => by simp [System.AppendCall.heartbeat] at ha }
  · obtain ⟨p, -, rfl⟩ := List.mem_map.1 hcall
    rfl

/-! ## `RequestVote` -/

variable {c : ℕ} {call : VoteCall}

theorem matched_readLastLogIndex (hS : Sim C s A) (hT : Tally C s)
    (hc : s.voteCalls[c]? = some call) :
    Matched C A
      (s.setVoteCall c { call with lastLogIndex := some (s.node call.caller).lastLogIndex }) := by
  have hok := hS.votes call (List.mem_of_getElem? hc)
  refine ⟨A, .refl, hS.setVoteCall { hok with index := ?_ }, hT.setVoteCall hc rfl rfl rfl rfl⟩
  intro i hi _ _
  simp only [Option.some.injEq] at hi
  exact hi.symm

theorem matched_sendRequestVote (hS : Sim C s A) (hT : Tally C s)
    (hc : s.voteCalls[c]? = some call) {i : ℕ} (hi : call.lastLogIndex = some i) :
    Matched C A
      (s.setVoteCall c { call with
        request := some ⟨call.term, call.caller, i, (s.node call.caller).lastLogTerm⟩ }) := by
  have hok := hS.votes call (List.mem_of_getElem? hc)
  refine ⟨A, .refl, hS.setVoteCall { hok with request := ?_ }, hT.setVoteCall hc rfl rfl rfl rfl⟩
  intro req hreq
  simp only [Option.some.injEq] at hreq
  subst hreq
  refine ⟨rfl, rfl, fun hcand ht => ⟨hok.index i hi hcand ht, ?_⟩⟩
  exact Node.lastTerm_eq _

theorem matched_handleRequestVote (hA : GroupInv C A) (hS : Sim C s A) (hT : Tally C s)
    (hc : s.voteCalls[c]? = some call) (hid : call.peer ∈ C.ids) {req : RequestVoteRequest}
    (hreq : call.request = some req) :
    Matched C A
      ((s.setNode call.peer ((s.node call.peer).handleRequestVote req).1).setVoteCall c
        { call with
          replies := call.replies ++ [((s.node call.peer).handleRequestVote req).2] }) := by
  have hok := hS.votes call (List.mem_of_getElem? hc)
  obtain ⟨h1, h2, h3⟩ := hok.request req hreq
  have hne : req.candidateID ≠ call.peer := by
    rw [h2]
    exact (C.mem_of_peer hok.caller_mem hok.peer_mem).2.symm
  obtain ⟨B, hB, hF, hled, hg⟩ := hS.follows.handleRequestVote hA hid
    (by rw [h2]; exact hok.caller_mem) hne (by rw [h1, h2]; exact hok.term_le) h3
  have hx := (steps_inv hA hB).2
  have hkeep : ((s.node call.peer).handleRequestVote req).1.commitIndex
        = (s.node call.peer).commitIndex
      ∧ ((s.node call.peer).handleRequestVote req).1.lastApplied
        = (s.node call.peer).lastApplied := by
    rcases Node.handleRequestVote_cases (n := s.node call.peer) req with
      ⟨-, hr⟩ | ⟨-, hr⟩ | ⟨-, -, -, hr⟩ <;> rw [hr] <;> simp
  have hm := Node.moves_handleRequestVote (s.node call.peer) req
  have hS₁ := hS.setNode hA hid hB hled hF hm hkeep.1 hkeep.2
  have hok₁ := hok.mono (onward_update (.inl hm)) hx
  rw [← System.node_setNode] at hok₁
  refine ⟨B, hB, hS₁.setVoteCall { hok₁ with replies := ?_ },
    (hT.setReplica call.peer _).setVoteCall hc rfl rfl rfl rfl⟩
  intro r hr hgr
  rcases List.mem_append.1 hr with hr | hr
  · exact hok₁.replies r hr hgr
  · rw [List.mem_singleton.1 hr] at hgr
    obtain ⟨l, hl⟩ := hg hgr
    rw [h1, h2] at hl
    exact ⟨l, hl⟩

theorem nextVote_eq {n : Node} {term votes responses t v r : ℕ}
    (h : System.nextVote n term votes responses = .collectVotes t v r) :
    t = term ∧ v = votes := by
  unfold System.nextVote at h
  split_ifs at h
  simp only [RunLoop.collectVotes.injEq] at h
  exact ⟨h.1.symm, h.2.1.symm⟩

/-- The tally with the response of call `c` taken, the loop being left at `l`. -/
theorem Tally.receiveVote (hT : Tally C s) (hid : call.caller ∈ C.ids) {resp : RequestVoteResponse}
    (hc : s.voteCalls[c]? = some call) (hrec : call.received = none) {v r : ℕ}
    (hl : s.loops call.caller = .collectVotes call.term v r) {l : RunLoop}
    (hnext : ∀ t v' r', l = .collectVotes t v' r' →
      t = call.term ∧ v' = v + if resp.voteGranted then 1 else 0) :
    Tally C ((s.setLoop call.caller l).setVoteCall c { call with received := some resp }) :=
  { hT with
    vote_keys := by
      simp only [System.setVoteCall, System.setLoop]
      rw [map_set_of_eq hc (by simp)]
      exact hT.vote_keys
    votes := fun x hx t v' r' hloop => by
      simp only [System.setVoteCall, System.setLoop] at hloop ⊢
      rw [countP_set_of_false hc (by simp [VoteCall.counted, hrec])]
      by_cases hne : x = call.caller
      · subst hne
        rw [Function.update_self] at hloop
        obtain ⟨rfl, rfl⟩ := hnext t v' r' hloop
        rw [hT.votes _ hid _ _ _ hl]
        simp [VoteCall.counted, Nat.add_assoc]
      · rw [Function.update_of_ne hne] at hloop
        rw [hT.votes x hx t v' r' hloop]
        simp [VoteCall.counted, Ne.symm hne] }

/-- Enough votes: those counted, that of the call just answered and the candidate's own. -/
theorem Sim.elected (hS : Sim C s A) (hT : Tally C s) (hc : s.voteCalls[c]? = some call)
    (hrec : call.received = none) (hcand : (s.node call.caller).state = .candidate)
    (hterm : (s.node call.caller).currentTerm = call.term)
    (hq : (C.node call.caller).quorum
      ≤ s.voteCalls.countP (VoteCall.counted call.caller call.term) + 2)
    (hgr : ∃ l, A.vote call.peer call.term = some (call.caller, l)) :
    ∃ S, C.quorums.IsQuorum S ∧ ∀ v ∈ S, ∃ l, A.vote v call.term = some (call.caller, l) := by
  have hok := hS.votes call (List.mem_of_getElem? hc)
  obtain ⟨F, hcard, hmem⟩ := hT.voters call.caller call.term
  have hnew : call.peer ∉ F := by
    intro hin
    obtain ⟨call', hc', hcnt, hpeer⟩ := (hmem _).1 hin
    have hkey : call' = call := by
      refine List.inj_on_of_nodup_map hT.vote_keys hc' (List.mem_of_getElem? hc) ?_
      simp only [VoteCall.counted, Bool.and_eq_true, decide_eq_true_eq] at hcnt
      rw [hcnt.1.1, hcnt.1.2, hpeer]
    rw [hkey] at hcnt
    simp [VoteCall.counted, hrec] at hcnt
  have hvote : ∀ p ∈ insert call.peer F, p ∈ (C.config call.caller).peers
      ∧ ∃ l, A.vote p call.term = some (call.caller, l) := by
    intro p hp
    rcases Finset.mem_insert.1 hp with rfl | hp
    · exact ⟨hok.peer_mem, hgr⟩
    · obtain ⟨call', hc', hcnt, rfl⟩ := (hmem p).1 hp
      have hok' := hS.votes call' hc'
      simp only [VoteCall.counted, Bool.and_eq_true, decide_eq_true_eq] at hcnt
      obtain ⟨⟨h1, h2⟩, h3⟩ := hcnt
      rw [← h1, ← h2]
      refine ⟨hok'.peer_mem, ?_⟩
      split at h3
      · rename_i r hr
        exact hok'.received r hr h3
      · cases h3
  refine ⟨_, C.isQuorum hok.caller_mem (F := insert call.peer F) (fun p hp => (hvote p hp).1) ?_,
    ?_⟩
  · rw [Finset.card_insert_of_notMem hnew, hcard]
    exact hq
  · rintro v (rfl | hv)
    · have hn := hS.follows.tracks _ hok.caller_mem
      have hself := (hn.candidate hcand).1
      obtain ⟨l, hl⟩ := hn.voted (by rw [hself]; exact C.id_ne_empty hok.caller_mem)
      rw [hself, hterm] at hl
      exact ⟨l, hl⟩
    · exact (hvote v hv).2

variable {votes responses : ℕ} {resp : RequestVoteResponse}

theorem VoteCall.OK.receive {B : Group String LogEntry} {nd : String → Node}
    (hok : call.OK C nd B)
    (hg : resp.voteGranted = true → ∃ l, B.vote call.peer call.term = some (call.caller, l)) :
    VoteCall.OK C nd B { call with received := some resp } := by
  refine { hok with received := fun r hr => ?_ }
  simp only [Option.some.injEq] at hr
  subst hr
  exact hg

theorem matched_voteDeposes (hA : GroupInv C A) (hS : Sim C s A) (hT : Tally C s)
    (h : VoteTaken C s c call votes responses resp) :
    Matched C A
      (((s.setNode call.caller ((s.node call.caller).observeTerm resp.term)).setLoop
        call.caller .select).setVoteCall c { call with received := some resp }) := by
  have hok := hS.votes call (List.mem_of_getElem? h.call_eq)
  obtain ⟨B, hB, hF, hled⟩ := hS.follows.adopt hA h.caller_mem resp.term "" (.inl rfl)
  have hx := (steps_inv hA hB).2
  have hm := Node.moves_adopt (s.node call.caller) resp.term ""
  have hS₁ := hS.changeNode hA h.caller_mem hB hled (l := .select) hF (.inl hm) trivial
    Node.adopt_commitIndex Node.adopt_lastApplied
  have hok₁ := hok.mono (onward_update (.inl hm)) hx
  rw [← System.node_setNode] at hok₁
  refine ⟨B, hB, hS₁.setVoteCall (hok₁.receive fun hg => hok₁.replies resp (h.mem_replies hg) hg),
    ?_⟩
  exact (hT.setReplica call.caller _).receiveVote h.caller_mem h.call_eq h.received_eq h.loop_eq
    fun t v' r' hlt => by cases hlt

/-- A response that leaves the node as it is. -/
theorem matched_voteTaken (hS : Sim C s A) (hT : Tally C s)
    (h : VoteTaken C s c call votes responses resp) {l : RunLoop}
    (hl : LoopOK C A call.caller (s.node call.caller) l)
    (hnext : ∀ t v' r', l = .collectVotes t v' r' →
      t = call.term ∧ v' = votes + if resp.voteGranted then 1 else 0) :
    Matched C A
      ((s.setLoop call.caller l).setVoteCall c { call with received := some resp }) := by
  have hok := hS.votes call (List.mem_of_getElem? h.call_eq)
  exact ⟨A, .refl, (hS.setLoop hl).setVoteCall
      (hok.receive fun hg => hok.replies resp (h.mem_replies hg) hg),
    hT.receiveVote h.caller_mem h.call_eq h.received_eq h.loop_eq hnext⟩

theorem matched_voteElects (hS : Sim C s A) (hT : Tally C s)
    (h : VoteTaken C s c call votes responses resp)
    (hcand : (s.node call.caller).state = .candidate)
    (hterm : (s.node call.caller).currentTerm = call.term) (hgrant : resp.voteGranted = true)
    (hq : (s.node call.caller).quorum ≤ votes + 1) :
    Matched C A
      ((s.setLoop call.caller .becomeLeader).setVoteCall c
        { call with received := some resp }) := by
  have hok := hS.votes call (List.mem_of_getElem? h.call_eq)
  refine matched_voteTaken hS hT h (fun _ => ?_) fun t v' r' hlt => by cases hlt
  rw [hterm]
  refine hS.elected hT h.call_eq h.received_eq hcand hterm ?_
    (hok.replies resp (h.mem_replies hgrant) hgrant)
  rw [hS.quorum_eq h.caller_mem, hT.votes _ h.caller_mem _ _ _ h.loop_eq] at hq
  omega

theorem matched_voteCounts (hS : Sim C s A) (hT : Tally C s)
    (h : VoteTaken C s c call votes responses resp) :
    Matched C A
      ((s.setLoop call.caller (System.nextVote (s.node call.caller) call.term
        (votes + if resp.voteGranted then 1 else 0) (responses + 1))).setVoteCall c
          { call with received := some resp }) := by
  refine matched_voteTaken hS hT h ?_ fun t v' r' hlt => nextVote_eq hlt
  unfold System.nextVote
  split_ifs <;> trivial

end

end EdgeSim.Raft
