import EdgeSim.Raft.Safety

/-!
# The tallies against the plain count

`startElection` and `Propose` start their tally at one, for the node itself, and compare it with
`quorum()` only when a reply that counts has come in. So for any peers and any replies the outcome
is that of the plain count, except where there is no peer to reply: there the node's own vote is a
quorum and is never looked at.
-/

namespace EdgeSim.Raft

namespace System

/-! ## A call by itself -/

/-- What `startElection` takes from `respCh` for an RPC that returned `resp`, or an error. -/
def voteOf (term : ℕ) (outcome : Option RequestVoteResponse) : RequestVoteResponse :=
  outcome.getD ⟨term, false⟩

/-- The loop of `startElection` on `id`, with the outcomes of its calls in the order in which they
arrive. -/
def collectVotes (s : System) (id : String) : List (Option RequestVoteResponse) → System
  | [] => s
  | outcome :: outcomes =>
    match s.loops id with
    | .collectVotes term votes responses =>
      let (n, l) := takeVote (s.node id) term votes responses (voteOf term outcome)
      collectVotes ((s.setNode id n).setLoop id l) id outcomes
    | _ => s

/-- `startElection` on `id` from its first lock to its return, while nothing else is done. -/
def runElection (s : System) (id : String) (outcomes : List (Option RequestVoteResponse)) :
    Option System :=
  (s.startElection id).map fun s =>
    let s := s.collectVotes id outcomes
    (s.becomeLeader id).getD s

/-- What `Propose` takes from `respCh`. -/
def ackOf (term : ℕ) (outcome : Option AppendEntriesResponse) : AppendEntriesResponse :=
  outcome.getD ⟨term, false⟩

/-- The loop of the `Propose` call `p`. -/
def collectAcks (s : System) (p : ℕ) : List (Option AppendEntriesResponse) → System
  | [] => s
  | outcome :: outcomes =>
    match s.proposals[p]? with
    | some P =>
      if P.ended = none then
        collectAcks (s.takeAck p P (ackOf P.entry.term outcome)) p outcomes
      else s
    | none => s

/-- `Propose` on `id` from its first lock to its return, while nothing else is done. -/
def runPropose (s : System) (id command : String) (outcomes : List (Option AppendEntriesResponse)) :
    Option System :=
  (s.propose id command).map fun t => t.collectAcks s.proposals.length outcomes

/-- The `Propose` call `p` returned `nil`, and `commitIndex` covers its entry. -/
def Committed (s : System) (p : ℕ) : Prop :=
  ∃ P c, s.proposals[p]? = some P ∧ P.ended = some (.ok, c)
    ∧ P.newIndex ≤ (s.node P.node).commitIndex

end System

def granted (outcomes : List (Option RequestVoteResponse)) : ℕ :=
  outcomes.countP fun o => o.any RequestVoteResponse.voteGranted

def acknowledged (outcomes : List (Option AppendEntriesResponse)) : ℕ :=
  outcomes.countP fun o => o.any AppendEntriesResponse.success

open EdgeSim.Raft.System

variable {s t : System} {id : String} {n : Node}

/-! ## The steps of the cluster are steps of the calls -/

/-- A reply that arrives in the cluster takes the loop one step further. -/
theorem receiveVote_collectVotes {c : ℕ} {call : VoteCall} {reply : Option ℕ}
    (h : s.receiveVote c call reply = some t) :
    ∃ outcome, t = (s.collectVotes call.caller [outcome]).setVoteCall c
      { call with received := outcome } := by
  unfold System.receiveVote at h
  split at h
  · rename_i term votes responses hloop
    split_ifs at h
    split at h
    · rename_i resp _
      refine ⟨some resp, ?_⟩
      rw [System.collectVotes, hloop]
      exact (Option.some.inj h).symm
    · cases h
  · cases h

theorem takeAck_setAppendCall (s : System) (c p : ℕ) (call : AppendCall) (P : Proposal)
    (resp : AppendEntriesResponse) :
    (s.setAppendCall c call).takeAck p P resp = (s.takeAck p P resp).setAppendCall c call := by
  have hr : (s.setAppendCall c call).replicas = s.replicas := rfl
  have hn : (s.setAppendCall c call).node = s.node := rfl
  unfold System.takeAck
  rw [hr, hn]
  dsimp only
  split_ifs
  · rfl
  · cases (s.replicas P.node).commitProposal P.newIndex <;> rfl
  all_goals rfl

theorem receiveAppend_collectAcks {c p : ℕ} {call : AppendCall} {reply : Option ℕ}
    (hp : call.proposal = some p) (h : s.receiveAppend c call reply = some t) :
    ∃ outcome received, t = (s.collectAcks p [outcome]).setAppendCall c
      { call with received := received } := by
  unfold System.receiveAppend at h
  split_ifs at h
  split at h
  · rename_i outcome _
    rw [hp] at h
    dsimp only at h
    split at h
    · rename_i P hP
      split_ifs at h with hended
      have htake (o : Option AppendEntriesResponse) : s.collectAcks p [o]
          = s.takeAck p P (ackOf P.entry.term o) := by
        rw [System.collectAcks, hP]
        exact if_pos hended
      cases outcome with
      | failed =>
        refine ⟨none, some .failed, ?_⟩
        rw [htake, ← takeAck_setAppendCall, hp]
        exact (Option.some.inj h).symm
      | reply a =>
        refine ⟨some a.resp, some (.reply a), ?_⟩
        rw [htake, ← takeAck_setAppendCall, hp]
        exact (Option.some.inj h).symm
    · cases h
  · cases h

/-! ## The loop of `startElection` -/

theorem voteOf_granted (term : ℕ) (o : Option RequestVoteResponse) :
    (voteOf term o).voteGranted = o.any RequestVoteResponse.voteGranted := by
  cases o <;> rfl

theorem voteOf_term {term : ℕ} {o : Option RequestVoteResponse}
    (h : ∀ r, o = some r → r.term ≤ term) : (voteOf term o).term ≤ term := by
  cases o with
  | none => exact le_rfl
  | some r => exact h r rfl

/-- A reply of no later term, taken by a candidate of the term. -/
theorem takeVote_candidate (hcand : n.state = .candidate) {votes responses : ℕ}
    {resp : RequestVoteResponse} (hresp : resp.term ≤ n.currentTerm) :
    takeVote n n.currentTerm votes responses resp
      = (n, if resp.voteGranted = true then
          if votes + 1 ≥ n.quorum then .becomeLeader
          else nextVote n n.currentTerm (votes + 1) (responses + 1)
        else nextVote n n.currentTerm votes (responses + 1)) := by
  unfold takeVote
  rw [if_neg (not_lt.2 hresp), if_neg (by simp [hcand])]
  split_ifs <;> rfl

theorem collectVotes_done {l : RunLoop} (h : s.loops id = l)
    (hl : ∀ term votes responses, l ≠ .collectVotes term votes responses) :
    ∀ outcomes, s.collectVotes id outcomes = s
  | [] => rfl
  | o :: os => by
    rw [System.collectVotes, h]
    cases l with
    | collectVotes term votes responses => exact absurd rfl (hl term votes responses)
    | _ => rfl

/-- The loop ends in `becomeLeader` by the plain count. -/
theorem collectVotes_spec (hcand : n.state = .candidate) :
    ∀ {outcomes : List (Option RequestVoteResponse)} {s : System} {votes responses : ℕ},
      s.node id = n → s.loops id = nextVote n n.currentTerm votes responses →
      responses + outcomes.length = n.peers.length → votes < n.quorum →
      (∀ o ∈ outcomes, ∀ r, o = some r → r.term ≤ n.currentTerm) →
      (s.collectVotes id outcomes).node id = n
      ∧ (s.collectVotes id outcomes).loops id
        = if n.quorum ≤ votes + granted outcomes then .becomeLeader else .select
  | [], s, votes, responses, hnode, hloop, hlen, hvotes, _ => by
    rw [List.length_nil, Nat.add_zero] at hlen
    rw [System.collectVotes, hloop, nextVote, if_neg (by omega)]
    exact ⟨hnode, (if_neg (by simpa [granted] using hvotes)).symm⟩
  | o :: os, s, votes, responses, hnode, hloop, hlen, hvotes, hterm => by
    rw [List.length_cons] at hlen
    have hcount : granted (o :: os) = granted os + if (voteOf n.currentTerm o).voteGranted = true
        then 1 else 0 := by
      rw [granted, List.countP_cons, voteOf_granted]
      rfl
    have hrest : ∀ o ∈ os, ∀ r, o = some r → r.term ≤ n.currentTerm :=
      fun x hx => hterm x (List.mem_cons_of_mem _ hx)
    have hnode' (l : RunLoop) : ((s.setNode id n).setLoop id l).node id = n := by simp
    have hloop' (l : RunLoop) : ((s.setNode id n).setLoop id l).loops id = l := by
      simp [System.setLoop]
    rw [nextVote, if_pos (by omega)] at hloop
    rw [System.collectVotes, hloop]
    dsimp only
    rw [hnode, takeVote_candidate hcand (voteOf_term (hterm o List.mem_cons_self)), hcount]
    by_cases hvote : (voteOf n.currentTerm o).voteGranted = true
    · rw [if_pos hvote, if_pos hvote]
      by_cases hquorum : votes + 1 ≥ n.quorum
      · rw [if_pos hquorum, collectVotes_done (hloop' _) (by simp), if_pos (by omega)]
        exact ⟨hnode' _, hloop' _⟩
      · rw [if_neg hquorum, ← Nat.add_assoc, Nat.add_right_comm]
        exact collectVotes_spec hcand (hnode' _) (hloop' _) (by omega) (by omega) hrest
    · rw [if_neg hvote, if_neg hvote, Nat.add_zero]
      exact collectVotes_spec hcand (hnode' _) (hloop' _) (by omega) hvotes hrest

theorem startElection_spec (hloop : s.loops id = .startElection) :
    ∃ u, s.startElection id = some u ∧ u.node id = (s.node id).startCandidacy
      ∧ u.loops id = nextVote (s.node id).startCandidacy (s.node id).startCandidacy.currentTerm
        1 0 := by
  refine ⟨_, by rw [System.startElection, hloop], ?_, ?_⟩
  · simp [System.node, System.setLoop, System.setNode, System.setReplica, Replica.setNode]
  · simp [System.setLoop, nextVote]

/-- `startElection` by itself, on a node with peers. -/
theorem runElection_spec (hloop : s.loops id = .startElection) (hid : (s.node id).id ≠ "")
    (hpeers : (s.node id).peers ≠ []) {outcomes : List (Option RequestVoteResponse)}
    (hlen : outcomes.length = (s.node id).peers.length)
    (hterm : ∀ o ∈ outcomes, ∀ r, o = some r → r.term ≤ (s.node id).currentTerm + 1) :
    ∃ t, s.runElection id outcomes = some t
      ∧ ((t.node id).state = .leader ↔ (s.node id).quorum ≤ 1 + granted outcomes) := by
  have hpos : 0 < (s.node id).peers.length := List.length_pos_iff.2 hpeers
  set n := (s.node id).startCandidacy with hn
  have hquorum : 1 < n.quorum := by
    simp only [hn, Node.quorum, Node.startCandidacy]
    omega
  obtain ⟨u, hu, hunode, huloop⟩ := startElection_spec hloop
  obtain ⟨hnode, hend⟩ := collectVotes_spec (n := n) rfl hunode huloop
    (by rw [Nat.zero_add, hlen]; rfl) hquorum hterm
  have hleader : n.becomeLeader = some { n with state := .leader, leaderID := n.id } := by
    rw [Node.becomeLeader, if_neg (by simp [hn, Node.startCandidacy]), if_neg]
    exact fun h => hid h.symm
  refine ⟨_, by rw [System.runElection, hu, Option.map_some], ?_⟩
  have hq : (s.node id).quorum = n.quorum := rfl
  dsimp only
  rw [hq]
  unfold System.becomeLeader
  rw [hend]
  by_cases hcount : n.quorum ≤ 1 + granted outcomes
  · rw [if_pos hcount]
    dsimp only
    rw [hnode, hleader]
    simp [System.node, System.record, System.setLoop, System.setNode, System.setReplica,
      Replica.setNode, hcount]
  · rw [if_neg hcount]
    dsimp only
    rw [Option.getD_none, hnode]
    have hcand : n.state = .candidate := rfl
    simp [hcand, hcount]

/-- Without peers `startElection` returns as a candidate. -/
theorem runElection_alone (hloop : s.loops id = .startElection) (hpeers : (s.node id).peers = []) :
    ∃ t, s.runElection id [] = some t ∧ (t.node id).state = .candidate := by
  obtain ⟨u, hu, hnode, huloop⟩ := startElection_spec hloop
  have hselect : u.loops id = .select := by
    rw [huloop, nextVote, if_neg]
    simp [Node.startCandidacy, hpeers]
  refine ⟨u, ?_, by rw [hnode]; rfl⟩
  rw [System.runElection, hu, Option.map_some, System.collectVotes]
  dsimp only
  rw [System.becomeLeader, hselect]
  rfl

/-! ## The loop of `Propose` -/

theorem ackOf_success (term : ℕ) (o : Option AppendEntriesResponse) :
    (ackOf term o).success = o.any AppendEntriesResponse.success := by
  cases o <;> rfl

theorem ackOf_term {term : ℕ} {o : Option AppendEntriesResponse}
    (h : ∀ r, o = some r → r.term ≤ term) : (ackOf term o).term ≤ term := by
  cases o with
  | none => exact le_rfl
  | some r => exact h r rfl

/-- The loop of `Propose` goes on while `responses < len(n.peers)`. -/
def Proposal.Waiting (n : Node) (P : Proposal) : Prop :=
  P.ended = if P.responses < n.peers.length then none else some (.replicationFailed, n.commitIndex)

theorem collectAcks_done {p : ℕ} {P : Proposal} (hP : s.proposals[p]? = some P)
    (hended : P.ended ≠ none) : ∀ outcomes, s.collectAcks p outcomes = s
  | [] => rfl
  | o :: os => by rw [System.collectAcks, hP]; exact if_neg hended

/-- The entry that reaches the quorum is committed. -/
theorem commitProposal_covers {i : ℕ} (h : i ≤ n.log.length) :
    ∃ n' es, n.commitProposal i = some (n', es) ∧ i ≤ n'.commitIndex := by
  obtain ⟨⟨n', es⟩, hr⟩ := Node.commitProposal_isSome h
  refine ⟨n', es, hr, ?_⟩
  rcases Node.commitProposal_cases hr with ⟨hle, rfl, -⟩ | ⟨-, -, rfl⟩
  · exact hle
  · exact le_rfl

/-- The loop returns `nil` by the plain count. -/
theorem collectAcks_spec {p : ℕ} :
    ∀ {outcomes : List (Option AppendEntriesResponse)} {s : System} {P : Proposal},
      s.proposals[p]? = some P → P.node = id → s.node id = n → P.Waiting n →
      P.newIndex ≤ n.log.length → P.responses + outcomes.length = n.peers.length →
      P.acks < n.quorum → (∀ o ∈ outcomes, ∀ r, o = some r → r.term ≤ P.entry.term) →
      ((s.collectAcks p outcomes).Committed p ↔ n.quorum ≤ P.acks + acknowledged outcomes)
  | [], s, P, hP, hid, hnode, hwait, hlog, hlen, hacks, _ => by
    rw [List.length_nil, Nat.add_zero] at hlen
    rw [Proposal.Waiting, if_neg (by omega)] at hwait
    refine iff_of_false ?_ (by simpa [acknowledged] using hacks)
    rintro ⟨Q, c, hQ, hended, -⟩
    rw [System.collectAcks, hP, Option.some.injEq] at hQ
    subst hQ
    rw [hwait] at hended
    cases hended
  | o :: os, s, P, hP, hid, hnode, hwait, hlog, hlen, hacks, hterm => by
    rw [List.length_cons] at hlen
    have hcount : acknowledged (o :: os) = acknowledged os
        + if (ackOf P.entry.term o).success = true then 1 else 0 := by
      rw [acknowledged, List.countP_cons, ackOf_success]
      rfl
    have hrest : ∀ o ∈ os, ∀ r, o = some r → r.term ≤ P.entry.term :=
      fun x hx => hterm x (List.mem_cons_of_mem _ hx)
    have hset (Q : Proposal) : (s.setProposal p Q).proposals[p]? = some Q := by
      simp [System.setProposal, (List.getElem?_eq_some_iff.1 hP).1]
    have hnext (acks : ℕ) (hacks : acks < n.quorum) :
        ((s.setProposal p
            { P with
              node := id, acks := acks, responses := P.responses + 1
              ended := if P.responses + 1 < n.peers.length then none
                else some (.replicationFailed, n.commitIndex) }).collectAcks p os).Committed p
          ↔ n.quorum ≤ acks + acknowledged os :=
      collectAcks_spec (hset _) rfl hnode rfl hlog (by dsimp only; omega) hacks hrest
    rw [Proposal.Waiting, if_pos (by omega)] at hwait
    rw [System.collectAcks, hP]
    dsimp only
    rw [if_pos hwait, System.takeAck, hid, hnode,
      if_neg (not_lt.2 (ackOf_term (hterm o List.mem_cons_self))), hcount]
    by_cases hack : (ackOf P.entry.term o).success = true
    · rw [if_pos hack, if_pos hack]
      by_cases hquorum : P.acks + 1 ≥ n.quorum
      · obtain ⟨n', es, hn', hcommit⟩ := commitProposal_covers hlog
        have hr : (s.replicas id).commitProposal P.newIndex
            = some ((s.replicas id).collect n' es none) := by
          rw [Replica.commitProposal, show (s.replicas id).node = n from hnode, hn']
        rw [if_pos hquorum, hr]
        dsimp only
        have hset' (r : Replica) (Q : Proposal) :
            ((s.setReplica id r).setProposal p Q).proposals[p]? = some Q := hset Q
        rw [collectAcks_done (hset' _ _) (by simp)]
        refine iff_of_true ⟨_, _, hset' _ _, rfl, ?_⟩ (by omega)
        dsimp only
        rw [show (System.setProposal _ p _).node = (System.setReplica _ _ _).node from rfl,
          System.node_setReplica, Function.update_self]
        exact hcommit
      · rw [if_neg hquorum, ← Nat.add_assoc, Nat.add_right_comm]
        exact hnext (P.acks + 1) (by omega)
    · rw [if_neg hack, if_neg hack, Nat.add_zero]
      exact hnext P.acks hacks

theorem propose_spec (hleader : (s.node id).state = .leader) (command : String) :
    ∃ u P, s.propose id command = some u ∧ u.proposals[s.proposals.length]? = some P
      ∧ P.node = id ∧ u.node id = (s.node id).appendCommand command
      ∧ P.Waiting ((s.node id).appendCommand command) ∧ P.acks = 1 ∧ P.responses = 0
      ∧ P.entry.term = (s.node id).currentTerm
      ∧ P.newIndex = ((s.node id).appendCommand command).log.length := by
  rw [System.propose, if_neg (not_not_intro hleader)]
  refine ⟨_, _, rfl, List.getElem?_concat_length, rfl, ?_, rfl, rfl, rfl, rfl, rfl⟩
  simp [System.node, System.setNode, System.setReplica, Replica.setNode]

/-- `Propose` by itself, on a leader with peers. -/
theorem runPropose_spec (hleader : (s.node id).state = .leader) (command : String)
    (hpeers : (s.node id).peers ≠ []) {outcomes : List (Option AppendEntriesResponse)}
    (hlen : outcomes.length = (s.node id).peers.length)
    (hterm : ∀ o ∈ outcomes, ∀ r, o = some r → r.term ≤ (s.node id).currentTerm) :
    ∃ t, s.runPropose id command outcomes = some t
      ∧ (t.Committed s.proposals.length
        ↔ (s.node id).quorum ≤ 1 + acknowledged outcomes) := by
  obtain ⟨u, P, hu, hP, hid, hnode, hwait, hacks, hresp, hPterm, hnew⟩ :=
    propose_spec hleader command
  have hpos : 0 < (s.node id).peers.length := List.length_pos_iff.2 hpeers
  have hquorum : ((s.node id).appendCommand command).quorum = (s.node id).quorum := rfl
  have hone : 1 < (s.node id).quorum := by
    rw [Node.quorum]
    omega
  refine ⟨u.collectAcks s.proposals.length outcomes, by rw [System.runPropose, hu]; rfl, ?_⟩
  rw [collectAcks_spec hP hid hnode hwait hnew.le (by rw [hresp, Nat.zero_add, hlen]; rfl)
    (by rw [hacks, hquorum]; exact hone) (by rw [hPterm]; exact hterm), hacks, hquorum]

/-- Without peers `Propose` fails. -/
theorem runPropose_alone (hleader : (s.node id).state = .leader) (command : String)
    (hpeers : (s.node id).peers = []) :
    ∃ t, s.runPropose id command [] = some t ∧ ¬ t.Committed s.proposals.length := by
  obtain ⟨u, P, hu, hP, -, -, hwait, -⟩ := propose_spec hleader command
  have hended : P.ended = some (.replicationFailed, (s.node id).commitIndex) := by
    rw [hwait, if_neg]
    · rfl
    · simp [Node.appendCommand, hpeers]
  refine ⟨u, by rw [System.runPropose, hu]; rfl, ?_⟩
  rintro ⟨Q, c, hQ, hok, -⟩
  rw [hP, Option.some.injEq] at hQ
  subst hQ
  rw [hended] at hok
  cases hok

/-- The outcome of `startElection` and of `Propose` is that of the plain count exactly on the nodes
that have peers. -/
theorem quorum_tally (s : System) (id : String) (hid : (s.node id).id ≠ "") :
    (∀ outcomes, s.loops id = .startElection → outcomes.length = (s.node id).peers.length →
      (∀ o ∈ outcomes, ∀ r, o = some r → r.term ≤ (s.node id).currentTerm + 1) →
      ((∃ t, s.runElection id outcomes = some t
          ∧ ((t.node id).state = .leader ↔ (s.node id).quorum ≤ 1 + granted outcomes))
        ↔ (s.node id).peers ≠ []))
    ∧ ∀ command outcomes, (s.node id).state = .leader →
      outcomes.length = (s.node id).peers.length →
      (∀ o ∈ outcomes, ∀ r, o = some r → r.term ≤ (s.node id).currentTerm) →
      ((∃ t, s.runPropose id command outcomes = some t
          ∧ (t.Committed s.proposals.length
            ↔ (s.node id).quorum ≤ 1 + acknowledged outcomes))
        ↔ (s.node id).peers ≠ []) := by
  have hone (hpeers : (s.node id).peers = []) : (s.node id).quorum = 1 := by
    rw [Node.quorum, hpeers]
    rfl
  refine ⟨fun outcomes hloop hlen hterm => ⟨?_, fun hpeers => ?_⟩,
    fun command outcomes hleader hlen hterm => ⟨?_, fun hpeers => ?_⟩⟩
  · rintro ⟨t, ht, htally⟩ hpeers
    rw [hpeers] at hlen
    obtain rfl := List.eq_nil_of_length_eq_zero hlen
    obtain ⟨u, hu, hcand⟩ := runElection_alone hloop hpeers
    obtain rfl := Option.some.inj (ht.symm.trans hu)
    rw [hcand, hone hpeers] at htally
    cases htally.2 (Nat.le_add_right _ _)
  · exact runElection_spec hloop hid hpeers hlen hterm
  · rintro ⟨t, ht, htally⟩ hpeers
    rw [hpeers] at hlen
    obtain rfl := List.eq_nil_of_length_eq_zero hlen
    obtain ⟨u, hu, hfail⟩ := runPropose_alone hleader command hpeers
    obtain rfl := Option.some.inj (ht.symm.trans hu)
    rw [hone hpeers] at htally
    exact hfail (htally.2 (Nat.le_add_right _ _))
  · exact runPropose_spec hleader command hpeers hlen hterm

/-- With the vote of `b` and no answer from `c`, `a` is elected. -/
theorem quorum_tally_trio :
    ∃ t, (trio.init.setLoop "a" .startElection).runElection "a" [some ⟨1, true⟩, none] = some t
      ∧ (t.node "a").state = .leader := by
  have htally := (quorum_tally (trio.init.setLoop "a" .startElection) "a" (by decide)).1
    [some ⟨1, true⟩, none] (by decide) (by decide) (by decide)
  obtain ⟨t, ht, hiff⟩ := htally.2 (by decide)
  exact ⟨t, ht, hiff.2 (by decide)⟩

/-- A coordinator that is given no peers. -/
def solo : Cluster where
  ids := ["coord-1"]
  config id := ⟨id, [], true, 150, 300, 50⟩
  node id :=
    { id, peers := [], currentTerm := 0, votedFor := "", leaderID := "", state := .follower
      log := [], commitIndex := 0, lastApplied := 0 }
  nodup := by decide
  config_id _ _ := rfl
  created := by decide
  peers_nodup := by decide
  mem_peers id hid p := by simp_all

/-- Its own vote is a quorum, and it ends the election as a candidate. -/
theorem solo_not_elected : ∃ s t, solo.Run solo.init [.onElectionTimeout "coord-1"] s
    ∧ s.runElection "coord-1" [] = some t ∧ (s.node "coord-1").peers = []
    ∧ (s.node "coord-1").quorum ≤ 1 + granted []
    ∧ (t.node "coord-1").state = .candidate := by
  obtain ⟨s, hs, hp⟩ : ∃ s, solo.Run solo.init _ s ∧ _ :=
    Runs.exists_run [.onElectionTimeout "coord-1"]
      (fun s => (s.runElection "coord-1" []).any
        (fun t => (t.node "coord-1").state = .candidate)
        && (s.node "coord-1").peers = []
        && decide ((s.node "coord-1").quorum ≤ 1 + granted []))
      (by decide +kernel)
  simp only [Bool.and_eq_true, decide_eq_true_eq, Option.any_eq_true] at hp
  obtain ⟨⟨⟨t, ht, hcand⟩, hpeers⟩, hquorum⟩ := hp
  exact ⟨s, t, hs, ht, hpeers, hquorum, hcand⟩

end EdgeSim.Raft
