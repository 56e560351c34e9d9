import EdgeSim.Raft.Apply
import EdgeSim.Raft.Commit

/-!
# When committed entries agree

`HandleAppendEntries` takes `LeaderCommit` up to the end of its own log, and checks the previous
entry of a request only if the request has entries. So a heartbeat can commit what a follower
holds from an older term, and the same goes for a commit index that the sender has learnt as a
follower of a later leader. Where the follower agrees with the sender up to the index it commits,
every committed prefix is chosen, no two of them contradict each other, and none is given up.
-/

namespace EdgeSim.Raft

open Lists TermLog TermLog.Group

/-! ## The condition -/

/-- The follower `n` keeps its entry at `j` when it accepts `req`: only those from a conflicting
entry on are cut off. -/
def Survives (n : Node) (req : AppendEntriesRequest) (j : ℕ) : Prop :=
  req.entries = [] ∨ j < req.prevLogIndex
    ∨ (n.log[req.prevLogIndex]?).map LogEntry.term = req.entries.head?.map LogEntry.term

/-- If `req` is accepted by `n` and carries a higher `LeaderCommit`, then what `n` keeps below
`LeaderCommit`, and the entry it is sent, stand in the sender's log. -/
def Agrees (n : Node) (sender : List LogEntry) (req : AppendEntriesRequest) : Prop :=
  n.currentTerm ≤ req.term →
  (req.entries = [] ∨ n.matchPrevLog req.prevLogIndex req.prevLogTerm = true) →
  n.commitIndex < req.leaderCommit →
  (∀ j < req.leaderCommit, Survives n req j → n.log[j]? = none ∨ n.log[j]? = sender[j]?)
    ∧ (req.prevLogIndex < req.leaderCommit →
      req.entries = [] ∨ sender[req.prevLogIndex]? = req.entries.head?)

instance (n : Node) (req : AppendEntriesRequest) (j : ℕ) : Decidable (Survives n req j) :=
  inferInstanceAs (Decidable (_ ∨ _ ∨ _))

instance (n : Node) (sender : List LogEntry) (req : AppendEntriesRequest) :
    Decidable (Agrees n sender req) :=
  inferInstanceAs (Decidable (_ → _ → _ → _))

/-- The steps of a run in which no request commits what the follower does not share with its
sender. -/
def Checked (s : System) : Action → Prop
  | .handleAppendEntries c => ∀ call ∈ s.appendCalls[c]?, ∀ req ∈ call.request,
      Agrees (s.node call.peer) (s.node call.caller).log req
  | _ => True

instance (s : System) : (a : Action) → Decidable (Checked s a)
  | .handleAppendEntries c => inferInstanceAs (Decidable (∀ call ∈ s.appendCalls[c]?,
      ∀ req ∈ call.request, Agrees (s.node call.peer) (s.node call.caller).log req))
  | .onElectionTimeout _ | .startElection _ | .becomeLeader _ | .heartbeatTick _
  | .sendHeartbeats _ | .cancelRun _ | .readLastLogIndex _ | .sendRequestVote _
  | .handleRequestVote _ | .receiveVote _ _ | .propose _ _ | .cancelPropose _
  | .readPrevLogIndex _ | .readPrevLogTerm _ | .sendAppendEntries _ | .receiveAppend _ _
  | .apply _ _ | .finish _ _ => .isTrue trivial

/-- The log a follower has accepted a request with, below `LeaderCommit`. -/
theorem Agrees.getElem? {n : Node} {sender : List LogEntry} {req : AppendEntriesRequest}
    (h : Agrees n sender req) (hterm : n.currentTerm ≤ req.term)
    (hm : req.entries = [] ∨ n.matchPrevLog req.prevLogIndex req.prevLogTerm = true)
    (hc : n.commitIndex < req.leaderCommit)
    (hent : req.entries = [] ∨ ∃ e, req.entries = [e]) {j : ℕ} (hj : j < req.leaderCommit)
    {x : LogEntry} (hx : (Node.appendFrom n.log req.prevLogIndex req.entries)[j]? = some x) :
    sender[j]? = some x := by
  obtain ⟨hold, hnew⟩ := h hterm hm hc
  have hkeep : ∀ {i}, i < req.leaderCommit → Survives n req i → n.log[i]? = some x →
      sender[i]? = some x := by
    intro i hi hsurv hget
    rcases hold i hi hsurv with hnone | heq
    · rw [hget] at hnone
      cases hnone
    · rw [← heq, hget]
  rcases hent with hnil | ⟨e, he⟩
  · rw [hnil] at hx
    exact hkeep hj (.inl hnil) hx
  have hhead : ∀ {i}, i = req.prevLogIndex → i < req.leaderCommit → sender[i]? = some e := by
    rintro i rfl hi
    rcases hnew hi with hno | hs
    · rw [he] at hno
      cases hno
    · rw [hs, he]
      rfl
  simp only [he, Node.appendFrom, Node.appendEntry] at hx
  split at hx
  · rename_i y hy
    split_ifs at hx with hne
    · -- a conflict: the log is cut at the entry, which takes its place
      have hlen : (n.log.take req.prevLogIndex).length = req.prevLogIndex :=
        List.length_take_of_le (List.getElem?_eq_some_iff.1 hy).1.le
      rcases getElem?_concat_cases hx with ⟨hx, hlt⟩ | ⟨hj', rfl⟩
      · rw [hlen] at hlt
        rw [List.getElem?_take_of_lt hlt] at hx
        exact hkeep hj (.inr (.inl hlt)) hx
      · exact hhead (hj'.trans hlen) hj
    · refine hkeep hj (.inr (.inr ?_)) hx
      rw [hy, he]
      simpa using hne
  · rename_i hy
    -- the entry goes to the end, which is where it belongs
    have hlen : n.log.length ≤ req.prevLogIndex := List.getElem?_eq_none_iff.1 hy
    have hprev : req.prevLogIndex ≤ n.log.length := by
      have hm := hm.resolve_left (by rw [he]; simp)
      unfold Node.matchPrevLog at hm
      split_ifs at hm with h0
      · omega
      · split at hm
        · cases hm
        · rename_i z hz
          have := (List.getElem?_eq_some_iff.1 hz).1
          omega
    rcases getElem?_concat_cases hx with ⟨hx, hlt⟩ | ⟨hj', rfl⟩
    · exact hkeep hj (.inr (.inl (hlt.trans_le hlen))) hx
    · exact hhead (by omega) hj

/-! ## Committed prefixes are chosen -/

section

variable {C : Cluster} {s s' : System} {A B : Group String LogEntry} {as : List Action}
  {a : Action} {id : String}

structure Agreed (C : Cluster) (s : System) (A : Group String LogEntry) : Prop where
  bound : ∀ id ∈ C.ids, (s.node id).commitIndex ≤ (s.node id).log.length
  chosen : ∀ id ∈ C.ids, Chosen C.quorums A ((s.node id).log.take (s.node id).commitIndex)
  sent : ∀ call ∈ s.appendCalls, ∀ req, call.request = some req →
    req.leaderCommit ≤ (s.node call.caller).commitIndex
  collected : ∀ id ∈ C.ids, ∀ x ∈ (s.replicas id).collected,
    ∃ q, Chosen C.quorums A q ∧ q[x.1]? = some x.2

theorem agreed_init (C : Cluster) : Agreed C C.init start := by
  have hnode : ∀ id ∈ C.ids, (C.init.node id).commitIndex = 0 := by
    intro id hid
    change (C.node id).commitIndex = 0
    rw [C.node_eq hid]
  refine ⟨fun id hid => ?_, fun id hid => ?_, fun call hc => ?_, fun id hid x hx => ?_⟩
  · rw [hnode id hid]
    exact Nat.zero_le _
  · rw [hnode id hid]
    exact .inl rfl
  · simp [Cluster.init] at hc
  · simp [Cluster.init, Replica.start] at hx

/-- What a step makes of the committed part of one node. -/
structure Advances (C : Cluster) (B : Group String LogEntry) (r r' : Replica) : Prop where
  commit_le : r.node.commitIndex ≤ r'.node.commitIndex
  bound : r'.node.commitIndex ≤ r'.node.log.length
  chosen : Chosen C.quorums B (r'.node.log.take r'.node.commitIndex)
  kept : r'.node.log.take r.node.commitIndex = r.node.log.take r.node.commitIndex
  collected : ∀ x ∈ r'.collected, x ∈ r.collected
    ∨ x.1 < r'.node.commitIndex ∧ r'.node.log[x.1]? = some x.2

/-- The committed prefix of a node stays where it is. -/
theorem Agreed.kept (h : Agreed C s A) (hR : Reached C s A) (hB : Steps C A B)
    (hR' : Reached C s' B) (hid : id ∈ C.ids) :
    (s.node id).commitIndex ≤ (s'.node id).log.length
      ∧ (s'.node id).log.take (s.node id).commitIndex
        = (s.node id).log.take (s.node id).commitIndex := by
  have hpre : (s.node id).log.take (s.node id).commitIndex <+: (s'.node id).log := by
    rw [← (hR'.sim.follows.tracks id hid).log_eq]
    refine (h.chosen id hid).retained_steps hR.inv hB ?_
    rw [(hR.sim.follows.tracks id hid).log_eq]
    exact List.take_prefix _ _
  have hlen : ((s.node id).log.take (s.node id).commitIndex).length = (s.node id).commitIndex := by
    rw [List.length_take, min_eq_left (h.bound id hid)]
  refine ⟨hlen ▸ hpre.length_le, ?_⟩
  rw [take_eq_of_isPrefix hpre hlen.ge, List.take_take, min_self]

/-- Nothing is committed in the step. -/
theorem Agreed.advances_same (h : Agreed C s A) (hR : Reached C s A) (hB : Steps C A B)
    (hR' : Reached C s' B) (hid : id ∈ C.ids)
    (hc : (s'.node id).commitIndex = (s.node id).commitIndex)
    (hcoll : ∀ x ∈ (s'.replicas id).collected, x ∈ (s.replicas id).collected
      ∨ x.1 < (s'.node id).commitIndex ∧ (s'.node id).log[x.1]? = some x.2) :
    Advances C B (s.replicas id) (s'.replicas id) := by
  obtain ⟨hle, heq⟩ := h.kept hR hB hR' hid
  refine ⟨hc.ge, hc ▸ hle, ?_, heq, hcoll⟩
  change Chosen C.quorums B ((s'.node id).log.take (s'.node id).commitIndex)
  rw [hc, heq]
  exact (h.chosen id hid).ext (steps_inv hR.inv hB).2

theorem take_eq_take_of_getElem? {l m : List LogEntry} {k : ℕ} (hk : k ≤ l.length)
    (h : ∀ j x, j < k → l[j]? = some x → m[j]? = some x) : l.take k = m.take k := by
  refine List.ext_getElem? fun j => ?_
  by_cases hj : j < k
  · rw [List.getElem?_take_of_lt hj, List.getElem?_take_of_lt hj]
    have hl := List.getElem?_eq_getElem (show j < l.length by omega)
    rw [h j _ hj hl, hl]
  · rw [List.getElem?_take_eq_none (by omega), List.getElem?_take_eq_none (by omega)]

theorem collected_lt {n m : Node} {es : List (ℕ × LogEntry)}
    (h : n.collectCommittedLocked = some (m, es)) {x : ℕ × LogEntry} (hx : x ∈ es) :
    x.1 < n.commitIndex ∧ n.log[x.1]? = some x.2 := by
  obtain ⟨-, hes, hget⟩ := Node.collectCommittedLocked_spec h
  have hmem : x.1 ∈ es.map Prod.fst := List.mem_map_of_mem hx
  rw [hes, List.mem_range'_1] at hmem
  exact ⟨by omega, hget x hx⟩

/-- What a request commits at a follower that agrees with the sender is committed at the
sender. -/
theorem Agreed.committed_at_sender (h : Agreed C s A) (hR : Reached C s A) {call : AppendCall}
    {req : AppendEntriesRequest} (hcall : call ∈ s.appendCalls) (hreq : call.request = some req)
    {n : Node} (hok : Agrees n (s.node call.caller).log req) (hterm : n.currentTerm ≤ req.term)
    (hm : req.entries = [] ∨ n.matchPrevLog req.prevLogIndex req.prevLogTerm = true)
    (hraise : n.commitIndex < req.leaderCommit) {k : ℕ} (hk : k ≤ req.leaderCommit)
    (hlen : k ≤ (Node.appendFrom n.log req.prevLogIndex req.entries).length) :
    (Node.appendFrom n.log req.prevLogIndex req.entries).take k
      <+: (s.node call.caller).log.take (s.node call.caller).commitIndex := by
  have hent : req.entries = [] ∨ ∃ e, req.entries = [e] := by
    obtain ⟨l, -, hnil | ⟨e, he, -⟩⟩ := hR.sim.genuine hcall hreq
    · exact .inl hnil
    · exact .inr ⟨e, he⟩
  have hsame : (Node.appendFrom n.log req.prevLogIndex req.entries).take k
      = (s.node call.caller).log.take k :=
    take_eq_take_of_getElem? hlen fun j x hj hget =>
      hok.getElem? hterm hm hraise hent (hj.trans_le hk) hget
  rw [hsame]
  exact List.take_prefix_take_left (hk.trans (h.sent call hcall req hreq))

/-- A request that is handled, where the follower agrees with the sender. -/
theorem Agreed.advances_handle (h : Agreed C s A) (hR : Reached C s A) (hB : Steps C A B)
    (hR' : Reached C s' B) (hid : id ∈ C.ids) {c : ℕ} {call : AppendCall}
    {req : AppendEntriesRequest} (hcall : call ∈ s.appendCalls) (hreq : call.request = some req)
    (hok : Agrees (s.node id) (s.node call.caller).log req)
    (hr : (s.replicas id).handleAppendEntries c req = some (s'.replicas id)) :
    Advances C B (s.replicas id) (s'.replicas id) := by
  obtain ⟨n, es, resp, hn, hr⟩ := Replica.handleAppendEntries_eq hr
  have hnode : s'.node id = n := by rw [System.node, hr]; rfl
  have hcollected : (s'.replicas id).collected = (s.replicas id).collected ++ es := by
    rw [hr]; rfl
  have hsame : n.commitIndex = (s.node id).commitIndex → es = [] →
      Advances C B (s.replicas id) (s'.replicas id) := fun hc hes =>
    h.advances_same hR hB hR' hid (by rw [hnode, hc]) fun x hx => .inl (by
      rwa [hcollected, hes, List.append_nil] at hx)
  rcases Node.handleAppendEntries_cases hn with
    ⟨-, rfl, hes, -⟩ | ⟨-, -, -, rfl, hes, -⟩ | ⟨hterm, hm, ⟨m, hcoll⟩, hn', -⟩
  · exact hsame rfl hes
  · exact hsame Node.adopt_commitIndex hes
  set log := Node.appendFrom (s.node id).log req.prevLogIndex req.entries with hlog
  have hlog' : (s'.node id).log = log := by rw [hnode, hn']; rfl
  have hci : (s'.node id).commitIndex
      = Node.raised (s.node id).commitIndex req.leaderCommit log := by rw [hnode, hn']; rfl
  have hmem : ∀ x ∈ (s'.replicas id).collected, x ∈ (s.replicas id).collected
      ∨ x.1 < (s'.node id).commitIndex ∧ (s'.node id).log[x.1]? = some x.2 := by
    intro x hxm
    rw [hcollected] at hxm
    refine (List.mem_append.1 hxm).imp_right fun hxm => ?_
    rw [hci, hlog']
    exact collected_lt hcoll hxm
  by_cases hraise : req.leaderCommit > (s.node id).commitIndex
  swap
  · rw [Node.raised, if_neg hraise] at hci
    exact h.advances_same hR hB hR' hid hci hmem
  rw [Node.raised, if_pos hraise] at hci
  obtain ⟨hle, heq⟩ := h.kept hR hB hR' hid
  rw [hlog'] at hle
  have hlen : (s'.node id).commitIndex ≤ log.length := by
    rw [hci]
    exact min_le_right _ _
  have hk : (s'.node id).commitIndex ≤ req.leaderCommit := by
    rw [hci]
    exact min_le_left _ _
  refine ⟨?_, ?_, ?_, heq, hmem⟩
  · change (s.node id).commitIndex ≤ (s'.node id).commitIndex
    rw [hci]
    exact le_min hraise.le hle
  · change (s'.node id).commitIndex ≤ (s'.node id).log.length
    rw [hlog']
    exact hlen
  · change Chosen C.quorums B ((s'.node id).log.take (s'.node id).commitIndex)
    rw [hlog']
    have hchosen := (h.chosen _ (hR.sim.calls call hcall).caller_mem).ext (steps_inv hR.inv hB).2
    exact hchosen.of_isPrefix hR'.inv
      (h.committed_at_sender hR hcall hreq hok hterm hm hraise hk hlen)

/-- A `Propose` call that has its quorum. -/
theorem Agreed.advances_commit (h : Agreed C s A) (hR : Reached C s A) (hB : Steps C A B)
    (hR' : Reached C s' B) (hid : id ∈ C.ids) {p c : ℕ} {P : Proposal}
    (hP : s'.proposals[p]? = some P) (hnode : P.node = id) (hend : P.ended = some (.ok, c))
    (hr : (s.replicas id).commitProposal P.newIndex = some (s'.replicas id)) :
    Advances C B (s.replicas id) (s'.replicas id) := by
  obtain ⟨n, es, hn, hr⟩ := Replica.commitProposal_eq hr
  have hnode' : s'.node id = n := by rw [System.node, hr]; rfl
  have hcollected : (s'.replicas id).collected = (s.replicas id).collected ++ es := by
    rw [hr]; rfl
  rcases Node.commitProposal_cases hn with ⟨-, rfl, hes⟩ | ⟨hlt, hcoll, hn'⟩
  · exact h.advances_same hR hB hR' hid (by rw [hnode']; rfl) fun x hx => .inl (by
      rwa [hcollected, hes, List.append_nil] at hx)
  have hci : (s'.node id).commitIndex = P.newIndex := by rw [hnode', hn']
  have hlog : (s'.node id).log = (s.node id).log := by rw [hnode', hn']; rfl
  have hPm := List.mem_of_getElem? hP
  have hq := hR'.committed hP hend
  have hok := hR'.sim.proposals P hPm
  obtain ⟨hpre, hlen⟩ := hR'.sim.newIndex_le hR'.inv hPm hq
  rw [hnode] at hlen
  rw [← hok.log_eq, hnode] at hpre
  refine ⟨?_, ?_, ?_, (h.kept hR hB hR' hid).2, fun x hx => ?_⟩
  · change (s.node id).commitIndex ≤ (s'.node id).commitIndex
    rw [hci]
    exact hlt.le
  · change (s'.node id).commitIndex ≤ (s'.node id).log.length
    rw [hci]
    exact hlen
  · change Chosen C.quorums B ((s'.node id).log.take (s'.node id).commitIndex)
    rw [hci, take_eq_of_isPrefix hpre hok.log_spec.1.ge, List.take_of_length_le hok.log_spec.1.le]
    exact hR'.chosen hPm hq
  · rw [hcollected] at hx
    refine (List.mem_append.1 hx).imp_right fun hx => ?_
    change x.1 < (s'.node id).commitIndex ∧ (s'.node id).log[x.1]? = some x.2
    rw [hci, hlog]
    exact collected_lt hcoll hx

theorem Agreed.advances (h : Agreed C s A) (hR : Reached C s A) (hB : Steps C A B)
    (hR' : Reached C s' B) (hid : id ∈ C.ids) (hok : Checked s a) (hl : Local s a s' id) :
    Advances C B (s.replicas id) (s'.replicas id) := by
  cases hl with
  | stay h' =>
    exact h.advances_same hR hB hR' hid (by rw [System.node, h']; rfl) fun x hx =>
      .inl (h' ▸ hx)
  | quiet hx h' =>
    obtain ⟨hc, -, hcoll⟩ := Replica.quiet_step hx h'
    exact h.advances_same hR hB hR' hid hc fun x hx => .inl (hcoll ▸ hx)
  | handle ha hc hpeer hreq h' =>
    subst ha
    refine h.advances_handle hR hB hR' hid (List.mem_of_getElem? hc) hreq ?_ h'
    rw [← hpeer]
    exact hok _ hc _ hreq
  | commit hP hnode hend h' => exact h.advances_commit hR hB hR' hid hP hnode hend h'

theorem agreed_step (h : Agreed C s A) (hR : Reached C s A) (hok : Checked s a)
    (hstep : s.step C a = some s') :
    ∃ B, Reached C s' B ∧ Agreed C s' B
      ∧ ∀ id ∈ C.ids, Advances C B (s.replicas id) (s'.replicas id) := by
  obtain ⟨B, hB, hR'⟩ := hR.step hstep
  have he := step_effect hstep hR'.sim.alive
  have hadv : ∀ id ∈ C.ids, Advances C B (s.replicas id) (s'.replicas id) :=
    fun id hid => h.advances hR hB hR' hid hok (he.nodes id)
  have hx := (steps_inv hR.inv hB).2
  refine ⟨B, hR', ⟨fun id hid => (hadv id hid).bound, fun id hid => (hadv id hid).chosen, ?_, ?_⟩,
    hadv⟩
  · intro call hc req hreq
    have hle := (hadv _ (hR'.sim.calls call hc).caller_mem).commit_le
    rcases he.requests call hc req hreq with ⟨call', hc', hcaller, hreq'⟩ | heq
    · have := h.sent call' hc' req hreq'
      rw [hcaller] at this
      exact this.trans hle
    · exact heq.le.trans hle
  · intro id hid x hxm
    rcases (hadv id hid).collected x hxm with hxm | ⟨hlt, hget⟩
    · obtain ⟨q, hq, hget⟩ := h.collected id hid x hxm
      exact ⟨q, hq.ext hx, hget⟩
    · refine ⟨_, (hadv id hid).chosen, ?_⟩
      rw [List.getElem?_take_of_lt hlt]
      exact hget

theorem run_agreed (hs : Runs.Run (System.step C) Checked C.init as s) :
    ∃ A, Reached C s A ∧ Agreed C s A :=
  hs.invariant (I := fun s => ∃ A, Reached C s A ∧ Agreed C s A)
    ⟨_, reached_init C, agreed_init C⟩ (by
      rintro t a u ⟨A, hR, hI⟩ hok hstep
      obtain ⟨B, hR', hI', -⟩ := agreed_step hI hR hok hstep
      exact ⟨B, hR', hI'⟩)

/-! ## State machine safety -/

/-- `a` has an entry that nobody else has, and `b`, elected after it, commits another with `c`.
Then `b` sends `a` a heartbeat. -/
def staleHeartbeat : List Action :=
  electBy "a" 0 ++ [.propose "a" "x"] ++ electBy "b" 3 ++ [.propose "b" "y"] ++ exchange "c" 7
    ++ [.readPrevLogIndex 4, .readPrevLogTerm 4, .sendAppendEntries 4, .handleAppendEntries 4]

/-- The heartbeat makes `a` apply its own entry, at the index at which `b` applies another. -/
theorem heartbeat_applies_stale_entry : ∃ s,
    trio.Run trio.init (staleHeartbeat ++ [.apply "a" 0, .apply "b" 0]) s
      ∧ (0, ⟨1, "x"⟩) ∈ (s.replicas "a").applied ∧ (0, ⟨2, "y"⟩) ∈ (s.replicas "b").applied := by
  obtain ⟨s, hs, hp⟩ : ∃ s, trio.Run trio.init _ s ∧ _ :=
    Runs.exists_run (staleHeartbeat ++ [.apply "a" 0, .apply "b" 0])
      (fun s => (0, ⟨1, "x"⟩) ∈ (s.replicas "a").applied
        ∧ (0, ⟨2, "y"⟩) ∈ (s.replicas "b").applied) (by decide +kernel)
  simp only [decide_eq_true_eq] at hp
  exact ⟨s, hs, hp⟩

/-- No two nodes apply different entries at one index. -/
theorem state_machine_safety (hs : Runs.Run (System.step C) Checked C.init as s) {v w : String}
    (hv : v ∈ C.ids) (hw : w ∈ C.ids) {i : ℕ} {e e' : LogEntry}
    (he : (i, e) ∈ (s.replicas v).applied) (he' : (i, e') ∈ (s.replicas w).applied) : e = e' := by
  obtain ⟨A, hR, hI⟩ := run_agreed hs
  have happ : ∀ {x : String} {y : ℕ × LogEntry}, x ∈ C.ids → y ∈ (s.replicas x).applied →
      ∃ q, Chosen C.quorums A q ∧ q[y.1]? = some y.2 := by
    intro x y hx hy
    obtain ⟨xs, hrun⟩ := run_replica (hs.mono fun _ _ _ => trivial) x
    exact hI.collected x hx y ((run_sound (C.created x hx) hrun).applied y hy)
  obtain ⟨q, hq, hget⟩ := happ hv he
  obtain ⟨q', hq', hget'⟩ := happ hw he'
  have hlt := (List.getElem?_eq_some_iff.1 hget).1
  have hlt' := (List.getElem?_eq_some_iff.1 hget').1
  rcases hq.comparable hR.inv hq' with hpre | hpre
  · rw [prefix_getElem? hpre hlt, hget] at hget'
    exact Option.some.inj hget'
  · rw [prefix_getElem? hpre hlt', hget'] at hget
    exact (Option.some.inj hget).symm

/-- `a` commits an entry with `b`, which learns of it by a heartbeat. -/
def sharedHeartbeat : List Action :=
  electBy "a" 0 ++ [.propose "a" "x"] ++ exchange "b" 2
    ++ [.readPrevLogIndex 0, .readPrevLogTerm 0, .sendAppendEntries 0, .handleAppendEntries 0]

theorem state_machine_safety_trio : ∃ s,
    Runs.Run (System.step trio) Checked trio.init
      (sharedHeartbeat ++ [.apply "a" 0, .apply "b" 0]) s
      ∧ (0, ⟨1, "x"⟩) ∈ (s.replicas "a").applied
      ∧ ∀ e, (0, e) ∈ (s.replicas "b").applied → e = ⟨1, "x"⟩ := by
  obtain ⟨s, hs, hp⟩ : ∃ s, Runs.Run (System.step trio) Checked trio.init _ s ∧ _ :=
    Runs.exists_run (sharedHeartbeat ++ [.apply "a" 0, .apply "b" 0])
      (fun s => (0, ⟨1, "x"⟩) ∈ (s.replicas "a").applied) (by decide +kernel)
  simp only [decide_eq_true_eq] at hp
  exact ⟨s, hs, hp, fun e he => state_machine_safety hs (by decide) (by decide) he hp⟩

/-! ## Committed prefixes are stable -/

/-- After the heartbeat `a` is sent the entry of `b`, and gives up what it has committed. -/
theorem committed_entry_replaced : ∃ s t, trio.Run trio.init staleHeartbeat s
    ∧ trio.Run s [.sendAppendEntries 6, .handleAppendEntries 6] t
    ∧ (s.node "a").commitIndex = 1
    ∧ (t.node "a").log.take (s.node "a").commitIndex
      ≠ (s.node "a").log.take (s.node "a").commitIndex := by
  obtain ⟨s, hs, hp⟩ : ∃ s, trio.Run trio.init _ s ∧ _ :=
    Runs.exists_run staleHeartbeat (fun s => (s.node "a").commitIndex = 1
      ∧ (s.node "a").log = [⟨1, "x"⟩]
      ∧ (Runs.exec (System.step trio) (fun _ _ => True) s
        [.sendAppendEntries 6, .handleAppendEntries 6]).any
          fun t => (t.node "a").log = [⟨2, "y"⟩]) (by decide +kernel)
  simp only [decide_eq_true_eq] at hp
  obtain ⟨hc, hlog, ht⟩ := hp
  obtain ⟨t, ht, hp⟩ := Runs.exists_run _ _ ht
  simp only [decide_eq_true_eq] at hp
  refine ⟨s, t, hs, ht, hc, ?_⟩
  rw [hc, hp, hlog]
  decide

/-- `commitIndex` stays within the log and never goes back, and what lies below it is never
replaced. -/
theorem committed_stable {t : System} {bs : List Action}
    (hs : Runs.Run (System.step C) Checked C.init as s)
    (ht : Runs.Run (System.step C) Checked s bs t) (hid : id ∈ C.ids) :
    (s.node id).commitIndex ≤ (s.node id).log.length
      ∧ (s.node id).commitIndex ≤ (t.node id).commitIndex
      ∧ (t.node id).log.take (s.node id).commitIndex
        = (s.node id).log.take (s.node id).commitIndex := by
  obtain ⟨A, hR, hI⟩ := run_agreed hs
  refine ⟨hI.bound id hid, ?_⟩
  refine ht.related (I := fun s => ∃ A, Reached C s A ∧ Agreed C s A)
    (R := fun s t => (s.node id).commitIndex ≤ (t.node id).commitIndex
      ∧ (t.node id).log.take (s.node id).commitIndex
        = (s.node id).log.take (s.node id).commitIndex)
    (fun _ => ⟨le_rfl, rfl⟩) ?_ ⟨A, hR, hI⟩ ?_
  · rintro s t u ⟨h1, h2⟩ ⟨h3, h4⟩
    refine ⟨h1.trans h3, ?_⟩
    have := congrArg (List.take (s.node id).commitIndex) h4
    rw [List.take_take, List.take_take, min_eq_left h1] at this
    rw [this, h2]
  · rintro s a u ⟨A, hR, hI⟩ hok hstep
    obtain ⟨B, hR', hI', hadv⟩ := agreed_step hI hR hok hstep
    exact ⟨⟨B, hR', hI'⟩, (hadv id hid).commit_le, (hadv id hid).kept⟩

theorem committed_stable_trio : ∃ s t,
    Runs.Run (System.step trio) Checked trio.init (electBy "a" 0 ++ [.propose "a" "x"]
        ++ exchange "b" 2) s
      ∧ Runs.Run (System.step trio) Checked s [.propose "a" "y"] t
      ∧ (s.node "a").commitIndex = 1
      ∧ (t.node "a").log.take 1 = (s.node "a").log.take 1 := by
  obtain ⟨s, hs, hp⟩ : ∃ s, Runs.Run (System.step trio) Checked trio.init _ s ∧ _ :=
    Runs.exists_run (electBy "a" 0 ++ [.propose "a" "x"] ++ exchange "b" 2)
      (fun s => (s.node "a").commitIndex = 1
        ∧ (Runs.exec (System.step trio) Checked s [.propose "a" "y"]).any fun _ => true)
      (by decide +kernel)
  simp only [decide_eq_true_eq] at hp
  obtain ⟨t, ht, -⟩ := Runs.exists_run _ _ hp.2
  obtain ⟨-, -, heq⟩ := committed_stable hs ht (show "a" ∈ trio.ids by decide)
  rw [hp.1] at heq
  exact ⟨s, t, hs, ht, hp.1, heq⟩

end

end EdgeSim.Raft
