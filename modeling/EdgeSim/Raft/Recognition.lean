import EdgeSim.Raft.Safety

/-!
# Whether a node follows the leader that writes to it

`HandleAppendEntries` makes the node a follower of the sender in two places: where the term is new
and, at its end, where the request was accepted. Between them it returns when the entry before the
new ones does not match, so a request of the node's own term that is turned down there leaves the
node what it was, a candidate say, without a leader and with its election timer running on.
-/

namespace EdgeSim.Raft

namespace Node

/-- The node is a follower of the request's sender, in the request's term. -/
def FollowerOf (n : Node) (req : AppendEntriesRequest) : Prop :=
  n.currentTerm = req.term ∧ n.state = .follower ∧ n.leaderID = req.leaderID

/-- The early return of `HandleAppendEntries` is not taken, or finds the node following the sender
already. -/
def Recognises (n : Node) (req : AppendEntriesRequest) : Prop :=
  n.currentTerm < req.term ∨ req.entries = []
  ∨ n.matchPrevLog req.prevLogIndex req.prevLogTerm = true
  ∨ n.state = .follower ∧ n.leaderID = req.leaderID

variable {n n' : Node} {req : AppendEntriesRequest} {es : List (ℕ × LogEntry)}
  {resp : AppendEntriesResponse}

theorem adopt_followerOf (hterm : n.currentTerm ≤ req.term) :
    (n.adopt req.term req.leaderID).FollowerOf req
      ↔ n.currentTerm < req.term ∨ n.state = .follower ∧ n.leaderID = req.leaderID := by
  refine ⟨fun h => ?_, fun h => ⟨adopt_currentTerm _ hterm, ?_⟩⟩
  · rcases hterm.lt_or_eq with hlt | heq
    · exact .inl hlt
    · rw [adopt, if_neg (by omega)] at h
      exact .inr h.2
  · unfold adopt
    split_ifs with hlt
    · exact ⟨rfl, rfl⟩
    · exact h.resolve_left hlt

theorem handleAppendEntries_followerOf (h : n.handleAppendEntries req = some (n', es, resp))
    (hterm : n.currentTerm ≤ req.term) : n'.FollowerOf req ↔ n.Recognises req := by
  rcases handleAppendEntries_cases h with ⟨hlt, -⟩ | ⟨-, hes, hprev, rfl, -⟩ | ⟨-, hok, -, rfl, -⟩
  · omega
  · rw [adopt_followerOf hterm, Recognises]
    simp [hes, hprev]
  · refine iff_of_true ⟨?_, rfl, rfl⟩ (.inr (hok.imp_right .inl))
    simp only [accept]
    exact adopt_currentTerm _ hterm

end Node

section

variable {C : Cluster} {s t : System} {as : List Action} {c : ℕ} {call : AppendCall}
  {req : AppendEntriesRequest}

/-- A request that a node of the cluster handles in a reachable state. -/
theorem node_handleAppendEntries (hs : C.Run C.init as s) (hc : s.appendCalls[c]? = some call)
    (hreq : call.request = some req) (ht : s.step C (.handleAppendEntries c) = some t) :
    ∃ n' es resp, (s.node call.peer).handleAppendEntries req = some (n', es, resp)
      ∧ t.node call.peer = n' := by
  obtain ⟨A, hR⟩ := reached hs
  cases step_cases ht with
  | handlerPanics hid _ _ hr => exact absurd hr (hR.sim.handleAppendEntries_ne_none hid _ _)
  | handleAppendEntries hid hc' hreq' hr =>
    obtain rfl := Option.some.inj (hc.symm.trans hc')
    obtain rfl := Option.some.inj (hreq.symm.trans hreq')
    obtain ⟨n', es, resp, hn, rfl⟩ := Replica.handleAppendEntries_eq hr
    refine ⟨n', es, resp, hn, ?_⟩
    rw [System.node_setReplica, Function.update_self]
    rfl

/-- In every reachable state, a node that handles a request of no older term follows the sender
afterwards exactly when it did not turn the request down in its own term, or had been following the
sender before. -/
theorem leader_recognised (hs : C.Run C.init as s) (hc : s.appendCalls[c]? = some call)
    (hreq : call.request = some req) (hterm : (s.node call.peer).currentTerm ≤ req.term)
    (ht : s.step C (.handleAppendEntries c) = some t) :
    (t.node call.peer).FollowerOf req ↔ (s.node call.peer).Recognises req := by
  obtain ⟨n', es, resp, hn, hnode⟩ := node_handleAppendEntries hs hc hreq ht
  rw [hnode]
  exact Node.handleAppendEntries_followerOf hn hterm

/-- `b` follows `a` after the first heartbeat. -/
theorem leader_recognised_trio : ∃ s t req,
    trio.Run trio.init
      (electBy "a" 0 ++ [.readPrevLogIndex 0, .readPrevLogTerm 0, .sendAppendEntries 0]) s
    ∧ s.step trio (.handleAppendEntries 0) = some t ∧ (t.node "b").FollowerOf req := by
  obtain ⟨s, hs, hp⟩ : ∃ s, trio.Run trio.init _ s ∧ _ :=
    Runs.exists_run
      (electBy "a" 0 ++ [.readPrevLogIndex 0, .readPrevLogTerm 0, .sendAppendEntries 0])
      (fun s => ∃ call ∈ s.appendCalls[0]?, ∃ req ∈ call.request, call.peer = "b"
        ∧ (s.node call.peer).currentTerm ≤ req.term ∧ req.entries = []
        ∧ (s.step trio (.handleAppendEntries 0)).isSome = true)
      (by decide +kernel)
  obtain ⟨call, hc, req, hreq, hpeer, hterm, hes, hsome⟩ := of_decide_eq_true hp
  obtain ⟨t, ht⟩ := Option.isSome_iff_exists.1 hsome
  have hfollows := (leader_recognised hs hc hreq hterm ht).2 (.inr (.inl hes))
  exact ⟨s, t, req, hs, ht, hpeer ▸ hfollows⟩

/-- `c` and `a` are candidates of term 1, `b` elects `a`, and `a` sends its second entry to `c`,
whose log is empty. -/
def rivalRun : List Action :=
  [.onElectionTimeout "c", .startElection "c"] ++ electBy "a" 2
    ++ [.propose "a" "x", .propose "a" "y", .sendAppendEntries 5]

/-- `c` turns the request of its own term down and stays a candidate that knows no leader. -/
theorem rival_not_recognised : ∃ s t call req, trio.Run trio.init rivalRun s
    ∧ s.appendCalls[5]? = some call ∧ call.request = some req ∧ call.peer = "c"
    ∧ (s.node call.caller).state = .leader ∧ (s.node call.caller).currentTerm = req.term
    ∧ (s.node "c").currentTerm ≤ req.term
    ∧ s.step trio (.handleAppendEntries 5) = some t
    ∧ (t.node "c").state = .candidate ∧ (t.node "c").leaderID = "" ∧ req.leaderID = "a" := by
  obtain ⟨s, hs, hp⟩ : ∃ s, trio.Run trio.init rivalRun s ∧ _ :=
    Runs.exists_run _
      (fun s => ∃ call ∈ s.appendCalls[5]?, ∃ req ∈ call.request, call.peer = "c"
        ∧ (s.node call.caller).state = .leader ∧ (s.node call.caller).currentTerm = req.term
        ∧ (s.node "c").currentTerm ≤ req.term ∧ req.leaderID = "a"
        ∧ (s.step trio (.handleAppendEntries 5)).any fun t =>
          (t.node "c").state = .candidate ∧ (t.node "c").leaderID = "")
      (by decide +kernel)
  obtain ⟨call, hc, req, hreq, hpeer, hleader, hlterm, hterm, hid, ht⟩ := of_decide_eq_true hp
  obtain ⟨t, ht, hcand⟩ := (Option.any_eq_true _ _).1 ht
  have hcand := of_decide_eq_true hcand
  exact ⟨s, t, call, req, hs, hc, hreq, hpeer, hleader, hlterm, hterm, ht, hcand.1, hcand.2, hid⟩

end

end EdgeSim.Raft
