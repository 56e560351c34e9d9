import EdgeSim.Lib.Run
import EdgeSim.Raft.Replication

/-!
# The cluster refines the group

Every step of the cluster is matched by steps of the group, so every state it reaches comes with a
group that its nodes, calls and proposals follow.
-/

namespace EdgeSim.Raft

open TermLog TermLog.Group

/-- Runs of the cluster, in any order of its steps. -/
abbrev Cluster.Run (C : Cluster) : System → List Action → System → Prop :=
  Runs.Run (System.step C) fun _ _ => True

section

variable {C : Cluster} {s s' : System} {A : Group String LogEntry}

theorem step_matched (hA : GroupInv C A) (hS : Sim C s A) (hT : Tally C s) {a : Action}
    (h : s.step C a = some s') : Matched C A s' := by
  cases step_cases h with
  | ignoreTimeout | refuse => exact ⟨A, .refl, hS, hT⟩
  | onElectionTimeout | giveUp | heartbeatTick | skipHeartbeats | cancelRun | cancelElection =>
    exact matched_setLoop hS hT _ (by simp) (by simp)
  | startElection hid _ hn => exact matched_startElection hA hS hT hid hn
  | becomeLeader hid hloop hn => exact matched_becomeLeader hA hS hT hid hloop hn
  | sendHeartbeats hid _ hl => exact matched_sendHeartbeats hS hT hid hl
  | readLastLogIndex _ hc => exact matched_readLastLogIndex hS hT hc
  | sendRequestVote _ hc hi => exact matched_sendRequestVote hS hT hc hi
  | handleRequestVote hid hc hreq => exact matched_handleRequestVote hA hS hT hc hid hreq
  | voteDeposes hv => exact matched_voteDeposes hA hS hT hv
  | voteLate hv => exact matched_voteTaken hS hT hv trivial fun t v r hlt => by cases hlt
  | voteElects hv hcand hterm hgrant hq => exact matched_voteElects hS hT hv hcand hterm hgrant hq
  | voteCounts hv => exact matched_voteCounts hS hT hv
  | propose hid hl hP => exact matched_propose hA hS hT hid hl hP
  | cancelPropose _ hP hend => exact matched_cancelPropose hS hT hP hend
  | readPrevLogIndex _ hc hi => exact matched_readPrevLogIndex hS hT hc hi
  | readPrevLogTerm _ hc _ ht => exact matched_readPrevLogTerm hS hT hc ht
  | sendAppendEntries _ hc hi ht hreq => exact matched_sendAppendEntries hS hT hc hi ht hreq
  | handleAppendEntries hid hc hreq hr =>
    exact matched_handleAppendEntries hA hS hT hc hid hreq hr
  | handlerPanics hid _ _ hr => exact absurd hr (hS.handleAppendEntries_ne_none hid _ _)
  | ackDeposes ho hterm => exact matched_ackDeposes hA hS hT ho hterm
  | ackCommits ho hsucc hq hr => exact matched_ackCommits hA hS hT ho hsucc hq hr
  | proposerPanics ho hsucc hq hr =>
    exact absurd hr (ho.commitProposal_ne_none hA hS hT hsucc hq)
  | ackCounts ho hq => exact matched_ackCounts hS hT ho hq
  | heartbeatReturns ho hp => exact matched_heartbeatReturns hS hT ho hp
  | heartbeatDeposes ho hp => exact matched_heartbeatDeposes hA hS hT ho hp _
  | apply hid hr => exact matched_apply hA hS hT hid hr
  | finish hid hr => exact ⟨A, .refl, hS.finish hA hid hr, hT.setReplica _ _⟩
  | answer hid hr hc => exact matched_answer hA hS hT hid hr hc

variable {ok : System → Action → Prop} {as : List Action} {t : System}

/-- A run goes on from a state that follows `A` to one that follows what `A` has become. -/
theorem run_matched (hA : GroupInv C A) (hS : Sim C s A) (hT : Tally C s)
    (h : Runs.Run (System.step C) ok s as t) : Matched C A t := by
  refine h.simulate (R := fun t B => Sim C t B ∧ Tally C t) ⟨hS, hT⟩ ?_
  rintro t a u B hB ⟨hSB, hTB⟩ - hstep
  exact step_matched (steps_inv hA hB).1 hSB hTB hstep

/-- What is known of a state the cluster has reached. -/
structure Reached (C : Cluster) (s : System) (A : Group String LogEntry) : Prop where
  inv : GroupInv C A
  sim : Sim C s A
  tally : Tally C s

theorem reached_init (C : Cluster) : Reached C C.init start :=
  ⟨inv_start, sim_init C, tally_init C⟩

theorem Reached.run (hR : Reached C s A) (h : Runs.Run (System.step C) ok s as t) :
    ∃ B, Steps C A B ∧ Reached C t B := by
  obtain ⟨B, hB, hS, hT⟩ := run_matched hR.inv hR.sim hR.tally h
  exact ⟨B, hB, (steps_inv hR.inv hB).1, hS, hT⟩

theorem Reached.step (hR : Reached C s A) {a : Action} (h : s.step C a = some s') :
    ∃ B, Steps C A B ∧ Reached C s' B := by
  obtain ⟨B, hB, hS, hT⟩ := step_matched hR.inv hR.sim hR.tally h
  exact ⟨B, hB, (steps_inv hR.inv hB).1, hS, hT⟩

theorem reached (h : Runs.Run (System.step C) ok C.init as s) : ∃ A, Reached C s A := by
  obtain ⟨A, -, hR⟩ := (reached_init C).run h
  exact ⟨A, hR⟩

end

end EdgeSim.Raft
