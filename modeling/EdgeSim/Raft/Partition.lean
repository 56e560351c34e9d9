import EdgeSim.Raft.Ballot
import EdgeSim.Raft.Leadership
import EdgeSim.Raft.Provenance

/-!
# Nodes that are cut off

From some state on, no request of the nodes in `G` is handled outside of `G`. If `G` has at most
half of the nodes, none of them becomes leader in a term that begins after that, and no `Propose`
call made on one of them after that returns nil. Requests from the outside may still come in.
-/

namespace EdgeSim.Raft

open TermLog TermLog.Group

/-- The step `a` handles no request of a node in `G` at a node outside of `G`. -/
def Within (G : Finset String) (s : System) : Action → Prop
  | .handleRequestVote c => ∀ call ∈ s.voteCalls[c]?, call.caller ∈ G → call.peer ∈ G
  | .handleAppendEntries c => ∀ call ∈ s.appendCalls[c]?, call.caller ∈ G → call.peer ∈ G
  | _ => True

instance (G : Finset String) (s : System) : (a : Action) → Decidable (Within G s a)
  | .handleRequestVote c => inferInstanceAs (Decidable
      (∀ call ∈ s.voteCalls[c]?, call.caller ∈ G → call.peer ∈ G))
  | .handleAppendEntries c => inferInstanceAs (Decidable
      (∀ call ∈ s.appendCalls[c]?, call.caller ∈ G → call.peer ∈ G))
  | .onElectionTimeout _ | .startElection _ | .becomeLeader _ | .heartbeatTick _
  | .sendHeartbeats _ | .cancelRun _ | .readLastLogIndex _ | .sendRequestVote _
  | .receiveVote _ _ | .propose _ _ | .cancelPropose _ | .readPrevLogIndex _
  | .readPrevLogTerm _ | .sendAppendEntries _ | .receiveAppend _ _ | .apply _ _
  | .finish _ _ => .isTrue trivial

/-- `T` has the terms of the nodes when they are cut off. -/
structure CutOff (G : Finset String) (T : String → ℕ) (s : System) : Prop where
  calls : ∀ call ∈ s.voteCalls, call.caller ∈ G → T call.caller < call.term → call.peer ∉ G →
    call.replies = [] ∧ ∀ r, call.received = some r → r.voteGranted = false
  loops : ∀ id ∈ G, s.loops id = .becomeLeader → (s.node id).state = .candidate →
    (s.node id).currentTerm ≤ T id
  elections : ∀ e ∈ s.elections, e.id ∈ G → e.term ≤ T e.id

section

variable {C : Cluster} {s s' t : System} {A B : Group String LogEntry} {as bs : List Action}
  {a : Action} {id q : String} {G : Finset String} {T : String → ℕ}

theorem Reached.cutOff (hR : Reached C s A) (G : Finset String) :
    CutOff G (fun id => (s.node id).currentTerm) s where
  calls call hc _ hterm _ :=
    absurd (hR.sim.votes call hc).term_le (not_le.2 hterm)
  loops _ _ _ _ := le_rfl
  elections e he _ := by
    have hled := hR.sim.elections.2 he
    rw [← (hR.sim.follows.tracks e.id (hR.sim.follows.led_mem hled)).term_eq]
    exact hR.inv.led_le hled

/-- A vote that is counted comes from within. -/
theorem CutOff.counted (h : CutOff G T s) {call : VoteCall} (hc : call ∈ s.voteCalls)
    (hcaller : call.caller ∈ G) (hterm : T call.caller < call.term)
    (hcount : call.counted call.caller call.term = true) : call.peer ∈ G := by
  by_contra hpeer
  have hreceived := (h.calls call hc hcaller hterm hpeer).2
  simp only [VoteCall.counted, Bool.and_eq_true, decide_eq_true_eq] at hcount
  obtain ⟨-, hcount⟩ := hcount
  split at hcount
  · rename_i r hr
    rw [hreceived r hr] at hcount
    cases hcount
  · cases hcount

/-! ## Elections -/

theorem quorum_of_half (hR : Reached C s A) (hG : 2 * G.card ≤ C.ids.length) (hid : id ∈ C.ids) :
    G.card < (s.node id).quorum := by
  have hlength := C.ids_length hid
  rw [hR.sim.quorum_eq hid, Node.quorum]
  omega

/-- A set of peers within `G` is no quorum, not even with the node itself. -/
theorem card_lt_quorum (hR : Reached C s A) (hG : 2 * G.card ≤ C.ids.length) (hid : id ∈ C.ids)
    (hmem : id ∈ G) {F : Finset String} (hF : ∀ q ∈ F, q ∈ G ∧ q ≠ id) :
    F.card + 1 < (s.node id).quorum := by
  have hsub : F ⊆ G.erase id := fun q hq => Finset.mem_erase.2 ⟨(hF q hq).2, (hF q hq).1⟩
  have hle := Finset.card_le_card hsub
  rw [Finset.card_erase_of_mem hmem] at hle
  have hpos := Finset.card_pos.2 ⟨id, hmem⟩
  have hquorum := quorum_of_half hR hG hid
  omega

/-- No one within wins an election of a later term. -/
theorem CutOff.not_won (h : CutOff G T s) (hR : Reached C s A) (hG : 2 * G.card ≤ C.ids.length)
    (hmem : id ∈ G) (hterm : T id < (s.node id).currentTerm) : ¬ Won s id := by
  rintro ⟨c, call, v, r, hc, rfl, hrec, hloop, hcall, hquorum, resp, hresp, -⟩
  rw [hcall] at hterm
  have hin := List.mem_of_getElem? hc
  have hok := hR.sim.votes call hin
  have hpeer : call.peer ∈ G := by
    by_contra hout
    rw [(h.calls call hin hmem hterm hout).1] at hresp
    cases hresp
  obtain ⟨F, hcard, hF⟩ := hR.tally.voters call.caller call.term
  have hnew : call.peer ∉ F := by
    intro hpeer
    obtain ⟨call', hc', hcount, heq⟩ := (hF _).1 hpeer
    have hsame : call' = call := by
      refine List.inj_on_of_nodup_map hR.tally.vote_keys hc' hin ?_
      simp only [VoteCall.counted, Bool.and_eq_true, decide_eq_true_eq] at hcount
      rw [hcount.1.1, hcount.1.2, heq]
    rw [hsame] at hcount
    simp [VoteCall.counted, hrec] at hcount
  have hlt := card_lt_quorum hR hG hok.caller_mem hmem (F := insert call.peer F) fun q hq => by
    rcases Finset.mem_insert.1 hq with rfl | hq
    · exact ⟨hpeer, (C.mem_of_peer hok.caller_mem hok.peer_mem).2⟩
    · obtain ⟨call', hc', hcount, rfl⟩ := (hF q).1 hq
      have hok' := hR.sim.votes call' hc'
      have hkey := hcount
      simp only [VoteCall.counted, Bool.and_eq_true, decide_eq_true_eq] at hkey
      obtain ⟨⟨hcaller, hterm'⟩, -⟩ := hkey
      rw [← hcaller, ← hterm'] at hcount hterm
      rw [← hcaller] at hmem ⊢
      exact ⟨h.counted hc' hmem hterm hcount, (C.mem_of_peer hok'.caller_mem hok'.peer_mem).2⟩
  rw [Finset.card_insert_of_notMem hnew, hcard] at hlt
  have hvotes := hR.tally.votes call.caller hok.caller_mem _ _ _ hloop
  omega

theorem CutOff.step (h : CutOff G T s) (hR : Reached C s A) (hG : 2 * G.card ≤ C.ids.length)
    (hwithin : Within G s a) (hstep : s.step C a = some s') : CutOff G T s' := by
  have hb := step_ballot hstep
  refine ⟨fun call' hc' hcaller hterm hpeer => ?_, fun id hid hloop hcand => ?_,
    fun e he hid => ?_⟩
  · obtain ⟨c, hc'⟩ := List.mem_iff_getElem?.1 hc'
    rcases hb.calls c call' hc' with ⟨call, hc, hp⟩ | ⟨hreplies, hreceived, -⟩
    · rw [hp.caller_eq] at hcaller hterm
      rw [hp.term_eq] at hterm
      rw [hp.peer_eq] at hpeer
      obtain ⟨hreplies, hreceived⟩ := h.calls call (List.mem_of_getElem? hc) hcaller hterm hpeer
      refine ⟨?_, fun r hr => ?_⟩
      · rcases hp.replies with heq | rfl
        · rw [heq, hreplies]
        · exact absurd (hwithin call hc hcaller) hpeer
      · rcases hp.received r hr with hr | hr | hr
        · exact hreceived r hr
        · rw [hreplies] at hr
          cases hr
        · exact hr
    · refine ⟨hreplies, fun r hr => ?_⟩
      rw [hreceived] at hr
      cases hr
  · by_contra hlt
    rcases hb.loops id hloop with hloop' | hwon
    · obtain ⟨hcand', hterm, -⟩ := (hb.nodes id (by rw [hloop']; simp)).candidate hcand
      rw [hterm] at hlt
      exact hlt (h.loops id hid hloop' hcand')
    · have hne : s.loops id ≠ .startElection := by
        obtain ⟨c, call, v, r, -, -, -, hcollect, -⟩ := hwon
        rw [hcollect]
        simp
      obtain ⟨-, hterm, -⟩ := (hb.nodes id hne).candidate hcand
      rw [hterm] at hlt
      exact h.not_won hR hG hid (not_le.1 hlt) hwon
  · rcases hb.elections e he with he | ⟨hloop, hcand, hterm⟩
    · exact h.elections e he hid
    · rw [hterm]
      exact h.loops e.id hid hloop hcand

theorem run_cutOff (hR : Reached C s A) (hG : 2 * G.card ≤ C.ids.length)
    (ht : Runs.Run (System.step C) (Within G) s bs t) :
    CutOff G (fun id => (s.node id).currentTerm) t := by
  refine (ht.invariant (I := fun u => (∃ B, Reached C u B)
    ∧ CutOff G (fun id => (s.node id).currentTerm) u) ⟨⟨A, hR⟩, hR.cutOff G⟩ ?_).2
  rintro u a u' ⟨⟨B, hB⟩, hcut⟩ hwithin hstep
  obtain ⟨B', -, hB'⟩ := hB.step hstep
  exact ⟨⟨B', hB'⟩, hcut.step hB hG hwithin hstep⟩

/-! ## Proposals -/

/-- A peer that accepts an entry which one within has proposed since is within as well. -/
theorem Accepted.within (hs : C.Run C.init as s)
    (ht : Runs.Run (System.step C) (Within G) s bs t) {p : ℕ} {P : Proposal}
    (hP : t.proposals[p]? = some P) (hnew : s.proposals.length ≤ p) (hmem : P.node ∈ G)
    (h : Accepted C (as ++ bs) p q) : q ∈ G ∧ q ≠ P.node := by
  obtain ⟨cs, c, u, u', call, req, n, es, resp, ⟨rest, heq⟩, hu, hstep, hh, hp, rfl, -⟩ := h
  obtain ⟨A, hR⟩ := reached hu
  have hok := hR.sim.calls call (List.mem_of_getElem? hh.call_eq)
  obtain ⟨P₀, hP₀, hcaller, -⟩ := hok.proposal p hp
  rw [List.append_assoc, List.append_eq_append_iff] at heq
  rcases heq with ⟨ds, rfl, -⟩ | ⟨ds, rfl, rfl⟩
  · -- the request is handled before, so the entry was proposed before
    obtain ⟨w, hw, hds⟩ := hs.split
    obtain rfl := hw.eq hu
    obtain ⟨P', hP', -⟩ := run_retains hR hds p P₀ hP₀
    exact absurd (List.getElem?_eq_some_iff.1 hP').1 (not_lt.2 hnew)
  · rw [← List.append_assoc] at ht
    obtain ⟨w', hw', hrest⟩ := ht.split
    obtain ⟨w, hw, hwithin, hstep'⟩ := hw'.concat_inv
    obtain rfl := (hs.append (hw.mono fun _ _ _ => trivial)).eq hu
    obtain ⟨P', hP', hnode, -⟩ := run_retains hR
      ((Runs.Run.single trivial hstep').append (hrest.mono fun _ _ _ => trivial)) p P₀ hP₀
    rw [hP, Option.some.injEq] at hP'
    subst hP'
    rw [hnode, ← hcaller] at hmem ⊢
    exact ⟨hwithin call hh.call_eq hmem, (C.mem_of_peer hok.caller_mem hok.peer_mem).2⟩

/-- Nodes that are cut off and at most half of all get no leader in a new term, and none of them
returns nil from a later `Propose`, whatever the order of the messages. -/
theorem cut_off_half (hs : C.Run C.init as s) (hG : 2 * G.card ≤ C.ids.length)
    (ht : Runs.Run (System.step C) (Within G) s bs t) :
    (∀ id ∈ C.ids, id ∈ G → (t.node id).state = .leader →
      (t.node id).currentTerm = (s.node id).currentTerm)
    ∧ ∀ p P, t.proposals[p]? = some P → s.proposals.length ≤ p → P.node ∈ G →
      ∀ c, P.ended ≠ some (.ok, c) := by
  have hrun : C.Run s bs t := ht.mono fun _ _ _ => trivial
  obtain ⟨A, hR⟩ := reached hs
  obtain ⟨B, hB, hR'⟩ := hR.run hrun
  refine ⟨fun id hid hmem hleader => ?_, fun p P hP hnew hmem c hend => ?_⟩
  · obtain ⟨l, hl⟩ := (hR'.sim.follows.tracks id hid).leader.1 hleader
    have hle := (run_cutOff hR hG ht).elections _ (hR'.sim.elections.1 hl) hmem
    exact le_antisymm hle (term_le_step hR hB hR' hid)
  · obtain ⟨F, hcard, hF⟩ := hR'.ackers hP hend
    have hprov := run_provenance (hs.append hrun)
    have hlt := card_lt_quorum hR' hG (hR'.sim.proposals P (List.mem_of_getElem? hP)).node_mem hmem
      fun q hq => (hprov.accepted (hF q hq)).within hs ht hP hnew hmem
    omega

/-- `a` leads, is cut off and takes a command; `b` is elected by `c`. -/
def electedBeside : List Action :=
  .propose "a" "x" :: electBy "b" 3

theorem cut_off_half_trio : ∃ s t, trio.Run trio.init (electBy "a" 0) s
    ∧ Runs.Run (System.step trio) (Within {"a"}) s electedBeside t
    ∧ (t.node "b").state = .leader ∧ (t.node "a").state = .leader
    ∧ (t.node "a").currentTerm = (s.node "a").currentTerm
    ∧ ∃ P, t.proposals[0]? = some P ∧ P.node = "a" ∧ ∀ c, P.ended ≠ some (.ok, c) := by
  obtain ⟨s, hs, hp⟩ : ∃ s, trio.Run trio.init _ s ∧ _ :=
    Runs.exists_run (electBy "a" 0) (fun s => s.proposals.length = 0
      ∧ (Runs.exec (System.step trio) (Within {"a"}) s electedBeside).any
        fun t => (t.node "b").state = .leader ∧ (t.node "a").state = .leader
          ∧ (t.proposals[0]?).any fun P => P.node = "a") (by decide +kernel)
  simp only [decide_eq_true_eq] at hp
  obtain ⟨hnone, ht⟩ := hp
  obtain ⟨t, ht, hp⟩ := Runs.exists_run _ _ ht
  simp only [decide_eq_true_eq] at hp
  obtain ⟨hb, ha, hp⟩ := hp
  obtain ⟨P, hP, hnode⟩ := (Option.any_eq_true _ _).1 hp
  simp only [decide_eq_true_eq] at hnode
  obtain ⟨hterm, hended⟩ := cut_off_half hs (by decide) ht
  exact ⟨s, t, hs, ht, hb, ha, hterm "a" (by decide) (by decide) ha, P, hP, hnode,
    hended 0 P hP hnone.le (by rw [hnode]; decide)⟩

end

end EdgeSim.Raft
