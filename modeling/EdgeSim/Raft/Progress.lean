import EdgeSim.Raft.Safety
import Mathlib.Data.List.Count

/-!
# When `Propose` succeeds

A `Propose` call sends its one entry once, behind a check of the entry before it, so a peer
acknowledges it only if it has that entry: there is no going back in the log for a peer that is
behind, and the entry of a call that failed stays in the leader's log. With a quorum of peers that
have the entry before, in no later term, the call returns `nil`, whatever became of other calls.
-/

namespace EdgeSim.Raft

open TermLog TermLog.Group

/-- The answer that the caller took, unless the call failed. -/
def AppendCall.answer (call : AppendCall) : Option Answer :=
  match call.received with
  | some (.reply a) => some a
  | _ => none

theorem AppendCall.answer_eq_some {call : AppendCall} {a : Answer} (h : a ∈ call.answer) :
    call.received = some (.reply a) := by
  unfold AppendCall.answer at h
  split at h
  · rename_i b hb
    rw [hb, Option.mem_some_iff.1 h]
  · cases h

/-- `peer` answers the call of the proposal `p`, in no later term and with the entry before the
new one in its log, or that call has not ended. -/
def Answers (s : System) (p : ℕ) (P : Proposal) (peer : String) : Prop :=
  ∃ call ∈ s.appendCalls, call.proposal = some p ∧ call.peer = peer
    ∧ (call.received = none ∨ ∃ a ∈ call.answer, a.seen.currentTerm ≤ P.entry.term
      ∧ a.seen.matchPrevLog P.prevIndex P.prevTerm = true)

section

variable {C : Cluster} {s : System} {A : Group String LogEntry} {as : List Action} {p : ℕ}
  {P : Proposal} {F : Finset String}

/-- The entry is acknowledged by a peer in no later term that has the entry before it. -/
theorem Sim.answer_success (hS : Sim C s A) {call : AppendCall} (hcall : call ∈ s.appendCalls)
    (hp : call.proposal = some p) (hP : s.proposals[p]? = some P) {a : Answer}
    (ha : a ∈ call.answer) (ht : a.seen.currentTerm ≤ P.entry.term)
    (hm : a.seen.matchPrevLog P.prevIndex P.prevTerm = true) : call.counted p = true := by
  have hok := hS.calls call hcall
  have hrec := AppendCall.answer_eq_some ha
  obtain ⟨req, hreq, ⟨es, hh⟩, -⟩ := hok.received a hrec
  obtain ⟨R, hR, -, hterm, -, hi, ht'⟩ := hok.proposal p hp
  rw [hP, Option.some.injEq] at hR
  subst hR
  obtain ⟨h1, -, -, h4, h5⟩ := hok.request req hreq
  rw [hi, Option.some.injEq] at h4
  rw [ht', Option.some.injEq] at h5
  rw [h4, h5] at hm
  have hresp := Node.handleAppendEntries_success hh (by rw [h1, hterm]; exact ht) hm
  simp [AppendCall.counted, hp, hrec, hresp]

/-- Of the peers that answer, some have yet to, or all are counted. -/
theorem Reached.outstanding (hR : Reached C s A) (hP : s.proposals[p]? = some P)
    (hF : ∀ q ∈ F, Answers s p P q) (hacks : P.acks ≤ F.card) :
    ∃ call ∈ s.appendCalls, call.proposal = some p ∧ call.peer ∈ F ∧ call.received = none := by
  by_contra hno
  obtain ⟨G, hcard, hG⟩ := hR.tally.ackers p
  have hsub : F ⊆ G := by
    intro q hq
    obtain ⟨call, hcall, hp, rfl, hnone | ⟨a, ha, ht, hm⟩⟩ := hF q hq
    · exact absurd ⟨call, hcall, hp, hq, hnone⟩ hno
    · exact (hG _).2 ⟨call, hcall, hR.sim.answer_success hcall hp hP ha ht hm, rfl⟩
  have hle := Finset.card_le_card hsub
  have := hR.tally.acks p P hP
  omega

/-- Once as many outcomes are taken as there are peers, every call of the proposal has ended. -/
theorem Tally.taken_of_full (hT : Tally C s) (hP : s.proposals[p]? = some P)
    (hfull : (C.node P.node).peers.length ≤ P.responses) {call : AppendCall}
    (hcall : call ∈ s.appendCalls) (hp : call.proposal = some p) : call.received ≠ none := by
  intro hnone
  have hlt := calc
    s.appendCalls.countP (AppendCall.taken p)
      = (s.appendCalls.filter fun call => decide (call.proposal = some p)).countP
          fun call => call.received.isSome := by
        rw [List.countP_filter]
        exact List.countP_congr fun x _ => by simp [AppendCall.taken, and_comm]
    _ < (s.appendCalls.filter fun call => decide (call.proposal = some p)).length :=
        List.countP_lt_length_iff.2
          ⟨call, List.mem_filter.2 ⟨hcall, by simp [hp]⟩, by simp [hnone]⟩
    _ = s.appendCalls.countP fun call => decide (call.proposal = some p) :=
        List.countP_eq_length_filter.symm
  rw [hT.calls p P hP, ← hT.responses p P hP] at hlt
  omega

/-- While `Propose` waits it takes any answer that is there. -/
theorem Reached.receiveAppend_enabled (hR : Reached C s A) (hP : s.proposals[p]? = some P)
    (hend : P.ended = none) {c k : ℕ} {call : AppendCall} (hc : s.appendCalls[c]? = some call)
    (hp : call.proposal = some p) (hrec : call.received = none)
    (hk : k < call.replies.length) : (s.step C (.receiveAppend c (some k))).isSome = true := by
  have hok := hR.sim.calls call (List.mem_of_getElem? hc)
  obtain ⟨req, hreq, -⟩ := hok.replies _ (List.getElem_mem hk)
  simp [System.step, hc, System.at?, hok.caller_mem, hR.sim.alive, System.receiveAppend, hreq,
    hrec, List.getElem?_eq_getElem hk, hp, hP, hend]

/-- `Propose` returns `nil`, with its entry committed, as soon as it has the answers of enough
peers that are not of a later term and have the entry before the new one, and until then it waits
for them. -/
theorem propose_returns (hC : 2 ≤ C.ids.length) (hs : C.Run C.init as s)
    (hP : s.proposals[p]? = some P) (hcancel : ∀ c, P.ended ≠ some (.canceled, c))
    (hterm : ∀ call ∈ s.appendCalls, call.proposal = some p →
      ∀ a ∈ call.answer, a.resp.term ≤ P.entry.term)
    (hcard : (s.node P.node).quorum - 1 ≤ F.card) (hF : ∀ q ∈ F, Answers s p P q) :
    (∃ c, P.ended = some (.ok, c) ∧ P.newIndex ≤ c)
    ∨ P.ended = none
      ∧ (∃ call ∈ s.appendCalls, call.proposal = some p ∧ call.peer ∈ F ∧ call.received = none)
      ∧ ∀ c k call, s.appendCalls[c]? = some call → call.proposal = some p →
        call.received = none → k < call.replies.length →
          (s.step C (.receiveAppend c (some k))).isSome = true := by
  obtain ⟨A, hR⟩ := reached hs
  have hnode := (hR.sim.proposals P (List.mem_of_getElem? hP)).node_mem
  rw [hR.sim.quorum_eq hnode] at hcard
  have hwait : P.acks < (C.node P.node).quorum → ∃ call ∈ s.appendCalls,
      call.proposal = some p ∧ call.peer ∈ F ∧ call.received = none :=
    fun hlt => hR.outstanding hP hF (by omega)
  have hend := hR.tally.ended p P hP
  unfold Proposal.EndOK at hend
  split at hend
  · rename_i hnone
    exact .inr ⟨hnone, hwait hend.1, fun c k call hc hp hrec hk =>
      hR.receiveAppend_enabled hP hnone hc hp hrec hk⟩
  · rename_i c hok
    exact .inl ⟨c, hok, hend.1⟩
  · obtain ⟨call, hcall, hp, a, ha, hlt⟩ := hend
    have := hterm call hcall hp a (by simp [AppendCall.answer, ha])
    omega
  · -- every call has ended, so no peer that answers is missing
    obtain ⟨hfull, hlt | hnil⟩ := hend
    · obtain ⟨call, hcall, hp, -, hrec⟩ := hwait hlt
      exact absurd hrec (hR.tally.taken_of_full hP hfull hcall hp)
    · have := C.ids_length hnode
      rw [hnil] at this
      simp only [List.length_nil] at this
      omega
  · rename_i c hc
    exact absurd hc (hcancel c)

theorem propose_returns_trio : ∃ s P c,
    trio.Run trio.init (electBy "a" 0 ++ [.propose "a" "x"] ++ exchange "b" 2) s
    ∧ s.proposals[0]? = some P ∧ P.ended = some (.ok, c) ∧ P.newIndex ≤ c := by
  obtain ⟨s, hs, hp⟩ : ∃ s, trio.Run trio.init _ s ∧ _ :=
    Runs.exists_run (electBy "a" 0 ++ [.propose "a" "x"] ++ exchange "b" 2)
      (fun s => ∃ P ∈ s.proposals[0]?, P.ended = some (.ok, 1)
        ∧ (∀ call ∈ s.appendCalls, call.proposal = some 0 →
          ∀ a ∈ call.answer, a.resp.term ≤ P.entry.term)
        ∧ (s.node P.node).quorum - 1 ≤ 1
        ∧ ∃ call ∈ s.appendCalls, call.proposal = some 0 ∧ call.peer = "b"
          ∧ (call.received = none ∨ ∃ a ∈ call.answer, a.seen.currentTerm ≤ P.entry.term
            ∧ a.seen.matchPrevLog P.prevIndex P.prevTerm = true))
      (by decide +kernel)
  simp only [decide_eq_true_eq] at hp
  obtain ⟨P, hP, hend, hterm, hcard, hans⟩ := hp
  have hF : ∀ q ∈ ({"b"} : Finset String), Answers s 0 P q := fun q hq => by
    rw [Finset.mem_singleton.1 hq]
    exact hans
  rcases propose_returns (by decide) hs hP (fun c h => by rw [hend] at h; cases h) hterm
    (by simpa using hcard) hF with ⟨c, hc, hle⟩ | ⟨hnone, -⟩
  · exact ⟨s, P, c, hs, hP, hc, hle⟩
  · rw [hend] at hnone
    cases hnone

end

/-- `a` appends `x`, which reaches no one, and `y`, which `b` and `c` answer. -/
def gapRun : List Action :=
  electBy "a" 0 ++ [.propose "a" "x", .propose "a" "y"] ++ exchange "b" 4 ++ exchange "c" 5

/-- Both peers answer in the leader's term, and the second `Propose` fails for want of the first
one's entry. -/
theorem gap_fails_propose : ∃ s P, trio.Run trio.init gapRun s ∧ s.proposals[1]? = some P
    ∧ (s.node "a").state = .leader ∧ P.node = "a" ∧ P.entry = ⟨(s.node "a").currentTerm, "y"⟩
    ∧ (s.node "a").quorum - 1 ≤ ["b", "c"].length
    ∧ (∀ q ∈ ["b", "c"], ∃ call ∈ s.appendCalls, call.proposal = some 1 ∧ call.peer = q
      ∧ ∃ a ∈ call.answer, a.seen.currentTerm ≤ P.entry.term)
    ∧ (∀ call ∈ s.appendCalls, ∀ a ∈ call.answer, a.resp.term ≤ P.entry.term)
    ∧ P.ended = some (.replicationFailed, 0) := by
  obtain ⟨s, hs, hp⟩ : ∃ s, trio.Run trio.init gapRun s ∧ _ :=
    Runs.exists_run _
      (fun s => ∃ P ∈ s.proposals[1]?,
        (s.node "a").state = .leader ∧ P.node = "a" ∧ P.entry = ⟨(s.node "a").currentTerm, "y"⟩
        ∧ (s.node "a").quorum - 1 ≤ ["b", "c"].length
        ∧ (∀ q ∈ ["b", "c"], ∃ call ∈ s.appendCalls, call.proposal = some 1 ∧ call.peer = q
          ∧ ∃ a ∈ call.answer, a.seen.currentTerm ≤ P.entry.term)
        ∧ (∀ call ∈ s.appendCalls, ∀ a ∈ call.answer, a.resp.term ≤ P.entry.term)
        ∧ P.ended = some (.replicationFailed, 0))
      (by decide +kernel)
  simp only [decide_eq_true_eq] at hp
  obtain ⟨P, hP, hrest⟩ := hp
  exact ⟨s, P, hs, hP, hrest⟩

end EdgeSim.Raft
