import EdgeSim.Raft.NodeSpec
import EdgeSim.Raft.Tracks

/-!
# The handlers follow the group

A vote request raises the voter's term and casts its vote; an entry that a follower accepts is
the one at its index in the log its term is led with, on top of everything before it.
-/

namespace EdgeSim.Raft

open Lists TermLog TermLog.Group

variable {C : Cluster} {A : Group String LogEntry} {nd : String → Node} {id : String}

theorem Follows.adopt (hA : GroupInv C A) (h : Follows C nd A) (hid : id ∈ C.ids) (t : ℕ)
    (lid : String) (hl : lid = "" ∨ lid ≠ id ∧ ∃ l, A.led lid t = some l) :
    ∃ B, Steps C A B ∧ Follows C (Function.update nd id ((nd id).adopt t lid)) B
      ∧ B.led = A.led := by
  unfold Node.adopt
  split_ifs with ht
  · obtain ⟨hB, hF⟩ := h.stepDown hA hid ht hl
    exact ⟨_, hB, hF, rfl⟩
  · refine ⟨A, .refl, ?_, rfl⟩
    rw [Function.update_eq_self]
    exact h

/-- The up-to-date check compares as the group does. -/
theorem upToDate_of_isLogUpToDate {n : Node} {l : List LogEntry}
    (h : n.isLogUpToDate l.length (TermLog.lastTerm LogEntry.term l) = true) :
    UpToDate LogEntry.term n.log l := by
  unfold Node.isLogUpToDate Node.lastLogTerm Node.lastLogIndex at h
  rw [Node.lastTerm_eq] at h
  split_ifs at h with ht
  · exact .inl (by simpa using h)
  · exact .inr ⟨(not_not.1 ht).symm, by simpa using h⟩

/-- The log fields of a vote request, while the caller is still the candidate it was. -/
def Current (nd : String → Node) (req : RequestVoteRequest) : Prop :=
  (nd req.candidateID).state = .candidate → (nd req.candidateID).currentTerm = req.term →
    req.lastLogIndex = (nd req.candidateID).log.length
      ∧ req.lastLogTerm = TermLog.lastTerm LogEntry.term (nd req.candidateID).log

theorem Follows.handleRequestVote (hA : GroupInv C A) (h : Follows C nd A) (hid : id ∈ C.ids)
    {req : RequestVoteRequest} (hc : req.candidateID ∈ C.ids) (hne : req.candidateID ≠ id)
    (ht : req.term ≤ (nd req.candidateID).currentTerm) (hreq : Current nd req) :
    ∃ B, Steps C A B ∧ Follows C (Function.update nd id ((nd id).handleRequestVote req).1) B
      ∧ B.led = A.led ∧ (((nd id).handleRequestVote req).2.voteGranted = true →
        ∃ l, B.vote id req.term = some (req.candidateID, l)) := by
  rcases Node.handleRequestVote_cases (n := nd id) req with
    ⟨-, hr⟩ | ⟨hle, hr⟩ | ⟨hle, hup, hvf, hr⟩ <;> rw [hr]
  · refine ⟨A, .refl, ?_, rfl, fun hg => by cases hg⟩
    rw [Function.update_eq_self]
    exact h
  · obtain ⟨B, hB, hF, hled⟩ := h.adopt hA hid req.term "" (.inl rfl)
    exact ⟨B, hB, hF, hled, fun hg => by cases hg⟩
  · obtain ⟨B, hB, hF, hled⟩ := h.adopt hA hid req.term "" (.inl rfl)
    have hterm := Node.adopt_currentTerm "" hle
    set n₁ := (nd id).adopt req.term "" with hn₁
    set nd₁ := Function.update nd id n₁ with hnd₁
    have hnd : nd₁ id = n₁ := Function.update_self ..
    have hcnd : nd₁ req.candidateID = nd req.candidateID := Function.update_of_ne hne _ _
    by_cases hv : n₁.votedFor = ""
    · obtain ⟨hS, hF', hvote⟩ := hF.grant hid hc (by rw [hnd]; exact hv)
        (by rw [hnd, hcnd, hterm]; exact ht) (by
          intro hs hct
          rw [hnd, hterm] at hct
          rw [hcnd] at hs hct ⊢
          obtain ⟨hi, hlt⟩ := hreq hs hct
          rw [hi, hlt] at hup
          rw [hnd, show n₁.log = (nd id).log from Node.adopt_log]
          exact upToDate_of_isLogUpToDate hup)
      rw [hnd, hnd₁, Function.update_idem] at hF'
      rw [hnd, hterm] at hvote
      exact ⟨_, hB.trans hS, hF', hled, fun _ => ⟨_, hvote⟩⟩
    · -- a repeated request: the vote it asks for is cast
      have hvc : n₁.votedFor = req.candidateID := hvf.resolve_left hv
      have hsame : ({ n₁ with votedFor := req.candidateID } : Node) = n₁ := by rw [← hvc]
      obtain ⟨l, hl⟩ := (hF.tracks id hid).voted (by rw [hnd]; exact hv)
      rw [hnd, hterm, hvc] at hl
      refine ⟨B, hB, ?_, hled, fun _ => ⟨l, hl⟩⟩
      rw [hsame]
      exact hF

/-! ## Entries -/

/-- A request of a leader: empty, or with one entry of its term and what stands before it. -/
def Genuine (A : Group String LogEntry) (req : AppendEntriesRequest) : Prop :=
  ∃ l, A.led req.leaderID req.term = some l ∧ (req.entries = [] ∨ ∃ e, req.entries = [e]
    ∧ l.length ≤ req.prevLogIndex
    ∧ (A.lead req.leaderID req.term)[req.prevLogIndex]? = some e
    ∧ req.prevLogTerm = TermLog.lastTerm LogEntry.term
        ((A.lead req.leaderID req.term).take req.prevLogIndex))

theorem Genuine.ext {A B : Group String LogEntry} (hx : Ext A B) {req : AppendEntriesRequest}
    (h : Genuine A req) : Genuine B req := by
  obtain ⟨l, hl, hent⟩ := h
  refine ⟨l, hx.led hl, hent.imp_right ?_⟩
  rintro ⟨e, he, hle, hget, hprev⟩
  have hlen := (List.getElem?_eq_some_iff.1 hget).1
  refine ⟨e, he, hle, ?_, ?_⟩
  · rw [prefix_getElem? (hx.lead hl) hlen]
    exact hget
  · rw [take_eq_of_isPrefix (hx.lead hl) hlen.le]
    exact hprev

/-- The previous-entry check establishes that everything before agrees. -/
theorem prefix_of_matchPrevLog (hA : GroupInv C A) {n : Node} {lead : List LogEntry} {k t : ℕ}
    (hn : A.WF LogEntry.term n.log) (hlead : A.WF LogEntry.term lead) (hk : k ≤ lead.length)
    (ht : t = TermLog.lastTerm LogEntry.term (lead.take k)) (hm : n.matchPrevLog k t = true) :
    lead.take k <+: n.log := by
  rcases Nat.eq_zero_or_pos k with rfl | hpos
  · simp
  unfold Node.matchPrevLog at hm
  rw [if_neg (by omega)] at hm
  split at hm
  · cases hm
  · rename_i e he
    have hl : lead[k - 1]? = some lead[k - 1] := List.getElem?_eq_getElem (by omega)
    have hlast : TermLog.lastTerm LogEntry.term (lead.take k) = lead[k - 1].term :=
      TermLog.lastTerm_eq _ (k := k - 1)
        (by rw [List.getElem?_take_of_lt (by omega)]; exact hl) (by simp; omega)
    have hterm : e.term = lead[k - 1].term := by
      rw [← hlast, ← ht]
      simpa using hm
    have heq := log_matching hA hn hlead he hl hterm
    rw [show k - 1 + 1 = k by omega] at heq
    rw [← heq]
    exact List.take_prefix _ _

/-- Appending the leader's entry at `k` onto a log that has everything before it. -/
theorem appendEntry_eq (hA : GroupInv C A) {log lead : List LogEntry} {k : ℕ} {e : LogEntry}
    (hlog : A.WF LogEntry.term log) (hlead : A.WF LogEntry.term lead) (he : lead[k]? = some e)
    (hp : lead.take k <+: log) :
    lead.take (k + 1) <+: log ∧ Node.appendEntry log k e = log
      ∨ ¬ lead.take (k + 1) <+: log ∧ Node.appendEntry log k e = lead.take (k + 1) := by
  have hk := (List.getElem?_eq_some_iff.1 he).1
  have htake : log.take k = lead.take k := by
    have := take_eq_of_isPrefix hp (k := k) (by simp; omega)
    rwa [List.take_take, min_self] at this
  unfold Node.appendEntry
  split
  · rename_i x hx
    split_ifs with ht
    · refine .inr ⟨fun hpre => ht ?_, by rw [htake, List.take_add_one, he, Option.toList_some]⟩
      have := getElem?_eq_of_isPrefix hpre he
      rw [hx] at this
      simp only [Option.some.injEq] at this
      rw [this]
    · refine .inl ⟨?_, rfl⟩
      rw [← log_matching hA hlog hlead hx he (not_not.1 ht)]
      exact List.take_prefix _ _
  · rename_i hx
    have hlen : log.length ≤ k := List.getElem?_eq_none_iff.1 hx
    refine .inr ⟨fun hpre => ?_, ?_⟩
    · have := hpre.length_le
      simp only [List.length_take] at this
      omega
    · rw [List.take_add_one, he, Option.toList_some, ← htake, List.take_of_length_le hlen]

/-- An accepted entry, in the follower's own term. -/
theorem Follows.store (hA : GroupInv C A) (h : Follows C nd A) (hid : id ∈ C.ids) {L : String}
    {l : List LogEntry} {k : ℕ} {e : LogEntry} (hne : L ≠ id)
    (hL : A.led L (nd id).currentTerm = some l) (hl : l.length ≤ k)
    (he : (A.lead L (nd id).currentTerm)[k]? = some e)
    (hp : (A.lead L (nd id).currentTerm).take k <+: (nd id).log) :
    Steps C A (A.store id L (k + 1))
      ∧ Follows C (Function.update nd id
          { nd id with
            log := Node.appendEntry (nd id).log k e
            state := .follower
            leaderID := L }) (A.store id L (k + 1))
      ∧ (A.store id L (k + 1)).stored id (nd id).currentTerm (k + 1)
      ∧ (Node.appendEntry (nd id).log k e)[k]? = some e := by
  have hn := h.tracks id hid
  have hk := (List.getElem?_eq_some_iff.1 he).1
  rw [← hn.term_eq] at hL he hp hk ⊢
  rw [← hn.log_eq] at hp ⊢
  have hnled : ¬ ∃ l, A.led id (A.term id) = some l := by
    rintro ⟨l', hl'⟩
    exact hne (hA.leader_unique hL hl')
  have hlog : (A.store id L (k + 1)).log id = Node.appendEntry (A.log id) k e := by
    rcases appendEntry_eq hA (hA.wf_log id) (hA.wf_lead hL) he hp with ⟨h1, h2⟩ | ⟨h1, h2⟩
    · simp [Group.store, h1, h2]
    · simp [Group.store, h1, h2]
  have hget : (Node.appendEntry (A.log id) k e)[k]? = some e := by
    rcases appendEntry_eq hA (hA.wf_log id) (hA.wf_lead hL) he hp with ⟨h1, h2⟩ | ⟨-, h2⟩
    · rw [h2]
      exact getElem?_eq_of_isPrefix h1 he
    · rw [h2]
      exact getElem?_eq_of_isPrefix List.prefix_rfl he
  refine ⟨.single (.store hL (by omega) (by omega) (by simpa using hp)),
    Follows.update ?_ ?_ h.vote_mem h.led_mem, .inr ⟨rfl, rfl, rfl⟩, hget⟩
  · exact
      { id_eq := hn.id_eq
        peers_eq := hn.peers_eq
        term_eq := hn.term_eq
        log_eq := hlog
        unvoted := hn.unvoted
        voted := hn.voted
        candidate := fun hc => by cases hc
        leader := ⟨fun hc => (by cases hc), fun hc => absurd (by rw [hn.term_eq]; exact hc) hnled⟩
        leaderID_led := fun _ => ⟨l, by rw [hn.term_eq] at hL; exact hL⟩
        leaderID_self := ⟨fun hc => (by cases hc), fun hc => absurd hc hne⟩ }
  · intro id' hid' hne'
    exact (h.tracks id' hid').frame ext_store rfl (log_store_of_ne hne') (fun _ => rfl)
      (fun _ => rfl) fun _ v l hv => .inl hv

/-- A heartbeat, in the follower's own term. -/
theorem Follows.recognise (hA : GroupInv C A) (h : Follows C nd A) (hid : id ∈ C.ids) {L : String}
    {l : List LogEntry} (hne : L ≠ id) (hL : A.led L (nd id).currentTerm = some l) :
    Follows C (Function.update nd id { nd id with state := .follower, leaderID := L }) A := by
  have hn := h.tracks id hid
  have hnled : ¬ ∃ l, A.led id (nd id).currentTerm = some l := by
    rintro ⟨l', hl'⟩
    exact hne (hA.leader_unique hL hl')
  exact h.set
    { id_eq := hn.id_eq
      peers_eq := hn.peers_eq
      term_eq := hn.term_eq
      log_eq := hn.log_eq
      unvoted := hn.unvoted
      voted := hn.voted
      candidate := fun hc => by cases hc
      leader := ⟨fun hc => (by cases hc), fun hc => absurd hc hnled⟩
      leaderID_led := fun _ => ⟨l, hL⟩
      leaderID_self := ⟨fun hc => (by cases hc), fun hc => absurd hc hne⟩ }

theorem Follows.commit (h : Follows C nd A) (hid : id ∈ C.ids) (c a : ℕ) :
    Follows C (Function.update nd id { nd id with commitIndex := c, lastApplied := a }) A :=
  h.set ((h.tracks id hid).commit c a)

/-- The node that has accepted a request differs in its counters from one that has taken over the
log, the term and the leader. -/
theorem Follows.accept {req : AppendEntriesRequest} (hid : id ∈ C.ids)
    (h : Follows C (Function.update nd id
      { (nd id).adopt req.term req.leaderID with
        log := Node.appendFrom (nd id).log req.prevLogIndex req.entries
        state := .follower
        leaderID := req.leaderID }) A) :
    Follows C (Function.update nd id
      { (nd id).accept req with
        lastApplied := max (nd id).lastApplied ((nd id).accept req).commitIndex
        state := .follower
        leaderID := req.leaderID }) A := by
  have h' := h.commit hid ((nd id).accept req).commitIndex
    (max (nd id).lastApplied ((nd id).accept req).commitIndex)
  rw [Function.update_self, Function.update_idem] at h'
  exact h'

theorem Follows.handleAppendEntries (hA : GroupInv C A) (h : Follows C nd A) (hid : id ∈ C.ids)
    {req : AppendEntriesRequest} (hg : Genuine A req) (hne : req.leaderID ≠ id) {n' : Node}
    {es : List (ℕ × LogEntry)} {resp : AppendEntriesResponse}
    (hr : (nd id).handleAppendEntries req = some (n', es, resp)) :
    ∃ B, Steps C A B ∧ Follows C (Function.update nd id n') B ∧ B.led = A.led
      ∧ (resp.success = true → ∀ e, req.entries = [e] →
        B.stored id req.term (req.prevLogIndex + 1) ∧ n'.log[req.prevLogIndex]? = some e) := by
  have hg₀ := hg
  obtain ⟨l, hl, -⟩ := hg₀
  rcases Node.handleAppendEntries_cases hr with
    ⟨-, rfl, -, rfl⟩ | ⟨-, -, -, rfl, -, rfl⟩ | ⟨hle, hm, -, rfl, rfl⟩
  · refine ⟨A, .refl, ?_, rfl, fun hs => by cases hs⟩
    rw [Function.update_eq_self]
    exact h
  · obtain ⟨B, hB, hF, hled⟩ := h.adopt hA hid _ _ (.inr ⟨hne, l, hl⟩)
    exact ⟨B, hB, hF, hled, fun hs => by cases hs⟩
  obtain ⟨B, hB, hF, hled⟩ := h.adopt hA hid _ _ (.inr ⟨hne, l, hl⟩)
  obtain ⟨hI, hx⟩ := steps_inv hA hB
  obtain ⟨l', hl', hentB⟩ := hg.ext hx
  have hterm := Node.adopt_currentTerm req.leaderID hle
  set n₁ := (nd id).adopt req.term req.leaderID with hn₁
  set nd₁ := Function.update nd id n₁ with hnd₁
  have hnd : nd₁ id = n₁ := Function.update_self ..
  have hlog : n₁.log = (nd id).log := Node.adopt_log
  rcases hentB with hnil | ⟨e, he, hle', hget, hprev⟩
  · have hF₂ := hF.recognise hI hid hne (l := l') (by rw [hnd, hterm]; exact hl')
    rw [hnd, hnd₁, Function.update_idem] at hF₂
    refine ⟨B, hB, .accept hid ?_, hled, fun _ e he => by rw [hnil] at he; cases he⟩
    rw [hnil, Node.appendFrom, ← hlog]
    exact hF₂
  · have hn := hF.tracks id hid
    rw [hnd] at hn
    have hwf : B.WF LogEntry.term n₁.log := by
      rw [← hn.log_eq]
      exact hI.wf_log id
    have hlen := (List.getElem?_eq_some_iff.1 hget).1
    have hp : (B.lead req.leaderID req.term).take req.prevLogIndex <+: n₁.log := by
      refine prefix_of_matchPrevLog hI hwf (hI.wf_lead hl') hlen.le hprev ?_
      have := hm.resolve_left (by rw [he]; simp)
      simpa [Node.matchPrevLog, hlog] using this
    obtain ⟨hS, hF₂, hst, hget'⟩ := hF.store hI hid hne (l := l') (k := req.prevLogIndex) (e := e)
      (by rw [hnd, hterm]; exact hl') hle' (by rw [hnd, hterm]; exact hget)
      (by rw [hnd, hterm]; exact hp)
    rw [hnd, hnd₁, Function.update_idem, hlog] at hF₂
    rw [hnd, hterm] at hst
    rw [hnd, hlog] at hget'
    have hacc : ((nd id).accept req).log = Node.appendEntry (nd id).log req.prevLogIndex e := by
      simp [Node.accept, he, Node.appendFrom]
    refine ⟨_, hB.trans hS, .accept hid ?_, hled, fun _ e' he' => ?_⟩
    · rw [he]
      exact hF₂
    · rw [he] at he'
      simp only [List.cons.injEq, and_true] at he'
      subst he'
      refine ⟨hst, ?_⟩
      change ((nd id).accept req).log[req.prevLogIndex]? = _
      rw [hacc]
      exact hget'

end EdgeSim.Raft
