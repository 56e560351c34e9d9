import EdgeSim.Raft.Node
import Mathlib.Order.MinMax
import Mathlib.Tactic.Push
import Mathlib.Tactic.SplitIfs

/-!
# What the critical sections do

One lemma for each function of `Node`, so that later proofs need not unfold it: the collected
entries are those from `lastApplied` to `commitIndex`, and a handler's outcome is one of a few
cases, each with the node it leaves.
-/

namespace EdgeSim.Raft.Node

/-- What a handler does first with a request of term `t`. -/
def adopt (n : Node) (t : ℕ) (leaderID : String) : Node :=
  if t > n.currentTerm then n.stepDownLocked t leaderID else n

section Adopt

variable {n : Node} {t : ℕ} {lid : String}

@[simp] theorem adopt_log : (n.adopt t lid).log = n.log := by unfold adopt; split_ifs <;> rfl

@[simp] theorem adopt_commitIndex : (n.adopt t lid).commitIndex = n.commitIndex := by
  unfold adopt; split_ifs <;> rfl

@[simp] theorem adopt_lastApplied : (n.adopt t lid).lastApplied = n.lastApplied := by
  unfold adopt; split_ifs <;> rfl

theorem adopt_currentTerm (lid : String) (h : n.currentTerm ≤ t) :
    (n.adopt t lid).currentTerm = t := by
  unfold adopt
  split_ifs with ht
  · simp [stepDownLocked, ht]
  · omega

theorem observeTerm_eq_adopt : n.observeTerm t = n.adopt t "" := rfl

end Adopt

/-! ## Collecting -/

section Collect

variable {l : List LogEntry}

theorem collectFrom_spec : ∀ {a c : ℕ} {es : List (ℕ × LogEntry)},
    collectFrom l a c = some es →
      es.map Prod.fst = List.range' a c ∧ ∀ x ∈ es, l[x.1]? = some x.2
  | a, 0, es, h => by
    simp only [collectFrom, Option.some.injEq] at h
    subst h
    simp
  | a, c + 1, es, h => by
    simp only [collectFrom] at h
    split at h
    · rename_i e es' he hes
      simp only [Option.some.injEq] at h
      subst h
      obtain ⟨h1, h2⟩ := collectFrom_spec hes
      refine ⟨by simp [h1, List.range'_succ], fun x hx => ?_⟩
      rcases List.mem_cons.1 hx with rfl | hx
      · exact he
      · exact h2 x hx
    · cases h

theorem collectFrom_isSome : ∀ {a c : ℕ}, a + c ≤ l.length → ∃ es, collectFrom l a c = some es
  | a, 0, _ => ⟨[], rfl⟩
  | a, c + 1, h => by
    obtain ⟨es, hes⟩ := collectFrom_isSome (a := a + 1) (c := c) (by omega)
    refine ⟨(a, l[a]) :: es, ?_⟩
    simp only [collectFrom, hes, List.getElem?_eq_getElem (show a < l.length by omega)]

variable {n n' : Node} {es : List (ℕ × LogEntry)}

theorem collectCommittedLocked_spec (h : n.collectCommittedLocked = some (n', es)) :
    n' = { n with lastApplied := max n.lastApplied n.commitIndex }
      ∧ es.map Prod.fst = List.range' n.lastApplied (n.commitIndex - n.lastApplied)
      ∧ ∀ x ∈ es, n.log[x.1]? = some x.2 := by
  unfold collectCommittedLocked at h
  split_ifs at h with hge
  · simp only [Option.some.injEq, Prod.mk.injEq] at h
    obtain ⟨rfl, rfl⟩ := h
    rw [max_eq_left hge, Nat.sub_eq_zero_of_le hge]
    simp
  · split at h
    · rename_i es' hes
      simp only [Option.some.injEq, Prod.mk.injEq] at h
      obtain ⟨rfl, rfl⟩ := h
      rw [max_eq_right (by omega)]
      exact ⟨rfl, collectFrom_spec hes⟩
    · cases h

theorem collectCommittedLocked_isSome (h : n.lastApplied < n.commitIndex →
    n.commitIndex ≤ n.log.length) : ∃ r, n.collectCommittedLocked = some r := by
  unfold collectCommittedLocked
  split_ifs with hge
  · exact ⟨_, rfl⟩
  · obtain ⟨es, hes⟩ := collectFrom_isSome (l := n.log) (a := n.lastApplied)
      (c := n.commitIndex - n.lastApplied) (by omega)
    rw [hes]
    exact ⟨_, rfl⟩

end Collect

/-! ## The handlers -/

section Handlers

variable {n n' : Node} {es : List (ℕ × LogEntry)}

theorem handleRequestVote_cases (req : RequestVoteRequest) :
    req.term < n.currentTerm ∧ n.handleRequestVote req = (n, ⟨n.currentTerm, false⟩)
    ∨ n.currentTerm ≤ req.term
      ∧ n.handleRequestVote req = (n.adopt req.term "", ⟨req.term, false⟩)
    ∨ n.currentTerm ≤ req.term ∧ n.isLogUpToDate req.lastLogIndex req.lastLogTerm = true
      ∧ ((n.adopt req.term "").votedFor = "" ∨ (n.adopt req.term "").votedFor = req.candidateID)
      ∧ n.handleRequestVote req
        = ({ n.adopt req.term "" with votedFor := req.candidateID }, ⟨req.term, true⟩) := by
  have hup : (n.adopt req.term "").isLogUpToDate req.lastLogIndex req.lastLogTerm
      = n.isLogUpToDate req.lastLogIndex req.lastLogTerm := by
    simp [isLogUpToDate, lastLogTerm, lastLogIndex]
  unfold handleRequestVote
  by_cases h1 : req.term < n.currentTerm
  · exact .inl ⟨h1, if_pos h1⟩
  have hle : n.currentTerm ≤ req.term := by omega
  have hterm := adopt_currentTerm "" hle
  rw [if_neg h1, show (if req.term > n.currentTerm then n.stepDownLocked req.term "" else n)
    = n.adopt req.term "" from rfl]
  simp only [hup, hterm]
  split_ifs with h2 h3
  · exact .inr (.inl ⟨hle, rfl⟩)
  · exact .inr (.inr ⟨hle, by simpa using h2, h3, rfl⟩)
  · exact .inr (.inl ⟨hle, rfl⟩)

/-- The `commitIndex` after a request that carries `leaderCommit`, the log being `log`. -/
def raised (commitIndex leaderCommit : ℕ) (log : List LogEntry) : ℕ :=
  if leaderCommit > commitIndex then min leaderCommit log.length else commitIndex

theorem raiseCommit_eq (n : Node) (leaderCommit : ℕ) :
    n.raiseCommit leaderCommit
      = { n with commitIndex := raised n.commitIndex leaderCommit n.log } := by
  unfold raiseCommit raised lastLogIndex
  split_ifs with h1 h2
  · rw [min_eq_left h2.le]
  · rw [min_eq_right (by omega)]
  · rfl

/-- The node that is about to collect, in `HandleAppendEntries`. -/
def accept (n : Node) (req : AppendEntriesRequest) : Node :=
  let log := appendFrom n.log req.prevLogIndex req.entries
  { n.adopt req.term req.leaderID with
    log := log
    commitIndex := raised n.commitIndex req.leaderCommit log }

theorem receiveEntries_cases (req : AppendEntriesRequest) :
    req.term < n.currentTerm ∧ n.receiveEntries req = .returned n ⟨n.currentTerm, false⟩
    ∨ n.currentTerm ≤ req.term ∧ req.entries ≠ []
      ∧ n.matchPrevLog req.prevLogIndex req.prevLogTerm = false
      ∧ n.receiveEntries req = .returned (n.adopt req.term req.leaderID) ⟨req.term, false⟩
    ∨ n.currentTerm ≤ req.term
      ∧ (req.entries = [] ∨ n.matchPrevLog req.prevLogIndex req.prevLogTerm = true)
      ∧ n.receiveEntries req = .collecting (n.accept req) := by
  have hmatch : (n.adopt req.term req.leaderID).matchPrevLog req.prevLogIndex req.prevLogTerm
      = n.matchPrevLog req.prevLogIndex req.prevLogTerm := by
    simp [matchPrevLog]
  unfold receiveEntries
  by_cases h1 : req.term < n.currentTerm
  · exact .inl ⟨h1, if_pos h1⟩
  have hle : n.currentTerm ≤ req.term := by omega
  have hterm := adopt_currentTerm req.leaderID hle
  rw [if_neg h1,
    show (if req.term > n.currentTerm then n.stepDownLocked req.term req.leaderID else n)
      = n.adopt req.term req.leaderID from rfl]
  simp only [hmatch, hterm]
  split_ifs with h2 h3
  · exact .inr (.inl ⟨hle, h2.1, h2.2, rfl⟩)
  · refine .inr (.inr ⟨hle, ?_, ?_⟩)
    · by_contra hno
      push Not at hno
      exact h2 ⟨h3, by simpa using hno.2⟩
    · rw [raiseCommit_eq]
      simp [accept, appendEntries]
  · simp only [ne_eq, Decidable.not_not] at h3
    refine .inr (.inr ⟨hle, .inl h3, ?_⟩)
    rw [raiseCommit_eq]
    simp [accept, h3, appendFrom]

/-- `HandleAppendEntries` ignores an older term, rejects entries that do not fit, or accepts. -/
theorem handleAppendEntries_cases {req : AppendEntriesRequest} {resp : AppendEntriesResponse}
    (h : n.handleAppendEntries req = some (n', es, resp)) :
    req.term < n.currentTerm ∧ n' = n ∧ es = [] ∧ resp = ⟨n.currentTerm, false⟩
    ∨ n.currentTerm ≤ req.term ∧ req.entries ≠ []
      ∧ n.matchPrevLog req.prevLogIndex req.prevLogTerm = false
      ∧ n' = n.adopt req.term req.leaderID ∧ es = [] ∧ resp = ⟨req.term, false⟩
    ∨ n.currentTerm ≤ req.term
      ∧ (req.entries = [] ∨ n.matchPrevLog req.prevLogIndex req.prevLogTerm = true)
      ∧ (∃ m, (n.accept req).collectCommittedLocked = some (m, es))
      ∧ n' = { n.accept req with
          lastApplied := max n.lastApplied (n.accept req).commitIndex
          state := .follower
          leaderID := req.leaderID }
      ∧ resp = ⟨req.term, true⟩ := by
  unfold handleAppendEntries at h
  rcases receiveEntries_cases (n := n) req with ⟨h1, h2⟩ | ⟨h1, h2, h3, h4⟩ | ⟨h1, h2, h3⟩
  · rw [h2] at h
    simp only [Option.some.injEq, Prod.mk.injEq] at h
    obtain ⟨rfl, rfl, rfl⟩ := h
    exact .inl ⟨h1, rfl, rfl, rfl⟩
  · rw [h4] at h
    simp only [Option.some.injEq, Prod.mk.injEq] at h
    obtain ⟨rfl, rfl, rfl⟩ := h
    exact .inr (.inl ⟨h1, h2, h3, rfl, rfl, rfl⟩)
  · rw [h3] at h
    simp only [] at h
    split at h
    · cases h
    · rename_i m es' hm
      simp only [Option.some.injEq, Prod.mk.injEq] at h
      obtain ⟨rfl, rfl, rfl⟩ := h
      obtain ⟨rfl, -, -⟩ := collectCommittedLocked_spec hm
      refine .inr (.inr ⟨h1, h2, ⟨_, hm⟩, ?_, ?_⟩)
      · simp [accept]
      · simp [accept, adopt_currentTerm _ h1]

/-- A node that has nothing left to collect never panics in `HandleAppendEntries`: `commitIndex`
is only raised within the log. -/
theorem accept_bound (h : n.commitIndex ≤ n.lastApplied) (req : AppendEntriesRequest)
    (hlt : (n.accept req).lastApplied < (n.accept req).commitIndex) :
    (n.accept req).commitIndex ≤ (n.accept req).log.length := by
  simp only [accept, adopt_lastApplied, raised] at hlt ⊢
  split_ifs at hlt ⊢ with hc
  · exact min_le_right _ _
  · omega

theorem handleAppendEntries_isSome (h : n.commitIndex ≤ n.lastApplied)
    (req : AppendEntriesRequest) : ∃ r, n.handleAppendEntries req = some r := by
  unfold handleAppendEntries
  rcases receiveEntries_cases (n := n) req with ⟨-, h2⟩ | ⟨-, -, -, h4⟩ | ⟨-, -, h3⟩
  · rw [h2]
    exact ⟨_, rfl⟩
  · rw [h4]
    exact ⟨_, rfl⟩
  · obtain ⟨⟨m, es⟩, hm⟩ := collectCommittedLocked_isSome (accept_bound h req)
    rw [h3]
    simp only [hm]
    exact ⟨_, rfl⟩

theorem commitProposal_cases {newIndex : ℕ} (h : n.commitProposal newIndex = some (n', es)) :
    newIndex ≤ n.commitIndex ∧ n' = n ∧ es = []
    ∨ n.commitIndex < newIndex
      ∧ ({ n with commitIndex := newIndex } : Node).collectCommittedLocked = some (n', es)
      ∧ n' = { n with
          commitIndex := newIndex
          lastApplied := max n.lastApplied newIndex } := by
  unfold commitProposal ackCommit at h
  split_ifs at h with hlt
  · exact .inr ⟨hlt, h, (collectCommittedLocked_spec h).1⟩
  · simp only [Option.some.injEq, Prod.mk.injEq] at h
    exact .inl ⟨by omega, h.1.symm, h.2.symm⟩

theorem commitProposal_isSome {newIndex : ℕ} (h : newIndex ≤ n.log.length) :
    ∃ r, n.commitProposal newIndex = some r := by
  unfold commitProposal ackCommit
  split_ifs with hlt
  · exact collectCommittedLocked_isSome fun _ => h
  · exact ⟨_, rfl⟩

/-- A `Success` answers every request that is not of an older term and whose previous entry is
in the log. -/
theorem handleAppendEntries_success {req : AppendEntriesRequest} {resp : AppendEntriesResponse}
    (h : n.handleAppendEntries req = some (n', es, resp)) (ht : n.currentTerm ≤ req.term)
    (hm : n.matchPrevLog req.prevLogIndex req.prevLogTerm = true) : resp = ⟨req.term, true⟩ := by
  rcases handleAppendEntries_cases h with ⟨h1, -⟩ | ⟨-, -, h3, -⟩ | ⟨-, -, -, -, hr⟩
  · omega
  · rw [hm] at h3
    cases h3
  · exact hr

end Handlers

/-! ## Candidates -/

/-- What every critical section but the start of a candidacy keeps: a node is a candidate only in
the term it was one, and with the same log. -/
structure Moves (n n' : Node) : Prop where
  term_le : n.currentTerm ≤ n'.currentTerm
  candidate : n'.state = .candidate →
    n.state = .candidate ∧ n'.currentTerm = n.currentTerm ∧ n'.log = n.log

theorem Moves.refl (n : Node) : Moves n n := ⟨le_rfl, fun h => ⟨h, rfl, rfl⟩⟩

theorem moves_adopt (n : Node) (t : ℕ) (lid : String) : Moves n (n.adopt t lid) := by
  unfold adopt
  split_ifs with ht
  · refine ⟨?_, fun h => by simp [stepDownLocked] at h⟩
    simp only [stepDownLocked]
    split_ifs
    omega
  · exact .refl n

theorem moves_handleRequestVote (n : Node) (req : RequestVoteRequest) :
    Moves n (n.handleRequestVote req).1 := by
  have ha := moves_adopt n req.term ""
  rcases handleRequestVote_cases (n := n) req with ⟨-, h⟩ | ⟨-, h⟩ | ⟨-, -, -, h⟩ <;> rw [h]
  · exact .refl n
  · exact ha
  · exact ⟨ha.term_le, ha.candidate⟩

theorem moves_handleAppendEntries {n n' : Node} {req : AppendEntriesRequest}
    {es : List (ℕ × LogEntry)} {resp : AppendEntriesResponse}
    (h : n.handleAppendEntries req = some (n', es, resp)) : Moves n n' := by
  have ha := moves_adopt n req.term req.leaderID
  rcases handleAppendEntries_cases h with ⟨-, rfl, -⟩ | ⟨-, -, -, rfl, -⟩ | ⟨-, -, -, rfl, -⟩
  · exact .refl _
  · exact ha
  · exact ⟨ha.term_le, fun hc => by cases hc⟩

theorem moves_commitProposal {n n' : Node} {newIndex : ℕ} {es : List (ℕ × LogEntry)}
    (h : n.commitProposal newIndex = some (n', es)) : Moves n n' := by
  rcases commitProposal_cases h with ⟨-, rfl, -⟩ | ⟨-, -, rfl⟩
  · exact .refl _
  · exact ⟨le_rfl, fun hc => ⟨hc, rfl, rfl⟩⟩

theorem becomeLeader_eq {n n' : Node} (h : n.becomeLeader = some n') :
    n.state = .candidate ∧ n' = { n with state := .leader, leaderID := n.id } := by
  unfold becomeLeader at h
  split_ifs at h with h1 h2
  simp only [Option.some.injEq] at h
  exact ⟨not_not.1 h1, h.symm⟩

end EdgeSim.Raft.Node
