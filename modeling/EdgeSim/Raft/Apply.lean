import EdgeSim.Coordinator.ReadingStore
import EdgeSim.Lib.Run
import EdgeSim.Raft.NodeSpec
import EdgeSim.Raft.Replica

/-!
# The order of `ApplyFunc` calls

Entries are collected in order, each index once: `collectCommittedLocked` moves `lastApplied` over
them under the mutex. They are applied after the mutex is released, so a call that collected later
may be faster. As long as each call waits for those that collected before it, the entries go to
`ApplyFunc` as they were collected.
-/

namespace EdgeSim.Raft

open EdgeSim.Coordinator

namespace Replica

/-- What is collected and not yet applied, in the order of the critical sections. -/
def pending (r : Replica) : List (ℕ × LogEntry) := r.batches.flatMap Batch.todo

/-- The committed log, as it was collected. -/
def committed (r : Replica) : List LogEntry := r.collected.map Prod.snd

/-- The steps of a run in which nothing overtakes: an entry is applied only when the calls that
collected before have no more to apply. -/
def InOrder (r : Replica) : ReplicaAction → Prop
  | .apply b => ∀ batch ∈ r.batches.take b, batch.todo = []
  | _ => True

instance (r : Replica) : (x : ReplicaAction) → Decidable (r.InOrder x)
  | .apply b => inferInstanceAs (Decidable (∀ batch ∈ r.batches.take b, batch.todo = []))
  | .handleRequestVote _ | .handleAppendEntries _ _ | .observeTerm _ | .startCandidacy
  | .becomeLeader | .appendCommand _ | .commitProposal _ | .finish _ => .isTrue trivial

/-! ## What a step does to what is collected and applied -/

section Step

variable {r r' : Replica}

/-- A critical section collects a run of indices from `lastApplied` on. -/
def Collects (r r' : Replica) (es : List (ℕ × LogEntry)) : Prop :=
  (∃ k, es.map Prod.fst = List.range' r.node.lastApplied k
    ∧ r'.node.lastApplied = r.node.lastApplied + k)
  ∧ r'.pending = r.pending ++ es ∧ r'.collected = r.collected ++ es ∧ r'.applied = r.applied

theorem collects_nothing (hn : r'.node.lastApplied = r.node.lastApplied)
    (hb : r'.batches = r.batches) (hc : r'.collected = r.collected)
    (ha : r'.applied = r.applied) : Collects r r' [] := by
  refine ⟨⟨0, rfl, hn⟩, ?_, ?_, ha⟩
  · simp [pending, hb]
  · simp [hc]

theorem collects_collect {n : Node} {es : List (ℕ × LogEntry)} {answer : Option Answer} {k : ℕ}
    (hk : es.map Prod.fst = List.range' r.node.lastApplied k)
    (hn : n.lastApplied = r.node.lastApplied + k) : Collects r (r.collect n es answer) es :=
  ⟨⟨k, hk, hn⟩, by simp [pending, collect], rfl, rfl⟩

theorem collects_handleAppendEntries {c : ℕ} {req : AppendEntriesRequest}
    (h : r.handleAppendEntries c req = some r') : ∃ es, Collects r r' es := by
  obtain ⟨n, es, resp, hn, rfl⟩ := handleAppendEntries_eq h
  refine ⟨es, ?_⟩
  rcases Node.handleAppendEntries_cases hn with
    ⟨-, rfl, rfl, -⟩ | ⟨-, -, -, rfl, rfl, -⟩ | ⟨-, -, ⟨m, hm⟩, rfl, -⟩
  · exact collects_collect (k := 0) rfl rfl
  · exact collects_collect (k := 0) rfl Node.adopt_lastApplied
  · obtain ⟨-, hes, -⟩ := Node.collectCommittedLocked_spec hm
    rw [show (r.node.accept req).lastApplied = r.node.lastApplied from
      Node.adopt_lastApplied] at hes
    refine collects_collect hes ?_
    change max r.node.lastApplied (r.node.accept req).commitIndex = _
    omega

theorem collects_commitProposal {i : ℕ} (h : r.commitProposal i = some r') :
    ∃ es, Collects r r' es := by
  obtain ⟨n, es, hn, rfl⟩ := commitProposal_eq h
  refine ⟨es, ?_⟩
  rcases Node.commitProposal_cases hn with ⟨-, rfl, rfl⟩ | ⟨-, hcoll, rfl⟩
  · exact collects_collect (k := 0) rfl rfl
  · obtain ⟨-, hes, -⟩ := Node.collectCommittedLocked_spec hcoll
    refine collects_collect hes ?_
    change max r.node.lastApplied i = r.node.lastApplied + (i - r.node.lastApplied)
    omega

/-- The pending entries, with those of batch `b` in their place. -/
theorem pending_split {b : ℕ} {batch : Batch} (hb : r.batches[b]? = some batch) :
    r.pending = (r.batches.take b).flatMap Batch.todo ++ batch.todo
      ++ (r.batches.drop (b + 1)).flatMap Batch.todo := by
  obtain ⟨hlt, rfl⟩ := List.getElem?_eq_some_iff.1 hb
  calc r.pending
      = (r.batches.take b ++ r.batches[b] :: r.batches.drop (b + 1)).flatMap Batch.todo := by
        rw [← List.drop_eq_getElem_cons hlt, List.take_append_drop, pending]
    _ = _ := by rw [List.flatMap_append, List.flatMap_cons, List.append_assoc]

theorem pending_apply {b : ℕ} (h : r.apply b = some r') : ∃ pre e post,
    pre = (r.batches.take b).flatMap Batch.todo
      ∧ r.pending = pre ++ e :: post ∧ r'.pending = pre ++ post
      ∧ r'.applied = r.applied ++ [e] ∧ r'.collected = r.collected ∧ r'.node = r.node := by
  obtain ⟨e, todo, answer, hb, rfl⟩ := apply_eq h
  obtain ⟨hlt, -⟩ := List.getElem?_eq_some_iff.1 hb
  refine ⟨_, e, todo ++ (r.batches.drop (b + 1)).flatMap Batch.todo, rfl, ?_, ?_, rfl, rfl, rfl⟩
  · rw [pending_split hb]
    simp
  · simp [pending, List.set_eq_take_append_cons_drop, hlt]

theorem pending_finish {b : ℕ} {answer : Option Answer} (h : r.finish b = some (r', answer)) :
    r'.pending = r.pending := by
  obtain ⟨hb, rfl⟩ := finish_eq h
  rw [pending_split hb]
  simp [pending, List.eraseIdx_eq_take_drop_succ]

/-- A step collects, applies one entry or returns. -/
theorem step_cases {x : ReplicaAction} (h : r.step x = some r') :
    (∃ es, Collects r r' es) ∨ ∃ b, x = .apply b ∧ r.apply b = some r' := by
  have hnode : ∀ {n : Node}, n.lastApplied = r.node.lastApplied →
      ∃ es, Collects r (r.setNode n) es := fun hn => ⟨[], collects_nothing hn rfl rfl rfl⟩
  cases x with
  | handleRequestVote req =>
    simp only [step, Option.some.injEq] at h
    subst h
    refine .inl (hnode ?_)
    rcases Node.handleRequestVote_cases (n := r.node) req with
      ⟨-, hr⟩ | ⟨-, hr⟩ | ⟨-, -, -, hr⟩ <;> simp [hr]
  | handleAppendEntries c req => exact .inl (collects_handleAppendEntries h)
  | observeTerm t =>
    simp only [step, Option.some.injEq] at h
    subst h
    exact .inl (hnode Node.adopt_lastApplied)
  | startCandidacy =>
    simp only [step, Option.some.injEq] at h
    subst h
    exact .inl (hnode rfl)
  | becomeLeader =>
    obtain ⟨n, hn, rfl⟩ := Option.map_eq_some_iff.1 h
    obtain ⟨-, rfl⟩ := Node.becomeLeader_eq hn
    exact .inl (hnode rfl)
  | appendCommand command =>
    simp only [step] at h
    split_ifs at h
    simp only [Option.some.injEq] at h
    subst h
    exact .inl (hnode rfl)
  | commitProposal i => exact .inl (collects_commitProposal h)
  | apply b => exact .inr ⟨b, rfl, h⟩
  | finish b =>
    obtain ⟨⟨r'', answer⟩, hr, rfl⟩ := Option.map_eq_some_iff.1 h
    have hpend := pending_finish hr
    obtain ⟨-, rfl⟩ := finish_eq hr
    exact .inl ⟨[], ⟨0, rfl, rfl⟩, by rw [hpend, List.append_nil], by simp, rfl⟩

end Step

/-! ## Runs -/

/-- What is collected, in any order of the steps. -/
structure Sound (r : Replica) : Prop where
  indices : r.collected.map Prod.fst = List.range r.node.lastApplied
  pending : ∀ x ∈ r.pending, x ∈ r.collected
  applied : ∀ x ∈ r.applied, x ∈ r.collected

theorem sound_start {cfg : Config} {n : Node} (h : newNode cfg = .ok n) :
    (Replica.start n).Sound := by
  have hn : n.lastApplied = 0 := by
    unfold newNode at h
    split_ifs at h
    simp only [Except.ok.injEq] at h
    rw [← h]
  refine ⟨?_, ?_, ?_⟩
  · simp [Replica.start, hn]
  · simp [Replica.start, Replica.pending]
  · simp [Replica.start]

theorem Sound.step {r r' : Replica} {x : ReplicaAction} (h : r.Sound)
    (hs : r.step x = some r') : r'.Sound := by
  rcases step_cases hs with ⟨es, ⟨k, hk, hla⟩, hpend, hcoll, happ⟩ | ⟨b, rfl, hb⟩
  · refine ⟨?_, fun x hx => ?_, fun x hx => ?_⟩
    · rw [hcoll, hla, List.map_append, h.indices, hk, List.range_eq_range', List.range_eq_range',
        ← List.range'_append_1]
      simp
    · rw [hpend] at hx
      rw [hcoll]
      exact (List.mem_append.1 hx).elim (fun hx => List.mem_append_left _ (h.pending x hx))
        fun hx => List.mem_append_right _ hx
    · rw [happ] at hx
      rw [hcoll]
      exact List.mem_append_left _ (h.applied x hx)
  · obtain ⟨pre, e, post, -, hpend, hpend', happ, hcoll, hnode⟩ := pending_apply hb
    refine ⟨by rw [hcoll, hnode]; exact h.indices, fun x hx => ?_, fun x hx => ?_⟩
    · rw [hcoll]
      refine h.pending x ?_
      rw [hpend'] at hx
      rw [hpend]
      simp only [List.mem_append, List.mem_cons] at hx ⊢
      exact hx.imp_right .inr
    · rw [happ] at hx
      rw [hcoll]
      rcases List.mem_append.1 hx with hx | hx
      · exact h.applied x hx
      · refine h.pending x ?_
        rw [hpend, List.mem_singleton.1 hx]
        simp

theorem InOrder.step {r r' : Replica} {x : ReplicaAction} (hok : r.InOrder x)
    (h : r.applied ++ r.pending = r.collected) (hs : r.step x = some r') :
    r'.applied ++ r'.pending = r'.collected := by
  rcases step_cases hs with ⟨es, -, hpend, hcoll, happ⟩ | ⟨b, rfl, hb⟩
  · rw [happ, hpend, hcoll, ← h, List.append_assoc]
  · obtain ⟨pre, e, post, hpre, hpend, hpend', happ, hcoll, -⟩ := pending_apply hb
    -- nothing is pending before the batch
    have hnil : pre = [] := by
      rw [hpre, List.flatMap_eq_nil_iff]
      exact hok
    rw [happ, hpend', hcoll, ← h, hpend, hnil]
    simp

end Replica

variable {cfg cfg' : Config} {n n' : Node} {r r' : Replica} {xs xs' : List ReplicaAction}

theorem run_sound {ok : Replica → ReplicaAction → Prop} (hn : newNode cfg = .ok n)
    (h : Runs.Run Replica.step ok (.start n) xs r) : r.Sound :=
  h.invariant (Replica.sound_start hn) fun _ _ _ hI _ hs => hI.step hs

/-- In a run where nothing overtakes, what is applied and what is pending is what was collected,
in this order. -/
theorem run_inOrder (h : Runs.Run Replica.step Replica.InOrder (.start n) xs r) :
    r.applied ++ r.pending = r.collected :=
  h.invariant (I := fun r => r.applied ++ r.pending = r.collected) rfl
    fun _ _ _ hI hok hs => hok.step hI hs

/-- `ApplyFunc` of the coordinator, called with the entries one after the other. -/
def applyAll (decode : String → Option Reading) (store : ReadingStore)
    (es : List (ℕ × LogEntry)) : ReadingStore :=
  es.foldl (fun store e => store.applyReadingCommand decode e.2.command) store

theorem applyAll_eq (decode : String → Option Reading) (store : ReadingStore)
    (es : List (ℕ × LogEntry)) :
    applyAll decode store es
      = (es.map Prod.snd).foldl (fun s e => s.applyReadingCommand decode e.command) store := by
  rw [applyAll, List.foldl_map]

/-- Where nothing overtakes, `ApplyFunc` sees the log in order, each index once, and replicas that
committed the same log end with the same readings. -/
theorem in_order_application (hn : newNode cfg = .ok n)
    (h : Runs.Run Replica.step Replica.InOrder (.start n) xs r) :
    (r.applied.map Prod.fst).Pairwise (· < ·)
    ∧ ∀ (cfg' : Config) (n' : Node) (xs' : List ReplicaAction) (r' : Replica),
      newNode cfg' = .ok n' → Runs.Run Replica.step Replica.InOrder (.start n') xs' r' →
      r.committed = r'.committed → r.pending = [] → r'.pending = [] →
      ∀ (decode : String → Option Reading) (store : ReadingStore),
        applyAll decode store r.applied = applyAll decode store r'.applied := by
  have hr := run_inOrder h
  constructor
  · have hlt : (r.collected.map Prod.fst).Pairwise (· < ·) := by
      rw [(run_sound hn h).indices]
      exact List.pairwise_lt_range
    rw [← hr, List.map_append] at hlt
    exact (List.pairwise_append.1 hlt).1
  · intro cfg' n' xs' r' _ h' hc hi hi' decode store
    have hr' := run_inOrder h'
    rw [hi, List.append_nil] at hr
    rw [hi', List.append_nil] at hr'
    rw [applyAll_eq, applyAll_eq, hr, hr']
    exact congrArg _ hc

/-! ## A follower that is sent two entries -/

/-- Requests of the leader `a`: an entry, a second with the first committed, and a heartbeat with
both. -/
def twoCommits : List ReplicaAction :=
  [.handleAppendEntries 0 ⟨1, "a", 0, 0, [⟨1, "x"⟩], 0⟩,
    .handleAppendEntries 1 ⟨1, "a", 1, 1, [⟨1, "y"⟩], 1⟩,
    .handleAppendEntries 2 ⟨1, "a", 2, 1, [], 2⟩]

def follower : Config := ⟨"b", ["a", "c"], true, 150, 300, 50⟩

def followerNode : Node :=
  { id := "b", peers := ["a", "c"], currentTerm := 0, votedFor := "", leaderID := ""
    state := .follower, log := [], commitIndex := 0, lastApplied := 0 }

/-- The commands as readings of one sensor. -/
def oneSensor (command : String) : Option Reading :=
  some ⟨"s", if command = "x" then 1 else 2, ⟨0, 0⟩, 0⟩

theorem in_order_application_follower : ∃ r, newNode follower = .ok followerNode
    ∧ Runs.Run Replica.step Replica.InOrder (.start followerNode)
      (twoCommits ++ [.apply 1, .apply 2]) r
    ∧ r.applied.length = 2 ∧ (r.applied.map Prod.fst).Pairwise (· < ·) := by
  obtain ⟨r, hr, hp⟩ : ∃ r, Runs.Run Replica.step Replica.InOrder (.start followerNode) _ r ∧ _ :=
    Runs.exists_run (twoCommits ++ [.apply 1, .apply 2]) (fun r => r.applied.length = 2)
      (by decide +kernel)
  simp only [decide_eq_true_eq] at hp
  have hn : newNode follower = .ok followerNode := rfl
  exact ⟨r, hn, hr, hp, (in_order_application hn hr).1⟩

/-- The heartbeat's handler applies before that of the second entry: the indices come in the wrong
order, and the readings differ from those of a replica that applied the same log in order. -/
theorem overtaking_reorders : ∃ r r', newNode follower = .ok followerNode
    ∧ Runs.Run Replica.step (fun _ _ => True) (.start followerNode)
      (twoCommits ++ [.apply 2, .apply 1]) r
    ∧ Runs.Run Replica.step (fun _ _ => True) (.start followerNode)
      (twoCommits ++ [.apply 1, .apply 2]) r'
    ∧ ¬ (r.applied.map Prod.fst).Pairwise (· < ·)
    ∧ r.committed = r'.committed ∧ r.pending = [] ∧ r'.pending = []
    ∧ applyAll oneSensor ⟨∅, false, 1⟩ r.applied ≠ applyAll oneSensor ⟨∅, false, 1⟩ r'.applied := by
  obtain ⟨r, hr, hp⟩ :
      ∃ r, Runs.Run Replica.step (fun _ _ => True) (.start followerNode) _ r ∧ _ :=
    Runs.exists_run (twoCommits ++ [.apply 2, .apply 1])
      (fun r => r.applied = [(1, ⟨1, "y"⟩), (0, ⟨1, "x"⟩)]
        ∧ r.committed = [⟨1, "x"⟩, ⟨1, "y"⟩] ∧ r.pending = []) (by decide +kernel)
  obtain ⟨r', hr', hp'⟩ :
      ∃ r, Runs.Run Replica.step (fun _ _ => True) (.start followerNode) _ r ∧ _ :=
    Runs.exists_run (twoCommits ++ [.apply 1, .apply 2])
      (fun r => r.applied = [(0, ⟨1, "x"⟩), (1, ⟨1, "y"⟩)]
        ∧ r.committed = [⟨1, "x"⟩, ⟨1, "y"⟩] ∧ r.pending = []) (by decide +kernel)
  simp only [decide_eq_true_eq] at hp hp'
  refine ⟨r, r', rfl, hr, hr', ?_, hp.2.1.trans hp'.2.1.symm, hp.2.2, hp'.2.2, fun heq => ?_⟩
  · rw [hp.1]
    decide
  · rw [hp.1, hp'.1] at heq
    have := congrArg (fun s => s.readings.lookup "s") heq
    revert this
    decide +kernel

end EdgeSim.Raft
