import EdgeSim.Lib.TermLogSafety
import EdgeSim.Raft.Cluster

/-!
# The nodes follow a group of replicas

Forgetting the messages, the nodes of a cluster are a group of replicas: each critical section is
a few steps of the group, or none. `Tracks` ties one node to the group, `Follows` all of them, and
there is one lemma for each thing a critical section does.
-/

namespace EdgeSim.Raft

open TermLog TermLog.Group

/-- Majorities of the nodes. -/
def Cluster.quorums (C : Cluster) : QuorumSystem String := .majority C.ids.toFinset

abbrev GroupInv (C : Cluster) (A : Group String LogEntry) : Prop :=
  Inv LogEntry.term C.quorums A

/-- Finitely many steps of the group. -/
abbrev Steps (C : Cluster) : Group String LogEntry → Group String LogEntry → Prop :=
  Relation.ReflTransGen (Step LogEntry.term C.quorums)

theorem Cluster.id_ne_empty (C : Cluster) {id : String} (h : id ∈ C.ids) : id ≠ "" := by
  intro hid
  have hc := C.created id h
  rw [newNode, if_pos (by rw [C.config_id id h, hid])] at hc
  cases hc

theorem Cluster.node_eq (C : Cluster) {id : String} (h : id ∈ C.ids) :
    C.node id =
      { id := id, peers := (C.config id).peers, currentTerm := 0, votedFor := "", leaderID := ""
        state := .follower, log := [], commitIndex := 0, lastApplied := 0 } := by
  have hc := C.created id h
  unfold newNode at hc
  split_ifs at hc
  simp only [Except.ok.injEq] at hc
  rw [← hc, C.config_id id h]

@[simp] theorem Node.lastTerm_eq (l : List LogEntry) :
    Node.lastTerm l = TermLog.lastTerm LogEntry.term l := by
  unfold Node.lastTerm TermLog.lastTerm
  cases l.getLast? <;> rfl

structure Tracks (C : Cluster) (A : Group String LogEntry) (id : String) (n : Node) : Prop where
  id_eq : n.id = id
  peers_eq : n.peers = (C.config id).peers
  term_eq : A.term id = n.currentTerm
  log_eq : A.log id = n.log
  unvoted : n.votedFor = "" → A.vote id n.currentTerm = none
  voted : n.votedFor ≠ "" → ∃ l, A.vote id n.currentTerm = some (n.votedFor, l)
  candidate : n.state = .candidate → n.votedFor = id
    ∧ ∀ v l, A.vote v n.currentTerm = some (id, l) → UpToDate LogEntry.term l n.log
  leader : n.state = .leader ↔ ∃ l, A.led id n.currentTerm = some l
  leaderID_led : n.leaderID ≠ "" → ∃ l, A.led n.leaderID n.currentTerm = some l
  leaderID_self : n.state = .leader ↔ n.leaderID = id

structure Follows (C : Cluster) (nd : String → Node) (A : Group String LogEntry) : Prop where
  tracks : ∀ id ∈ C.ids, Tracks C A id (nd id)
  vote_mem : ∀ {v t c l}, A.vote v t = some (c, l) → c ∈ C.ids ∧ t ≤ A.term c
  led_mem : ∀ {n t l}, A.led n t = some l → n ∈ C.ids

section Frame

variable {C : Cluster} {A B : Group String LogEntry} {id : String} {n : Node}

/-- A node that takes no part in a step still tracks the group. -/
theorem Tracks.frame (h : Tracks C A id n) (hx : Ext A B) (hterm : B.term id = A.term id)
    (hlog : B.log id = A.log id) (hvote : ∀ t, B.vote id t = A.vote id t)
    (hled : ∀ t, B.led id t = A.led id t)
    (hnew : n.state = .candidate → ∀ v l, B.vote v n.currentTerm = some (id, l) →
      A.vote v n.currentTerm = some (id, l) ∨ UpToDate LogEntry.term l n.log) :
    Tracks C B id n where
  id_eq := h.id_eq
  peers_eq := h.peers_eq
  term_eq := hterm.trans h.term_eq
  log_eq := hlog.trans h.log_eq
  unvoted hv := by rw [hvote]; exact h.unvoted hv
  voted hv := by rw [hvote]; exact h.voted hv
  candidate hc := by
    refine ⟨(h.candidate hc).1, fun v l hv => ?_⟩
    rcases hnew hc v l hv with hv | hl
    · exact (h.candidate hc).2 v l hv
    · exact hl
  leader := by rw [hled]; exact h.leader
  leaderID_led hl := by
    obtain ⟨l, hl⟩ := h.leaderID_led hl
    exact ⟨l, hx.led hl⟩
  leaderID_self := h.leaderID_self

/-- The group knows nothing of `commitIndex` and `lastApplied`. -/
theorem Tracks.commit (h : Tracks C A id n) (c a : ℕ) :
    Tracks C A id { n with commitIndex := c, lastApplied := a } :=
  ⟨h.id_eq, h.peers_eq, h.term_eq, h.log_eq, h.unvoted, h.voted, h.candidate, h.leader,
    h.leaderID_led, h.leaderID_self⟩

variable {nd : String → Node}

/-- One node moves along with the group, the others stay. -/
theorem Follows.update (hn : Tracks C B id n)
    (ho : ∀ id' ∈ C.ids, id' ≠ id → Tracks C B id' (nd id'))
    (hvote : ∀ {v t c l}, B.vote v t = some (c, l) → c ∈ C.ids ∧ t ≤ B.term c)
    (hled : ∀ {n t l}, B.led n t = some l → n ∈ C.ids) :
    Follows C (Function.update nd id n) B where
  tracks id' hid' := by
    by_cases hne : id' = id
    · subst hne
      rw [Function.update_self]
      exact hn
    · rw [Function.update_of_ne hne]
      exact ho id' hid' hne
  vote_mem := hvote
  led_mem := hled

/-- A node moves and the group stays. -/
theorem Follows.set (h : Follows C nd A) (hn : Tracks C A id n) :
    Follows C (Function.update nd id n) A :=
  .update hn (fun id' hid' _ => h.tracks id' hid') h.vote_mem h.led_mem

theorem follows_init (C : Cluster) : Follows C C.node start where
  tracks id hid := by
    rw [C.node_eq hid]
    exact
      { id_eq := rfl
        peers_eq := rfl
        term_eq := rfl
        log_eq := rfl
        unvoted := fun _ => rfl
        voted := fun h => absurd rfl h
        candidate := fun h => by cases h
        leader := ⟨fun h => (by cases h), fun ⟨l, hl⟩ => by simp [start] at hl⟩
        leaderID_led := fun h => absurd rfl h
        leaderID_self := ⟨fun h => (by cases h), fun h => absurd h.symm (C.id_ne_empty hid)⟩ }
  vote_mem h := by simp [start] at h
  led_mem h := by simp [start] at h

end Frame

section Steps

variable {C : Cluster} {A : Group String LogEntry} {nd : String → Node} {id : String}

/-- `stepDownLocked` to a higher term, naming no leader or one of that term. -/
theorem Follows.stepDown (hA : GroupInv C A) (h : Follows C nd A) (hid : id ∈ C.ids) {t : ℕ}
    {lid : String} (ht : (nd id).currentTerm < t)
    (hl : lid = "" ∨ lid ≠ id ∧ ∃ l, A.led lid t = some l) :
    Steps C A (A.raise id t)
      ∧ Follows C (Function.update nd id ((nd id).stepDownLocked t lid)) (A.raise id t) := by
  have hn := h.tracks id hid
  have htA : A.term id < t := by rw [hn.term_eq]; exact ht
  have hx := ext_raise htA
  have hterm : ((nd id).stepDownLocked t lid).currentTerm = t := by
    simp [Node.stepDownLocked, ht]
  -- the term is new to the node: it has neither voted nor led in it
  have hvote : A.vote id t = none := hA.vote_eq_none htA
  have hled : ¬ ∃ l, A.led id t = some l := hA.not_led htA
  have hself : lid ≠ id := by
    rcases hl with rfl | hl
    · exact (C.id_ne_empty hid).symm
    · exact hl.1
  refine ⟨.single (.raise htA), Follows.update ?_ ?_ ?_ h.led_mem⟩
  · exact
      { id_eq := hn.id_eq
        peers_eq := hn.peers_eq
        term_eq := by rw [hterm]; simp [raise]
        log_eq := hn.log_eq
        unvoted := fun _ => by rw [hterm]; exact hvote
        voted := fun hv => absurd rfl hv
        candidate := fun hc => by simp [Node.stepDownLocked] at hc
        leader := ⟨fun hc => by simp [Node.stepDownLocked] at hc,
          fun hc => absurd (by rw [hterm] at hc; exact hc) hled⟩
        leaderID_led := fun hc => by
          rcases hl with rfl | hl
          · exact absurd rfl hc
          · rw [hterm]
            exact hl.2
        leaderID_self := ⟨fun hc => by simp [Node.stepDownLocked] at hc,
          fun hc => absurd hc hself⟩ }
  · intro id' hid' hne
    exact (h.tracks id' hid').frame hx (by simp [raise, Function.update_of_ne hne]) rfl
      (fun _ => rfl) (fun _ => rfl) fun _ v l hv => .inl hv
  · intro v t' c l hv
    obtain ⟨hc, hle⟩ := h.vote_mem hv
    exact ⟨hc, hle.trans (hx.term c)⟩

/-- A node that has not voted in its term votes for `c`, whose log is at least as up to date. -/
theorem Follows.grant (h : Follows C nd A) (hid : id ∈ C.ids) {c : String} (hc : c ∈ C.ids)
    (hv : (nd id).votedFor = "") (hle : (nd id).currentTerm ≤ (nd c).currentTerm)
    (hup : (nd c).state = .candidate → (nd c).currentTerm = (nd id).currentTerm →
      UpToDate LogEntry.term (nd id).log (nd c).log) :
    Steps C A (A.castVote id c)
      ∧ Follows C (Function.update nd id { nd id with votedFor := c }) (A.castVote id c)
      ∧ (A.castVote id c).vote id (nd id).currentTerm = some (c, A.log id) := by
  have hn := h.tracks id hid
  have hvA : A.vote id (A.term id) = none := by rw [hn.term_eq]; exact hn.unvoted hv
  have hx := ext_castVote (c := c) hvA
  have hself : (A.castVote id c).vote id (nd id).currentTerm = some (c, A.log id) := by
    simp [castVote, update₂, hn.term_eq]
  have hnew : ∀ {id'}, id' ∈ C.ids → (nd id').state = .candidate → ∀ v l,
      (A.castVote id c).vote v (nd id').currentTerm = some (id', l) →
      A.vote v (nd id').currentTerm = some (id', l) ∨ UpToDate LogEntry.term l (nd id').log := by
    intro id' hid' hcand v l hvl
    rcases vote_castVote hvl with hvl | ⟨rfl, ht, hcl⟩
    · exact .inl hvl
    · simp only [Prod.mk.injEq] at hcl
      obtain ⟨rfl, rfl⟩ := hcl
      rw [hn.log_eq]
      rw [hn.term_eq] at ht
      exact .inr (hup hcand ht)
  refine ⟨.single (.castVote c hvA), Follows.update ?_ ?_ ?_ h.led_mem, hself⟩
  · exact
      { id_eq := hn.id_eq
        peers_eq := hn.peers_eq
        term_eq := hn.term_eq
        log_eq := hn.log_eq
        unvoted := fun hv' => absurd hv' (C.id_ne_empty hc)
        voted := fun _ => ⟨_, hself⟩
        -- a candidate has voted for itself already
        candidate := fun hcand => by
          have := (hn.candidate hcand).1
          rw [hv] at this
          exact absurd this.symm (C.id_ne_empty hid)
        leader := hn.leader
        leaderID_led := hn.leaderID_led
        leaderID_self := hn.leaderID_self }
  · intro id' hid' hne
    exact (h.tracks id' hid').frame hx rfl rfl (fun _ => update₂_of_ne hne) (fun _ => rfl)
      (hnew hid')
  · intro v t c' l hvl
    rcases vote_castVote hvl with hvl | ⟨rfl, rfl, hcl⟩
    · exact h.vote_mem hvl
    · simp only [Prod.mk.injEq] at hcl
      obtain ⟨rfl, -⟩ := hcl
      refine ⟨hc, ?_⟩
      change A.term v ≤ A.term c'
      rw [hn.term_eq, (h.tracks c' hc).term_eq]
      exact hle

theorem Follows.startCandidacy (hA : GroupInv C A) (h : Follows C nd A) (hid : id ∈ C.ids) :
    ∃ B, Steps C A B ∧ Follows C (Function.update nd id (nd id).startCandidacy) B
      ∧ B.led = A.led := by
  have hn := h.tracks id hid
  have htA : A.term id < (nd id).currentTerm + 1 := by rw [hn.term_eq]; omega
  set A₁ := A.raise id ((nd id).currentTerm + 1) with hA₁
  have hterm : A₁.term id = (nd id).currentTerm + 1 := by simp [hA₁, raise]
  have hvote : A₁.vote id (A₁.term id) = none := by
    rw [hterm]
    exact hA.vote_eq_none htA
  have hled : ¬ ∃ l, A.led id ((nd id).currentTerm + 1) = some l := hA.not_led htA
  have hself : (A₁.castVote id id).vote id ((nd id).currentTerm + 1) = some (id, A₁.log id) := by
    simp [castVote, update₂, hterm]
  have hx := (ext_raise htA).trans (ext_castVote (c := id) hvote)
  refine ⟨A₁.castVote id id, .tail (.single (.raise htA)) (.castVote id hvote),
    Follows.update ?_ ?_ ?_ h.led_mem, rfl⟩
  · exact
      { id_eq := hn.id_eq
        peers_eq := hn.peers_eq
        term_eq := hterm
        log_eq := hn.log_eq
        unvoted := fun hv => absurd (hn.id_eq.symm.trans hv) (C.id_ne_empty hid)
        voted := fun _ => ⟨A₁.log id, by
          change _ = some ((nd id).id, _)
          rw [hn.id_eq]
          exact hself⟩
        candidate := fun _ => by
          refine ⟨hn.id_eq, fun v l hv => ?_⟩
          rcases vote_castVote hv with hv | ⟨-, -, hl⟩
          · -- nobody has voted for it in a term it had not reached
            have := (h.vote_mem (v := v) hv).2
            change (nd id).currentTerm + 1 ≤ _ at this
            rw [hn.term_eq] at this
            omega
          · simp only [Prod.mk.injEq] at hl
            rw [hl.2]
            change UpToDate _ (A.log id) (nd id).log
            rw [hn.log_eq]
            exact UpToDate.refl _ _
        leader := ⟨fun hc => by simp [Node.startCandidacy] at hc, fun hc => absurd hc hled⟩
        leaderID_led := fun hc => absurd rfl hc
        leaderID_self := ⟨fun hc => by simp [Node.startCandidacy] at hc,
          fun hc => absurd hc (C.id_ne_empty hid).symm⟩ }
  · intro id' hid' hne
    refine (h.tracks id' hid').frame hx ?_ rfl (fun _ => update₂_of_ne hne) (fun _ => rfl) ?_
    · simp [castVote, hA₁, raise, Function.update_of_ne hne]
    · intro _ v l hv
      rcases vote_castVote hv with hv | ⟨-, -, hl⟩
      · exact .inl hv
      · simp only [Prod.mk.injEq] at hl
        exact absurd hl.1 hne
  · intro v t c l hv
    rcases vote_castVote hv with hv | ⟨rfl, rfl, hl⟩
    · obtain ⟨hc, hle⟩ := h.vote_mem hv
      exact ⟨hc, hle.trans ((ext_raise htA).term c)⟩
    · simp only [Prod.mk.injEq] at hl
      rw [hl.1]
      exact ⟨hid, le_rfl⟩

/-- A candidate that a majority voted for becomes leader. -/
theorem Follows.becomeLeader (h : Follows C nd A) (hid : id ∈ C.ids)
    (hc : (nd id).state = .candidate) {S : Set String} (hS : C.quorums.IsQuorum S)
    (hv : ∀ v ∈ S, ∃ l, A.vote v (nd id).currentTerm = some (id, l)) :
    Steps C A (A.elect id)
      ∧ Follows C (Function.update nd id { nd id with state := .leader, leaderID := (nd id).id })
        (A.elect id)
      ∧ (A.elect id).led id (nd id).currentTerm = some (nd id).log := by
  have hn := h.tracks id hid
  have hled : A.led id (A.term id) = none := by
    rw [hn.term_eq]
    rcases hl : A.led id (nd id).currentTerm with _ | l
    · rfl
    · have := hn.leader.2 ⟨l, hl⟩
      rw [hc] at this
      cases this
  have hx := ext_elect hled
  have hself : (A.elect id).led id (nd id).currentTerm = some (nd id).log := by
    simp [elect, update₂, hn.term_eq, hn.log_eq]
  refine ⟨.single (.elect hS (fun v hvS => ?_) hled), Follows.update ?_ ?_ h.vote_mem ?_, hself⟩
  · obtain ⟨l, hl⟩ := hv v hvS
    rw [hn.term_eq, hn.log_eq]
    exact ⟨l, hl, (hn.candidate hc).2 v l hl⟩
  · exact
      { id_eq := hn.id_eq
        peers_eq := hn.peers_eq
        term_eq := hn.term_eq
        log_eq := hn.log_eq
        unvoted := hn.unvoted
        voted := hn.voted
        candidate := fun hc => by cases hc
        leader := ⟨fun _ => ⟨_, hself⟩, fun _ => rfl⟩
        leaderID_led := fun _ => ⟨(nd id).log, by
          change (A.elect id).led (nd id).id _ = _
          rw [hn.id_eq]
          exact hself⟩
        leaderID_self := ⟨fun _ => hn.id_eq, fun _ => rfl⟩ }
  · intro id' hid' hne
    exact (h.tracks id' hid').frame hx rfl rfl (fun _ => rfl) (fun _ => update₂_of_ne hne)
      fun _ v l hv => .inl hv
  · intro m t l hm
    rcases led_elect hm with hm | ⟨rfl, -, -⟩
    · exact h.led_mem hm
    · exact hid

theorem Follows.appendCommand (hA : GroupInv C A) (h : Follows C nd A) (hid : id ∈ C.ids)
    (hl : (nd id).state = .leader) (command : String) :
    Steps C A (A.append id ⟨(nd id).currentTerm, command⟩)
      ∧ Follows C (Function.update nd id ((nd id).appendCommand command))
        (A.append id ⟨(nd id).currentTerm, command⟩) := by
  have hn := h.tracks id hid
  obtain ⟨l, hled⟩ := hn.leader.1 hl
  have hledA : A.led id (A.term id) = some l := by rw [hn.term_eq]; exact hled
  have hx := ext_append (e := ⟨(nd id).currentTerm, command⟩) hA hledA
  refine ⟨.single (.append hledA hn.term_eq.symm), Follows.update ?_ ?_ h.vote_mem h.led_mem⟩
  · exact
      { id_eq := hn.id_eq
        peers_eq := hn.peers_eq
        term_eq := hn.term_eq
        log_eq := by rw [log_append_self, hn.log_eq]; rfl
        unvoted := hn.unvoted
        voted := hn.voted
        candidate := fun hc => by
          change (nd id).state = _ at hc
          rw [hl] at hc
          cases hc
        leader := hn.leader
        leaderID_led := hn.leaderID_led
        leaderID_self := hn.leaderID_self }
  · intro id' hid' hne
    exact (h.tracks id' hid').frame hx rfl (log_append_of_ne hne) (fun _ => rfl) (fun _ => rfl)
      fun _ v l hv => .inl hv

end Steps

end EdgeSim.Raft
