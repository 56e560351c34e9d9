import EdgeSim.Lib.Ball
import EdgeSim.SensorNode.Flood

/-!
# How far a message reaches

With fixed peers and a fanout for all of them, a message goes along the edges of the peer graph. A
node passes on the first copy that it takes and no other, so it passes it on as far as that copy's
time to live allows: if a longer way was faster, nodes within reach are left out. What a node has
taken, with which time to live, and what it owes to its peers for it, is the invariant `Reach`.
-/

namespace EdgeSim.SensorNode

open Coordinator (Reading ReadingStore)
open Hops Runs

variable {ι : Type} [DecidableEq ι]

namespace System

/-- The addresses that a node gossips to. -/
def targets (D : Deployment ι) (s : System ι) (i : ι) : List Text :=
  gossipTargets (s.nodes i) (D.cfg i).coordinatorAddr

/-- The node stored the reading of the message. -/
def Stores (m : Text) (s : System ι) (i : ι) : Prop := ∃ e ∈ s.stored, e.node = i ∧ e.msg.id = m

/-- The node stored the reading of the message, or is about to. -/
def Holds (m : Text) (s : System ι) (i : ι) : Prop :=
  s.Stores m i ∨ ∃ task ∈ s.tasks, task.stores m i = true

end System

/-- The edges of the peer graph, for the addresses every node gossips to. -/
def Linked (D : Deployment ι) (T : ι → List Text) (i j : ι) : Prop :=
  ∃ addr ∈ T i, D.resolve addr = some (.node j)

/-- The task has the message to send to the address. -/
def Task.Pending (msg : Msg) (i : ι) (addr : Text) (task : Task ι) : Prop :=
  task.node = i ∧ task.msg = msg
    ∧ (task.stage = .select ∨ ∃ addrs, task.stage = .send addrs ∧ addr ∈ addrs)

/-- The message was sent to the address, or is to be. -/
def System.Owes (s : System ι) (msg : Msg) (i : ι) (addr : Text) : Prop :=
  (∃ frame ∈ s.frames, frame.addr = addr ∧ frame.text = msg.format)
    ∨ ∃ task ∈ s.tasks, task.Pending msg i addr

section

variable (D : Deployment ι) (m payload : Text) (t : ℤ) (o : ι) (T : ι → List Text)

def Frame.Reached (frame : Frame ι) : Prop :=
  Walk (Linked D T) o frame.path frame.sender ∧ frame.addr ∈ T frame.sender

def Task.Reached (task : Task ι) : Prop :=
  Walk (Linked D T) o task.path task.node
    ∧ ∀ addrs, task.stage = .send addrs → addrs ⊆ T task.node

def Stored.Reached (e : Stored ι) : Prop :=
  Walk (Linked D T) o e.path e.node ∧ 0 ≤ e.msg.ttl ∧ e.msg.ttl + e.path.length = t + 2

/-- What the node owes to its peers for what it stored. -/
def Stored.Owed (s : System ι) (e : Stored ι) : Prop :=
  e.msg.ttl ≠ 0 → ∀ addr ∈ T e.node, s.Owes ⟨m, e.msg.ttl - 1, payload⟩ e.node addr

structure Reach (s : System ι) : Prop where
  targets : ∀ i, s.targets D i = T i
  frames : ∀ frame ∈ s.frames, frame.id = some m → frame.Reached D o T
  tasks : ∀ task ∈ s.tasks, task.msg.id = m → task.Reached D o T
  stored : ∀ e ∈ s.stored, e.msg.id = m → e.Reached D t o T ∧ e.Owed m payload T s
  seen : ∀ i, m ∈ s.seen i → i = o ∨ s.Holds m i
  bound : ∀ n ∈ s.delivered, n < s.frames.length
  delivered : ∀ n ∈ s.delivered, ∀ frame, s.frames[n]? = some frame → frame.id = some m →
    ∀ i, D.resolve frame.addr = some (.node i) → m ∈ s.seen i
  origin : m ∈ s.seen o → ∀ addr ∈ T o, s.Owes ⟨m, t, payload⟩ o addr

/-- What a step may add. -/
structure Spreads (s s' : System ι) : Prop where
  targets : ∀ i, s'.targets D i = s.targets D i
  frames : ∃ new, s'.frames = s.frames ++ new
    ∧ ∀ frame ∈ new, frame.id = some m → frame.Reached D o T
  tasks : ∀ task ∈ s'.tasks, task ∈ s.tasks ∨ (task.msg.id = m → task.Reached D o T)
  stored : ∀ e ∈ s'.stored, e ∈ s.stored
    ∨ (e.msg.id = m → e.Reached D t o T ∧ e.Owed m payload T s')
  holds : ∀ i, s.Holds m i → s'.Holds m i
  seen : ∀ i, m ∈ s'.seen i → m ∈ s.seen i ∨ (i ≠ o ∧ s'.Holds m i)
    ∨ (i = o ∧ ∀ addr ∈ T o, s'.Owes ⟨m, t, payload⟩ o addr)
  mono : ∀ i, m ∈ s.seen i → m ∈ s'.seen i
  delivered : ∀ n ∈ s'.delivered, n ∈ s.delivered ∨ ∃ frame, s.frames[n]? = some frame
    ∧ (frame.id = some m → ∀ i, D.resolve frame.addr = some (.node i) → m ∈ s'.seen i)
  owes : ∀ msg i, ∀ addr ∈ T i, s.Owes msg i addr → s'.Owes msg i addr

end

section Steps

variable {D : Deployment ι} {m payload : Text} {reading : Reading} {f : ℕ} {t : ℤ} {o : ι}
  {T : ι → List Text} {s s' : System ι} {k n : ℕ}

theorem reach_initial (h : s.Initial m) :
    Reach D m payload t o (s.targets D) s where
  targets _ := rfl
  frames := by simp [h.frames]
  tasks := by simp [h.tasks]
  stored := by simp [h.stored]
  seen i hi := absurd hi (h.unseen i)
  bound := by simp [h.delivered]
  delivered := by simp [h.delivered]
  origin ho := absurd ho (h.unseen o)

theorem Reach.spread (h : Reach D m payload t o T s) (hs : Spreads D m payload t o T s s') :
    Reach D m payload t o T s' := by
  obtain ⟨new, hframes, hnew⟩ := hs.frames
  refine ⟨fun i => (hs.targets i).trans (h.targets i), ?_, ?_, ?_, ?_, ?_, ?_, ?_⟩
  · intro frame hframe hid
    rw [hframes] at hframe
    rcases List.mem_append.1 hframe with hframe | hframe
    · exact h.frames frame hframe hid
    · exact hnew frame hframe hid
  · intro task htask hid
    exact (hs.tasks task htask).elim (fun htask => h.tasks task htask hid) fun hok => hok hid
  · intro e he hid
    rcases hs.stored e he with he | hok
    · obtain ⟨hreached, howed⟩ := h.stored e he hid
      exact ⟨hreached, fun h0 addr haddr => hs.owes _ _ addr haddr (howed h0 addr haddr)⟩
    · exact hok hid
  · intro i hi
    rcases hs.seen i hi with hi | ⟨-, hi⟩ | ⟨hi, -⟩
    · exact (h.seen i hi).imp_right (hs.holds i)
    · exact .inr hi
    · exact .inl hi
  · intro n hn
    rw [hframes, List.length_append]
    rcases hs.delivered n hn with hn | ⟨frame, hframe, -⟩
    · exact (h.bound n hn).trans_le (Nat.le_add_right _ _)
    · exact (List.getElem?_eq_some_iff.1 hframe).1.trans_le (Nat.le_add_right _ _)
  · intro n hn frame hframe hid i hi
    rcases hs.delivered n hn with hn | ⟨frame', hframe', hmark⟩
    · rw [hframes, List.getElem?_append_left (h.bound n hn)] at hframe
      exact hs.mono i (h.delivered n hn frame hframe hid i hi)
    · have hlt := (List.getElem?_eq_some_iff.1 hframe').1
      rw [hframes, List.getElem?_append_left hlt, hframe'] at hframe
      obtain rfl := Option.some.inj hframe
      exact hmark hid i hi
  · intro ho addr haddr
    rcases hs.seen o ho with ho | ⟨hne, -⟩ | ⟨-, hnew⟩
    · exact hs.owes _ _ addr haddr (h.origin ho addr haddr)
    · exact absurd rfl hne
    · exact hnew addr haddr

theorem targets_setNode {i : ι} {node : NodeState} (hself : node.selfAddr = (s.nodes i).selfAddr)
    (hpeers : node.peers = (s.nodes i).peers) (j : ι) :
    (s.setNode i node).targets D j = s.targets D j := by
  unfold System.targets System.setNode
  dsimp only
  by_cases hj : j = i
  · subst hj
    rw [Function.update_self]
    exact gossipTargets_congr hself hpeers _
  · rw [Function.update_of_ne hj]

theorem spreads_setReading (i : ι) (reading' : Reading) :
    Spreads D m payload t o T s (s.setNode i ((s.nodes i).setReading reading')) := by
  have hseen := s.seen_setReading i reading'
  exact
    { targets := targets_setNode rfl rfl
      frames := ⟨[], (List.append_nil _).symm, by simp⟩
      tasks := fun _ => .inl
      stored := fun _ => .inl
      holds := fun _ => id
      seen := fun j hj => .inl (hseen j ▸ hj)
      mono := fun j hj => (hseen j).symm ▸ hj
      delivered := fun _ => .inl
      owes := fun _ _ _ _ => id }

omit [DecidableEq ι] in
theorem owes_cons {task : Task ι} {msg : Msg} {i : ι} {addr : Text} (h : s.Owes msg i addr)
    (hframes : s'.frames = s.frames) (htasks : s'.tasks = task :: s.tasks) :
    s'.Owes msg i addr := by
  rcases h with ⟨frame, hframe, h⟩ | ⟨task', htask', h⟩
  · exact .inl ⟨frame, hframes ▸ hframe, h⟩
  · exact .inr ⟨task', htasks ▸ List.mem_cons_of_mem _ htask', h⟩

theorem holds_cons {task : Task ι} {i : ι} (h : s.Holds m i) (hstored : s'.stored = s.stored)
    (htasks : s'.tasks = task :: s.tasks) : s'.Holds m i := by
  rcases h with ⟨e, he, h⟩ | ⟨task', htask', h⟩
  · exact .inl ⟨e, hstored ▸ he, h⟩
  · exact .inr ⟨task', htasks ▸ List.mem_cons_of_mem _ htask', h⟩

/-- Another message is seen. -/
theorem spreads_mark {i : ι} {m' : Text} (hm : m' ≠ m) :
    Spreads D m payload t o T s (s.mark i m') where
  targets := targets_setNode rfl rfl
  frames := ⟨[], (List.append_nil _).symm, by simp⟩
  tasks _ := .inl
  stored _ := .inl
  holds _ := id
  seen _ hj := .inl ((System.mem_seen_mark.1 hj).resolve_left fun h => hm h.2.symm)
  mono _ hj := System.mem_seen_mark.2 (.inr hj)
  delivered _ := .inl
  owes _ _ _ _ := id

/-- A message is seen, and a task for it starts. -/
theorem spreads_start {i : ι} {m' : Text} {task : Task ι}
    (htask : task.msg.id = m → task.Reached D o T)
    (hseen : m' = m → (i ≠ o ∧ task.stores m i = true)
      ∨ (i = o ∧ ∀ addr ∈ T o, task.Pending ⟨m, t, payload⟩ o addr)) :
    Spreads D m payload t o T s { s.mark i m' with tasks := task :: s.tasks } where
  targets := targets_setNode rfl rfl
  frames := ⟨[], (List.append_nil _).symm, by simp⟩
  tasks task' htask' := by
    rcases List.mem_cons.1 htask' with rfl | htask'
    · exact .inr htask
    · exact .inl htask'
  stored _ := .inl
  holds _ h := holds_cons h rfl rfl
  seen j hj := by
    rcases System.mem_seen_mark.1 hj with ⟨rfl, hm⟩ | hj
    · rcases hseen hm.symm with ⟨hne, hstores⟩ | ⟨hi, hpending⟩
      · exact .inr (.inl ⟨hne, .inr ⟨task, List.mem_cons_self, hstores⟩⟩)
      · exact .inr (.inr ⟨hi, fun addr haddr =>
          .inr ⟨task, List.mem_cons_self, hpending addr haddr⟩⟩)
    · exact .inl hj
  mono _ hj := System.mem_seen_mark.2 (.inr hj)
  delivered _ := .inl
  owes _ _ _ _ h := owes_cons h rfl rfl

/-- A task that stores nothing goes on: what it had to send is sent or still to be sent. -/
theorem spreads_replace {task : Task ι} {next : List (Task ι)} {new : List (Frame ι)}
    (htask : s.tasks[k]? = some task) (hstage : ∀ reading', task.stage ≠ .store reading')
    (hnext : ∀ task' ∈ next, task'.msg.id = m → task'.Reached D o T)
    (hnew : ∀ frame ∈ new, frame.id = some m → frame.Reached D o T)
    (hpending : ∀ msg i, ∀ addr ∈ T i, task.Pending msg i addr →
      (∃ frame ∈ new, frame.addr = addr ∧ frame.text = msg.format)
        ∨ ∃ task' ∈ next, task'.Pending msg i addr) :
    Spreads D m payload t o T s { s.replaceTask k next with frames := s.frames ++ new } where
  targets _ := rfl
  frames := ⟨new, rfl, hnew⟩
  tasks task' htask' := by
    rcases List.mem_append.1 htask' with htask' | htask'
    · exact .inr (hnext task' htask')
    · exact .inl (List.mem_of_mem_eraseIdx htask')
  stored _ := .inl
  holds i h := by
    rcases h with h | ⟨task', htask', h⟩
    · exact .inl h
    · rcases eq_or_mem_eraseIdx htask htask' with rfl | htask'
      · unfold Task.stores at h
        split at h
        · rename_i reading' heq
          exact absurd heq (hstage reading')
        · cases h
      · exact .inr ⟨task', List.mem_append_right _ htask', h⟩
  seen _ := .inl
  mono _ := id
  delivered _ := .inl
  owes msg i addr haddr h := by
    rcases h with ⟨frame, hframe, h⟩ | ⟨task', htask', h⟩
    · exact .inl ⟨frame, List.mem_append_left _ hframe, h⟩
    · rcases eq_or_mem_eraseIdx htask htask' with rfl | htask'
      · rcases hpending msg i addr haddr h with ⟨frame, hframe, h⟩ | ⟨task'', htask'', h⟩
        · exact .inl ⟨frame, List.mem_append_right _ hframe, h⟩
        · exact .inr ⟨task'', List.mem_append_left _ htask'', h⟩
      · exact .inr ⟨task', List.mem_append_right _ htask', h⟩

theorem spreads_selectTask (hT : ∀ i, s.targets D i = T i)
    (hfan : ∀ i, (T i).length ≤ (D.cfg i).gossipFanout) {task : Task ι} {indices : List ℕ}
    (htask : s.tasks[k]? = some task) (hstage : task.stage = .select)
    (hreached : task.msg.id = m → task.Reached D o T) :
    Spreads D m payload t o T s (s.selectTask D k task indices) := by
  have hall : selectGossipTargets indices (s.nodes task.node) (D.cfg task.node).coordinatorAddr
      (D.cfg task.node).gossipFanout = T task.node := by
    rw [selectGossipTargets_all, ← hT]
    · rfl
    · have := hfan task.node
      rwa [← hT] at this
  have hs : Spreads D m payload t o T s
      { s.replaceTask k [{ task with stage := .send (T task.node) }] with
        frames := s.frames ++ [] } := by
    refine spreads_replace htask (by simp [hstage]) ?_ (by simp) ?_
    · intro task' htask' hid
      obtain rfl := List.mem_singleton.1 htask'
      refine ⟨(hreached hid).1, fun addrs haddrs => ?_⟩
      cases haddrs
      exact List.Subset.refl _
    · rintro msg i addr haddr ⟨rfl, hmsg, -⟩
      exact .inr ⟨_, List.mem_singleton_self _, rfl, hmsg, .inr ⟨_, rfl, haddr⟩⟩
  rw [List.append_nil] at hs
  rw [System.selectTask, hall]
  exact hs

theorem spreads_sendTask {task : Task ι} {addrs : List Text} (htask : s.tasks[k]? = some task)
    (hstage : task.stage = .send addrs) (hwf : task.msg.WF)
    (hreached : task.msg.id = m → task.Reached D o T) :
    Spreads D m payload t o T s (s.sendTask k task addrs) := by
  cases addrs with
  | nil =>
    have hs : Spreads D m payload t o T s
        { s.replaceTask k [] with frames := s.frames ++ [] } := by
      refine spreads_replace htask (by simp [hstage]) (by simp) (by simp) ?_
      rintro msg i addr - ⟨-, -, hpending | ⟨addrs, hsend, haddr⟩⟩
      · simp [hstage] at hpending
      · rw [hstage] at hsend
        cases hsend
        cases haddr
    rw [List.append_nil] at hs
    exact hs
  | cons addr addrs =>
    refine spreads_replace htask (by simp [hstage]) ?_ ?_ ?_
    · intro task' htask' hid
      obtain rfl := List.mem_singleton.1 htask'
      refine ⟨(hreached hid).1, fun addrs' haddrs' => ?_⟩
      cases haddrs'
      exact List.subset_of_cons_subset ((hreached hid).2 _ hstage)
    · intro frame hframe hid
      obtain rfl := List.mem_singleton.1 hframe
      rw [Frame.id_eq hwf rfl] at hid
      have hreached := hreached (Option.some.inj hid)
      exact ⟨hreached.1, hreached.2 _ hstage List.mem_cons_self⟩
    · rintro msg i addr' - ⟨hnode, hmsg, hpending | ⟨addrs', hsend, haddr⟩⟩
      · simp [hstage] at hpending
      · rw [hstage] at hsend
        cases hsend
        rcases List.mem_cons.1 haddr with rfl | haddr
        · exact .inl ⟨_, List.mem_singleton_self _, rfl, by rw [hmsg]⟩
        · exact .inr ⟨_, List.mem_singleton_self _, hnode, hmsg, .inr ⟨addrs, rfl, haddr⟩⟩

theorem spreads_storeTask {task : Task ι} {reading' : Reading} (htask : s.tasks[k]? = some task)
    (hstage : task.stage = .store reading') (hgen : task.Genuine D m payload t)
    (hreached : task.msg.id = m → task.Reached D o T) :
    Spreads D m payload t o T s (s.storeTask k task reading') := by
  simp only [Task.Genuine, hstage] at hgen
  obtain ⟨hgen, h0, -⟩ := hgen
  have hseen := s.seen_setReading task.node reading'
  refine ⟨targets_setNode rfl rfl, ⟨[], (List.append_nil _).symm, by simp⟩, ?_, ?_, ?_, ?_, ?_,
    fun _ => .inl, ?_⟩
  · intro task' htask'
    rcases List.mem_append.1 htask' with htask' | htask'
    · split_ifs at htask' with hne
      · cases htask'
      · obtain rfl := List.mem_singleton.1 htask'
        exact .inr fun hid => ⟨(hreached hid).1, fun addrs haddrs => by cases haddrs⟩
    · exact .inl (List.mem_of_mem_eraseIdx htask')
  · intro e he
    rcases List.mem_cons.1 he with rfl | he
    · refine .inr fun hid => ⟨⟨(hreached hid).1, h0, hgen.ttl_add hid⟩, fun hne addr _ => ?_⟩
      refine .inr ⟨{ task with msg := task.msg.forward, stage := .select }, ?_, rfl, ?_, .inl rfl⟩
      · refine List.mem_append_left _ ?_
        dsimp only at hne
        rw [if_neg hne]
        exact List.mem_singleton_self _
      · rw [Msg.forward, ← hgen.payload_eq hid, ← hid]
    · exact .inl he
  · intro i h
    rcases h with ⟨e, he, h⟩ | ⟨task', htask', h⟩
    · exact .inl ⟨e, List.mem_cons_of_mem _ he, h⟩
    · rcases eq_or_mem_eraseIdx htask htask' with rfl | htask'
      · simp only [Task.stores, hstage, decide_eq_true_eq] at h
        exact .inl ⟨_, List.mem_cons_self, h⟩
      · exact .inr ⟨task', List.mem_append_right _ htask', h⟩
  · intro j hj
    exact .inl (hseen j ▸ hj)
  · intro j hj
    exact (hseen j).symm ▸ hj
  · intro msg i addr _ h
    rcases h with ⟨frame, hframe, h⟩ | ⟨task', htask', h⟩
    · exact .inl ⟨frame, hframe, h⟩
    · rcases eq_or_mem_eraseIdx htask htask' with rfl | htask'
      · obtain ⟨-, -, hpending | ⟨addrs, hsend, -⟩⟩ := h
        · simp [hstage] at hpending
        · simp [hstage] at hsend
      · exact .inr ⟨task', List.mem_append_right _ htask', h⟩

theorem Spreads.of_eq (hnodes : s'.nodes = s.nodes) (hframes : s'.frames = s.frames)
    (htasks : s'.tasks = s.tasks) (hstored : s'.stored = s.stored)
    (hdelivered : s'.delivered = s.delivered) : Spreads D m payload t o T s s' where
  targets i := by rw [System.targets, System.targets, hnodes]
  frames := ⟨[], by rw [hframes, List.append_nil], by simp⟩
  tasks _ htask := .inl (htasks ▸ htask)
  stored _ he := .inl (hstored ▸ he)
  holds i h := by rwa [System.Holds, System.Stores, hstored, htasks]
  seen i hi := .inl (by rwa [System.seen, hnodes] at hi)
  mono i hi := by rwa [System.seen, hnodes]
  delivered n hn := .inl (hdelivered ▸ hn)
  owes msg i addr _ h := by rwa [System.Owes, hframes, htasks]

/-- A frame arrives, and whoever takes it has seen its message. -/
theorem Spreads.of_delivered {frame : Frame ι} (hframe : s.frames[n]? = some frame)
    (h : Spreads D m payload t o T { s with delivered := insert n s.delivered } s')
    (hmark : frame.id = some m → ∀ i, D.resolve frame.addr = some (.node i) → m ∈ s'.seen i) :
    Spreads D m payload t o T s s' where
  targets := h.targets
  frames := h.frames
  tasks := h.tasks
  stored := h.stored
  holds := h.holds
  seen := h.seen
  mono := h.mono
  delivered n' hn' := by
    rcases h.delivered n' hn' with hn' | hn'
    · rcases Finset.mem_insert.1 hn' with rfl | hn'
      · exact .inr ⟨frame, hframe, hmark⟩
      · exact .inl hn'
    · exact .inr hn'
  owes := h.owes

theorem spreads_handleGossipConn {msg : Msg} (hwf : msg.WF) :
    Spreads D m payload t o T s (s.handleGossipConn D msg.format) := by
  rcases System.handleGossipConn_cases (D := D) (s := s) hwf with
    heq | ⟨reading', -, ⟨command, -, heq⟩ | heq⟩
  · rw [heq]
    exact .of_eq rfl rfl rfl rfl rfl
  · rw [heq]
    exact .of_eq rfl rfl rfl rfl rfl
  · rw [heq]
    exact .of_eq rfl rfl rfl rfl rfl

/-- A node that is given a copy of the message has then seen it. -/
theorem spreads_receive {i : ι} {msg : Msg} {path : List ι} {total : ℤ}
    (hgen : Genuine m payload total msg path) (hreading : D.codec.decode payload = some reading)
    (ho : msg.id = m → m ∈ s.seen o) (hwalk : msg.id = m → Walk (Linked D T) o (path ++ [i]) i) :
    Spreads D m payload t o T s (s.receive D i msg.format path)
      ∧ msg.id ∈ (s.receive D i msg.format path).seen i := by
  rcases System.receive_cases (D := D) (s := s) (i := i) hgen.wf path with
    ⟨hseen, heq⟩ | ⟨-, hbad, heq⟩ | ⟨reading', hnew, -, -, heq⟩
  · rw [heq]
    exact ⟨.of_eq rfl rfl rfl rfl rfl, hseen⟩
  · rw [heq]
    exact ⟨spreads_mark (hgen.id_ne hreading hbad), System.mem_seen_mark.2 (.inl ⟨rfl, rfl⟩)⟩
  · rw [heq]
    refine ⟨spreads_start ?_ ?_, System.mem_seen_mark.2 (.inl ⟨rfl, rfl⟩)⟩
    · exact fun hid => ⟨hwalk hid, fun addrs haddrs => by cases haddrs⟩
    · intro hid
      have hne : i ≠ o := by
        rintro rfl
        exact hnew (hid ▸ ho hid)
      exact .inl ⟨hne, by simp [Task.stores, hid]⟩

theorem Reach.step (h : Reach D m payload t o T s) (hflood : Flood D m payload reading f t o s)
    {a : Action ι} (hfan : ∀ i, (T i).length ≤ (D.cfg i).gossipFanout)
    (hreading : D.codec.decode payload = some reading) (ha : a.broadcastID D ≠ some m)
    (hfixed : ∀ i addr, a ≠ .upsertPeer i addr) (hstep : s.step D a = some s') :
    Reach D m payload t o T s' := by
  refine h.spread ?_
  cases a with
  | broadcast i reading' =>
    have hid : gossipMessageID D.sha256 (D.cfg i).nodeID reading'.timestamp ≠ m :=
      fun hid => ha (congrArg some hid)
    rcases System.step_broadcast hstep with ⟨-, rfl⟩ | ⟨encoded, -, rfl⟩
    · exact .of_eq rfl rfl rfl rfl rfl
    · exact spreads_start (fun h => absurd h hid) fun h => absurd h hid
  | deliver n =>
    obtain ⟨frame, hframe, hdest⟩ := System.step_deliver hstep
    have hmem := List.mem_of_getElem? hframe
    obtain ⟨msg, htext, hgen⟩ := hflood.frames frame hmem
    have hid := Frame.id_eq hgen.wf htext
    rw [htext] at hdest
    rcases hdest with ⟨hdest, rfl⟩ | ⟨i, hdest, rfl⟩
    · refine .of_delivered hframe (spreads_handleGossipConn hgen.wf) ?_
      rw [hdest]
      exact fun _ i hi => by cases hi
    · have hm (h : msg.id = m) : frame.id = some m := hid.trans (congrArg some h)
      obtain ⟨hs, hseen⟩ := spreads_receive (t := t) (T := T)
        (s := { s with delivered := insert n s.delivered }) (i := i) hgen hreading
        (fun h' => hflood.mem_seen hmem (hm h'))
        fun h' => (h.frames frame hmem (hm h')).1.snoc
          ⟨frame.addr, (h.frames frame hmem (hm h')).2, hdest⟩
      refine .of_delivered hframe hs fun hid' j hj => ?_
      rw [hdest] at hj
      cases hj
      rwa [Option.some.inj (hid.symm.trans hid')] at hseen
  | store k =>
    obtain ⟨task, reading', htask, hstage, rfl⟩ := System.step_store hstep
    have hmem := List.mem_of_getElem? htask
    exact spreads_storeTask htask hstage (hflood.tasks task hmem) (h.tasks task hmem)
  | select k indices =>
    obtain ⟨task, htask, hstage, rfl⟩ := System.step_select hstep
    exact spreads_selectTask h.targets hfan htask hstage
      (h.tasks task (List.mem_of_getElem? htask))
  | send k =>
    obtain ⟨task, addrs, htask, hstage, rfl⟩ := System.step_send hstep
    have hmem := List.mem_of_getElem? htask
    have hgen := hflood.tasks task hmem
    simp only [Task.Genuine, hstage] at hgen
    exact spreads_sendTask htask hstage hgen.wf (h.tasks task hmem)
  | upsertPeer i addr => exact absurd rfl (hfixed i addr)
  | setReading i reading' =>
    obtain rfl := Option.some.inj hstep
    exact spreads_setReading i reading'

theorem Reach.broadcast (h : Reach D m payload (D.cfg o).gossipTTL o T s)
    (hm : gossipMessageID D.sha256 (D.cfg o).nodeID reading.timestamp = m)
    (hpayload : D.codec.encode reading = some payload)
    (hstep : s.step D (.broadcast o reading) = some s') :
    Reach D m payload (D.cfg o).gossipTTL o T s' := by
  subst hm
  rcases System.step_broadcast hstep with ⟨hnone, -⟩ | ⟨encoded, hencoded, rfl⟩
  · rw [hpayload] at hnone
    cases hnone
  · obtain rfl : payload = encoded := Option.some.inj (hpayload.symm.trans hencoded)
    refine h.spread (spreads_start ?_ fun _ => .inr ⟨rfl, fun addr _ => ?_⟩)
    · exact fun _ => ⟨.start, fun addrs haddrs => by cases haddrs⟩
    · exact ⟨rfl, rfl, .inl rfl⟩

end Steps

/-! ## Where a run ends -/

/-- Nothing is left to do for the message, and every frame for it sent to a node arrived. -/
structure System.Settled (D : Deployment ι) (m : Text) (s : System ι) : Prop where
  tasks : ∀ task ∈ s.tasks, task.msg.id ≠ m
  frames : ∀ n frame, s.frames[n]? = some frame → frame.id = some m →
    ∀ i, D.resolve frame.addr = some (.node i) → n ∈ s.delivered

/-- Every node took, of all the copies sent to it, one with the greatest time to live. -/
def System.FreshestFirst (D : Deployment ι) (m : Text) (s : System ι) : Prop :=
  ∀ e ∈ s.stored, e.msg.id = m → ∀ frame ∈ s.frames, frame.id = some m →
    D.resolve frame.addr = some (.node e.node) → ∀ v ∈ frame.ttl, v ≤ e.msg.ttl

instance (D : Deployment ι) (m : Text) (s : System ι) : Decidable (s.FreshestFirst D m) :=
  inferInstanceAs (Decidable (∀ e ∈ s.stored, _))

section Settled

variable {D : Deployment ι} {m payload : Text} {reading : Reading} {f : ℕ} {t : ℤ} {o : ι}
  {T : ι → List Text} {s : System ι}

/-- A message that was owed has arrived. -/
theorem Reach.arrived (h : Reach D m payload t o T s) (hs : s.Settled D m) {i j : ι} {v : ℤ}
    (hwf : Msg.WF ⟨m, v, payload⟩) {addr : Text} (howes : s.Owes ⟨m, v, payload⟩ i addr)
    (hj : D.resolve addr = some (.node j)) :
    (j = o ∨ s.Stores m j)
      ∧ ∃ frame ∈ s.frames, frame.addr = addr ∧ frame.text = Msg.format ⟨m, v, payload⟩ := by
  rcases howes with ⟨frame, hframe, haddr, htext⟩ | ⟨task, htask, -, hmsg, -⟩
  · obtain ⟨n, hn⟩ := List.mem_iff_getElem?.1 hframe
    have hid : frame.id = some m := Frame.id_eq hwf htext
    subst haddr
    have hseen := h.delivered n (hs.frames n frame hn hid j hj) frame hn hid j hj
    refine ⟨(h.seen j hseen).imp_right ?_, frame, hframe, rfl, htext⟩
    rintro (hstores | ⟨task, htask, hstores⟩)
    · exact hstores
    · -- nothing is about to be stored any more
      unfold Task.stores at hstores
      split at hstores
      · exact absurd (of_decide_eq_true hstores).2 (hs.tasks task htask)
      · cases hstores
  · exact absurd (congrArg Msg.id hmsg) (hs.tasks task htask)

/-- If nodes take the copies with the greatest time to live, they take them with as much of it as
their distance allows. -/
theorem Reach.exists_stored (h : Reach D m payload t o T s) (hs : s.Settled D m)
    (hfirst : s.FreshestFirst D m) (hwf : ∀ v, 0 ≤ v → v ≤ t → Msg.WF ⟨m, v, payload⟩)
    (ho : m ∈ s.seen o) :
    ∀ (d : ℕ), d ≤ t + 1 → ∀ j ∈ ball (Linked D T) o d,
      j = o ∨ ∃ e ∈ s.stored, e.node = j ∧ e.msg.id = m ∧ t + 1 - d ≤ e.msg.ttl := by
  -- one hop further, along a copy with the time to live `v`
  have hop {d : ℕ} {i j : ι} {v : ℤ} {addr : Text} (h0 : 0 ≤ v) (hv : v ≤ t)
      (hle : t + 1 - (d + 1 : ℕ) ≤ v) (howes : s.Owes ⟨m, v, payload⟩ i addr)
      (hj : D.resolve addr = some (.node j)) :
      j = o ∨ ∃ e ∈ s.stored, e.node = j ∧ e.msg.id = m ∧ t + 1 - (d + 1 : ℕ) ≤ e.msg.ttl := by
    obtain ⟨hstores, frame, hframe, haddr, htext⟩ := h.arrived hs (hwf v h0 hv) howes hj
    refine hstores.imp_right ?_
    rintro ⟨e, he, rfl, hid⟩
    refine ⟨e, he, rfl, hid, hle.trans ?_⟩
    exact hfirst e he hid frame hframe (Frame.id_eq (hwf v h0 hv) htext) (haddr ▸ hj) v
      (Frame.ttl_eq (hwf v h0 hv) htext)
  intro d
  induction d with
  | zero => exact fun _ j hj => .inl hj
  | succ d ih =>
    intro hd j hj
    rcases hj with hj | ⟨i, hi, addr, haddr, hresolve⟩
    · refine (ih (by omega) j hj).imp_right ?_
      rintro ⟨e, he, hnode, hid, hle⟩
      exact ⟨e, he, hnode, hid, by omega⟩
    · rcases ih (by omega) i hi with rfl | ⟨e, he, rfl, hid, hle⟩
      · exact hop (by omega) le_rfl (by omega) (h.origin ho addr haddr) hresolve
      · obtain ⟨⟨hwalk, -, hadd⟩, howed⟩ := h.stored e he hid
        have hpos := hwalk.length_pos
        exact hop (by omega) (by omega) (by omega) (howed (by omega) addr haddr) hresolve

end Settled

/-- Where one broadcast ends up, with fixed peers, a fanout for all of them and no frame lost. -/
theorem gossip_reach [Fintype ι] (D : Deployment ι) (pre post : List (Action ι)) (o : ι)
    (reading : Reading) (payload m : Text) (t : ℕ) (s₀ s : System ι)
    (hfan : ∀ i, (s₀.targets D i).length ≤ (D.cfg i).gossipFanout)
    (ht : (D.cfg o).gossipTTL = t) (hpayload : D.codec.encode reading = some payload)
    (hm : gossipMessageID D.sha256 (D.cfg o).nodeID reading.timestamp = m) (h₀ : s₀.Initial m)
    (hids : ∀ a ∈ pre ++ post, a.broadcastID D ≠ some m)
    (hfixed : ∀ i addr, .upsertPeer i addr ∉ pre ++ post)
    (hrun : NetworkRun D s₀ (pre ++ .broadcast o reading :: post) s) (hs : s.Settled D m) :
    (∀ j, s.Stores m j → j ≠ o ∧ j ∈ ball (Linked D (s₀.targets D)) o (t + 1))
      ∧ (∀ j, j ≠ o → Linked D (s₀.targets D) o j → s.Stores m j)
      ∧ (s.FreshestFirst D m →
        {j | j ≠ o ∧ s.Stores m j}
          = {j | j ≠ o ∧ j ∈ ball (Linked D (s₀.targets D)) o (t + 1)}) := by
  obtain ⟨f, hf⟩ : ∃ f : ℕ, ∀ i, (D.cfg i).gossipFanout ≤ f := by
    refine ⟨Finset.univ.sup fun i => (D.cfg i).gossipFanout.toNat, fun i => ?_⟩
    have := Finset.le_sup (f := fun i => (D.cfg i).gossipFanout.toNat) (Finset.mem_univ i)
    omega
  obtain ⟨hflood, ho, hreach⟩ := flood_invariant
    (J := Reach D m payload (D.cfg o).gossipTTL o (s₀.targets D)) hf (by omega) hpayload hm h₀ hids
    hrun (reach_initial h₀)
    (fun u a v ha hu hJ hstep => hJ.step hu hfan (D.codec.decode_encode hpayload) (hids a ha)
      (fun i addr h => hfixed i addr (h ▸ ha)) hstep)
    fun u v hJ hstep => hJ.broadcast hm hpayload hstep
  rw [ht] at hreach
  have hwf (v : ℤ) (h0 : 0 ≤ v) (hv : v ≤ t) : Msg.WF ⟨m, v, payload⟩ := by
    have hlt := (D.cfg o).gossipTTL_int.2
    have hint : IsInt64 v := ⟨by omega, by omega⟩
    exact ⟨hm ▸ clean_hexEncode _, hint, D.codec.clean hpayload⟩
  have hball (j : ι) (hj : s.Stores m j) :
      j ≠ o ∧ j ∈ ball (Linked D (s₀.targets D)) o (t + 1) := by
    obtain ⟨e, he, rfl, hid⟩ := hj
    obtain ⟨⟨hwalk, h0, hadd⟩, -⟩ := hreach.stored e he hid
    refine ⟨?_, ball_mono (by omega) hwalk.mem_ball⟩
    intro heq
    have honce := hflood.once o
    have hcount : 0 < s.storedCount m o :=
      List.countP_pos_iff.2 ⟨e, he, by simp [heq, hid]⟩
    rw [if_neg fun h => h.2 rfl] at honce
    omega
  refine ⟨hball, ?_, ?_⟩
  · rintro j hne ⟨addr, haddr, hresolve⟩
    have harrived := hreach.arrived hs (hwf t (by omega) le_rfl) (hreach.origin ho addr haddr)
      hresolve
    exact harrived.1.resolve_left hne
  · intro hfirst
    ext j
    constructor
    · exact fun hj => ⟨hj.1, (hball j hj.2).2⟩
    · rintro ⟨hne, hj⟩
      refine ⟨hne, ?_⟩
      obtain ⟨e, he, hnode, hid, -⟩ := (hreach.exists_stored hs hfirst hwf ho (t + 1)
        (by push_cast; omega) j hj).resolve_left hne
      exact ⟨e, he, hnode, hid⟩

omit [DecidableEq ι] in
theorem settled_of_delivered {D : Deployment ι} {m : Text} {s : System ι} (htasks : s.tasks = [])
    (hdelivered : s.delivered = Finset.range s.frames.length) : s.Settled D m where
  tasks := by simp [htasks]
  frames n frame hframe _ _ _ := by
    rw [hdelivered, Finset.mem_range]
    exact (List.getElem?_eq_some_iff.1 hframe).1

/-- The node 2 takes the copy of the node 0 before that of the node 1, and the node 3 is reached. -/
theorem gossip_reach_four :
    ∃ s, NetworkRun four fourStart
        ([] ++ .broadcast 0 (readingAt 1) :: (fourSends ++ [.deliver 1, .store 0, .select 0 [0],
          .send 0, .send 0, .deliver 2, .deliver 3, .store 0])) s
      ∧ s.stored.map Stored.node = [3, 2, 1]
      ∧ {j | j ≠ 0 ∧ s.Stores fourID j}
        = {j | j ≠ 0 ∧ j ∈ ball (Linked four (fourStart.targets four)) 0 2} := by
  obtain ⟨s, hrun, hs⟩ : ∃ s, NetworkRun four fourStart _ s ∧ _ :=
    exists_run ([] ++ .broadcast 0 (readingAt 1) :: (fourSends ++ [.deliver 1, .store 0,
        .select 0 [0], .send 0, .send 0, .deliver 2, .deliver 3, .store 0]))
      (fun s => s.stored.map Stored.node = [3, 2, 1] ∧ s.tasks = []
        ∧ s.delivered = Finset.range s.frames.length ∧ s.FreshestFirst four fourID)
      (by decide +kernel)
  obtain ⟨hstored, htasks, hdelivered, hfirst⟩ := of_decide_eq_true hs
  have h := gossip_reach four [] _ 0 (readingAt 1) payloadAt1 fourID 1 fourStart s
    (by decide +kernel) rfl encode_four gossipMessageID_four initial_fourStart (by decide)
    (by simp [fourSends]) hrun (settled_of_delivered htasks hdelivered)
  exact ⟨s, hrun, hstored, h.2.2 hfirst⟩

/-- The node 2 takes the copy that came over the node 1, which goes no further, and then drops that
of the node 0: every frame arrived, and the node 3, two hops away, is left out with a time to live
of 1. -/
theorem gossip_reach_race :
    ∃ s, NetworkRun four fourStart
        (.broadcast 0 (readingAt 1) :: (fourSends ++ [.deliver 2, .store 0, .deliver 1])) s
      ∧ s.Settled four fourID
      ∧ (∀ i, (fourStart.targets four i).length ≤ (four.cfg i).gossipFanout)
      ∧ (four.cfg 0).gossipTTL = 1
      ∧ 3 ∈ ball (Linked four (fourStart.targets four)) 0 2
      ∧ ¬ s.Stores fourID 3 := by
  obtain ⟨s, hrun, hs⟩ : ∃ s, NetworkRun four fourStart _ s ∧ _ :=
    exists_run (.broadcast 0 (readingAt 1) :: (fourSends ++ [.deliver 2, .store 0, .deliver 1]))
      (fun s => s.stored.map Stored.node = [2, 1] ∧ s.tasks = []
        ∧ s.delivered = Finset.range s.frames.length) (by decide +kernel)
  obtain ⟨hstored, htasks, hdelivered⟩ := of_decide_eq_true hs
  have hlinked (i j : Fin 4) (h : fourAddr j ∈ fourStart.targets four i
      ∧ four.resolve (fourAddr j) = some (.node j)) :
      Linked four (fourStart.targets four) i j := ⟨fourAddr j, h⟩
  refine ⟨s, hrun, settled_of_delivered htasks hdelivered, by decide +kernel, rfl, ?_, ?_⟩
  · exact .inr ⟨2, .inr ⟨0, rfl, hlinked 0 2 (by decide +kernel)⟩, hlinked 2 3 (by decide +kernel)⟩
  · rintro ⟨e, he, hnode, -⟩
    have hmem : e.node ∈ s.stored.map Stored.node := List.mem_map_of_mem he
    rw [hstored, hnode] at hmem
    exact absurd hmem (by decide)

end EdgeSim.SensorNode
