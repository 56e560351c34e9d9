import EdgeSim.Lib.Run
import EdgeSim.SensorNode.State
import EdgeSim.Wire.Frame
import Mathlib.Data.List.Perm.Basic

/-!
# A network of sensor nodes

Nodes and a coordinator that exchange gossip frames. Every connection has its own goroutine, so the
steps of `gossipBroadcast` and `handleGossipMessage` interleave: a `Task` is a call that is under
way, cut where it lets go of the lock and at every frame. A frame that was sent can arrive at any
later time, any number of times or never, and in any order; one that its header cuts short is as
lost. Peers may be added, and own readings stored, at any time. A call that nothing interrupts does
what `handleGossipMessage` says (`exists_run_handleGossipMessage`).

The nodes that a message went through, the frames that arrived and what was stored for which message
are recorded only to be spoken of: no step reads them.
-/

namespace EdgeSim.SensorNode

open Coordinator (Reading ReadingStore)
open Runs

variable {ι : Type}

inductive Endpoint (ι : Type) where
  | node (i : ι)
  | coordinator
  deriving DecidableEq

/-- How the programs are set up; `resolve` is who listens at an address. -/
structure Deployment (ι : Type) where
  codec : Codec
  sha256 : Text → List UInt8
  cfg : ι → Config
  resolve : Text → Option (Endpoint ι)
  raft : Bool

inductive Stage where
  /-- The message is checked, its reading not stored. -/
  | store (reading : Reading)
  /-- The targets are to be chosen. -/
  | select
  /-- The addresses left to send to. -/
  | send (addrs : List Text)
  deriving DecidableEq

/-- A call under way. In the first stage `msg` is what came in, then what goes out. -/
structure Task (ι : Type) where
  node : ι
  msg : Msg
  path : List ι
  stage : Stage
  deriving DecidableEq

structure Frame (ι : Type) where
  sender : ι
  addr : Text
  text : Text
  path : List ι
  deriving DecidableEq

/-- The ID that a receiver reads off a frame. -/
def Frame.id (frame : Frame ι) : Option Text := (gossipParts frame.text).bind List.head?

/-- The time to live that a receiver reads off a frame. -/
def Frame.ttl (frame : Frame ι) : Option ℤ :=
  (gossipParts frame.text).bind fun parts => parts[1]?.bind atoi

theorem Frame.ttl_eq {frame : Frame ι} {msg : Msg} (h : msg.WF) (htext : frame.text = msg.format) :
    frame.ttl = some msg.ttl := by
  rw [Frame.ttl, htext, h.gossipParts]
  exact atoi_formatInt h.ttl

theorem Frame.id_eq {frame : Frame ι} {msg : Msg} (h : msg.WF) (htext : frame.text = msg.format) :
    frame.id = some msg.id := by
  rw [Frame.id, htext, h.gossipParts]
  rfl

/-- A reading stored by `handleGossipMessage`. -/
structure Stored (ι : Type) where
  node : ι
  msg : Msg
  reading : Reading
  path : List ι
  deriving DecidableEq

structure System (ι : Type) where
  nodes : ι → NodeState
  tasks : List (Task ι)
  frames : List (Frame ι)
  store : ReadingStore
  delivered : Finset ℕ
  stored : List (Stored ι)
  /-- The IDs and readings the coordinator stored. -/
  heard : List (Text × Reading)
  /-- The IDs and commands the coordinator handed to Raft. -/
  commands : List (Text × Text)

inductive Action (ι : Type) where
  | broadcast (i : ι) (reading : Reading)
  | deliver (n : ℕ)
  | store (k : ℕ)
  | select (k : ℕ) (indices : List ℕ)
  | send (k : ℕ)
  | upsertPeer (i : ι) (addr : Text)
  | setReading (i : ι) (reading : Reading)
  deriving DecidableEq

theorem perm_eraseIdx {tasks : List (Task ι)} {task : Task ι} {k : ℕ}
    (h : tasks[k]? = some task) :
    tasks.Perm (task :: tasks.eraseIdx k) := by
  obtain ⟨hk, rfl⟩ := List.getElem?_eq_some_iff.1 h
  exact (List.getElem_cons_eraseIdx_perm hk).symm

theorem eq_or_mem_eraseIdx {tasks : List (Task ι)} {task task' : Task ι} {k : ℕ}
    (h : tasks[k]? = some task) (h' : task' ∈ tasks) :
    task' = task ∨ task' ∈ tasks.eraseIdx k :=
  List.mem_cons.1 ((perm_eraseIdx h).mem_iff.1 h')

variable [DecidableEq ι]

namespace System

def setNode (s : System ι) (i : ι) (node : NodeState) : System ι :=
  { s with nodes := Function.update s.nodes i node }

/-- A node that has read a payload. -/
def receive (D : Deployment ι) (s : System ι) (i : ι) (payload : Text) (path : List ι) :
    System ι :=
  match gossipParts payload with
  | none => s
  | some parts =>
    match checkGossipMessage D.codec (s.nodes i) parts with
    | (node, none) => s.setNode i node
    | (node, some (msg, reading)) =>
      { s.setNode i node with tasks := ⟨i, msg, path ++ [i], .store reading⟩ :: s.tasks }

/-- The coordinator's `handleGossipConn`, with or without Raft. -/
def handleGossipConn (D : Deployment ι) (s : System ι) (payload : Text) : System ι :=
  match coordinatorReading D.codec payload with
  | none => s
  | some (messageID, reading) =>
    if D.raft then
      match D.codec.encode reading with
      | none => s
      | some command => { s with commands := (messageID, command) :: s.commands }
    else
      { s with
        store := (s.store.upsert reading).1
        heard := (messageID, reading) :: s.heard }

/-- The task goes on as `next`. -/
def replaceTask (s : System ι) (k : ℕ) (next : List (Task ι)) : System ι :=
  { s with tasks := next ++ s.tasks.eraseIdx k }

def storeTask (s : System ι) (k : ℕ) (task : Task ι) (reading : Reading) : System ι :=
  let s := s.setNode task.node ((s.nodes task.node).setReading reading)
  let s := { s with stored := ⟨task.node, task.msg, reading, task.path⟩ :: s.stored }
  s.replaceTask k
    (if task.msg.ttl = 0 then [] else [{ task with msg := task.msg.forward, stage := .select }])

def selectTask (D : Deployment ι) (s : System ι) (k : ℕ) (task : Task ι) (indices : List ℕ) :
    System ι :=
  let cfg := D.cfg task.node
  let targets :=
    selectGossipTargets indices (s.nodes task.node) cfg.coordinatorAddr cfg.gossipFanout
  s.replaceTask k [{ task with stage := .send targets }]

def sendTask (s : System ι) (k : ℕ) (task : Task ι) : List Text → System ι
  | [] => s.replaceTask k []
  | addr :: addrs =>
    { s.replaceTask k [{ task with stage := .send addrs }] with
      frames := s.frames ++ [⟨task.node, addr, task.msg.format, task.path⟩] }

def step (D : Deployment ι) (s : System ι) : Action ι → Option (System ι)
  | .broadcast i reading =>
    match gossipBroadcast D.codec D.sha256 (D.cfg i) (s.nodes i) reading with
    | (_, none) => some s
    | (node, some msg) =>
      some { s.setNode i node with tasks := ⟨i, msg, [i], .select⟩ :: s.tasks }
  | .deliver n =>
    match s.frames[n]? with
    | none => none
    | some frame =>
      match Wire.readFrame (Wire.writeFrame frame.text) with
      | (.ok payload, []) =>
        let s := { s with delivered := insert n s.delivered }
        match D.resolve frame.addr with
        | none => none
        | some .coordinator => some (s.handleGossipConn D payload)
        | some (.node i) => some (s.receive D i payload frame.path)
      | _ => none
  | .store k =>
    match s.tasks[k]? with
    | none => none
    | some task =>
      match task.stage with
      | .store reading => some (s.storeTask k task reading)
      | _ => none
  | .select k indices =>
    match s.tasks[k]? with
    | none => none
    | some task =>
      let n := (gossipTargets (s.nodes task.node) (D.cfg task.node).coordinatorAddr).length
      match task.stage with
      | .select =>
        if indices.Perm (List.range n) then some (s.selectTask D k task indices) else none
      | _ => none
  | .send k =>
    match s.tasks[k]? with
    | none => none
    | some task =>
      match task.stage with
      | .send addrs => some (s.sendTask k task addrs)
      | _ => none
  | .upsertPeer i addr => some (s.setNode i ((s.nodes i).upsertPeer addr))
  | .setReading i reading => some (s.setNode i ((s.nodes i).setReading reading))

end System

/-- The ID of the message that a call of `gossipBroadcast` makes. -/
def Action.broadcastID (D : Deployment ι) : Action ι → Option Text
  | .broadcast i reading => some (gossipMessageID D.sha256 (D.cfg i).nodeID reading.timestamp)
  | _ => none

/-- No gossip has been sent and the ID is new to every node; peers and readings are arbitrary. -/
structure System.Initial (m : Text) (s : System ι) : Prop where
  tasks : s.tasks = []
  frames : s.frames = []
  stored : s.stored = []
  heard : s.heard = []
  commands : s.commands = []
  delivered : s.delivered = ∅
  unseen : ∀ i, m ∉ (s.nodes i).seenGossip

abbrev NetworkRun (D : Deployment ι) := Run (System.step D) fun _ _ => True

/-! ## What a step does -/

section Steps

variable {D : Deployment ι} {s s' : System ι} {n k : ℕ}

namespace System

/-- The IDs a node has seen. -/
def seen (s : System ι) (i : ι) : Finset Text := (s.nodes i).seenGossip

/-- The state with a new ID among those a node has seen. -/
def mark (s : System ι) (i : ι) (m : Text) : System ι :=
  s.setNode i { s.nodes i with seenGossip := insert m (s.nodes i).seenGossip }

theorem seen_setNode {i : ι} {node : NodeState} (h : node.seenGossip = s.seen i) (j : ι) :
    (s.setNode i node).seen j = s.seen j := by
  unfold seen setNode at *
  by_cases hj : j = i
  · subst hj
    simpa using h
  · simp [hj]

theorem seen_setReading (s : System ι) (i : ι) (reading : Reading) (j : ι) :
    (s.setNode i ((s.nodes i).setReading reading)).seen j = s.seen j := by
  have h : ((s.nodes i).setReading reading).seenGossip = s.seen i := rfl
  exact seen_setNode h j

theorem mem_seen_mark {i j : ι} {m m' : Text} :
    m ∈ (s.mark i m').seen j ↔ (j = i ∧ m = m') ∨ m ∈ s.seen j := by
  unfold mark seen setNode
  by_cases hj : j = i
  · subst hj
    simp
  · simp [hj]

theorem step_broadcast {i : ι} {reading : Reading} (h : s.step D (.broadcast i reading) = some s') :
    (D.codec.encode reading = none ∧ s' = s)
      ∨ ∃ encoded, D.codec.encode reading = some encoded
        ∧ s' =
          let m := gossipMessageID D.sha256 (D.cfg i).nodeID reading.timestamp
          { s.mark i m with
            tasks := ⟨i, ⟨m, (D.cfg i).gossipTTL, encoded⟩, [i], .select⟩ :: s.tasks } := by
  cases henc : D.codec.encode reading with
  | none =>
    simp only [step, gossipBroadcast, henc, Option.some.injEq] at h
    exact .inl ⟨rfl, h.symm⟩
  | some encoded =>
    simp only [step, gossipBroadcast_eq henc, Option.some.injEq] at h
    exact .inr ⟨encoded, rfl, h.symm⟩

theorem step_deliver (h : s.step D (.deliver n) = some s') :
    ∃ frame, s.frames[n]? = some frame
      ∧ ((D.resolve frame.addr = some .coordinator
          ∧ s' = handleGossipConn D { s with delivered := insert n s.delivered } frame.text)
        ∨ ∃ i, D.resolve frame.addr = some (.node i)
          ∧ s' = receive D { s with delivered := insert n s.delivered } i frame.text
            frame.path) := by
  simp only [step] at h
  split at h
  · cases h
  · rename_i frame hframe
    refine ⟨frame, hframe, ?_⟩
    split at h
    · rename_i payload hread
      rw [Wire.eq_of_readFrame_writeFrame hread] at h
      split at h
      · cases h
      · rename_i hdest
        exact .inl ⟨hdest, (Option.some.inj h).symm⟩
      · rename_i i hdest
        exact .inr ⟨i, hdest, (Option.some.inj h).symm⟩
    · cases h

theorem step_store (h : s.step D (.store k) = some s') :
    ∃ task reading, s.tasks[k]? = some task ∧ task.stage = .store reading
      ∧ s' = s.storeTask k task reading := by
  simp only [step] at h
  split at h
  · cases h
  · rename_i task htask
    split at h
    · rename_i reading hstage
      exact ⟨task, reading, htask, hstage, (Option.some.inj h).symm⟩
    · cases h

theorem step_select {indices : List ℕ} (h : s.step D (.select k indices) = some s') :
    ∃ task, s.tasks[k]? = some task ∧ task.stage = .select
      ∧ s' = s.selectTask D k task indices := by
  simp only [step] at h
  split at h
  · cases h
  · rename_i task htask
    split at h
    · rename_i hstage
      split_ifs at h
      exact ⟨task, htask, hstage, (Option.some.inj h).symm⟩
    · cases h

theorem step_send (h : s.step D (.send k) = some s') :
    ∃ task addrs, s.tasks[k]? = some task ∧ task.stage = .send addrs
      ∧ s' = s.sendTask k task addrs := by
  simp only [step] at h
  split at h
  · cases h
  · rename_i task htask
    split at h
    · rename_i addrs hstage
      exact ⟨task, addrs, htask, hstage, (Option.some.inj h).symm⟩
    · cases h

/-- A node that is given a well-formed message. -/
theorem receive_cases {i : ι} {msg : Msg} (hwf : msg.WF) (path : List ι) :
    (msg.id ∈ (s.nodes i).seenGossip ∧ s.receive D i msg.format path = s)
      ∨ (msg.id ∉ (s.nodes i).seenGossip
        ∧ (msg.ttl < 0 ∨ D.codec.decode msg.payload = none)
        ∧ s.receive D i msg.format path = s.mark i msg.id)
      ∨ ∃ reading, msg.id ∉ (s.nodes i).seenGossip ∧ 0 ≤ msg.ttl
        ∧ D.codec.decode msg.payload = some reading
        ∧ s.receive D i msg.format path
          = { s.mark i msg.id with
              tasks := ⟨i, msg, path ++ [i], .store reading⟩ :: s.tasks } := by
  simp only [receive, hwf.gossipParts]
  by_cases hseen : msg.id ∈ (s.nodes i).seenGossip
  · left
    rw [checkGossipMessage_seen hseen rfl]
    exact ⟨hseen, by simp [setNode]⟩
  · right
    by_cases hbad : msg.ttl < 0 ∨ D.codec.decode msg.payload = none
    · left
      rw [checkGossipMessage_rejected hseen (atoi_formatInt hwf.ttl) hbad]
      exact ⟨hseen, hbad, rfl⟩
    · right
      rw [not_or, not_lt] at hbad
      obtain ⟨reading, hreading⟩ := Option.ne_none_iff_exists'.1 hbad.2
      rw [checkGossipMessage_new hseen (atoi_formatInt hwf.ttl) hbad.1 hreading]
      exact ⟨reading, hseen, hbad.1, hreading, rfl⟩

omit [DecidableEq ι] in
/-- The coordinator, given a well-formed message. -/
theorem handleGossipConn_cases {msg : Msg} (hwf : msg.WF) :
    s.handleGossipConn D msg.format = s
      ∨ ∃ reading, D.codec.decode msg.payload = some reading
        ∧ ((∃ command, D.codec.encode reading = some command
            ∧ s.handleGossipConn D msg.format
              = { s with commands := (msg.id, command) :: s.commands })
          ∨ s.handleGossipConn D msg.format
            = { s with
                store := (s.store.upsert reading).1
                heard := (msg.id, reading) :: s.heard }) := by
  simp only [handleGossipConn, hwf.coordinatorReading]
  cases hdecode : D.codec.decode msg.payload with
  | none => exact .inl rfl
  | some reading =>
    dsimp only [Option.map_some]
    by_cases hraft : D.raft = true
    · rw [if_pos hraft]
      cases hencode : D.codec.encode reading with
      | none => exact .inl rfl
      | some command => exact .inr ⟨reading, rfl, .inl ⟨command, hencode, rfl⟩⟩
    · rw [if_neg hraft]
      exact .inr ⟨reading, rfl, .inr rfl⟩

end System

end Steps

/-! ## A call that nothing interrupts -/

section Uninterrupted

variable {D : Deployment ι} {s : System ι}

theorem send_all (task : Task ι) (rest : List (Task ι)) :
    ∀ (addrs : List Text) {s : System ι}, s.tasks = { task with stage := .send addrs } :: rest →
      ∃ as, NetworkRun D s as
        { s with
          tasks := rest
          frames := s.frames ++ addrs.map fun addr =>
            ⟨task.node, addr, task.msg.format, task.path⟩ }
  | [], s, h => by
    refine ⟨[.send 0], Run.single trivial ?_⟩
    simp [System.step, h, System.sendTask, System.replaceTask]
  | addr :: addrs, s, h => by
    set frame : Frame ι := ⟨task.node, addr, task.msg.format, task.path⟩ with hframe
    obtain ⟨as, hrun⟩ := send_all task rest addrs
      (s := { s with
        tasks := { task with stage := .send addrs } :: rest
        frames := s.frames ++ [frame] }) rfl
    refine ⟨.send 0 :: as, ?_⟩
    have hstep : s.step D (.send 0) = some
        { s with
          tasks := { task with stage := .send addrs } :: rest
          frames := s.frames ++ [frame] } := by
      simp [System.step, h, System.sendTask, System.replaceTask, hframe]
    have hfirst : NetworkRun D s [.send 0] _ := Run.single trivial hstep
    simpa [hframe] using hfirst.append hrun

/-- A message that passed the checks is stored and sent on. -/
theorem store_and_send {i : ι} {msg : Msg} {path : List ι} {reading : Reading}
    {rest : List (Task ι)} {indices : List ℕ}
    (hs : s.tasks = ⟨i, msg, path, .store reading⟩ :: rest)
    (hindices : indices.Perm (List.range
      (gossipTargets ((s.nodes i).setReading reading) (D.cfg i).coordinatorAddr).length)) :
    ∃ as s', NetworkRun D s as s' ∧ s'.tasks = rest
      ∧ s'.nodes = Function.update s.nodes i ((s.nodes i).setReading reading)
      ∧ s'.frames = s.frames ++ if msg.ttl = 0 then [] else
        (selectGossipTargets indices ((s.nodes i).setReading reading) (D.cfg i).coordinatorAddr
          (D.cfg i).gossipFanout).map fun addr => ⟨i, addr, msg.forward.format, path⟩ := by
  set s₁ := s.storeTask 0 ⟨i, msg, path, .store reading⟩ reading with hs₁
  have hstore : NetworkRun D s [.store 0] s₁ := Run.single trivial (by simp [System.step, hs, hs₁])
  have hnodes : s₁.nodes = Function.update s.nodes i ((s.nodes i).setReading reading) := by
    simp [hs₁, System.storeTask, System.replaceTask, System.setNode]
  have hframes : s₁.frames = s.frames := rfl
  by_cases httl : msg.ttl = 0
  · refine ⟨[.store 0], s₁, hstore, ?_, hnodes, ?_⟩
    · simp [hs₁, System.storeTask, System.replaceTask, System.setNode, hs, httl]
    · rw [hframes, if_pos httl, List.append_nil]
  · set targets := selectGossipTargets indices ((s.nodes i).setReading reading)
      (D.cfg i).coordinatorAddr (D.cfg i).gossipFanout with htargets
    set task : Task ι := ⟨i, msg.forward, path, .select⟩ with htask
    have htasks : s₁.tasks = task :: rest := by
      simp [hs₁, System.storeTask, System.replaceTask, System.setNode, hs, httl, htask]
    have hselect : NetworkRun D s₁ [.select 0 indices]
        { s₁ with tasks := { task with stage := .send targets } :: rest } := by
      refine Run.single trivial ?_
      simp [System.step, htasks, htask, hnodes, hindices, System.selectTask, System.replaceTask,
        htargets]
    obtain ⟨as, hsend⟩ := send_all task rest targets
      (s := { s₁ with tasks := { task with stage := .send targets } :: rest }) rfl
    refine ⟨_, _, (hstore.append hselect).append hsend, rfl, hnodes, ?_⟩
    dsimp only
    rw [hframes, if_neg httl]

/-- A call of `handleGossipMessage` can run to its end alone, and then leaves the state and has sent
the frames that the function says. -/
theorem exists_run_handleGossipMessage {n : ℕ} {frame : Frame ι} {i : ι} {parts : List Text}
    {indices : List ℕ} (hframe : s.frames[n]? = some frame) (hlen : frame.text.length < 2 ^ 32)
    (hdest : D.resolve frame.addr = some (.node i)) (hparts : gossipParts frame.text = some parts)
    (hindices : indices.Perm
      (List.range (gossipTargets (s.nodes i) (D.cfg i).coordinatorAddr).length)) :
    ∃ as s', NetworkRun D s (.deliver n :: as) s' ∧ s'.tasks = s.tasks
      ∧ s'.nodes = Function.update s.nodes i
        (handleGossipMessage D.codec (D.cfg i) indices (s.nodes i) parts).1
      ∧ s'.frames = s.frames
        ++ (handleGossipMessage D.codec (D.cfg i) indices (s.nodes i) parts).2.map fun send =>
          ⟨i, send.1, send.2, frame.path ++ [i]⟩ := by
  have hread := Wire.readFrame_writeFrame hlen []
  rw [List.append_nil] at hread
  have hdeliver : NetworkRun D s [.deliver n]
      (System.receive D { s with delivered := insert n s.delivered } i frame.text frame.path) := by
    refine Run.single trivial ?_
    simp only [System.step, hframe, hread, hdest]
  obtain ⟨seen, hnode⟩ := checkGossipMessage_fst D.codec (s.nodes i) parts
  simp only [System.receive, hparts] at hdeliver
  rcases hcheck : checkGossipMessage D.codec (s.nodes i) parts with ⟨node, _ | ⟨msg, reading⟩⟩
  · rw [hcheck] at hdeliver
    refine ⟨[], _, hdeliver, rfl, ?_, ?_⟩
    · simp only [handleGossipMessage, hcheck]
      rfl
    · simp [handleGossipMessage, hcheck, System.setNode]
  · rw [hcheck] at hdeliver hnode
    dsimp only at hdeliver hnode
    set s₁ : System ι :=
      { System.setNode { s with delivered := insert n s.delivered } i node with
        tasks := ⟨i, msg, frame.path ++ [i], .store reading⟩ :: s.tasks } with hs₁
    have hself : s₁.nodes i = node := by simp [hs₁, System.setNode]
    have htargets : gossipTargets ((s₁.nodes i).setReading reading) (D.cfg i).coordinatorAddr
        = gossipTargets (s.nodes i) (D.cfg i).coordinatorAddr := by
      rw [hself, hnode]
      exact gossipTargets_congr rfl rfl _
    rw [← htargets] at hindices
    obtain ⟨as, s', hrun, htasks, hnodes, hframes⟩ := store_and_send (s := s₁) rfl hindices
    refine ⟨as, s', hdeliver.append hrun, htasks, ?_, ?_⟩
    · rw [hnodes, hself]
      simp only [handleGossipMessage, hcheck, hs₁, System.setNode, Function.update_idem]
      split_ifs <;> rfl
    · rw [hframes, hself]
      simp only [handleGossipMessage, hcheck]
      split_ifs
      · rfl
      · simp [hs₁, System.setNode, Function.comp_def]

end Uninterrupted

/-! ## A network of four nodes

The node 0 has the peers 1 and 2, the node 1 has the peer 2, and the node 2 has the peer 3. -/

def fourAddr (i : Fin 4) : Text := bytesOf "127.0.0.1:800" ++ formatNat i

def fourPeers : Fin 4 → List (Fin 4)
  | 0 => [1, 2]
  | 1 => [2]
  | 2 => [3]
  | 3 => []

/-- The hash is that of the one text that is hashed. -/
def four : Deployment (Fin 4) where
  codec := codecAt12
  sha256 bytes :=
    if bytes = bytesOf "a-1" then
      [47, 143, 230, 58, 98, 36, 50, 29, 229, 208, 162, 76, 243, 0, 103, 211, 122, 53, 135, 6, 177,
        237, 56, 176, 21, 40, 42, 182, 141, 198, 154, 233]
    else []
  cfg i := ⟨if i = 0 then bytesOf "a" else formatNat i, [], 3, 1, by decide⟩
  resolve addr := ((List.finRange 4).find? fun i => fourAddr i = addr).map .node
  raft := false

def fourStart : System (Fin 4) where
  nodes i := ⟨fourAddr i, ⟨(fourPeers i).map fourAddr, by decide +kernel +revert⟩, ∅, ∅⟩
  tasks := []
  frames := []
  store := ⟨∅, false, 0⟩
  delivered := ∅
  stored := []
  heard := []
  commands := []

/-- The ID of the reading that the node 0 broadcasts. -/
def fourID : Text := bytesOf "2f8fe63a6224321d"

theorem initial_fourStart : fourStart.Initial fourID where
  tasks := rfl
  frames := rfl
  stored := rfl
  heard := rfl
  commands := rfl
  delivered := rfl
  unseen _ := Finset.notMem_empty _

theorem gossipMessageID_four :
    gossipMessageID four.sha256 (four.cfg 0).nodeID (readingAt 1).timestamp = fourID := by
  decide +kernel

theorem encode_four : four.codec.encode (readingAt 1) = some payloadAt1 := by
  decide +kernel

/-- The broadcast is sent, and the node 1 takes it and sends it on. -/
def fourSends : List (Action (Fin 4)) :=
  [.select 0 [0, 1], .send 0, .send 0, .send 0, .deliver 0, .store 0, .select 0 [0], .send 0,
    .send 0]

end EdgeSim.SensorNode
