import EdgeSim.SensorNode.Network
import Mathlib.Algebra.BigOperators.Ring.Finset
import Mathlib.Algebra.Order.BigOperators.Group.Finset

/-!
# The flood of a message

A node marks a message as seen before anything else, so it goes through the handler once, and has a
budget of `f` frames for the message from that moment on: what it sent and what its tasks may still
send stay within it (`Flood.budget`). The texts of frames are well formed, and those with the ID of
the broadcast have its payload and a time to live that falls by one at every node on the way
(`Genuine`).
-/

namespace EdgeSim.SensorNode

open Coordinator (Reading ReadingStore)
open Runs

variable {ι : Type} [DecidableEq ι]

/-! ## What a node sent and may send -/

/-- The frames that a task may still send for the message as the node `i`. -/
def Task.cost (m : Text) (f : ℕ) (i : ι) (task : Task ι) : ℕ :=
  if task.node = i ∧ task.msg.id = m then
    match task.stage with
    | .send addrs => addrs.length
    | _ => f
  else 0

/-- The task will store the message on the node `i`. -/
def Task.stores (m : Text) (i : ι) (task : Task ι) : Bool :=
  match task.stage with
  | .store _ => task.node = i ∧ task.msg.id = m
  | _ => false

def owed (m : Text) (f : ℕ) (i : ι) (tasks : List (Task ι)) : ℕ := (tasks.map (Task.cost m f i)).sum

def storing (m : Text) (i : ι) (tasks : List (Task ι)) : ℕ := tasks.countP (Task.stores m i)

namespace System

/-- The number of frames the node sent for the message. -/
def sent (m : Text) (i : ι) (s : System ι) : ℕ :=
  s.frames.countP fun frame => frame.sender = i ∧ frame.id = some m

/-- How often the node stored a reading for the message. -/
def storedCount (m : Text) (i : ι) (s : System ι) : ℕ :=
  s.stored.countP fun e => e.node = i ∧ e.msg.id = m

end System

section Counts

variable {m : Text} {f : ℕ} {i : ι} {task : Task ι} {tasks tasks' : List (Task ι)}

theorem owed_singleton : owed m f i [task] = task.cost m f i := by
  simp [owed]

theorem owed_cons : owed m f i (task :: tasks) = task.cost m f i + owed m f i tasks := by
  simp [owed]

theorem storing_cons :
    storing m i (task :: tasks) = storing m i tasks + if task.stores m i then 1 else 0 := by
  simp [storing, List.countP_cons]

theorem owed_append : owed m f i (tasks ++ tasks') = owed m f i tasks + owed m f i tasks' := by
  simp [owed]

theorem storing_append :
    storing m i (tasks ++ tasks') = storing m i tasks + storing m i tasks' := by
  simp [storing]

theorem owed_perm (h : tasks.Perm tasks') : owed m f i tasks = owed m f i tasks' :=
  (h.map _).sum_eq

theorem storing_perm (h : tasks.Perm tasks') : storing m i tasks = storing m i tasks' :=
  h.countP_eq _

theorem cost_of_ne (h : task.msg.id ≠ m) : task.cost m f i = 0 := by
  simp [Task.cost, h]

theorem cost_le (h : ∀ addrs, task.stage ≠ .send addrs) : task.cost m f i ≤ f := by
  unfold Task.cost
  split_ifs
  · split
    · rename_i addrs haddrs
      exact absurd haddrs (h addrs)
    · exact le_rfl
  · exact Nat.zero_le f

theorem stores_of_ne (h : task.msg.id ≠ m) : task.stores m i = false := by
  unfold Task.stores
  split <;> simp [h]

end Counts

/-! ## The invariant -/

/-- A message with the ID of the broadcast is the broadcast's, and its time to live and the nodes it
went through add up. -/
structure Genuine (m payload : Text) (total : ℤ) (msg : Msg) (path : List ι) : Prop where
  wf : msg.WF
  path_pos : 0 < path.length
  payload_eq : msg.id = m → msg.payload = payload
  ttl_nonneg : msg.id = m → 0 ≤ msg.ttl
  ttl_add : msg.id = m → msg.ttl + path.length = total

/-- A received message has one more node on its path than when it was sent. -/
def Task.Genuine (D : Deployment ι) (m payload : Text) (t : ℤ) (task : Task ι) : Prop :=
  match task.stage with
  | .store reading =>
    SensorNode.Genuine m payload (t + 2) task.msg task.path
      ∧ 0 ≤ task.msg.ttl ∧ D.codec.decode task.msg.payload = some reading
  | _ => SensorNode.Genuine m payload (t + 1) task.msg task.path

/-- The invariant of runs in which `o` may broadcast `reading`, and no other call of
`gossipBroadcast` has the ID `m`. -/
structure Flood (D : Deployment ι) (m payload : Text) (reading : Reading) (f : ℕ) (t : ℤ) (o : ι)
    (s : System ι) : Prop where
  frames : ∀ frame ∈ s.frames, ∃ msg : Msg, frame.text = msg.format
    ∧ Genuine m payload (t + 1) msg frame.path
  tasks : ∀ task ∈ s.tasks, task.Genuine D m payload t
  budget : ∀ i, s.sent m i + owed m f i s.tasks ≤ if m ∈ s.seen i then f else 0
  once : ∀ i, s.storedCount m i + storing m i s.tasks ≤ if m ∈ s.seen i ∧ i ≠ o then 1 else 0
  stored : ∀ e ∈ s.stored, e.msg.id = m → e.reading = reading
  heard : ∀ e ∈ s.heard, e.1 = m → e.2 = reading
  commands : ∀ e ∈ s.commands, e.1 = m → D.codec.decode e.2 = some reading
  origin : m ∈ s.seen o ∨ ∀ i, m ∉ s.seen i

section Steps

variable {D : Deployment ι} {m payload : Text} {reading : Reading} {f : ℕ} {t : ℤ} {o : ι}
  {s s' : System ι} {k n : ℕ}

theorem flood_initial (h : s.Initial m) : Flood D m payload reading f t o s where
  frames := by simp [h.frames]
  tasks := by simp [h.tasks]
  budget i := by simp [System.sent, owed, h.frames, h.tasks]
  once i := by simp [System.storedCount, storing, h.stored, h.tasks]
  stored := by simp [h.stored]
  heard := by simp [h.heard]
  commands := by simp [h.commands]
  origin := .inr h.unseen

/-- Whoever sent a frame for the message, the origin had seen it. -/
theorem Flood.mem_seen (h : Flood D m payload reading f t o s) {frame : Frame ι}
    (hframe : frame ∈ s.frames) (hid : frame.id = some m) : m ∈ s.seen o := by
  rcases h.origin with ho | hnone
  · exact ho
  · have hbudget := h.budget frame.sender
    have hsent : 0 < s.sent m frame.sender :=
      List.countP_pos_iff.2 ⟨frame, hframe, by simp [hid]⟩
    rw [if_neg (hnone _)] at hbudget
    omega

/-- A step that no node takes to see the message adds nothing wrong and keeps to the budgets. -/
structure Carries (D : Deployment ι) (m payload : Text) (reading : Reading) (f : ℕ) (t : ℤ)
    (s s' : System ι) : Prop where
  frames : ∀ frame ∈ s'.frames, frame ∈ s.frames
    ∨ ∃ msg : Msg, frame.text = msg.format ∧ Genuine m payload (t + 1) msg frame.path
  tasks : ∀ task ∈ s'.tasks, task ∈ s.tasks ∨ task.Genuine D m payload t
  budget : ∀ i, s'.sent m i + owed m f i s'.tasks ≤ s.sent m i + owed m f i s.tasks
  once : ∀ i, s'.storedCount m i + storing m i s'.tasks ≤ s.storedCount m i + storing m i s.tasks
  stored : ∀ e ∈ s'.stored, e ∈ s.stored ∨ (e.msg.id = m → e.reading = reading)
  heard : ∀ e ∈ s'.heard, e ∈ s.heard ∨ (e.1 = m → e.2 = reading)
  commands : ∀ e ∈ s'.commands, e ∈ s.commands ∨ (e.1 = m → D.codec.decode e.2 = some reading)
  seen : ∀ i, m ∈ s'.seen i ↔ m ∈ s.seen i

theorem Flood.carry (h : Flood D m payload reading f t o s)
    (hc : Carries D m payload reading f t s s') : Flood D m payload reading f t o s' where
  frames frame hframe := (hc.frames frame hframe).elim (h.frames frame) id
  tasks task htask := (hc.tasks task htask).elim (h.tasks task) id
  budget i := by
    simp only [hc.seen]
    exact (hc.budget i).trans (h.budget i)
  once i := by
    simp only [hc.seen]
    exact (hc.once i).trans (h.once i)
  stored e he := (hc.stored e he).elim (h.stored e) id
  heard e he := (hc.heard e he).elim (h.heard e) id
  commands e he := (hc.commands e he).elim (h.commands e) id
  origin := by
    simp only [hc.seen]
    exact h.origin

theorem carries_setNode {i : ι} {node : NodeState} (hseen : node.seenGossip = s.seen i) :
    Carries D m payload reading f t s (s.setNode i node) where
  frames _ hframe := .inl hframe
  tasks _ htask := .inl htask
  budget _ := le_rfl
  once _ := le_rfl
  stored _ he := .inl he
  heard _ he := .inl he
  commands _ he := .inl he
  seen j := by rw [System.seen_setNode hseen]

/-- Another message is seen, and a task for it may start. -/
theorem carries_mark {i : ι} {m' : Text} (hm : m' ≠ m) (next : List (Task ι))
    (hid : ∀ task ∈ next, task.msg.id = m')
    (hnext : ∀ task ∈ next, task.Genuine D m payload t) :
    Carries D m payload reading f t s { s.mark i m' with tasks := next ++ s.tasks } where
  frames _ hframe := .inl hframe
  tasks task htask := (List.mem_append.1 htask).elim (fun h => .inr (hnext task h)) .inl
  budget j := by
    have hzero : owed m f j next = 0 := by
      refine List.sum_eq_zero fun c hc => ?_
      obtain ⟨task, htask, rfl⟩ := List.mem_map.1 hc
      exact cost_of_ne (hid task htask ▸ hm)
    change s.sent m j + owed m f j (next ++ s.tasks) ≤ _
    rw [owed_append, hzero, Nat.zero_add]
  once j := by
    have hzero : storing m j next = 0 := by
      refine List.countP_eq_zero.2 fun task htask => ?_
      rw [stores_of_ne (hid task htask ▸ hm)]
      exact Bool.false_ne_true
    change s.storedCount m j + storing m j (next ++ s.tasks) ≤ _
    rw [storing_append, hzero, Nat.zero_add]
  stored _ he := .inl he
  heard _ he := .inl he
  commands _ he := .inl he
  seen j := System.mem_seen_mark.trans (or_iff_right fun hj => hm hj.2.symm)

/-- A task that goes on within what it may send, and stores nothing any more. -/
theorem carries_replaceTask {task : Task ι} {next : List (Task ι)}
    (htask : s.tasks[k]? = some task) (hnext : ∀ task ∈ next, task.Genuine D m payload t)
    (howed : ∀ i, owed m f i next ≤ task.cost m f i) (hstoring : ∀ i, storing m i next = 0) :
    Carries D m payload reading f t s (s.replaceTask k next) where
  frames _ hframe := .inl hframe
  tasks := by
    intro task' htask'
    rcases List.mem_append.1 htask' with h | h
    · exact .inr (hnext task' h)
    · exact .inl (List.mem_of_mem_eraseIdx h)
  budget i := by
    change s.sent m i + owed m f i (next ++ s.tasks.eraseIdx k) ≤ _
    rw [owed_append, owed_perm (perm_eraseIdx htask), owed_cons]
    have := howed i
    omega
  once i := by
    change s.storedCount m i + storing m i (next ++ s.tasks.eraseIdx k) ≤ _
    rw [storing_append, hstoring, storing_perm (perm_eraseIdx htask), storing_cons]
    omega
  stored _ he := .inl he
  heard _ he := .inl he
  commands _ he := .inl he
  seen _ := .rfl

omit [DecidableEq ι] in
theorem Genuine.forward {msg : Msg} {path : List ι} (h : Genuine m payload (t + 2) msg path)
    (h0 : 0 ≤ msg.ttl) (hne : msg.ttl ≠ 0) : Genuine m payload (t + 1) msg.forward path where
  wf := h.wf.forward h0
  path_pos := h.path_pos
  payload_eq := h.payload_eq
  ttl_nonneg _ := by
    simp only [Msg.forward]
    omega
  ttl_add hid := by
    have := h.ttl_add hid
    simp only [Msg.forward]
    omega

theorem carries_selectTask {task : Task ι} {indices : List ℕ} (htask : s.tasks[k]? = some task)
    (hstage : task.stage = .select) (h : task.Genuine D m payload t)
    (hf : ∀ i, (D.cfg i).gossipFanout ≤ f) :
    Carries D m payload reading f t s (s.selectTask D k task indices) := by
  refine carries_replaceTask htask ?_ ?_ ?_
  · intro task' htask'
    obtain rfl := List.mem_singleton.1 htask'
    simpa only [Task.Genuine, hstage] using h
  · intro i
    have hlen := length_selectGossipTargets indices (s.nodes task.node)
      (D.cfg task.node).coordinatorAddr (D.cfg task.node).gossipFanout
    have := hf task.node
    rw [owed_singleton]
    simp only [Task.cost, hstage]
    split_ifs
    · omega
    · rfl
  · intro i
    simp [storing, Task.stores]

theorem carries_storeTask {task : Task ι} {reading' : Reading} (htask : s.tasks[k]? = some task)
    (hstage : task.stage = .store reading') (h : task.Genuine D m payload t)
    (hreading : D.codec.decode payload = some reading) :
    Carries D m payload reading f t s (s.storeTask k task reading') := by
  simp only [Task.Genuine, hstage] at h
  obtain ⟨hgen, h0, hdecode⟩ := h
  set next : List (Task ι) :=
    if task.msg.ttl = 0 then [] else [{ task with msg := task.msg.forward, stage := .select }]
    with hnext
  have hgenuine : ∀ task' ∈ next, task'.Genuine D m payload t := by
    intro task' htask'
    rw [hnext] at htask'
    split_ifs at htask' with hne
    · cases htask'
    · obtain rfl := List.mem_singleton.1 htask'
      exact hgen.forward h0 hne
  have howed (i : ι) : owed m f i next ≤ task.cost m f i := by
    rw [hnext]
    split_ifs
    · exact Nat.zero_le _
    · rw [owed_singleton]
      simp only [Task.cost, hstage]
      exact le_rfl
  have hstoring (i : ι) : storing m i next = 0 := by
    rw [hnext]
    split_ifs
    · rfl
    · simp [storing, Task.stores]
  have hc : Carries D m payload reading f t s (s.replaceTask k next) :=
    carries_replaceTask htask hgenuine howed hstoring
  refine ⟨hc.frames, hc.tasks, hc.budget, ?_, ?_, hc.heard, hc.commands, ?_⟩
  · intro i
    change (Stored.mk _ _ _ _ :: s.stored).countP _ + storing m i (next ++ s.tasks.eraseIdx k)
      ≤ s.stored.countP _ + _
    rw [storing_append, hstoring, storing_perm (perm_eraseIdx htask), storing_cons,
      List.countP_cons]
    simp only [Task.stores, hstage]
    omega
  · intro e he
    rcases List.mem_cons.1 he with rfl | he
    · refine .inr fun hid => ?_
      rw [hgen.payload_eq hid, hreading] at hdecode
      exact (Option.some.inj hdecode).symm
    · exact .inl he
  · intro i
    change m ∈ (s.setNode task.node ((s.nodes task.node).setReading reading')).seen i ↔ _
    rw [System.seen_setReading]

theorem carries_sendTask {task : Task ι} {addrs : List Text} (htask : s.tasks[k]? = some task)
    (hstage : task.stage = .send addrs) (h : task.Genuine D m payload t) :
    Carries D m payload reading f t s (s.sendTask k task addrs) := by
  simp only [Task.Genuine, hstage] at h
  cases addrs with
  | nil =>
    refine carries_replaceTask htask ?_ ?_ ?_
    · intro task' htask'
      cases htask'
    · exact fun i => Nat.zero_le _
    · exact fun i => rfl
  | cons addr addrs =>
    have hid : (⟨task.node, addr, task.msg.format, task.path⟩ : Frame ι).id = some task.msg.id :=
      Frame.id_eq h.wf rfl
    have hc : Carries D m payload reading f t s
        (s.replaceTask k [{ task with stage := .send addrs }]) := by
      refine carries_replaceTask htask ?_ ?_ ?_
      · intro task' htask'
        obtain rfl := List.mem_singleton.1 htask'
        exact h
      · intro i
        rw [owed_singleton]
        simp only [Task.cost, hstage, List.length_cons]
        split_ifs
        · omega
        · rfl
      · intro i
        simp [storing, Task.stores]
    refine ⟨?_, hc.tasks, ?_, hc.once, hc.stored, hc.heard, hc.commands, hc.seen⟩
    · intro frame hframe
      rcases List.mem_append.1 hframe with hframe | hframe
      · exact .inl hframe
      · obtain rfl := List.mem_singleton.1 hframe
        exact .inr ⟨task.msg, rfl, h⟩
    · intro i
      change (s.frames ++ [_]).countP _ + owed m f i ([_] ++ s.tasks.eraseIdx k)
        ≤ s.frames.countP _ + _
      rw [owed_append, owed_singleton, owed_perm (perm_eraseIdx htask), owed_cons,
        List.countP_append]
      simp only [Task.cost, hstage, List.length_cons, List.countP_singleton, hid,
        Option.some.injEq, decide_eq_true_eq]
      split_ifs
      · omega
      · omega

theorem Carries.refl : Carries D m payload reading f t s s :=
  ⟨fun _ => .inl, fun _ => .inl, fun _ => le_rfl, fun _ => le_rfl, fun _ => .inl, fun _ => .inl,
    fun _ => .inl, fun _ => .rfl⟩

/-- Which frames arrived is not looked at. -/
theorem Flood.delivered (h : Flood D m payload reading f t o s) (d : Finset ℕ) :
    Flood D m payload reading f t o { s with delivered := d } :=
  ⟨h.frames, h.tasks, h.budget, h.once, h.stored, h.heard, h.commands, h.origin⟩

theorem Carries.of_delivered {d : Finset ℕ}
    (h : Carries D m payload reading f t { s with delivered := d } s') :
    Carries D m payload reading f t s s' :=
  ⟨h.frames, h.tasks, h.budget, h.once, h.stored, h.heard, h.commands, h.seen⟩

theorem carries_handleGossipConn {msg : Msg} {path : List ι}
    (h : Genuine m payload (t + 1) msg path) (hreading : D.codec.decode payload = some reading) :
    Carries D m payload reading f t s (s.handleGossipConn D msg.format) := by
  have hrefl : Carries D m payload reading f t s s := .refl
  rcases System.handleGossipConn_cases (D := D) (s := s) h.wf with
    heq | ⟨reading', hdecode, ⟨command, hcommand, heq⟩ | heq⟩
  · rw [heq]
    exact hrefl
  · rw [heq]
    refine ⟨hrefl.frames, hrefl.tasks, hrefl.budget, hrefl.once, hrefl.stored, hrefl.heard, ?_,
      hrefl.seen⟩
    intro e he
    rcases List.mem_cons.1 he with rfl | he
    · refine .inr fun hid => ?_
      rw [D.codec.decode_encode hcommand, ← hdecode, h.payload_eq hid, hreading]
    · exact .inl he
  · rw [heq]
    refine ⟨hrefl.frames, hrefl.tasks, hrefl.budget, hrefl.once, hrefl.stored, ?_, hrefl.commands,
      hrefl.seen⟩
    intro e he
    rcases List.mem_cons.1 he with rfl | he
    · refine .inr fun hid => ?_
      rw [h.payload_eq hid, hreading] at hdecode
      exact (Option.some.inj hdecode).symm
    · exact .inl he

/-- A node sees the message: the origin when it broadcasts, another one when it takes a frame. -/
theorem Flood.mark (h : Flood D m payload reading f t o s) (task : Task ι)
    (hnew : m ∉ s.seen task.node) (hgen : task.Genuine D m payload t)
    (hstage : (task.node = o ∧ task.stage = .select)
      ∨ (task.node ≠ o ∧ m ∈ s.seen o ∧ ∃ reading', task.stage = .store reading')) :
    Flood D m payload reading f t o { s.mark task.node m with tasks := task :: s.tasks } := by
  have hseen (j : ι) : m ∈ (s.mark task.node m).seen j ↔ j = task.node ∨ m ∈ s.seen j := by
    rw [System.mem_seen_mark, and_iff_left rfl]
  refine ⟨h.frames, ?_, ?_, ?_, h.stored, h.heard, h.commands, ?_⟩
  · intro task' htask'
    rcases List.mem_cons.1 htask' with rfl | htask'
    · exact hgen
    · exact h.tasks task' htask'
  · intro j
    have hbudget := h.budget j
    change s.sent m j + owed m f j (task :: s.tasks)
      ≤ if m ∈ (s.mark task.node m).seen j then f else 0
    rw [owed_cons]
    by_cases hj : j = task.node
    · subst hj
      have hcost : task.cost m f task.node ≤ f := by
        refine cost_le fun addrs haddrs => ?_
        rcases hstage with ⟨-, hstage⟩ | ⟨-, -, reading', hstage⟩
        · simp [hstage] at haddrs
        · simp [hstage] at haddrs
      rw [if_neg hnew] at hbudget
      rw [if_pos ((hseen _).2 (.inl rfl))]
      omega
    · have hcost : task.cost m f j = 0 := if_neg fun hnode => hj hnode.1.symm
      simp only [hseen, hj, false_or, hcost, Nat.zero_add]
      exact hbudget
  · intro j
    have honce := h.once j
    change s.storedCount m j + storing m j (task :: s.tasks)
      ≤ if m ∈ (s.mark task.node m).seen j ∧ j ≠ o then 1 else 0
    rw [storing_cons]
    by_cases hj : j = task.node
    · subst hj
      rw [if_neg fun hboth => hnew hboth.1] at honce
      rcases hstage with ⟨-, hstage⟩ | ⟨hne, -, -⟩
      · have hstores : task.stores m task.node = false := by simp [Task.stores, hstage]
        rw [hstores, if_neg Bool.false_ne_true]
        omega
      · have hmem : m ∈ (s.mark task.node m).seen task.node := (hseen _).2 (.inl rfl)
        rw [if_pos (And.intro hmem hne)]
        split_ifs <;> omega
    · have hstores : task.stores m j = false := by
        unfold Task.stores
        split
        · simp [Ne.symm hj]
        · rfl
      simp only [hseen, hj, false_or, hstores, Bool.false_eq_true, if_false, Nat.add_zero]
      exact honce
  · left
    change m ∈ (s.mark task.node m).seen o
    rw [hseen]
    rcases hstage with ⟨hnode, -⟩ | ⟨-, ho, -⟩
    · exact .inl hnode.symm
    · exact .inr ho

omit [DecidableEq ι] in
/-- A copy of the broadcast is never refused. -/
theorem Genuine.id_ne {msg : Msg} {path : List ι} {total : ℤ}
    (h : Genuine m payload total msg path) (hreading : D.codec.decode payload = some reading)
    (hbad : msg.ttl < 0 ∨ D.codec.decode msg.payload = none) : msg.id ≠ m := by
  intro hid
  rcases hbad with hbad | hbad
  · exact absurd (h.ttl_nonneg hid) (not_le.2 hbad)
  · rw [h.payload_eq hid, hreading] at hbad
    cases hbad

/-- A node that is given a frame. -/
theorem Flood.receive (h : Flood D m payload reading f t o s) {i : ι} {msg : Msg} {path : List ι}
    (hgen : Genuine m payload (t + 1) msg path) (ho : msg.id = m → m ∈ s.seen o)
    (hreading : D.codec.decode payload = some reading) :
    Carries D m payload reading f t s (s.receive D i msg.format path)
      ∨ m ∈ s.seen o ∧ m ∈ (s.receive D i msg.format path).seen o
        ∧ Flood D m payload reading f t o (s.receive D i msg.format path) := by
  rcases System.receive_cases (D := D) (s := s) (i := i) hgen.wf path with
    ⟨-, heq⟩ | ⟨-, hbad, heq⟩ | ⟨reading', hnew, h0, hdecode, heq⟩
  · rw [heq]
    exact .inl .refl
  · rw [heq]
    exact .inl (carries_mark (hgen.id_ne hreading hbad) [] (by simp) (by simp))
  · rw [heq]
    have htask : Task.Genuine D m payload t ⟨i, msg, path ++ [i], .store reading'⟩ := by
      refine ⟨⟨hgen.wf, by simp, hgen.payload_eq, hgen.ttl_nonneg, fun hid => ?_⟩, h0, hdecode⟩
      have := hgen.ttl_add hid
      simp only [List.length_append, List.length_singleton]
      omega
    by_cases hid : msg.id = m
    · subst hid
      have hne : i ≠ o := fun hio => hnew (hio ▸ ho rfl)
      refine .inr ⟨ho rfl, System.mem_seen_mark.2 (.inr (ho rfl)), ?_⟩
      exact h.mark ⟨i, msg, path ++ [i], .store reading'⟩ hnew htask
        (.inr ⟨hne, ho rfl, reading', rfl⟩)
    · refine .inl (carries_mark hid [_] ?_ ?_)
      · simp
      · intro task hmem
        obtain rfl := List.mem_singleton.1 hmem
        exact htask

/-- A step carries the invariant over, or is the first time that a node takes the message. -/
theorem Flood.step_cases (h : Flood D m payload reading f t o s) {a : Action ι}
    (hf : ∀ i, (D.cfg i).gossipFanout ≤ f) (hreading : D.codec.decode payload = some reading)
    (ha : a.broadcastID D ≠ some m) (hstep : s.step D a = some s') :
    Carries D m payload reading f t s s'
      ∨ m ∈ s.seen o ∧ m ∈ s'.seen o ∧ Flood D m payload reading f t o s' := by
  have hmem {k : ℕ} {task : Task ι} (htask : s.tasks[k]? = some task) :
      task.Genuine D m payload t :=
    h.tasks task (List.mem_of_getElem? htask)
  cases a with
  | broadcast i reading' =>
    left
    have hid : gossipMessageID D.sha256 (D.cfg i).nodeID reading'.timestamp ≠ m :=
      fun hid => ha (congrArg some hid)
    rcases System.step_broadcast hstep with ⟨-, rfl⟩ | ⟨encoded, hencoded, rfl⟩
    · exact .refl
    · refine carries_mark hid [_] ?_ ?_
      · simp
      · intro task htask
        obtain rfl := List.mem_singleton.1 htask
        exact ⟨wf_gossipBroadcast hencoded, Nat.one_pos, fun h => absurd h hid,
          fun h => absurd h hid, fun h => absurd h hid⟩
  | deliver n =>
    obtain ⟨frame, hframe, hdest⟩ := System.step_deliver hstep
    have hframe := List.mem_of_getElem? hframe
    obtain ⟨msg, htext, hgen⟩ := h.frames frame hframe
    rw [htext] at hdest
    rcases hdest with ⟨-, rfl⟩ | ⟨i, -, rfl⟩
    · exact .inl (carries_handleGossipConn hgen hreading).of_delivered
    · refine ((h.delivered (insert n s.delivered)).receive hgen ?_ hreading).imp_left
        Carries.of_delivered
      exact fun hid => h.mem_seen hframe (by rw [Frame.id_eq hgen.wf htext, hid])
  | store k =>
    obtain ⟨task, reading', htask, hstage, rfl⟩ := System.step_store hstep
    exact .inl (carries_storeTask htask hstage (hmem htask) hreading)
  | select k indices =>
    obtain ⟨task, htask, hstage, rfl⟩ := System.step_select hstep
    exact .inl (carries_selectTask htask hstage (hmem htask) hf)
  | send k =>
    obtain ⟨task, addrs, htask, hstage, rfl⟩ := System.step_send hstep
    exact .inl (carries_sendTask htask hstage (hmem htask))
  | upsertPeer i addr =>
    obtain rfl := Option.some.inj hstep
    refine .inl (carries_setNode ?_)
    unfold NodeState.upsertPeer
    split_ifs <;> rfl
  | setReading i reading' =>
    obtain rfl := Option.some.inj hstep
    exact .inl (carries_setNode rfl)

theorem Flood.step (h : Flood D m payload reading f t o s) {a : Action ι}
    (hf : ∀ i, (D.cfg i).gossipFanout ≤ f) (hreading : D.codec.decode payload = some reading)
    (ha : a.broadcastID D ≠ some m) (hstep : s.step D a = some s') :
    Flood D m payload reading f t o s' := by
  rcases h.step_cases hf hreading ha hstep with hc | ⟨-, -, h'⟩
  · exact h.carry hc
  · exact h'

/-- Nobody sees the message before it is broadcast. -/
theorem Flood.unseen_step (h : Flood D m payload reading f t o s) {a : Action ι}
    (hf : ∀ i, (D.cfg i).gossipFanout ≤ f) (hreading : D.codec.decode payload = some reading)
    (ha : a.broadcastID D ≠ some m) (hunseen : ∀ i, m ∉ s.seen i)
    (hstep : s.step D a = some s') (i : ι) : m ∉ s'.seen i := by
  rcases h.step_cases hf hreading ha hstep with hc | ⟨ho, -⟩
  · rw [hc.seen]
    exact hunseen i
  · exact absurd ho (hunseen o)

theorem Flood.seen_step (h : Flood D m payload reading f t o s) {a : Action ι}
    (hf : ∀ i, (D.cfg i).gossipFanout ≤ f) (hreading : D.codec.decode payload = some reading)
    (ha : a.broadcastID D ≠ some m) (ho : m ∈ s.seen o) (hstep : s.step D a = some s') :
    m ∈ s'.seen o := by
  rcases h.step_cases hf hreading ha hstep with hc | ⟨-, ho', -⟩
  · rwa [hc.seen]
  · exact ho'

theorem Flood.broadcast (h : Flood D m payload reading f (D.cfg o).gossipTTL o s)
    (hunseen : ∀ i, m ∉ s.seen i)
    (hm : gossipMessageID D.sha256 (D.cfg o).nodeID reading.timestamp = m)
    (ht : 0 ≤ (D.cfg o).gossipTTL) (hpayload : D.codec.encode reading = some payload)
    (hstep : s.step D (.broadcast o reading) = some s') :
    Flood D m payload reading f (D.cfg o).gossipTTL o s' ∧ m ∈ s'.seen o := by
  subst hm
  rcases System.step_broadcast hstep with ⟨hnone, -⟩ | ⟨encoded, hencoded, rfl⟩
  · rw [hpayload] at hnone
    cases hnone
  · obtain rfl : payload = encoded := Option.some.inj (hpayload.symm.trans hencoded)
    refine ⟨h.mark ⟨o, ⟨_, (D.cfg o).gossipTTL, payload⟩, [o], .select⟩ (hunseen o) ?_
      (.inl ⟨rfl, rfl⟩), System.mem_seen_mark.2 (.inl ⟨rfl, rfl⟩)⟩
    exact ⟨wf_gossipBroadcast hencoded, Nat.one_pos, fun _ => rfl, fun _ => ht, fun _ => rfl⟩

end Steps

/-! ## Whole runs -/

section Runs

variable {D : Deployment ι} {m payload : Text} {reading : Reading} {f : ℕ} {o : ι}
  {s₀ s : System ι} {pre post : List (Action ι)}

/-- The invariant rule for runs with one broadcast of the message. -/
theorem flood_invariant {J : System ι → Prop} (hf : ∀ i, (D.cfg i).gossipFanout ≤ f)
    (ht : 0 ≤ (D.cfg o).gossipTTL) (hpayload : D.codec.encode reading = some payload)
    (hm : gossipMessageID D.sha256 (D.cfg o).nodeID reading.timestamp = m) (h₀ : s₀.Initial m)
    (hids : ∀ a ∈ pre ++ post, a.broadcastID D ≠ some m)
    (hrun : NetworkRun D s₀ (pre ++ .broadcast o reading :: post) s) (hJ₀ : J s₀)
    (hJ : ∀ u a v, a ∈ pre ++ post → Flood D m payload reading f (D.cfg o).gossipTTL o u → J u →
      u.step D a = some v → J v)
    (hJb : ∀ u v, J u → u.step D (.broadcast o reading) = some v → J v) :
    Flood D m payload reading f (D.cfg o).gossipTTL o s ∧ m ∈ s.seen o ∧ J s := by
  have hreading := D.codec.decode_encode hpayload
  rw [List.append_cons] at hrun
  obtain ⟨s₂, hrun, hpost⟩ := hrun.split
  obtain ⟨s₁, hpre, -, hstep⟩ := hrun.concat_inv
  have hquiet : (Flood D m payload reading f (D.cfg o).gossipTTL o s₁ ∧ J s₁)
      ∧ ∀ i, m ∉ s₁.seen i := by
    refine hpre.mem.invariant (I := fun u => (Flood D m payload reading f (D.cfg o).gossipTTL o u
      ∧ J u) ∧ ∀ i, m ∉ u.seen i) ⟨⟨flood_initial h₀, hJ₀⟩, h₀.unseen⟩ ?_
    intro u a v hu ha hs
    have hmem : a ∈ pre ++ post := List.mem_append_left _ ha.2
    exact ⟨⟨hu.1.1.step hf hreading (hids a hmem) hs, hJ u a v hmem hu.1.1 hu.1.2 hs⟩,
      hu.1.1.unseen_step hf hreading (hids a hmem) hu.2 hs⟩
  obtain ⟨hflood, ho⟩ := hquiet.1.1.broadcast hquiet.2 hm ht hpayload hstep
  refine hpost.mem.invariant (I := fun u => Flood D m payload reading f (D.cfg o).gossipTTL o u
    ∧ m ∈ u.seen o ∧ J u) ⟨hflood, ho, hJb s₁ s₂ hquiet.1.2 hstep⟩ ?_
  intro u a v hu ha hs
  have hmem : a ∈ pre ++ post := List.mem_append_right _ ha.2
  exact ⟨hu.1.step hf hreading (hids a hmem) hs, hu.1.seen_step hf hreading (hids a hmem) hu.2.1 hs,
    hJ u a v hmem hu.1 hu.2.2 hs⟩

/-- A frame is sent by some node. -/
theorem countP_eq_sum [Fintype ι] (frames : List (Frame ι)) (q : Frame ι → Bool) :
    frames.countP q = ∑ i, frames.countP fun frame => frame.sender = i ∧ q frame = true := by
  induction frames with
  | nil => simp
  | cons frame frames ih =>
    simp only [List.countP_cons, Finset.sum_add_distrib, ← ih, decide_eq_true_eq]
    congr 1
    by_cases hq : q frame = true
    · simp [hq]
    · simp [hq]

end Runs

/-- The number of nodes that passed the message on before the sender. -/
def Frame.forwards (frame : Frame ι) : ℕ := frame.path.length - 1

/-- One broadcast in a run: how often it is stored and sent, and what is stored and sent. -/
theorem gossip_flood [Fintype ι] (D : Deployment ι) (pre post : List (Action ι)) (o : ι)
    (reading : Reading) (payload m : Text) (f : ℕ) (s₀ s : System ι)
    (hf : ∀ i, (D.cfg i).gossipFanout ≤ f) (ht : 0 ≤ (D.cfg o).gossipTTL)
    (hpayload : D.codec.encode reading = some payload)
    (hm : gossipMessageID D.sha256 (D.cfg o).nodeID reading.timestamp = m) (h₀ : s₀.Initial m)
    (hids : ∀ a ∈ pre ++ post, a.broadcastID D ≠ some m)
    (hrun : NetworkRun D s₀ (pre ++ .broadcast o reading :: post) s) :
    (∀ i, s.storedCount m i ≤ 1) ∧ s.storedCount m o = 0
      ∧ (∀ i, s.sent m i ≤ f)
      ∧ s.frames.countP (fun frame => frame.id = some m) ≤ f * Fintype.card ι
      ∧ (∀ frame ∈ s.frames, frame.id = some m → ∃ v : ℤ,
        frame.text = Msg.format ⟨m, v, payload⟩ ∧ 0 ≤ v ∧ v ≤ (D.cfg o).gossipTTL
          ∧ v = (D.cfg o).gossipTTL - frame.forwards)
      ∧ (∀ e ∈ s.stored, e.msg.id = m → e.reading = reading)
      ∧ (∀ e ∈ s.heard, e.1 = m → e.2 = reading)
      ∧ ∀ e ∈ s.commands, e.1 = m → D.codec.decode e.2 = some reading := by
  have h := (flood_invariant (J := fun _ => True) hf ht hpayload hm h₀ hids hrun trivial
    (fun _ _ _ _ _ _ _ => trivial) (fun _ _ _ _ => trivial)).1
  have hsent (i : ι) : s.sent m i ≤ f := by
    have := h.budget i
    split_ifs at this <;> omega
  refine ⟨fun i => ?_, ?_, hsent, ?_, ?_, h.stored, h.heard, h.commands⟩
  · have := h.once i
    split_ifs at this <;> omega
  · have := h.once o
    rw [if_neg fun ho => ho.2 rfl] at this
    omega
  · rw [countP_eq_sum]
    calc ∑ i, s.frames.countP (fun frame => frame.sender = i ∧ decide (frame.id = some m) = true)
        = ∑ i, s.sent m i := by simp only [System.sent, decide_eq_true_eq]
      _ ≤ ∑ _i : ι, f := Finset.sum_le_sum fun i _ => hsent i
      _ = f * Fintype.card ι := by simp [Nat.mul_comm]
  · intro frame hframe hid
    obtain ⟨msg, htext, hgen⟩ := h.frames frame hframe
    have hmsg : msg.id = m := Option.some.inj ((Frame.id_eq hgen.wf htext).symm.trans hid)
    have hpos := hgen.path_pos
    have hadd := hgen.ttl_add hmsg
    refine ⟨msg.ttl, ?_, hgen.ttl_nonneg hmsg, by omega, ?_⟩
    · rw [htext, ← hmsg, ← hgen.payload_eq hmsg]
    · simp only [Frame.forwards]
      omega

/-- In the network of four nodes the reading of the node 0 is stored on two others. -/
theorem gossip_flood_four :
    ∃ s, NetworkRun four fourStart
        ([] ++ .broadcast 0 (readingAt 1) :: (fourSends ++ [.deliver 2, .store 0, .deliver 1])) s
      ∧ s.stored.map Stored.node = [2, 1] ∧ s.frames.length = 3
      ∧ (∀ i, s.storedCount fourID i ≤ 1)
      ∧ s.frames.countP (fun frame => frame.id = some fourID) ≤ 3 * 4 := by
  obtain ⟨s, hrun, hs⟩ : ∃ s, NetworkRun four fourStart _ s ∧ _ :=
    exists_run
      ([] ++ .broadcast 0 (readingAt 1) :: (fourSends ++ [.deliver 2, .store 0, .deliver 1]))
      (fun s => s.stored.map Stored.node = [2, 1] ∧ s.frames.length = 3) (by decide +kernel)
  obtain ⟨hstored, hframes⟩ := of_decide_eq_true hs
  have h := gossip_flood four [] (fourSends ++ [.deliver 2, .store 0, .deliver 1]) 0 (readingAt 1)
    payloadAt1 fourID 3 fourStart s (fun _ => le_rfl) (by decide) encode_four gossipMessageID_four
    initial_fourStart (by decide) hrun
  exact ⟨s, hrun, hstored, hframes, h.1, h.2.2.2.1⟩

end EdgeSim.SensorNode
