import EdgeSim.Coordinator.Service
import EdgeSim.SensorNode.Freshness
import EdgeSim.SensorNode.Network

/-!
# From the sensors to the stores

The whole deployment: sensor nodes gossip their readings to each other and to the coordinators,
each of which hands what it hears to the Raft nodes, and these fill the stores. Frames may be lost,
doubled and delayed everywhere, handlers and nodes interleave freely, and leaders change. Whatever a
store holds was broadcast by a sensor, exactly as it stands there.
-/

namespace EdgeSim.SensorNode

open Coordinator (Reading)

/-- A message with the code of a reading of the given kind. -/
structure Sent (codec : Codec) (broadcast : Reading → Prop) (msg : Msg) : Prop where
  wf : msg.WF
  reading : ∃ reading, broadcast reading ∧ codec.encode reading = some msg.payload

/-- All that is under way was broadcast once. -/
structure Carried {ι : Type} (codec : Codec) (broadcast : Reading → Prop) (s : System ι) :
    Prop where
  frames : ∀ frame ∈ s.frames, ∃ msg : Msg, frame.text = msg.format ∧ Sent codec broadcast msg
  tasks : ∀ task ∈ s.tasks, Sent codec broadcast task.msg
    ∧ ∀ reading, task.stage = .store reading → 0 ≤ task.msg.ttl

section

variable {ι : Type} [DecidableEq ι] {D : Deployment ι} {B B' : Reading → Prop} {s s' : System ι}
  {codec : Codec} {a : Action ι} {k : ℕ}

theorem Sent.mono {msg : Msg} (h : Sent codec B msg) (hB : ∀ r, B r → B' r) :
    Sent codec B' msg := by
  obtain ⟨reading, hreading, hencode⟩ := h.reading
  exact ⟨h.wf, reading, hB reading hreading, hencode⟩

omit [DecidableEq ι] in
theorem Carried.mono (h : Carried codec B s) (hB : ∀ r, B r → B' r) : Carried codec B' s where
  frames frame hframe := by
    obtain ⟨msg, htext, hsent⟩ := h.frames frame hframe
    exact ⟨msg, htext, hsent.mono hB⟩
  tasks task htask := ⟨(h.tasks task htask).1.mono hB, (h.tasks task htask).2⟩

omit [DecidableEq ι] in
/-- A task goes on with its message, or with the message that it forwards. -/
theorem Carried.replaceTask (h : Carried codec B s) (next : List (Task ι)) (frames : List (Frame ι))
    (hnext : ∀ x ∈ next, Sent codec B x.msg ∧ ∀ reading, x.stage ≠ .store reading)
    (hframes : ∀ x ∈ frames, ∃ msg : Msg, x.text = msg.format ∧ Sent codec B msg)
    (hf : s'.frames = s.frames ++ frames) (ht : s'.tasks = next ++ s.tasks.eraseIdx k) :
    Carried codec B s' where
  frames x hx := by
    rw [hf] at hx
    exact (List.mem_append.1 hx).elim (h.frames x) (hframes x)
  tasks x hx := by
    rw [ht] at hx
    rcases List.mem_append.1 hx with hx | hx
    · exact ⟨(hnext x hx).1, fun reading hstage => absurd hstage ((hnext x hx).2 reading)⟩
    · exact h.tasks x (List.mem_of_mem_eraseIdx hx)

theorem Carried.receive (h : Carried D.codec B s) {msg : Msg} (hsent : Sent D.codec B msg) (i : ι)
    (path : List ι) : Carried D.codec B (s.receive D i msg.format path) := by
  rcases s.receive_cases (D := D) (i := i) hsent.wf path with
    ⟨-, heq⟩ | ⟨-, -, heq⟩ | ⟨reading, -, h0, -, heq⟩
  · rw [heq]
    exact h
  · rw [heq]
    exact ⟨h.frames, h.tasks⟩
  · rw [heq]
    refine ⟨h.frames, fun task htask => ?_⟩
    rcases List.mem_cons.1 htask with rfl | htask
    · exact ⟨hsent, fun _ _ => h0⟩
    · exact h.tasks task htask

omit [DecidableEq ι] in
theorem Carried.handleGossipConn (h : Carried codec B s) (payload : Text) :
    Carried codec B (s.handleGossipConn D payload) := by
  unfold System.handleGossipConn
  split
  · exact h
  · split_ifs
    · split
      · exact h
      · exact ⟨h.frames, h.tasks⟩
    · exact ⟨h.frames, h.tasks⟩

theorem Carried.step (h : Carried D.codec B s) (hB : ∀ i r, a = .broadcast i r → B r)
    (hstep : s.step D a = some s') : Carried D.codec B s' := by
  cases a with
  | broadcast i reading =>
    rcases System.step_broadcast hstep with ⟨-, rfl⟩ | ⟨encoded, hencode, rfl⟩
    · exact h
    · refine ⟨h.frames, fun task htask => ?_⟩
      rcases List.mem_cons.1 htask with rfl | htask
      · exact ⟨⟨wf_gossipBroadcast hencode, reading, hB i reading rfl, hencode⟩, by simp⟩
      · exact h.tasks task htask
  | deliver n =>
    obtain ⟨frame, hframe, hdest⟩ := System.step_deliver hstep
    obtain ⟨msg, htext, hsent⟩ := h.frames frame (List.mem_of_getElem? hframe)
    have hd : Carried D.codec B { s with delivered := insert n s.delivered } := ⟨h.frames, h.tasks⟩
    rw [htext] at hdest
    rcases hdest with ⟨-, rfl⟩ | ⟨i, -, rfl⟩
    · exact hd.handleGossipConn _
    · exact hd.receive hsent i frame.path
  | store k =>
    obtain ⟨task, reading, htask, hstage, rfl⟩ := System.step_store hstep
    obtain ⟨hsent, h0⟩ := h.tasks task (List.mem_of_getElem? htask)
    refine h.replaceTask (if task.msg.ttl = 0 then [] else
      [{ task with msg := task.msg.forward, stage := .select }]) [] (fun x hx => ?_) (by simp)
      (List.append_nil _).symm rfl
    split_ifs at hx
    · cases hx
    · rw [List.mem_singleton.1 hx]
      exact ⟨⟨hsent.wf.forward (h0 reading hstage), hsent.reading⟩, by simp⟩
  | select k indices =>
    obtain ⟨task, htask, hstage, rfl⟩ := System.step_select hstep
    refine h.replaceTask [_] [] (fun x hx => ?_) (by simp) (List.append_nil _).symm rfl
    rw [List.mem_singleton.1 hx]
    exact ⟨(h.tasks task (List.mem_of_getElem? htask)).1, by simp⟩
  | send k =>
    obtain ⟨task, addrs, htask, hstage, rfl⟩ := System.step_send hstep
    have hsent := (h.tasks task (List.mem_of_getElem? htask)).1
    cases addrs with
    | nil => exact h.replaceTask [] [] (by simp) (by simp) (List.append_nil _).symm rfl
    | cons addr addrs =>
      refine h.replaceTask [_] [⟨task.node, addr, task.msg.format, task.path⟩] (fun x hx => ?_)
        (fun x hx => ?_) rfl rfl
      · rw [List.mem_singleton.1 hx]
        exact ⟨hsent, by simp⟩
      · rw [List.mem_singleton.1 hx]
        exact ⟨task.msg, rfl, hsent⟩
  | upsertPeer i addr =>
    obtain rfl := Option.some.inj hstep
    exact ⟨h.frames, h.tasks⟩
  | setReading i reading =>
    obtain rfl := Option.some.inj hstep
    exact ⟨h.frames, h.tasks⟩

/-- What a coordinator reads in a frame was broadcast. -/
theorem Sent.coordinatorReading {msg : Msg} {id : Text} {reading : Reading}
    (h : Sent codec B msg) (hread : coordinatorReading codec msg.format = some (id, reading)) :
    B reading := by
  obtain ⟨reading', hB, hencode⟩ := h.reading
  rw [h.wf.coordinatorReading, codec.decode_encode hencode] at hread
  simp only [Option.map_some, Option.some.injEq, Prod.mk.injEq] at hread
  rw [← hread.2]
  exact hB

end

end EdgeSim.SensorNode

namespace EdgeSim.Coordinator

open Raft (Cluster)
open SensorNode (Carried Text)

variable {C : Cluster} {ι : Type}

/-- The sensors, the coordinators, and which coordinator takes gossip at an address. -/
structure Grid (C : Cluster) (ι : Type) where
  sensors : SensorNode.Deployment ι
  coordinators : Deployment C
  gossip : Text → Option String

structure GridState (ι : Type) where
  sensors : SensorNode.System ι
  service : Service

inductive GridAction (ι : Type) where
  | sensor (a : SensorNode.Action ι)
  /-- the frame `n` of the sensors arrives at the coordinator it was sent to -/
  | deliver (n : ℕ)
  /-- a step of the coordinators in which no gossip arrives -/
  | coordinator (x : ServiceAction)
  deriving DecidableEq

def ServiceAction.isReceive : ServiceAction → Bool
  | .receive _ _ => true
  | _ => false

variable [DecidableEq ι]

def GridState.step (G : Grid C ι) (s : GridState ι) : GridAction ι → Option (GridState ι)
  | .sensor a => (s.sensors.step G.sensors a).map fun sensors => { s with sensors }
  | .deliver n =>
    match s.sensors.frames[n]? with
    | none => none
    | some frame =>
      match Wire.readFrame (Wire.writeFrame frame.text), G.gossip frame.addr with
      | (.ok payload, []), some coord =>
        (s.service.step G.coordinators G.sensors.codec (.receive coord payload)).map
          fun service => { s with service }
      | _, _ => none
  | .coordinator x =>
    if x.isReceive then none
    else (s.service.step G.coordinators G.sensors.codec x).map fun service => { s with service }

abbrev GridRun (G : Grid C ι) : GridState ι → List (GridAction ι) → GridState ι → Prop :=
  Runs.Run (GridState.step G) fun _ _ => True

/-- The sensor `i` broadcasts the reading. -/
def Broadcast (as : List (GridAction ι)) (reading : Reading) : Prop :=
  ∃ i, .sensor (.broadcast i reading) ∈ as

section

variable {G : Grid C ι} {store : ReadingStore} {s t : GridState ι} {as : List (GridAction ι)}
  {a : GridAction ι}

omit [DecidableEq ι] in
theorem Broadcast.mono {reading : Reading} (h : Broadcast as reading) (a : GridAction ι) :
    Broadcast (as ++ [a]) reading :=
  h.imp fun _ => List.mem_append_left _

structure GridInv (G : Grid C ι) (store : ReadingStore) (as : List (GridAction ι))
    (s : GridState ι) : Prop where
  carried : Carried G.sensors.codec (Broadcast as) s.sensors
  service : ∃ xs, ServiceRun G.coordinators G.sensors.codec (Service.init C store) xs s.service
    ∧ ∀ r ∈ receivedReadings G.sensors.codec xs, Broadcast as r

theorem GridInv.step (h : GridInv G store as s) (hstep : s.step G a = some t) :
    GridInv G store (as ++ [a]) t := by
  obtain ⟨xs, hrun, hreceived⟩ := h.service
  have hold : ∀ r ∈ receivedReadings G.sensors.codec xs, Broadcast (as ++ [a]) r :=
    fun r hr => (hreceived r hr).mono a
  have hcarried : Carried G.sensors.codec (Broadcast (as ++ [a])) s.sensors :=
    h.carried.mono fun r hr => hr.mono a
  cases a with
  | sensor a =>
    obtain ⟨sensors, hsensors, rfl⟩ := Option.map_eq_some_iff.1 hstep
    refine ⟨hcarried.step (fun i r ha => ⟨i, ?_⟩) hsensors, xs, hrun, hold⟩
    rw [ha]
    exact List.mem_append_right _ (List.mem_singleton_self _)
  | deliver n =>
    simp only [GridState.step] at hstep
    split at hstep
    · cases hstep
    rename_i frame hframe
    split at hstep
    · rename_i payload coord hread hgossip
      obtain ⟨service, hservice, rfl⟩ := Option.map_eq_some_iff.1 hstep
      obtain ⟨msg, htext, hsent⟩ := hcarried.frames frame (List.mem_of_getElem? hframe)
      refine ⟨hcarried, xs ++ [.receive coord payload], hrun.snoc trivial hservice, fun r hr => ?_⟩
      rw [receivedReadings, List.filterMap_append] at hr
      rcases List.mem_append.1 hr with hr | hr
      · exact hold r hr
      · obtain ⟨x, hx, hr⟩ := List.mem_filterMap.1 hr
        rw [List.mem_singleton.1 hx, Wire.eq_of_readFrame_writeFrame hread, htext] at hr
        obtain ⟨⟨id, r'⟩, hr', rfl⟩ := Option.map_eq_some_iff.1 hr
        exact hsent.coordinatorReading hr'
    · cases hstep
  | coordinator x =>
    simp only [GridState.step] at hstep
    split_ifs at hstep with hx
    obtain ⟨service, hservice, rfl⟩ := Option.map_eq_some_iff.1 hstep
    refine ⟨hcarried, xs ++ [x], hrun.snoc trivial hservice, fun r hr => ?_⟩
    rw [receivedReadings, List.filterMap_append] at hr
    rcases List.mem_append.1 hr with hr | hr
    · exact hold r hr
    · cases x <;> simp [ServiceAction.reading, ServiceAction.isReceive] at hr hx

/-- What is found in a store was there before, or is one of the readings that were stored. -/
theorem lookup_upsertAll {readings : List Reading} {name : String} {reading : Reading}
    (h : (SensorNode.upsertAll store readings).readings.lookup name = some reading) :
    store.readings.lookup name = some reading ∨ reading ∈ readings ∧ reading.nodeID = name := by
  rw [SensorNode.readings_upsertAll, SensorNode.lookup_storeAll, Option.or_eq_some_iff] at h
  rcases h with h | ⟨-, h⟩
  · exact .inr ⟨List.mem_reverse.1 (List.mem_of_find?_eq_some h), by simpa using List.find?_some h⟩
  · exact .inl h

theorem run_gridInv {sensors : SensorNode.System ι} (hframes : sensors.frames = [])
    (htasks : sensors.tasks = []) (hrun : GridRun G ⟨sensors, Service.init C store⟩ as s) :
    GridInv G store as s := by
  induction hrun with
  | nil =>
    refine ⟨⟨by simp [hframes], by simp [htasks]⟩, [], .nil, ?_⟩
    simp [receivedReadings]
  | snoc _ _ hstep ih => exact ih.step hstep

omit [DecidableEq ι] in
theorem GridInv.lookup (h : GridInv G store as s) (hfits : G.coordinators.Fits) {id : String}
    (hid : id ∈ C.ids) {name : String} {reading : Reading}
    (hlookup : (s.service.stores id).readings.lookup name = some reading) :
    store.readings.lookup name = some reading
      ∨ reading.nodeID = name ∧ Broadcast as reading := by
  obtain ⟨xs, hservice, hreceived⟩ := h.service
  obtain ⟨readings, -, hsub, heq⟩ := (run_serviceInv hfits hservice).stores_eq hid
  rw [heq] at hlookup
  rcases lookup_upsertAll hlookup with hstart | ⟨hmem, hname⟩
  · exact .inl hstart
  · exact .inr ⟨hname, hreceived reading (hsub.subset hmem)⟩

/-- A reading that any coordinator holds was there at the start, or is one that a sensor broadcast,
under the ID in it. -/
theorem stored_was_broadcast (hfits : G.coordinators.Fits) {sensors : SensorNode.System ι}
    (hframes : sensors.frames = []) (htasks : sensors.tasks = [])
    (hrun : GridRun G ⟨sensors, Service.init C store⟩ as s) {id : String} (hid : id ∈ C.ids)
    {name : String} {reading : Reading}
    (hlookup : (s.service.stores id).readings.lookup name = some reading) :
    store.readings.lookup name = some reading
      ∨ reading.nodeID = name ∧ ∃ i, .sensor (.broadcast i reading) ∈ as :=
  (run_gridInv hframes htasks hrun).lookup hfits hid hlookup

end

/-- One sensor, which knows of a coordinator's address. -/
def oneSensor : Grid Raft.trio (Fin 1) where
  sensors :=
    { codec := SensorNode.codecAt12
      sha256 := fun _ => []
      cfg := fun _ => { SensorNode.Config.default (SensorNode.bytesOf "a") with
        coordinatorAddr := SensorNode.bytesOf "10.0.0.2:9100" }
      resolve := fun _ => none
      raft := true }
  coordinators := proposeDeployment
  gossip addr := if addr = SensorNode.bytesOf "10.0.0.2:9100" then some "b" else none

def oneSensorStart : SensorNode.System (Fin 1) where
  nodes _ := .init (SensorNode.bytesOf "10.0.1.1:9000")
  tasks := []
  frames := []
  store := ⟨∅, false, 0⟩
  delivered := ∅
  stored := []
  heard := []
  commands := []

/-- The sensor's reading goes to `b`, from there to the leader `a`, and to the store of `a`. -/
def oneReading : List (GridAction (Fin 1)) :=
  List.map (fun a => .coordinator (.raft a))
      (Raft.electBy "a" 0 ++ [.readPrevLogIndex 0, .readPrevLogTerm 0] ++ Raft.exchange "b" 0)
    ++ [.sensor (.broadcast 0 (SensorNode.readingAt 1)), .sensor (.select 0 [0]),
      .sensor (.send 0), .deliver 0]
    ++ List.map .coordinator [.state 0, .leaderID 0, .forward 0, .serve 0 5]
    ++ List.map (fun a => .coordinator (.raft a)) (Raft.exchange "b" 2 ++ [.apply "a" 0])

theorem stored_was_broadcast_one : ∃ s,
    GridRun oneSensor ⟨oneSensorStart, Service.init Raft.trio ⟨∅, false, 1⟩⟩ oneReading s
    ∧ (s.service.stores "a").readings.lookup "a" = some (SensorNode.readingAt 1)
    ∧ ∃ i, .sensor (.broadcast i (SensorNode.readingAt 1)) ∈ oneReading := by
  obtain ⟨s, hs, hp⟩ : ∃ s, GridRun oneSensor
      ⟨oneSensorStart, Service.init Raft.trio ⟨∅, false, 1⟩⟩ _ s ∧ _ :=
    Runs.exists_run oneReading
      (fun s => (s.service.stores "a").readings.lookup "a" = some (SensorNode.readingAt 1))
      (by decide +kernel)
  simp only [decide_eq_true_eq] at hp
  refine ⟨s, hs, hp, ?_⟩
  rcases stored_was_broadcast (fun _ _ hm => Stdlib.Json.ofList_fits _ (by decide) hm) rfl rfl hs
    (show "a" ∈ Raft.trio.ids by decide) hp with hstart | ⟨-, hbroadcast⟩
  · cases hstart
  · exact hbroadcast

end EdgeSim.Coordinator
