import EdgeSim.SensorNode.Reach
import Mathlib.Logic.Relation

/-!
# A time to live that is long enough

A node takes a message once, so the nodes that a copy went through are all different. A copy whose
time to live ends has therefore been at as many nodes as the time to live allows, and with two
fewer hops than there are nodes it has been everywhere: then it does not matter which copy is the
first, and every node that can be reached stores the reading.
-/

namespace EdgeSim.SensorNode

open Coordinator (Reading)
open Hops Relation Runs

variable {ι : Type} [DecidableEq ι]

/-- The nodes of the path are different, and have all seen the message. -/
structure Along (m : Text) (seen : ι → Finset Text) (path : List ι) : Prop where
  nodup : path.Nodup
  seen : ∀ i ∈ path, m ∈ seen i

structure Trail (m : Text) (s : System ι) : Prop where
  frames : ∀ frame ∈ s.frames, frame.id = some m → Along m s.seen frame.path
  tasks : ∀ task ∈ s.tasks, task.msg.id = m → Along m s.seen task.path
  stored : ∀ e ∈ s.stored, e.msg.id = m → Along m s.seen e.path

section Steps

variable {D : Deployment ι} {m payload : Text} {reading : Reading} {f : ℕ} {t : ℤ} {o : ι}
  {s s' : System ι} {k n : ℕ}

omit [DecidableEq ι] in
theorem Along.mono {path : List ι} (h : Along m s.seen path)
    (hseen : ∀ i, m ∈ s.seen i → m ∈ s'.seen i) : Along m s'.seen path :=
  ⟨h.nodup, fun i hi => hseen i (h.seen i hi)⟩

omit [DecidableEq ι] in
theorem trail_initial (h : s.Initial m) : Trail m s where
  frames := by simp [h.frames]
  tasks := by simp [h.tasks]
  stored := by simp [h.stored]

omit [DecidableEq ι] in
/-- What is new has gone along nodes that have seen the message. -/
theorem Trail.extend (h : Trail m s) (hseen : ∀ i, m ∈ s.seen i → m ∈ s'.seen i)
    (hframes : ∀ frame ∈ s'.frames,
      frame ∈ s.frames ∨ (frame.id = some m → Along m s'.seen frame.path))
    (htasks : ∀ task ∈ s'.tasks, task ∈ s.tasks ∨ (task.msg.id = m → Along m s'.seen task.path))
    (hstored : ∀ e ∈ s'.stored, e ∈ s.stored ∨ (e.msg.id = m → Along m s'.seen e.path)) :
    Trail m s' where
  frames frame hframe hid := (hframes frame hframe).elim
    (fun hold => (h.frames frame hold hid).mono hseen) fun hnew => hnew hid
  tasks task htask hid := (htasks task htask).elim
    (fun hold => (h.tasks task hold hid).mono hseen) fun hnew => hnew hid
  stored e he hid := (hstored e he).elim
    (fun hold => (h.stored e hold hid).mono hseen) fun hnew => hnew hid

/-- A node sees a message, and takes it up as a task or not. -/
theorem Trail.mark (h : Trail m s) {i : ι} {m' : Text} (next : List (Task ι))
    (hnext : ∀ task ∈ next, task.msg.id = m → Along m (s.mark i m').seen task.path) :
    Trail m { s.mark i m' with tasks := next ++ s.tasks } := by
  refine h.extend (fun j hj => System.mem_seen_mark.2 (.inr hj)) (fun _ => .inl)
    (fun task htask => ?_) fun _ => .inl
  rcases List.mem_append.1 htask with htask | htask
  · exact .inr (hnext task htask)
  · exact .inl htask

omit [DecidableEq ι] in
/-- A task goes on with what it was given. -/
theorem Trail.replaceTask (h : Trail m s) {task : Task ι} (htask : s.tasks[k]? = some task)
    (next : List (Task ι)) (frames : List (Frame ι)) (stored : List (Stored ι))
    (hnext : ∀ x ∈ next, x.msg.id = task.msg.id ∧ x.path = task.path)
    (hframes : ∀ x ∈ frames, x.id = some task.msg.id ∧ x.path = task.path)
    (hstored : ∀ x ∈ stored, x.msg.id = task.msg.id ∧ x.path = task.path)
    (hseen : ∀ i, s'.seen i = s.seen i) (hf : s'.frames = s.frames ++ frames)
    (ht : s'.tasks = next ++ s.tasks.eraseIdx k) (hst : s'.stored = stored ++ s.stored) :
    Trail m s' := by
  have hmono (i : ι) (hi : m ∈ s.seen i) : m ∈ s'.seen i := by rwa [hseen]
  have halong (hid : task.msg.id = m) : Along m s'.seen task.path :=
    (h.tasks task (List.mem_of_getElem? htask) hid).mono hmono
  refine h.extend hmono (fun x hx => ?_) (fun x hx => ?_) fun x hx => ?_
  · rw [hf] at hx
    refine (List.mem_append.1 hx).imp_right fun hx hid => ?_
    rw [(hframes x hx).2]
    exact halong (Option.some.inj ((hframes x hx).1.symm.trans hid))
  · rw [ht] at hx
    refine (List.mem_append.1 hx).symm.imp List.mem_of_mem_eraseIdx fun hx hid => ?_
    rw [(hnext x hx).2]
    exact halong ((hnext x hx).1.symm.trans hid)
  · rw [hst] at hx
    refine (List.mem_append.1 hx).symm.imp_right fun hx hid => ?_
    rw [(hstored x hx).2]
    exact halong ((hstored x hx).1.symm.trans hid)

theorem Trail.receive (h : Trail m s) {frame : Frame ι} {msg : Msg} (hframe : frame ∈ s.frames)
    (hwf : msg.WF) (htext : frame.text = msg.format) (i : ι) :
    Trail m (s.receive D i msg.format frame.path) := by
  rcases s.receive_cases (D := D) (i := i) hwf frame.path with
    ⟨-, heq⟩ | ⟨-, -, heq⟩ | ⟨reading, hnew, -, -, heq⟩
  · rw [heq]
    exact h
  · rw [heq]
    exact h.mark [] (by simp)
  · rw [heq]
    refine h.mark [_] fun task htask hid => ?_
    rw [List.mem_singleton.1 htask] at hid ⊢
    dsimp only at hid ⊢
    subst hid
    have halong := h.frames frame hframe (Frame.id_eq hwf htext)
    constructor
    · refine List.nodup_append.2 ⟨halong.nodup, List.nodup_singleton i, fun a ha b hb hab => ?_⟩
      rw [hab, List.mem_singleton.1 hb] at ha
      exact hnew (halong.seen i ha)
    · intro j hj
      rw [System.mem_seen_mark]
      rcases List.mem_append.1 hj with hj | hj
      · exact .inr (halong.seen j hj)
      · exact .inl ⟨List.mem_singleton.1 hj, rfl⟩

omit [DecidableEq ι] in
theorem Trail.handleGossipConn (h : Trail m s) (payload : Text) :
    Trail m (s.handleGossipConn D payload) := by
  unfold System.handleGossipConn
  split
  · exact h
  · split_ifs
    · split
      · exact h
      · exact ⟨h.frames, h.tasks, h.stored⟩
    · exact ⟨h.frames, h.tasks, h.stored⟩

theorem Trail.step (h : Trail m s) (hflood : Flood D m payload reading f t o s) {a : Action ι}
    (ha : a.broadcastID D ≠ some m) (hstep : s.step D a = some s') : Trail m s' := by
  cases a with
  | broadcast i reading' =>
    rcases System.step_broadcast hstep with ⟨-, rfl⟩ | ⟨encoded, -, rfl⟩
    · exact h
    · refine h.mark [_] fun task htask hid => ?_
      rw [List.mem_singleton.1 htask] at hid
      exact absurd (congrArg some hid) ha
  | deliver n =>
    obtain ⟨frame, hframe, hdest⟩ := System.step_deliver hstep
    have hmem := List.mem_of_getElem? hframe
    obtain ⟨msg, htext, hgen⟩ := hflood.frames frame hmem
    have hd : Trail m { s with delivered := insert n s.delivered } :=
      ⟨h.frames, h.tasks, h.stored⟩
    rw [htext] at hdest
    rcases hdest with ⟨-, rfl⟩ | ⟨i, -, rfl⟩
    · exact hd.handleGossipConn _
    · exact hd.receive hmem hgen.wf htext i
  | store k =>
    obtain ⟨task, reading', htask, hstage, rfl⟩ := System.step_store hstep
    refine h.replaceTask htask (if task.msg.ttl = 0 then [] else
      [{ task with msg := task.msg.forward, stage := .select }]) []
      [⟨task.node, task.msg, reading', task.path⟩] (fun x hx => ?_) (by simp) (by simp)
      (s.seen_setReading task.node reading') (List.append_nil _).symm rfl rfl
    split_ifs at hx
    · cases hx
    · rw [List.mem_singleton.1 hx]
      exact ⟨rfl, rfl⟩
  | select k indices =>
    obtain ⟨task, htask, hstage, rfl⟩ := System.step_select hstep
    exact h.replaceTask htask [_] [] [] (by simp) (by simp) (by simp) (fun _ => rfl)
      (List.append_nil _).symm rfl rfl
  | send k =>
    obtain ⟨task, addrs, htask, hstage, rfl⟩ := System.step_send hstep
    cases addrs with
    | nil =>
      exact h.replaceTask htask [] [] [] (by simp) (by simp) (by simp) (fun _ => rfl)
        (List.append_nil _).symm rfl rfl
    | cons addr addrs =>
      have hgen := hflood.tasks task (List.mem_of_getElem? htask)
      simp only [Task.Genuine, hstage] at hgen
      refine h.replaceTask htask [_] [⟨task.node, addr, task.msg.format, task.path⟩] []
        (by simp) (fun x hx => ?_) (by simp) (fun _ => rfl) rfl rfl rfl
      rw [List.mem_singleton.1 hx]
      exact ⟨Frame.id_eq hgen.wf rfl, rfl⟩
  | upsertPeer i addr =>
    obtain rfl := Option.some.inj hstep
    refine h.extend (fun j hj => ?_) (fun _ => .inl) (fun _ => .inl) fun _ => .inl
    rwa [System.seen_setNode]
    unfold NodeState.upsertPeer
    split_ifs <;> rfl
  | setReading i reading' =>
    obtain rfl := Option.some.inj hstep
    exact h.extend (fun j hj => by rwa [System.seen_setReading]) (fun _ => .inl) (fun _ => .inl)
      fun _ => .inl

theorem Trail.broadcast (h : Trail m s)
    (hm : gossipMessageID D.sha256 (D.cfg o).nodeID reading.timestamp = m)
    (hstep : s.step D (.broadcast o reading) = some s') : Trail m s' := by
  rcases System.step_broadcast hstep with ⟨-, rfl⟩ | ⟨encoded, -, rfl⟩
  · exact h
  · refine h.mark [_] fun task htask _ => ?_
    rw [List.mem_singleton.1 htask]
    refine ⟨List.nodup_singleton o, fun i hi => ?_⟩
    exact System.mem_seen_mark.2 (.inl ⟨List.mem_singleton.1 hi, hm.symm⟩)

end Steps

/-! ## Where a run ends -/

section Settled

variable {D : Deployment ι} {m payload : Text} {t : ℕ} {o : ι} {T : ι → List Text} {s : System ι}

/-- The nodes that have the message pass it on to all their peers: a copy that ends has been at
every node. -/
theorem Reach.closed [Fintype ι] (h : Reach D m payload t o T s) (htrail : Trail m s)
    (hs : s.Settled D m) (hn : Fintype.card ι ≤ t + 2)
    (hwf : ∀ v : ℤ, 0 ≤ v → v ≤ t → Msg.WF ⟨m, v, payload⟩) (ho : m ∈ s.seen o) {i j : ι}
    (hi : i = o ∨ s.Stores m i) (hij : Linked D T i j) : j = o ∨ s.Stores m j := by
  have hseen {i : ι} (hi : m ∈ s.seen i) : i = o ∨ s.Stores m i := by
    refine (h.seen i hi).imp_right fun hholds => hholds.resolve_right ?_
    rintro ⟨task, htask, hstores⟩
    unfold Task.stores at hstores
    split at hstores
    · exact hs.tasks task htask (of_decide_eq_true hstores).2
    · cases hstores
  obtain ⟨addr, haddr, hresolve⟩ := hij
  rcases hi with rfl | ⟨e, he, rfl, hid⟩
  · exact (h.arrived hs (hwf t (by omega) le_rfl) (h.origin ho addr haddr) hresolve).1
  · obtain ⟨⟨hwalk, h0, hadd⟩, howed⟩ := h.stored e he hid
    have hpos := hwalk.length_pos
    by_cases hzero : e.msg.ttl = 0
    · have halong := htrail.stored e he hid
      have hall : e.path.toFinset = Finset.univ := by
        rw [← Finset.card_eq_iff_eq_univ, List.toFinset_card_of_nodup halong.nodup]
        have hle := halong.nodup.length_le_card
        omega
      have hj : j ∈ e.path.toFinset := hall ▸ Finset.mem_univ j
      exact hseen (halong.seen j (List.mem_toFinset.1 hj))
    · exact (h.arrived hs (hwf _ (by omega) (by omega)) (howed hzero addr haddr) hresolve).1

theorem Reach.covers [Fintype ι] (h : Reach D m payload t o T s) (htrail : Trail m s)
    (hs : s.Settled D m) (hn : Fintype.card ι ≤ t + 2)
    (hwf : ∀ v : ℤ, 0 ≤ v → v ≤ t → Msg.WF ⟨m, v, payload⟩) (ho : m ∈ s.seen o) {j : ι}
    (hj : ReflTransGen (Linked D T) o j) : j = o ∨ s.Stores m j := by
  induction hj with
  | refl => exact .inl rfl
  | tail _ hij ih => exact h.closed htrail hs hn hwf ho ih hij

end Settled

section Runs

variable {D : Deployment ι} {pre post : List (Action ι)} {o : ι} {reading : Reading}
  {payload m : Text} {t : ℕ} {s₀ s : System ι}

/-- The invariants at the end of a run. -/
theorem run_trail [Fintype ι] (hfan : ∀ i, (s₀.targets D i).length ≤ (D.cfg i).gossipFanout)
    (ht : (D.cfg o).gossipTTL = t) (hpayload : D.codec.encode reading = some payload)
    (hm : gossipMessageID D.sha256 (D.cfg o).nodeID reading.timestamp = m) (h₀ : s₀.Initial m)
    (hids : ∀ a ∈ pre ++ post, a.broadcastID D ≠ some m)
    (hfixed : ∀ i addr, .upsertPeer i addr ∉ pre ++ post)
    (hrun : NetworkRun D s₀ (pre ++ .broadcast o reading :: post) s) :
    m ∈ s.seen o ∧ Reach D m payload t o (s₀.targets D) s ∧ Trail m s := by
  obtain ⟨f, hf⟩ : ∃ f : ℕ, ∀ i, (D.cfg i).gossipFanout ≤ f := by
    refine ⟨Finset.univ.sup fun i => (D.cfg i).gossipFanout.toNat, fun i => ?_⟩
    have := Finset.le_sup (f := fun i => (D.cfg i).gossipFanout.toNat) (Finset.mem_univ i)
    omega
  rw [← ht]
  exact (flood_invariant
    (J := fun s => Reach D m payload (D.cfg o).gossipTTL o (s₀.targets D) s ∧ Trail m s)
    hf (by omega) hpayload hm h₀ hids hrun ⟨reach_initial h₀, trail_initial h₀⟩
    (fun u a v ha hu hJ hstep => ⟨hJ.1.step hu hfan (D.codec.decode_encode hpayload) (hids a ha)
      (fun i addr h => hfixed i addr (h ▸ ha)) hstep, hJ.2.step hu (hids a ha) hstep⟩)
    fun u v hJ hstep => ⟨hJ.1.broadcast hm hpayload hstep, hJ.2.broadcast hm hstep⟩).2

omit [DecidableEq ι] in
theorem wf_of_le (ht : (D.cfg o).gossipTTL = t) (hpayload : D.codec.encode reading = some payload)
    (hm : gossipMessageID D.sha256 (D.cfg o).nodeID reading.timestamp = m) (v : ℤ) (h0 : 0 ≤ v)
    (hv : v ≤ t) : Msg.WF ⟨m, v, payload⟩ := by
  have hlt := (D.cfg o).gossipTTL_int.2
  have hint : IsInt64 v := ⟨by omega, by omega⟩
  exact ⟨hm ▸ clean_hexEncode _, hint, D.codec.clean hpayload⟩

end Runs

/-- Whichever copies come first, a message with a time to live of two less than the number of nodes
is stored by every node that can be reached, if no frame is lost, peers are fixed and the fanout is
for all of them. -/
theorem gossip_covers [Fintype ι] (D : Deployment ι) (pre post : List (Action ι)) (o : ι)
    (reading : Reading) (payload m : Text) (t : ℕ) (s₀ s : System ι)
    (hfan : ∀ i, (s₀.targets D i).length ≤ (D.cfg i).gossipFanout)
    (ht : (D.cfg o).gossipTTL = t) (hn : Fintype.card ι ≤ t + 2)
    (hpayload : D.codec.encode reading = some payload)
    (hm : gossipMessageID D.sha256 (D.cfg o).nodeID reading.timestamp = m) (h₀ : s₀.Initial m)
    (hids : ∀ a ∈ pre ++ post, a.broadcastID D ≠ some m)
    (hfixed : ∀ i addr, .upsertPeer i addr ∉ pre ++ post)
    (hrun : NetworkRun D s₀ (pre ++ .broadcast o reading :: post) s) (hs : s.Settled D m) (j : ι)
    (hj : j ≠ o) : s.Stores m j ↔ ReflTransGen (Linked D (s₀.targets D)) o j := by
  obtain ⟨ho, hreach, htrail⟩ := run_trail hfan ht hpayload hm h₀ hids hfixed hrun
  constructor
  · rintro ⟨e, he, rfl, hid⟩
    exact (hreach.stored e he hid).1.1.reflTransGen
  · intro hreachable
    exact (hreach.covers htrail hs hn (wf_of_le ht hpayload hm) ho hreachable).resolve_left hj

/-- The four nodes with one more hop. -/
def fourFurther : Deployment (Fin 4) :=
  { four with cfg := fun i => { four.cfg i with gossipTTL := 2, gossipTTL_int := by decide } }

/-- The node 2 takes the copy that came over the node 1 before that of the node 0, and the node 3
is reached all the same. -/
theorem gossip_covers_race :
    ∃ s, NetworkRun fourFurther fourStart
        ([] ++ .broadcast 0 (readingAt 1) :: (fourSends ++ [.deliver 2, .store 0, .select 0 [0],
          .send 0, .send 0, .deliver 1, .deliver 3, .store 0])) s
      ∧ (s.Stores fourID 3
        ↔ ReflTransGen (Linked fourFurther (fourStart.targets fourFurther)) 0 3) := by
  obtain ⟨s, hrun, hs⟩ : ∃ s, NetworkRun fourFurther fourStart _ s ∧ _ :=
    exists_run ([] ++ .broadcast 0 (readingAt 1) :: (fourSends ++ [.deliver 2, .store 0,
        .select 0 [0], .send 0, .send 0, .deliver 1, .deliver 3, .store 0]))
      (fun s => s.tasks = [] ∧ s.delivered = Finset.range s.frames.length) (by decide +kernel)
  obtain ⟨htasks, hdelivered⟩ := of_decide_eq_true hs
  exact ⟨s, hrun, gossip_covers fourFurther [] _ 0 (readingAt 1) payloadAt1 fourID 2 fourStart s
    (by decide +kernel) rfl (by decide) encode_four gossipMessageID_four initial_fourStart
    (by decide) (by simp [fourSends]) hrun (settled_of_delivered htasks hdelivered) 3 (by decide)⟩

end EdgeSim.SensorNode
