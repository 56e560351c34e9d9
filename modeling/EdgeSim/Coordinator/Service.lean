import EdgeSim.Coordinator.Config
import EdgeSim.Coordinator.RaftNet
import EdgeSim.Lib.Matching
import EdgeSim.Raft.Leadership
import EdgeSim.Raft.Provenance

/-!
# From a gossip frame to the stores

The coordinators together: each connection that brings a reading has a handler, which asks its own
Raft node for its role and its leader and calls `Propose` there, or sends the command to the
coordinator it takes for the leader. The Raft nodes run at the same time, and hand committed
commands to the stores. A handler takes no lock over its calls, so anything may happen between two
of them, and a command that is sent may be lost. Readings can get lost on the way, but none is
applied twice and none is made up. The stores keep what is applied last, so they agree as far as the
nodes apply the same indices in the same order.
-/

namespace EdgeSim.Coordinator

open Lists
open Raft (Action Cluster LogEntry Proposal System applyAll)
open SensorNode (Codec Text coordinatorReading)

/-- Where `handleGossipConn` stands once it has the command: before `State`, `LeaderID` or
`Propose`, before it looks the leader's address up, or with the command on its way. What becomes of
`Propose`, or of the command, only goes to the log. -/
inductive Stage where
  | state
  | leaderID
  | propose
  | forward (leaderID : String)
  | sent (server : String)
  | finished
  deriving DecidableEq, Repr

structure GossipHandler where
  coord : String
  frame : Text
  reading : Reading
  command : Text
  stage : Stage
  deriving DecidableEq, Repr

/-- `origin` records, for each call of `Propose` that has appended an entry, the handler it was made
for; no step reads it. -/
structure Service where
  raft : System
  stores : String → ReadingStore
  handlers : List GossipHandler
  origin : List ℕ

inductive ServiceAction where
  /-- a step of the Raft nodes other than a call of `Propose` -/
  | raft (a : Action)
  | receive (coord : String) (frame : Text)
  | state (handler : ℕ)
  | leaderID (handler : ℕ)
  | propose (handler : ℕ)
  | forward (handler : ℕ)
  /-- the server of the leader gets `i` bytes of the request -/
  | serve (handler i : ℕ)
  deriving DecidableEq, Repr

/-- The bytes of a Go string. -/
def goBytes (s : String) : Text := s.toList.map Char.toUInt8

/-- Base64 and JSON decoding, as `applyReadingCommand` does it. -/
def decodeCommand (codec : Codec) (command : String) : Option Reading :=
  codec.decode (goBytes command)

def isPropose : Action → Bool
  | .propose _ _ => true
  | _ => false

/-- What the test of `State` leads to. -/
def Stage.afterState (node : Raft.Node) : Stage :=
  if node.state ≠ .leader then .leaderID else .propose

def Stage.afterLeaderID (node : Raft.Node) : Stage :=
  if node.leaderID ≠ "" then .forward node.leaderID else .propose

section

variable {C : Cluster} (D : Deployment C) (codec : Codec)

/-- The Raft nodes go on to `raft`; `ApplyFunc` stores what they apply. -/
def Service.advance (s : Service) (raft : System) : Service :=
  { s with
    raft := raft
    stores := fun id => applyAll (decodeCommand codec) (s.stores id)
      ((raft.replicas id).applied.drop (s.raft.replicas id).applied.length) }

def Service.setStage (s : Service) (h : ℕ) (hd : GossipHandler) (stage : Stage) : Service :=
  { s with handlers := s.handlers.set h { hd with stage := stage } }

/-- `Propose` is called on the node of `server` for the handler `h`. -/
def Service.callPropose (C : Cluster) (s : Service) (h : ℕ) (hd : GossipHandler)
    (server command : String) : Option Service :=
  (s.raft.step C (.propose server command)).map fun raft =>
    { (s.advance codec raft).setStage h hd .finished with
      origin := if s.raft.proposals.length < raft.proposals.length then s.origin ++ [h]
        else s.origin }

/-- A frame arrives at `coord`. Without a reading in it the handler returns at once. -/
def Service.receive (C : Cluster) (s : Service) (coord : String) (frame : Text) : Option Service :=
  if coord ∈ C.ids then
    match coordinatorReading codec frame with
    | none => some s
    | some (_, reading) =>
      match codec.encode reading with
      | none => some s
      | some command =>
        some { s with handlers := s.handlers ++ [⟨coord, frame, reading, command, .state⟩] }
  else none

/-- The address of the leader is looked up and dialled. -/
def Service.forwardTo (s : Service) (h : ℕ) (hd : GossipHandler) (leaderID : String) : Service :=
  match (D.peers hd.coord).lookup leaderID with
  | none => s.setStage h hd .finished
  | some addr =>
    if addr = "" then s.setStage h hd .finished
    else
      match D.listens addr with
      | none => s.setStage h hd .finished
      | some server => s.setStage h hd (.sent server)

/-- `handleRaftConn` of `server` gets `i` bytes of the request. -/
def Service.serve (s : Service) (h : ℕ) (hd : GossipHandler) (server : String) (i : ℕ) :
    Option Service :=
  (D.json.envelope.marshal (proposeEnvelope (goString hd.command))).bind fun payload =>
    match raftCall D.json.envelope ((Wire.writeFrame payload).take i) with
    | some (.propose command) => s.callPropose codec C h hd server command
    | some _ => none
    | none => some (s.setStage h hd .finished)

def Service.step (s : Service) : ServiceAction → Option Service
  | .raft a => if isPropose a then none else (s.raft.step C a).map (s.advance codec)
  | .receive coord frame => s.receive codec C coord frame
  | .state h => s.handlers[h]?.bind fun hd =>
    match hd.stage with
    | .state => some (s.setStage h hd (.afterState (s.raft.node hd.coord)))
    | _ => none
  | .leaderID h => s.handlers[h]?.bind fun hd =>
    match hd.stage with
    | .leaderID => some (s.setStage h hd (.afterLeaderID (s.raft.node hd.coord)))
    | _ => none
  | .propose h => s.handlers[h]?.bind fun hd =>
    match hd.stage with
    | .propose => s.callPropose codec C h hd hd.coord (goString hd.command)
    | _ => none
  | .forward h => s.handlers[h]?.bind fun hd =>
    match hd.stage with
    | .forward leaderID => some (s.forwardTo D h hd leaderID)
    | _ => none
  | .serve h i => s.handlers[h]?.bind fun hd =>
    match hd.stage with
    | .sent server => s.serve D codec h hd server i
    | _ => none

def Service.init (C : Cluster) (store : ReadingStore) : Service := ⟨C.init, fun _ => store, [], []⟩

abbrev ServiceRun : Service → List ServiceAction → Service → Prop :=
  Runs.Run (Service.step D codec) fun _ _ => True

end

/-- A handler takes the steps of `handleCommand`, which has the nodes that it meets as its
argument. -/
theorem handleCommand_stages (raftPeers : RaftPeers) (rpc : String → Text → Option ProposeResponse)
    (calls : RaftCalls) (command : Text) :
    handleCommand raftPeers rpc calls command
      = match Stage.afterState calls.atState, Stage.afterLeaderID calls.atLeaderID with
        | .leaderID, .forward leaderID => forward raftPeers rpc leaderID command
        | _, _ => .proposed command calls.propose ::
            if calls.propose = .ok then [] else [.warned "propose failed"] := by
  rw [handleCommand, Stage.afterState, Stage.afterLeaderID]
  by_cases hstate : calls.atState.state = .leader
  · rw [if_neg fun h => h.1 hstate, if_neg (not_not_intro hstate)]
    rfl
  · by_cases hleader : calls.atLeaderID.leaderID = ""
    · rw [if_neg fun h => h.2 hleader, if_pos hstate, if_neg (not_not_intro hleader)]
      rfl
    · rw [if_pos ⟨hstate, hleader⟩, if_pos hstate, if_pos hleader]

/-! ## Where proposals come from -/

section

variable {C : Cluster} {D : Deployment C} {codec : Codec} {store : ReadingStore}
  {s t : Service} {xs : List ServiceAction} {x : ServiceAction} {h : ℕ} {hd : GossipHandler}

def ServiceAction.reading (codec : Codec) : ServiceAction → Option Reading
  | .receive _ frame => (coordinatorReading codec frame).map Prod.snd
  | _ => none

/-- The readings in the frames that the coordinators receive. -/
def receivedReadings (codec : Codec) (xs : List ServiceAction) : List Reading :=
  xs.filterMap (ServiceAction.reading codec)

structure ServiceInv (C : Cluster) (codec : Codec) (store : ReadingStore)
    (xs : List ServiceAction) (s : Service) : Prop where
  run : ∃ bs, C.Run C.init bs s.raft
  received : (s.handlers.map GossipHandler.reading).Sublist (receivedReadings codec xs)
  command : ∀ hd ∈ s.handlers, codec.encode hd.reading = some hd.command
  length : s.origin.length = s.raft.proposals.length
  nodup : s.origin.Nodup
  /-- a handler that has made a proposal is done -/
  origin : ∀ (p h : ℕ) (P : Proposal), s.origin[p]? = some h → s.raft.proposals[p]? = some P →
    ∃ hd, s.handlers[h]? = some hd ∧ hd.stage = .finished
      ∧ P.entry.command = goString hd.command
  stores : ∀ id, s.stores id = applyAll (decodeCommand codec) store (s.raft.replicas id).applied

theorem serviceInv_init (C : Cluster) (codec : Codec) (store : ReadingStore) :
    ServiceInv C codec store [] (Service.init C store) where
  run := ⟨[], .nil⟩
  received := .slnil
  command hd h := by simp [Service.init] at h
  length := rfl
  nodup := List.nodup_nil
  origin p h P hp := by simp [Service.init] at hp
  stores id := rfl

/-- A step of the Raft nodes applies no entry or one. -/
theorem applied_step {bs : List Action} {r r' : System} {a : Action} (hr : C.Run C.init bs r)
    (hstep : r.step C a = some r') (id : String) :
    ∃ es, (r'.replicas id).applied = (r.replicas id).applied ++ es := by
  obtain ⟨A, hR⟩ := Raft.reached hr
  obtain ⟨B, -, hR'⟩ := hR.step hstep
  rcases ((Raft.step_effect hstep hR'.sim.alive).nodes id).step with heq | ⟨x, hx⟩
  · exact ⟨[], by rw [heq, List.append_nil]⟩
  · rcases Raft.Replica.step_cases hx with ⟨es, -, -, -, happ⟩ | ⟨b, rfl, hb⟩
    · exact ⟨[], by rw [happ, List.append_nil]⟩
    · obtain ⟨pre, e, post, -, -, -, happ, -⟩ := Raft.Replica.pending_apply hb
      exact ⟨[e], happ⟩

theorem ServiceInv.received_mono (hI : ServiceInv C codec store xs s) (x : ServiceAction) :
    (s.handlers.map GossipHandler.reading).Sublist (receivedReadings codec (xs ++ [x])) := by
  rw [receivedReadings, List.filterMap_append]
  exact hI.received.trans (List.sublist_append_left _ _)

theorem ServiceInv.stores_advance (hI : ServiceInv C codec store xs s) {r : System} {a : Action}
    (hstep : s.raft.step C a = some r) (id : String) :
    (s.advance codec r).stores id
      = applyAll (decodeCommand codec) store (r.replicas id).applied := by
  obtain ⟨bs, hbs⟩ := hI.run
  obtain ⟨es, hes⟩ := applied_step hbs hstep id
  change applyAll _ (s.stores id) ((r.replicas id).applied.drop _) = _
  rw [hI.stores id, hes, List.drop_left, applyAll, applyAll, applyAll, List.foldl_append]

theorem ServiceInv.run_advance (hI : ServiceInv C codec store xs s) {r : System} {a : Action}
    (hstep : s.raft.step C a = some r) :
    (∃ bs, C.Run C.init bs r) ∧ Raft.Trace s.raft a r := by
  obtain ⟨bs, hbs⟩ := hI.run
  obtain ⟨A, hR⟩ := Raft.reached hbs
  obtain ⟨B, -, hR'⟩ := hR.step hstep
  exact ⟨⟨_, hbs.snoc trivial hstep⟩, Raft.step_trace hR hstep hR'.sim.alive⟩

/-- A step of the Raft nodes that is no call of `Propose`. -/
theorem ServiceInv.raft (hI : ServiceInv C codec store xs s) {r : System} {a : Action}
    (ha : isPropose a = false) (hstep : s.raft.step C a = some r) (x : ServiceAction) :
    ServiceInv C codec store (xs ++ [x]) (s.advance codec r) := by
  obtain ⟨hrun, htr⟩ := hI.run_advance hstep
  have hlen : r.proposals.length = s.raft.proposals.length := by
    rcases htr.logs with ⟨-, hlen⟩ | ⟨id, command, P, rfl, -⟩ | ⟨c, call, req, n, es, resp, -, hh⟩
    · exact hlen
    · cases ha
    · rw [hh.proposals_eq]
  refine
    { run := hrun
      received := hI.received_mono x
      command := hI.command
      length := hI.length.trans hlen.symm
      nodup := hI.nodup
      origin := fun p h P hp hP => ?_
      stores := hI.stores_advance hstep }
  rcases Raft.proposals_back htr hP with ⟨P₀, hP₀, -, hentry, -⟩ | ⟨-, id, command, rfl, -⟩
  · obtain ⟨hd, hm, hfin, hcmd⟩ := hI.origin p h P₀ hp hP₀
    exact ⟨hd, hm, hfin, by rw [hentry, hcmd]⟩
  · cases ha

/-- A handler that is not done has made no proposal. -/
theorem ServiceInv.notMem_origin (hI : ServiceInv C codec store xs s)
    (hh : s.handlers[h]? = some hd) (hst : hd.stage ≠ .finished) : h ∉ s.origin := by
  intro hmem
  obtain ⟨p, hp⟩ := List.mem_iff_getElem?.1 hmem
  have hlt := (List.getElem?_eq_some_iff.1 hp).1
  rw [hI.length] at hlt
  obtain ⟨hd', hh', hfin, -⟩ := hI.origin p h _ hp (List.getElem?_eq_getElem hlt)
  rw [hh, Option.some.injEq] at hh'
  exact hst (hh' ▸ hfin)

theorem getElem?_setStage_of_ne {stage : Stage} {k : ℕ} (hk : k ≠ h) :
    (s.setStage h hd stage).handlers[k]? = s.handlers[k]? :=
  List.getElem?_set_ne (Ne.symm hk)

theorem getElem?_setStage_self {stage : Stage} (hh : s.handlers[h]? = some hd) :
    (s.setStage h hd stage).handlers[h]? = some { hd with stage := stage } :=
  List.getElem?_set_self (List.getElem?_eq_some_iff.1 hh).1

theorem map_reading_setStage {stage : Stage} (hh : s.handlers[h]? = some hd) :
    (s.setStage h hd stage).handlers.map GossipHandler.reading
      = s.handlers.map GossipHandler.reading := by
  change (s.handlers.set h _).map _ = _
  rw [List.map_set]
  exact set_of_getElem? (by rw [List.getElem?_map, hh]; rfl)

theorem ServiceInv.received_setStage (hI : ServiceInv C codec store xs s)
    (hh : s.handlers[h]? = some hd) (stage : Stage) (x : ServiceAction) :
    ((s.setStage h hd stage).handlers.map GossipHandler.reading).Sublist
      (receivedReadings codec (xs ++ [x])) := by
  rw [map_reading_setStage hh]
  exact hI.received_mono x

theorem ServiceInv.command_setStage (hI : ServiceInv C codec store xs s)
    (hh : s.handlers[h]? = some hd) (stage : Stage) :
    ∀ hd' ∈ (s.setStage h hd stage).handlers, codec.encode hd'.reading = some hd'.command := by
  intro hd' hm
  rcases List.mem_or_eq_of_mem_set hm with hm | rfl
  · exact hI.command hd' hm
  · exact hI.command hd (List.mem_of_getElem? hh)

/-- What the handlers that are done have proposed is left as it is. -/
theorem ServiceInv.origin_setStage (hI : ServiceInv C codec store xs s)
    (hh : s.handlers[h]? = some hd) (hst : hd.stage ≠ .finished) (stage : Stage) {p k : ℕ}
    {P : Proposal} (hp : s.origin[p]? = some k) (hP : s.raft.proposals[p]? = some P) :
    ∃ hd', (s.setStage h hd stage).handlers[k]? = some hd' ∧ hd'.stage = .finished
      ∧ P.entry.command = goString hd'.command := by
  obtain ⟨hd', hh', hfin, hcmd⟩ := hI.origin p k P hp hP
  refine ⟨hd', ?_, hfin, hcmd⟩
  rw [getElem?_setStage_of_ne, hh']
  rintro rfl
  exact hI.notMem_origin hh hst (List.mem_of_getElem? hp)

/-- A handler goes on. -/
theorem ServiceInv.setStage (hI : ServiceInv C codec store xs s) (hh : s.handlers[h]? = some hd)
    (hst : hd.stage ≠ .finished) (stage : Stage) (x : ServiceAction) :
    ServiceInv C codec store (xs ++ [x]) (s.setStage h hd stage) where
  run := hI.run
  received := hI.received_setStage hh stage x
  command := hI.command_setStage hh stage
  length := hI.length
  nodup := hI.nodup
  origin _ _ _ hp hP := hI.origin_setStage hh hst stage hp hP
  stores := hI.stores

/-- A handler calls `Propose`, on its own node or through the RPC. -/
theorem ServiceInv.callPropose (hI : ServiceInv C codec store xs s)
    (hh : s.handlers[h]? = some hd) (hst : hd.stage ≠ .finished) {server : String}
    (hstep : s.callPropose codec C h hd server (goString hd.command) = some t)
    (x : ServiceAction) : ServiceInv C codec store (xs ++ [x]) t := by
  obtain ⟨r, hr, rfl⟩ := Option.map_eq_some_iff.1 hstep
  obtain ⟨hrun, htr⟩ := hI.run_advance hr
  have hnew := hI.notMem_origin hh hst
  have hold : ∀ (p k : ℕ) (P : Proposal), s.origin[p]? = some k → r.proposals[p]? = some P →
      ∃ hd', (s.setStage h hd .finished).handlers[k]? = some hd' ∧ hd'.stage = .finished
        ∧ P.entry.command = goString hd'.command := by
    intro p k P hp hP
    rcases Raft.proposals_back htr hP with ⟨P₀, hP₀, -, hentry, -⟩ | ⟨hlen, -⟩
    · rw [hentry]
      exact hI.origin_setStage hh hst .finished hp hP₀
    · have := (List.getElem?_eq_some_iff.1 hp).1
      rw [hI.length] at this
      omega
  rcases htr.logs with ⟨-, hlen⟩ | ⟨id, command, P, ha, hprop⟩ | ⟨c, _, _, _, _, _, ha, -⟩
  · -- `ErrNotLeader`
    rw [if_neg (by omega)]
    exact
      { run := hrun
        received := hI.received_setStage hh .finished x
        command := hI.command_setStage hh .finished
        length := hI.length.trans hlen.symm
        nodup := hI.nodup
        origin := hold
        stores := hI.stores_advance hr }
  · obtain ⟨rfl, rfl⟩ := Action.propose.inj ha
    have hps := hprop.proposals_eq
    rw [if_pos (by rw [hps, List.length_append, List.length_singleton]; omega)]
    refine
      { run := hrun
        received := hI.received_setStage hh .finished x
        command := hI.command_setStage hh .finished
        length := ?_
        nodup := ?_
        origin := fun p k Q hp hQ => ?_
        stores := hI.stores_advance hr }
    · change (s.origin ++ [h]).length = r.proposals.length
      rw [hps, List.length_append, List.length_append, hI.length]
      rfl
    · exact List.nodup_append.2 ⟨hI.nodup, List.nodup_singleton h, fun a ha b hb hab =>
        hnew (List.mem_singleton.1 hb ▸ hab ▸ ha)⟩
    · rcases getElem?_concat_cases hp with ⟨hp, -⟩ | ⟨rfl, rfl⟩
      · exact hold p k Q hp hQ
      · change r.proposals[s.origin.length]? = some Q at hQ
        rw [hps, hI.length, List.getElem?_concat_length, Option.some.injEq] at hQ
        subst hQ
        exact ⟨_, getElem?_setStage_self hh, rfl, by rw [hprop.entry_eq]⟩
  · cases ha

theorem ServiceInv.receive (hI : ServiceInv C codec store xs s) {coord : String} {frame : Text}
    (hstep : s.receive codec C coord frame = some t) :
    ServiceInv C codec store (xs ++ [.receive coord frame]) t := by
  have hsame : ServiceInv C codec store (xs ++ [.receive coord frame]) s :=
    { hI with received := hI.received_mono _ }
  unfold Service.receive at hstep
  split_ifs at hstep
  split at hstep
  · cases hstep
    exact hsame
  rename_i id reading hread
  split at hstep
  · cases hstep
    exact hsame
  rename_i command hcommand
  cases hstep
  refine
    { hsame with
      received := ?_
      command := fun hd hm => ?_
      origin := fun p k P hp hP => ?_ }
  · have hlast : ServiceAction.reading codec (.receive coord frame) = some reading := by
      simp only [ServiceAction.reading, hread, Option.map_some]
    rw [List.map_append, receivedReadings, List.filterMap_append, List.filterMap_cons, hlast]
    exact hI.received.append (.refl _)
  · rcases List.mem_append.1 hm with hm | hm
    · exact hI.command hd hm
    · rw [List.mem_singleton.1 hm]
      exact hcommand
  · obtain ⟨hd, hh, hrest⟩ := hI.origin p k P hp hP
    exact ⟨hd, by rw [List.getElem?_append_left (List.getElem?_eq_some_iff.1 hh).1, hh], hrest⟩

theorem ServiceInv.forwardTo (hI : ServiceInv C codec store xs s) (hh : s.handlers[h]? = some hd)
    (hst : hd.stage ≠ .finished) (leaderID : String) (x : ServiceAction) :
    ServiceInv C codec store (xs ++ [x]) (s.forwardTo D h hd leaderID) := by
  unfold Service.forwardTo
  split
  · exact hI.setStage hh hst _ x
  · split_ifs
    · exact hI.setStage hh hst _ x
    · split
      · exact hI.setStage hh hst _ x
      · exact hI.setStage hh hst _ x

/-- No request is too long for the header of a frame. -/
def Deployment.Fits (D : Deployment C) : Prop :=
  ∀ envelope data, D.json.envelope.marshal envelope = some data → data.length < 2 ^ 32

/-- The server proposes the command of the handler, or nothing. -/
theorem ServiceInv.serve (hfits : D.Fits) (hI : ServiceInv C codec store xs s)
    (hh : s.handlers[h]? = some hd) (hst : hd.stage ≠ .finished) {server : String} {i : ℕ}
    (hstep : s.serve D codec h hd server i = some t) (x : ServiceAction) :
    ServiceInv C codec store (xs ++ [x]) t := by
  obtain ⟨payload, hm, hstep⟩ := Option.bind_eq_some_iff.1 hstep
  rw [raftCall_take hm (hfits _ _ hm)] at hstep
  split_ifs at hstep
  · rw [call_proposeEnvelope] at hstep
    exact hI.callPropose hh hst hstep x
  · simp only [Option.some.injEq] at hstep
    subst hstep
    exact hI.setStage hh hst .finished x

theorem ServiceInv.step (hfits : D.Fits) (hI : ServiceInv C codec store xs s)
    (hstep : s.step D codec x = some t) : ServiceInv C codec store (xs ++ [x]) t := by
  cases x with
  | raft a =>
    simp only [Service.step] at hstep
    split_ifs at hstep with ha
    obtain ⟨r, hr, rfl⟩ := Option.map_eq_some_iff.1 hstep
    exact hI.raft (by simpa using ha) hr _
  | receive coord frame => exact hI.receive hstep
  | state h =>
    obtain ⟨hd, hh, hstep⟩ := Option.bind_eq_some_iff.1 hstep
    split at hstep
    · rename_i hst
      cases hstep
      exact hI.setStage hh (by simp [hst]) _ _
    · cases hstep
  | leaderID h =>
    obtain ⟨hd, hh, hstep⟩ := Option.bind_eq_some_iff.1 hstep
    split at hstep
    · rename_i hst
      cases hstep
      exact hI.setStage hh (by simp [hst]) _ _
    · cases hstep
  | propose h =>
    obtain ⟨hd, hh, hstep⟩ := Option.bind_eq_some_iff.1 hstep
    split at hstep
    · rename_i hst
      exact hI.callPropose hh (by simp [hst]) hstep _
    · cases hstep
  | forward h =>
    obtain ⟨hd, hh, hstep⟩ := Option.bind_eq_some_iff.1 hstep
    split at hstep
    · rename_i leaderID hst
      cases hstep
      exact hI.forwardTo hh (by simp [hst]) leaderID _
    · cases hstep
  | serve h i =>
    obtain ⟨hd, hh, hstep⟩ := Option.bind_eq_some_iff.1 hstep
    split at hstep
    · rename_i server hst
      exact hI.serve hfits hh (by simp [hst]) hstep _
    · cases hstep

theorem run_serviceInv (hfits : D.Fits)
    (hs : ServiceRun D codec (Service.init C store) xs s) : ServiceInv C codec store xs s := by
  induction hs with
  | nil => exact serviceInv_init C codec store
  | snoc _ _ hstep ih => exact ih.step hfits hstep

/-! ## What the stores hold -/

theorem goBytes_goString (t : Text) : goBytes (goString t) = t := by
  rw [goBytes, goString, String.toList_ofList, List.map_map]
  refine (List.map_congr_left fun b _ => ?_).trans (List.map_id t)
  change UInt8.ofNat b.toUInt32.toNat = b
  simp

/-- `x` is the entry of the call of `Propose` that was made for the handler `h`. -/
def Service.MadeFor (s : Service) (x : ℕ × LogEntry) (h : ℕ) : Prop :=
  ∃ (p : ℕ) (P : Proposal), s.raft.proposals[p]? = some P ∧ P.entry = x.2 ∧ P.newIndex = x.1 + 1
    ∧ s.origin[p]? = some h

theorem ServiceInv.madeFor_inj (hI : ServiceInv C codec store xs s) {x y : ℕ × LogEntry}
    (hx : s.MadeFor x h) (hy : s.MadeFor y h) : x = y := by
  obtain ⟨p, P, hP, hPe, hPn, hp⟩ := hx
  obtain ⟨q, R, hR, hRe, hRn, hq⟩ := hy
  have hpq : p = q := (List.getElem?_inj (List.getElem?_eq_some_iff.1 hp).1 hI.nodup).1
    (hp.trans hq.symm)
  subst hpq
  rw [hP, Option.some.injEq] at hR
  subst hR
  exact Prod.ext (by omega) (hPe.symm.trans hRe)

/-- Every entry that is applied is the reading of a handler. -/
theorem ServiceInv.madeFor (hI : ServiceInv C codec store xs s) {id : String} (hid : id ∈ C.ids)
    {x : ℕ × LogEntry} (hx : x ∈ (s.raft.replicas id).applied) :
    ∃ h, s.MadeFor x h ∧ ∃ reading, (s.handlers.map GossipHandler.reading)[h]? = some reading
      ∧ decodeCommand codec x.2.command = some reading := by
  obtain ⟨bs, hbs⟩ := hI.run
  obtain ⟨p, P, hP, hPe, hPn, -⟩ := Raft.run_applied_source hbs hid x hx
  have hlt := (List.getElem?_eq_some_iff.1 hP).1
  rw [← hI.length] at hlt
  have hp := List.getElem?_eq_getElem hlt
  obtain ⟨hd, hh, -, hcmd⟩ := hI.origin p _ P hp hP
  refine ⟨_, ⟨p, P, hP, hPe, hPn, hp⟩, hd.reading, by rw [List.getElem?_map, hh]; rfl, ?_⟩
  rw [← hPe, hcmd, decodeCommand, goBytes_goString]
  exact codec.decode_encode (hI.command hd (List.mem_of_getElem? hh))

/-- The entries are those of the readings, one for each. -/
def Carries (codec : Codec) : List (ℕ × LogEntry) → List Reading → Prop :=
  List.Forall₂ fun e reading => decodeCommand codec e.2.command = some reading

theorem applyAll_of_carries {es : List (ℕ × LogEntry)} {readings : List Reading}
    (h : Carries codec es readings) (store : ReadingStore) : applyAll (decodeCommand codec) store es
      = readings.foldl (fun store reading => (store.upsert reading).1) store := by
  induction h generalizing store with
  | nil => rfl
  | cons he _ ih =>
    rw [List.foldl_cons, ← ih, applyAll, List.foldl_cons, ReadingStore.applyReadingCommand, he]
    rfl

theorem ServiceInv.stores_eq (hI : ServiceInv C codec store xs s) {id : String}
    (hid : id ∈ C.ids) : ∃ readings : List Reading,
      Carries codec (s.raft.replicas id).applied readings
      ∧ readings.Subperm (receivedReadings codec xs)
      ∧ s.stores id = readings.foldl (fun store reading => (store.upsert reading).1) store := by
  obtain ⟨bs, hbs⟩ := hI.run
  have hnodup := (Raft.run_applied_nodup hbs hid).of_map
  obtain ⟨readings, hsub, hall⟩ := Matching.exists_subperm hnodup (fun _ hx => hI.madeFor hid hx)
    fun _ _ _ _ _ hx hy => hI.madeFor_inj hx hy
  exact ⟨readings, hall, hsub.trans hI.received.subperm,
    by rw [hI.stores, applyAll_of_carries hall]⟩

/-- A coordinator applies no index of its log twice, and each entry it applies is one of the
received readings, no two entries the same one; its store is what these readings make it. -/
theorem store_from_frames (hfits : D.Fits)
    (hs : ServiceRun D codec (Service.init C store) xs s) {id : String} (hid : id ∈ C.ids) :
    ((s.raft.replicas id).applied.map Prod.fst).Nodup
    ∧ ∃ readings : List Reading, Carries codec (s.raft.replicas id).applied readings
      ∧ readings.Subperm (receivedReadings codec xs)
      ∧ s.stores id = readings.foldl (fun store reading => (store.upsert reading).1) store := by
  have hI := run_serviceInv hfits hs
  obtain ⟨bs, hbs⟩ := hI.run
  exact ⟨Raft.run_applied_nodup hbs hid, hI.stores_eq hid⟩

/-- Until a second election is won, a coordinator that has applied the same indices as another, in
the same order, and perhaps more, has the other's store with the rest applied to it. -/
theorem stores_agree (hfits : D.Fits) (hs : ServiceRun D codec (Service.init C store) xs s)
    (hone : Raft.OneElection s.raft) {v w : String} (hv : v ∈ C.ids) (hw : w ∈ C.ids)
    (hindices : (s.raft.replicas v).applied.map Prod.fst
      <+: (s.raft.replicas w).applied.map Prod.fst) :
    s.stores w = applyAll (decodeCommand codec) (s.stores v)
      ((s.raft.replicas w).applied.drop (s.raft.replicas v).applied.length) := by
  have hI := run_serviceInv hfits hs
  obtain ⟨bs, hbs⟩ := hI.run
  obtain ⟨log, -, happlied⟩ := hone.applied hbs
  obtain ⟨rest, hrest⟩ := Matching.isPrefix_of_keys (f := fun i => log[i]?) (happlied v hv)
    (happlied w hw) hindices
  rw [hI.stores, hI.stores, ← hrest, List.drop_left, applyAll, applyAll, applyAll,
    List.foldl_append]

end

/-! ## A reading that is sent to the leader -/

def proposeDeployment : Deployment Raft.trio :=
  { trioDeployment with
    json := { trioDeployment.json with
      envelope := .ofList [proposeEnvelope (goString SensorNode.payloadAt1)] (by decide) } }

/-- `a` is elected and `b` hears of it. A frame comes to `b`, which sends the command to `a`; `b`
gets the entry from there. -/
def forwardedFrame : List ServiceAction :=
  List.map .raft
      (Raft.electBy "a" 0 ++ [.readPrevLogIndex 0, .readPrevLogTerm 0] ++ Raft.exchange "b" 0)
    ++ [.receive "b" frameAt1, .state 0, .leaderID 0, .forward 0, .serve 0 5]
    ++ List.map .raft (Raft.exchange "b" 2 ++ [.apply "a" 0])

theorem store_from_frames_forwarded : ∃ s,
    ServiceRun proposeDeployment SensorNode.codecAt12 (Service.init Raft.trio ⟨∅, false, 1⟩)
      forwardedFrame s
    ∧ (s.stores "a").readings.lookup (SensorNode.readingAt 1).nodeID
      = some (SensorNode.readingAt 1)
    ∧ ∃ readings : List Reading,
      Carries SensorNode.codecAt12 (s.raft.replicas "a").applied readings
      ∧ readings.Subperm (receivedReadings SensorNode.codecAt12 forwardedFrame)
      ∧ s.stores "a"
        = readings.foldl (fun store reading => (store.upsert reading).1) ⟨∅, false, 1⟩ := by
  obtain ⟨s, hs, hp⟩ : ∃ s, ServiceRun proposeDeployment SensorNode.codecAt12
      (Service.init Raft.trio ⟨∅, false, 1⟩) _ s ∧ _ :=
    Runs.exists_run forwardedFrame
      (fun s => (s.stores "a").readings.lookup (SensorNode.readingAt 1).nodeID
        = some (SensorNode.readingAt 1)) (by decide +kernel)
  simp only [decide_eq_true_eq] at hp
  exact ⟨s, hs, hp,
    (store_from_frames (fun _ _ hm => Stdlib.Json.ofList_fits _ (by decide) hm) hs (by decide)).2⟩

/-- A heartbeat then tells `b` that the reading is committed. -/
theorem stores_agree_forwarded : ∃ s,
    ServiceRun proposeDeployment SensorNode.codecAt12 (Service.init Raft.trio ⟨∅, false, 1⟩)
      (forwardedFrame ++ List.map .raft [.heartbeatTick "a", .sendHeartbeats "a",
        .readPrevLogIndex 4, .readPrevLogTerm 4, .sendAppendEntries 4, .handleAppendEntries 4,
        .apply "b" 0]) s
    ∧ (s.raft.replicas "b").applied.length = 1 ∧ s.stores "b" = s.stores "a" := by
  obtain ⟨s, hs, hp⟩ : ∃ s, ServiceRun proposeDeployment SensorNode.codecAt12
      (Service.init Raft.trio ⟨∅, false, 1⟩) _ s ∧ _ :=
    Runs.exists_run (forwardedFrame ++ List.map .raft [.heartbeatTick "a", .sendHeartbeats "a",
        .readPrevLogIndex 4, .readPrevLogTerm 4, .sendAppendEntries 4, .handleAppendEntries 4,
        .apply "b" 0])
      (fun s => Raft.OneElection s.raft
        ∧ (s.raft.replicas "a").applied.map Prod.fst = [0]
        ∧ (s.raft.replicas "b").applied.map Prod.fst = [0]) (by decide +kernel)
  simp only [decide_eq_true_eq] at hp
  obtain ⟨hone, ha, hb⟩ := hp
  have hlength : (s.raft.replicas "b").applied.length = (s.raft.replicas "a").applied.length := by
    rw [← List.length_map Prod.fst, hb, ← ha, List.length_map]
  refine ⟨s, hs, by rw [← List.length_map Prod.fst, hb]; rfl, ?_⟩
  rw [stores_agree (fun _ _ hm => Stdlib.Json.ofList_fits _ (by decide) hm) hs hone (by decide)
    (by decide) (show (s.raft.replicas "a").applied.map Prod.fst <+: _ by rw [ha, hb]), ← hlength,
    List.drop_length]
  rfl

end EdgeSim.Coordinator
