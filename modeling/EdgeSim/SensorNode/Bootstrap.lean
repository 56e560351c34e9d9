import EdgeSim.SensorNode.Network
import EdgeSim.SensorNode.PeerExchange

/-!
# How nodes come to know each other

`bootstrapDiscovery` of `cmd/node`, run by every node at its own pace: a node says `HELLO` to each
address that it is given, asks it for its peers, adds what it has been told to its own and greets
them. Servers handle one frame after the other on a connection, but those of different connections
in any order, and a connection can fail at any point. Whoever has read an answer knows the one who
gave it and is known there, and of two who have read answers of the same node one knows the other:
the one whose `HELLO` came second was told of the first.
-/

namespace EdgeSim.SensorNode

open Runs

variable {ι : Type}

structure BootConfig where
  advertiseAddr : Text
  peerAddr : Text
  bootstrapAddrs : List Text
  message : Text

/-- Where `bootstrapDiscovery` stands. `addrs` are left to dial, `peers` is what it was told. -/
inductive Boot (ι : Type) where
  | idle
  | dial (addrs peers : List Text)
  /-- `HELLO` is on its way -/
  | hello (server : ι) (addrs peers : List Text)
  /-- `HELLO` was handled, `GETPEERS` is on its way -/
  | getPeers (server : ι) (addrs peers : List Text)
  /-- the answer is on its way -/
  | answer (server : ι) (response : Text) (addrs peers : List Text)
  | upsert (peers : List Text)
  | greet (addrs : List Text)
  | finished
  deriving DecidableEq

/-- What is left to add to the peers. -/
def Boot.pending : Boot ι → List Text
  | .dial _ peers | .hello _ _ peers | .getPeers _ _ peers | .answer _ _ _ peers
  | .upsert peers => peers
  | _ => []

/-- All that was told has been added. -/
def Boot.Added : Boot ι → Prop
  | .greet _ | .finished => True
  | _ => False

instance (b : Boot ι) : Decidable b.Added :=
  match b with
  | .greet _ | .finished => isTrue trivial
  | .idle | .dial _ _ | .hello _ _ _ | .getPeers _ _ _ | .answer _ _ _ _ | .upsert _ => isFalse id

/-- `answers` records who was told what by whom, and `joined` who has read an answer of whom; no
step reads them. -/
structure Overlay (ι : Type) where
  nodes : ι → NodeState
  boot : ι → Boot ι
  answers : List (ι × ι × List Text)
  joined : List (ι × ι)

inductive JoinAction (ι : Type) where
  | start (i : ι)
  | dial (i : ι) (up : Bool)
  | hello (i : ι)
  | getPeers (i : ι)
  | read (i : ι)
  /-- the connection breaks, or takes too long -/
  | fail (i : ι)
  | upsert (i : ι)
  | greet (i : ι) (up : Bool)
  /-- a frame of another kind comes in -/
  | frame (i : ι) (f : Incoming)

/-- The other end reads the frame whole. -/
def frameRead (text : Text) : Option Text :=
  match Wire.readFrame (Wire.writeFrame text) with
  | (.ok payload, []) => some payload
  | _ => none

theorem eq_of_frameRead {text payload : Text} (h : frameRead text = some payload) :
    payload = text := by
  unfold frameRead at h
  split at h
  · rename_i hread
    cases h
    exact Wire.eq_of_readFrame_writeFrame hread
  · cases h

def helloText (nodeID advertiseAddr : Text) : Text :=
  bytesOf "HELLO" ++ bar :: (nodeID ++ bar :: advertiseAddr)

/-- What `sendMessage` writes. -/
def messageText (nodeID message : Text) : Text :=
  bytesOf "MESSAGE" ++ bar :: (nodeID ++ bar :: message)

/-- The addresses that `bootstrapDiscovery` dials; without any it does nothing. -/
def BootConfig.start (b : BootConfig) : Boot ι :=
  if b.bootstrapAddrs = [] ∧ b.peerAddr = [] then .finished
  else .dial (if b.peerAddr ≠ [] then b.bootstrapAddrs ++ [b.peerAddr] else b.bootstrapAddrs) []

/-- Whether a frame is a `HELLO`. -/
def isHello (payload : Text) : Bool := (parseMessage (trimSpace payload)).1 = bytesOf "HELLO"

variable [DecidableEq ι]

namespace Overlay

variable (D : Deployment ι) (B : ι → BootConfig) (s : Overlay ι)

def setNode (i : ι) (node : NodeState) : Overlay ι :=
  { s with nodes := Function.update s.nodes i node }

def setBoot (i : ι) (boot : Boot ι) : Overlay ι :=
  { s with boot := Function.update s.boot i boot }

/-- A server handles a frame that was written whole: the state after it, and the answer. -/
def handle (server : ι) (text : Text) : Option (Overlay ι × Option Text) :=
  (frameRead text).map fun payload =>
    let (node, response, _) := handleFrame D.codec (D.cfg server) (s.nodes server) ⟨payload, [], []⟩
    (s.setNode server node, response)

def step : JoinAction ι → Option (Overlay ι)
  | .start i =>
    match s.boot i with
    | .idle => some (s.setBoot i (B i).start)
    | _ => none
  | .dial i up =>
    match s.boot i with
    | .dial [] peers => some (s.setBoot i (.upsert peers))
    | .dial (addr :: addrs) peers =>
      if addr = [] then some (s.setBoot i (.dial addrs peers))
      else
        match up, D.resolve addr with
        | true, some (.node server) => some (s.setBoot i (.hello server addrs peers))
        | _, _ => some (s.setBoot i (.dial addrs peers))
    | _ => none
  | .hello i =>
    match s.boot i with
    | .hello server addrs peers =>
      (s.handle D server (helloText (D.cfg i).nodeID (B i).advertiseAddr)).map fun (s, _) =>
        s.setBoot i (.getPeers server addrs peers)
    | _ => none
  | .getPeers i =>
    match s.boot i with
    | .getPeers server addrs peers =>
      (s.handle D server (bytesOf "GETPEERS")).bind fun (t, response) =>
        response.map fun response =>
          let t := { t with answers := (i, server, (s.nodes server).peerAddrs) :: t.answers }
          t.setBoot i (.answer server response addrs peers)
    | _ => none
  | .read i =>
    match s.boot i with
    | .answer server response addrs peers =>
      (frameRead response).map fun response =>
        match parsePeers response with
        | none => s.setBoot i (.dial addrs peers)
        | some addrs' =>
          let s := s.setBoot i (.dial addrs (peers ++ addrs'))
          { s with joined := (i, server) :: s.joined }
    | _ => none
  | .fail i =>
    match s.boot i with
    | .hello _ addrs peers | .getPeers _ addrs peers | .answer _ _ addrs peers =>
      some (s.setBoot i (.dial addrs peers))
    | _ => none
  | .upsert i =>
    match s.boot i with
    | .upsert [] => some (s.setBoot i
        (.greet ((s.nodes i).peerAddrs.filter fun peer => peer ≠ (B i).advertiseAddr)))
    | .upsert (addr :: peers) =>
      let s := s.setBoot i (.upsert peers)
      if addr = [] ∨ addr = (B i).advertiseAddr then some s
      else some (s.setNode i ((s.nodes i).upsertPeer addr))
    | _ => none
  | .greet i up =>
    match s.boot i with
    | .greet [] => some (s.setBoot i .finished)
    | .greet (addr :: addrs) =>
      match up, D.resolve addr with
      | true, some (.node server) =>
        (s.handle D server (messageText (D.cfg i).nodeID (B i).message)).map fun (s, _) =>
          s.setBoot i (.greet addrs)
      | _, _ => some (s.setBoot i (.greet addrs))
    | _ => none
  | .frame i f =>
    if isHello f.payload then none
    else some (s.setNode i (handleFrame D.codec (D.cfg i) (s.nodes i) f).1)

/-- Every node has just been started. -/
def init : Overlay ι :=
  ⟨fun i => .init (B i).advertiseAddr, fun _ => .idle, [], []⟩

end Overlay

abbrev JoinRun (D : Deployment ι) (B : ι → BootConfig) :=
  Run (Overlay.step D B) fun _ _ => True

/-- Addresses and IDs have none of the characters that messages are cut at, and an address leads to
the node that advertises it. -/
structure Addressed (D : Deployment ι) (B : ι → BootConfig) : Prop where
  nodeID : ∀ i, bar ∉ (D.cfg i).nodeID
  addr : ∀ i, (B i).advertiseAddr ≠ [] ∧ bar ∉ (B i).advertiseAddr
    ∧ Sendable (B i).advertiseAddr
  resolve : ∀ i, D.resolve (B i).advertiseAddr = some (.node i)

/-! ## The frames of a join -/

section Frames

variable {s : NodeState} {nodeID addr text : Text} (codec : Codec) (cfg : Config)

/-- A text that begins with a letter and ends behind a bar with a trimmed one. -/
theorem trimSpace_concat {x a : Text} {b : UInt8} (ha : Trimmed a)
    (hb : ∀ sep ∈ spaces, sep.head? ≠ some b) :
    trimSpace (b :: (x ++ bar :: a)) = b :: (x ++ bar :: a) := by
  refine trimmed_iff.1 ⟨fun sep hsep hpre => ?_, fun sep hsep hpre => ?_⟩
  · have hne : ∀ sep ∈ spaces, sep ≠ [] := by decide
    cases sep with
    | nil => exact hne _ hsep rfl
    | cons c sep =>
      obtain ⟨y, hy⟩ := hpre
      exact hb _ hsep (congrArg List.head? hy)
  · have hfree : ∀ sep ∈ spaces.map List.reverse, bar ∉ sep := by decide
    rw [← List.cons_append, List.reverse_append, List.reverse_cons, List.append_assoc] at hpre
    exact ha.2 sep hsep (Joined.prefix_of_notMem hpre (hfree sep hsep))

theorem handleFrame_hello (hid : bar ∉ nodeID) (haddr : bar ∉ addr)
    (htrim : trimSpace addr = addr) :
    handleFrame codec cfg s ⟨helloText nodeID addr, [], []⟩
      = (s.upsertPeer addr, some (bytesOf "ACK|HELLO"), []) := by
  have hmessage : trimSpace (helloText nodeID addr) = helloText nodeID addr := by
    have h := trimSpace_concat (x := bytesOf "ELLO" ++ bar :: nodeID) (b := 'H'.toUInt8)
      (trimmed_iff.2 htrim) (by decide)
    rw [List.append_assoc] at h
    exact h
  have hparse : parseMessage (helloText nodeID addr) = (bytesOf "HELLO", [nodeID, addr]) := by
    have htype : toUpper (trimSpace (bytesOf "HELLO")) = bytesOf "HELLO" := by decide
    rw [parseMessage, helloText, List.splitOn_append_cons_self_of_not_mem (by decide),
      List.splitOn_append_cons_self_of_not_mem hid, List.splitOn_eq_singleton haddr]
    dsimp only
    rw [htype]
  have hne : helloText nodeID addr ≠ [] := by simp [helloText]
  unfold handleFrame
  rw [hmessage]
  dsimp only
  rw [if_neg hne, hparse]
  dsimp only
  rw [if_pos rfl]

/-- Only a `HELLO` changes the peers of a node. -/
theorem handleFrame_peers {f : Incoming} (h : isHello f.payload = false) :
    (handleFrame codec cfg s f).1.peers = s.peers
      ∧ (handleFrame codec cfg s f).1.selfAddr = s.selfAddr := by
  unfold handleFrame
  dsimp only
  by_cases hmessage : trimSpace f.payload = []
  · rw [if_pos hmessage]
    exact ⟨rfl, rfl⟩
  · rw [if_neg hmessage]
    unfold isHello at h
    cases hparse : parseMessage (trimSpace f.payload) with
    | mk msgType parts =>
      rw [hparse] at h
      dsimp only
      rw [if_neg (of_decide_eq_false h)]
      split_ifs
      · exact ⟨rfl, rfl⟩
      · split
        · exact ⟨rfl, rfl⟩
        · exact ⟨rfl, rfl⟩
      · exact handleGossipMessage_peers codec cfg s f.indices parts
      · exact ⟨rfl, rfl⟩

theorem splitOn_isPrefix {t x : Text} {xs : List Text} (h : t.splitOn bar = x :: xs) :
    x <+: t := by
  have hjoin : [bar].intercalate (t.splitOn bar) = t := List.intercalate_splitOn bar
  rw [h] at hjoin
  cases xs with
  | nil =>
    rw [List.intercalate_singleton] at hjoin
    exact hjoin ▸ List.prefix_rfl
  | cons y ys =>
    rw [List.intercalate_cons_cons, List.append_assoc] at hjoin
    exact ⟨_, hjoin⟩

/-- However a message is trimmed, its type is part of the word `MESSAGE`. -/
theorem isHello_messageText (nodeID message : Text) :
    isHello (messageText nodeID message) = false := by
  have hstart : trimStart spaces (messageText nodeID message).length (messageText nodeID message)
      = messageText nodeID message := by
    refine Stripped.trimStart_eq (fun sep hsep hpre => ?_) _
    have hspaces : ∀ sep ∈ spaces, sep ≠ [] ∧ sep.head? ≠ some 'M'.toUInt8 := by decide
    cases sep with
    | nil => exact (hspaces _ hsep).1 rfl
    | cons c sep =>
      obtain ⟨y, hy⟩ := hpre
      exact (hspaces _ hsep).2 (congrArg List.head? hy)
  have hpre := trimSpace_isPrefix (messageText nodeID message)
  rw [hstart] at hpre
  rw [isHello, parseMessage]
  cases hsplit : (trimSpace (messageText nodeID message)).splitOn bar with
  | nil => decide
  | cons x xs =>
    have hbar : bar ∉ x := Joined.notMem_of_mem_splitOn (hsplit ▸ List.mem_cons_self)
    have hx : x <+: bytesOf "MESSAGE" :=
      Joined.prefix_of_notMem ((splitOn_isPrefix hsplit).trans hpre) hbar
    have hall : ∀ x ∈ (bytesOf "MESSAGE").inits, toUpper (trimSpace x) ≠ bytesOf "HELLO" := by
      decide +kernel
    exact decide_eq_false (hall x ((List.mem_inits x _).2 hx))

end Frames

/-! ## The invariant -/

theorem mem_upsertPeer {s : NodeState} {a addr : Text} :
    a ∈ (s.upsertPeer addr).peers.addrs ↔ addr ≠ [] ∧ a = addr ∨ a ∈ s.peers.addrs := by
  unfold NodeState.upsertPeer
  split_ifs with hnil
  · simp [hnil]
  · dsimp only [PeerMap.insert]
    split_ifs with hmem
    · simp only [ne_eq, hnil, not_false_eq_true, true_and]
      exact ⟨.inr, fun h => h.elim (fun h => h ▸ hmem) id⟩
    · simp [hnil]

theorem selfAddr_upsertPeer (s : NodeState) (addr : Text) :
    (s.upsertPeer addr).selfAddr = s.selfAddr := by
  unfold NodeState.upsertPeer
  split_ifs <;> rfl

/-- The text is the address of a node. -/
def IsAddr (B : ι → BootConfig) (a : Text) : Prop := ∃ j, a = (B j).advertiseAddr

structure BootOK (B : ι → BootConfig) (s : Overlay ι) (i : ι) (boot : Boot ι) : Prop where
  pending : ∀ a ∈ boot.pending, IsAddr B a
  registered : ∀ server addrs peers, boot = .getPeers server addrs peers →
    (B i).advertiseAddr ∈ (s.nodes server).peers.addrs
  told : ∀ server response addrs peers, boot = .answer server response addrs peers →
    ∃ l, (i, server, l) ∈ s.answers ∧ parsePeers response = some l

structure AnswerOK (B : ι → BootConfig) (s : Overlay ι) (x : ι × ι × List Text) : Prop where
  registered : (B x.1).advertiseAddr ∈ (s.nodes x.2.1).peers.addrs
  self : (B x.2.1).advertiseAddr ∈ x.2.2
  addrs : ∀ a ∈ x.2.2, IsAddr B a

/-- What the node was told it has added, or will. -/
def Overlay.Takes (B : ι → BootConfig) (s : Overlay ι) (i : ι) (l : List Text) : Prop :=
  ∀ a ∈ l, a ≠ (B i).advertiseAddr → a ∈ (s.nodes i).peers.addrs ∨ a ∈ (s.boot i).pending

structure Member (B : ι → BootConfig) (s : Overlay ι) : Prop where
  self : ∀ i, (s.nodes i).selfAddr = (B i).advertiseAddr
  known : ∀ i, ∀ a ∈ (s.nodes i).peers.addrs, IsAddr B a
  boot : ∀ i, BootOK B s i (s.boot i)
  answers : ∀ x ∈ s.answers, AnswerOK B s x
  /-- of two who were told by one node, the later was told of the earlier -/
  pairs : ∀ x ∈ s.answers, ∀ y ∈ s.answers, x.2.1 = y.2.1 →
    (B y.1).advertiseAddr ∈ x.2.2 ∨ (B x.1).advertiseAddr ∈ y.2.2
  joined : ∀ p ∈ s.joined, ∃ l, (p.1, p.2, l) ∈ s.answers ∧ s.Takes B p.1 l

section Invariant

variable {D : Deployment ι} {B : ι → BootConfig} {s s' : Overlay ι} {i server : ι}

omit [DecidableEq ι] in
theorem member_init : Member B (Overlay.init B) where
  self _ := rfl
  known i a ha := by simp [Overlay.init, NodeState.init] at ha
  boot i :=
    { pending := fun a ha => by simp [Overlay.init, Boot.pending] at ha
      registered := fun _ _ _ h => by cases h
      told := fun _ _ _ _ h => by cases h }
  answers x hx := by simp [Overlay.init] at hx
  pairs x hx := by simp [Overlay.init] at hx
  joined p hp := by simp [Overlay.init] at hp

/-- A node gets to know addresses of nodes. -/
theorem Member.setNode (h : Member B s) {node : NodeState}
    (hself : node.selfAddr = (s.nodes i).selfAddr)
    (hgrow : (s.nodes i).peers.addrs ⊆ node.peers.addrs)
    (hknown : ∀ a ∈ node.peers.addrs, IsAddr B a) : Member B (s.setNode i node) := by
  have hnode (j : ι) : ((s.setNode i node).nodes j).selfAddr = (s.nodes j).selfAddr
      ∧ (s.nodes j).peers.addrs ⊆ ((s.setNode i node).nodes j).peers.addrs
      ∧ ∀ a ∈ ((s.setNode i node).nodes j).peers.addrs, IsAddr B a := by
    by_cases hj : j = i
    · subst hj
      simp only [Overlay.setNode, Function.update_self]
      exact ⟨hself, hgrow, hknown⟩
    · have heq : (s.setNode i node).nodes j = s.nodes j := Function.update_of_ne hj _ _
      rw [heq]
      exact ⟨rfl, List.Subset.refl _, h.known j⟩
  exact
    { self := fun j => (hnode j).1.trans (h.self j)
      known := fun j => (hnode j).2.2
      boot := fun j =>
        { pending := (h.boot j).pending
          registered := fun server addrs peers hb =>
            (hnode server).2.1 ((h.boot j).registered server addrs peers hb)
          told := (h.boot j).told }
      answers := fun x hx =>
        { registered := (hnode x.2.1).2.1 (h.answers x hx).registered
          self := (h.answers x hx).self
          addrs := (h.answers x hx).addrs }
      pairs := h.pairs
      joined := fun p hp => by
        obtain ⟨l, hl, htakes⟩ := h.joined p hp
        exact ⟨l, hl, fun a ha hne => (htakes a ha hne).imp_left fun hm => (hnode p.1).2.1 hm⟩ }

theorem boot_setBoot (boot : Boot ι) (j : ι) :
    (s.setBoot i boot).boot j = if j = i then boot else s.boot j := Function.update_apply _ _ _ _

/-- `bootstrapDiscovery` goes on at one node, and drops nothing that is to be added. -/
theorem Member.setBoot (h : Member B s) {boot : Boot ι} (hok : BootOK B s i boot)
    (hkeep : ∀ a ∈ (s.boot i).pending, a ≠ (B i).advertiseAddr →
      a ∈ (s.nodes i).peers.addrs ∨ a ∈ boot.pending) : Member B (s.setBoot i boot) where
  self := h.self
  known := h.known
  boot j := by
    rw [boot_setBoot]
    split_ifs with hj
    · subst hj
      exact ⟨hok.pending, hok.registered, hok.told⟩
    · exact ⟨(h.boot j).pending, (h.boot j).registered, (h.boot j).told⟩
  answers x hx := ⟨(h.answers x hx).registered, (h.answers x hx).self, (h.answers x hx).addrs⟩
  pairs := h.pairs
  joined p hp := by
    obtain ⟨l, hl, htakes⟩ := h.joined p hp
    refine ⟨l, hl, fun a ha hne => ?_⟩
    rw [boot_setBoot]
    split_ifs with hpi
    · subst hpi
      exact (htakes a ha hne).elim .inl fun hpend => hkeep a hpend hne
    · exact htakes a ha hne

omit [DecidableEq ι] in
/-- A stage in which nothing is registered or told. -/
theorem bootOK_of_pending {boot : Boot ι} (hpend : ∀ a ∈ boot.pending, IsAddr B a)
    (hget : ∀ server addrs peers, boot ≠ .getPeers server addrs peers)
    (hans : ∀ server response addrs peers, boot ≠ .answer server response addrs peers) :
    BootOK B s i boot :=
  ⟨hpend, fun _ _ _ hb => absurd hb (hget _ _ _), fun _ _ _ _ hb => absurd hb (hans _ _ _ _)⟩

/-- A stage with the same addresses to add. -/
theorem Member.keep (h : Member B s) {boot : Boot ι} (hpend : boot.pending = (s.boot i).pending)
    (hget : ∀ server addrs peers, boot ≠ .getPeers server addrs peers)
    (hans : ∀ server response addrs peers, boot ≠ .answer server response addrs peers) :
    Member B (s.setBoot i boot) :=
  h.setBoot (bootOK_of_pending (fun a ha => (h.boot i).pending a (hpend ▸ ha)) hget hans)
    fun _ ha _ => .inr (hpend ▸ ha)

omit [DecidableEq ι] in
theorem Member.addrs (h : Member B s) {a : Text} (ha : a ∈ (s.nodes i).peerAddrs) : IsAddr B a := by
  rcases mem_peerAddrs.1 ha with rfl | ha
  · exact ⟨i, h.self i⟩
  · exact h.known i a ha

omit [DecidableEq ι] in
/-- What a server sends is read by the client. -/
theorem Member.parsePeers (hA : Addressed D B) (h : Member B s) :
    parsePeers (s.nodes server).peersResponse = some (s.nodes server).peerAddrs := by
  refine (parsePeers_peersResponse fun a ha => ?_).2 fun a ha => ?_
  · obtain ⟨j, rfl⟩ := h.addrs ha
    exact ⟨(hA.addr j).1, (hA.addr j).2.1⟩
  · obtain ⟨j, rfl⟩ := h.addrs ha
    exact (hA.addr j).2.2

omit [DecidableEq ι] in
/-- A server that has handled the `HELLO` of `i` tells it its peers. -/
theorem Member.answer (h : Member B s)
    (hreg : (B i).advertiseAddr ∈ (s.nodes server).peers.addrs) :
    Member B { s with answers := (i, server, (s.nodes server).peerAddrs) :: s.answers } where
  self := h.self
  known := h.known
  boot j := by
    refine ⟨(h.boot j).pending, (h.boot j).registered, fun server response addrs peers hb => ?_⟩
    obtain ⟨l, hl, hparse⟩ := (h.boot j).told server response addrs peers hb
    exact ⟨l, List.mem_cons_of_mem _ hl, hparse⟩
  answers x hx := by
    rcases List.mem_cons.1 hx with rfl | hx
    · exact ⟨hreg, mem_peerAddrs.2 (.inl (h.self server).symm), fun a ha => h.addrs ha⟩
    · exact ⟨(h.answers x hx).registered, (h.answers x hx).self, (h.answers x hx).addrs⟩
  pairs x hx y hy hxy := by
    have hnew : ∀ z ∈ s.answers, z.2.1 = server →
        (B z.1).advertiseAddr ∈ (s.nodes server).peerAddrs := by
      rintro z hz rfl
      exact mem_peerAddrs.2 (.inr (h.answers z hz).registered)
    rcases List.mem_cons.1 hx with rfl | hx
    · rcases List.mem_cons.1 hy with rfl | hy
      · exact .inl (mem_peerAddrs.2 (.inr hreg))
      · exact .inl (hnew y hy hxy.symm)
    · rcases List.mem_cons.1 hy with rfl | hy
      · exact .inr (hnew x hx hxy)
      · exact h.pairs x hx y hy hxy
  joined p hp := by
    obtain ⟨l, hl, htakes⟩ := h.joined p hp
    exact ⟨l, List.mem_cons_of_mem _ hl, htakes⟩

/-- A frame that is no `HELLO` is handled. -/
theorem Member.handleFrame (h : Member B s) {f : Incoming} (hf : isHello f.payload = false) :
    Member B (s.setNode i (handleFrame D.codec (D.cfg i) (s.nodes i) f).1) := by
  obtain ⟨hpeers, hself⟩ := handleFrame_peers D.codec (D.cfg i) (s := s.nodes i) hf
  refine h.setNode hself ?_ ?_
  · rw [hpeers]
    exact List.Subset.refl _
  · rw [hpeers]
    exact h.known i

theorem Member.upsertPeer (h : Member B s) {addr : Text} (ha : IsAddr B addr) :
    Member B (s.setNode i ((s.nodes i).upsertPeer addr)) := by
  refine h.setNode (selfAddr_upsertPeer _ _) (fun a hm => mem_upsertPeer.2 (.inr hm)) ?_
  intro a hm
  rcases mem_upsertPeer.1 hm with ⟨-, rfl⟩ | hm
  · exact ha
  · exact h.known i a hm

theorem handle_eq {t : Overlay ι} {text : Text} {response : Option Text}
    (h : s.handle D server text = some (t, response)) :
    t = s.setNode server
        (SensorNode.handleFrame D.codec (D.cfg server) (s.nodes server) ⟨text, [], []⟩).1
      ∧ response
        = (SensorNode.handleFrame D.codec (D.cfg server) (s.nodes server) ⟨text, [], []⟩).2.1 := by
  obtain ⟨payload, hp, heq⟩ := Option.map_eq_some_iff.1 h
  obtain rfl := eq_of_frameRead hp
  obtain ⟨ht, hr⟩ := Prod.mk.inj heq
  exact ⟨ht.symm, hr.symm⟩

theorem Member.step_hello (hA : Addressed D B) (h : Member B s)
    (hstep : s.step D B (.hello i) = some s') : Member B s' := by
  simp only [Overlay.step] at hstep
  split at hstep
  · rename_i server addrs peers hb
    obtain ⟨⟨t, response⟩, ht, rfl⟩ := Option.map_eq_some_iff.1 hstep
    obtain ⟨ht, -⟩ := handle_eq ht
    rw [handleFrame_hello _ _ (hA.nodeID i) (hA.addr i).2.1 (hA.addr i).2.2.1] at ht
    subst ht
    refine (h.upsertPeer ⟨i, rfl⟩).setBoot ?_ fun a ha _ => .inr ?_
    · refine ⟨fun a ha => (h.boot i).pending a (by rw [hb]; exact ha), ?_, by simp⟩
      rintro server' addrs' peers' heq
      cases heq
      rw [show (s.setNode server _).nodes server = _ from Function.update_self ..]
      exact mem_upsertPeer.2 (.inl ⟨(hA.addr i).1, rfl⟩)
    · change a ∈ (s.boot i).pending at ha
      rw [hb] at ha
      exact ha
  · cases hstep

theorem Member.step_getPeers (hA : Addressed D B) (h : Member B s)
    (hstep : s.step D B (.getPeers i) = some s') : Member B s' := by
  simp only [Overlay.step] at hstep
  split at hstep
  · rename_i server addrs peers hb
    obtain ⟨⟨t, response⟩, ht, hresp⟩ := Option.bind_eq_some_iff.1 hstep
    have hget := handleFrame_getPeers D.codec (D.cfg server) (s.nodes server)
    obtain ⟨ht, hr⟩ := handle_eq ht
    rw [getPeers] at hget
    rw [hget] at ht hr
    subst ht hr
    obtain rfl := Option.some.inj hresp
    have hsame : s.setNode server (s.nodes server) = s := by
      rw [Overlay.setNode, Function.update_eq_self]
    dsimp only
    rw [hsame]
    have hans := h.answer ((h.boot i).registered server addrs peers hb)
    refine hans.setBoot ?_ fun a ha _ => .inr ?_
    · refine ⟨fun a ha => (h.boot i).pending a (by rw [hb]; exact ha), by simp, ?_⟩
      rintro server' response addrs' peers' heq
      cases heq
      exact ⟨_, List.mem_cons_self, h.parsePeers hA⟩
    · change a ∈ (s.boot i).pending at ha
      rw [hb] at ha
      exact ha
  · cases hstep

theorem Member.step_read (h : Member B s) (hstep : s.step D B (.read i) = some s') :
    Member B s' := by
  simp only [Overlay.step] at hstep
  split at hstep
  · rename_i server response addrs peers hb
    obtain ⟨payload, hp, rfl⟩ := Option.map_eq_some_iff.1 hstep
    rw [eq_of_frameRead hp]
    obtain ⟨l, hl, hparse⟩ := (h.boot i).told server response addrs peers hb
    rw [hparse]
    dsimp only
    have hm : Member B (s.setBoot i (.dial addrs (peers ++ l))) := by
      refine h.setBoot (bootOK_of_pending ?_ (by simp) (by simp)) fun a ha _ => .inr ?_
      · intro a ha
        rcases List.mem_append.1 ha with ha | ha
        · exact (h.boot i).pending a (by rw [hb]; exact ha)
        · exact (h.answers _ hl).addrs a ha
      · rw [hb] at ha
        exact List.mem_append_left l ha
    refine ⟨hm.self, hm.known, fun j => ⟨(hm.boot j).pending, (hm.boot j).registered,
      (hm.boot j).told⟩, fun x hx => ⟨(hm.answers x hx).registered, (hm.answers x hx).self,
      (hm.answers x hx).addrs⟩, hm.pairs, fun p hp => ?_⟩
    rcases List.mem_cons.1 hp with rfl | hp
    · refine ⟨l, hl, fun a ha _ => .inr ?_⟩
      change a ∈ ((s.setBoot i (.dial addrs (peers ++ l))).boot i).pending
      rw [boot_setBoot, if_pos rfl]
      exact List.mem_append_right peers ha
    · exact hm.joined p hp
  · cases hstep

theorem Member.step_upsert (hA : Addressed D B) (h : Member B s)
    (hstep : s.step D B (.upsert i) = some s') : Member B s' := by
  simp only [Overlay.step] at hstep
  split at hstep
  · rename_i hb
    obtain rfl := Option.some.inj hstep
    exact h.keep (by rw [hb]; rfl) (by simp) (by simp)
  · rename_i addr peers hb
    have haddr : IsAddr B addr := (h.boot i).pending addr (by rw [hb]; exact List.mem_cons_self)
    have hrest (a : Text) (ha : a ∈ peers) : IsAddr B a :=
      (h.boot i).pending a (by rw [hb]; exact List.mem_cons_of_mem addr ha)
    split_ifs at hstep with hskip
    · obtain rfl := Option.some.inj hstep
      refine h.setBoot (bootOK_of_pending hrest (by simp) (by simp)) fun a ha hne => .inr ?_
      rw [hb] at ha
      rcases List.mem_cons.1 ha with rfl | ha
      · rcases hskip with rfl | rfl
        · obtain ⟨j, hj⟩ := haddr
          exact absurd hj.symm (hA.addr j).1
        · exact absurd rfl hne
      · exact ha
    · obtain rfl := Option.some.inj hstep
      refine (h.upsertPeer haddr).setBoot (bootOK_of_pending hrest (by simp) (by simp))
        fun a ha _ => ?_
      change a ∈ (s.boot i).pending at ha
      rw [hb] at ha
      rcases List.mem_cons.1 ha with rfl | ha
      · rw [show (s.setNode i _).nodes i = _ from Function.update_self ..]
        exact .inl (mem_upsertPeer.2 (.inl ⟨fun hnil => hskip (.inl hnil), rfl⟩))
      · exact .inr ha
  · cases hstep

theorem Member.step (hA : Addressed D B) (h : Member B s) {a : JoinAction ι}
    (hstep : s.step D B a = some s') : Member B s' := by
  cases a with
  | start i =>
    simp only [Overlay.step] at hstep
    split at hstep
    · rename_i hb
      obtain rfl := Option.some.inj hstep
      refine h.keep ?_ (fun _ _ _ => ?_) fun _ _ _ _ => ?_
      · rw [hb, BootConfig.start]
        split_ifs <;> rfl
      · rw [BootConfig.start]
        split_ifs <;> simp
      · rw [BootConfig.start]
        split_ifs <;> simp
    · cases hstep
  | dial i up =>
    simp only [Overlay.step] at hstep
    split at hstep
    · rename_i hb
      obtain rfl := Option.some.inj hstep
      exact h.keep (by rw [hb]; rfl) (by simp) (by simp)
    · rename_i hb
      split_ifs at hstep
      · obtain rfl := Option.some.inj hstep
        exact h.keep (by rw [hb]; rfl) (by simp) (by simp)
      · split at hstep
        · obtain rfl := Option.some.inj hstep
          exact h.keep (by rw [hb]; rfl) (by simp) (by simp)
        · obtain rfl := Option.some.inj hstep
          exact h.keep (by rw [hb]; rfl) (by simp) (by simp)
    · cases hstep
  | hello i => exact h.step_hello hA hstep
  | getPeers i => exact h.step_getPeers hA hstep
  | read i => exact h.step_read hstep
  | fail i =>
    simp only [Overlay.step] at hstep
    split at hstep
    · rename_i hb
      obtain rfl := Option.some.inj hstep
      exact h.keep (by rw [hb]; rfl) (by simp) (by simp)
    · rename_i hb
      obtain rfl := Option.some.inj hstep
      exact h.keep (by rw [hb]; rfl) (by simp) (by simp)
    · rename_i hb
      obtain rfl := Option.some.inj hstep
      exact h.keep (by rw [hb]; rfl) (by simp) (by simp)
    · cases hstep
  | upsert i => exact h.step_upsert hA hstep
  | greet i up =>
    simp only [Overlay.step] at hstep
    split at hstep
    · rename_i hb
      obtain rfl := Option.some.inj hstep
      exact h.keep (by rw [hb]; rfl) (by simp) (by simp)
    · rename_i hb
      split at hstep
      · rename_i server _
        obtain ⟨⟨t, response⟩, ht, rfl⟩ := Option.map_eq_some_iff.1 hstep
        obtain ⟨rfl, -⟩ := handle_eq ht
        have hm := h.handleFrame (D := D) (i := server)
          (f := ⟨messageText (D.cfg i).nodeID (B i).message, [], []⟩) (isHello_messageText _ _)
        refine hm.keep ?_ (by simp) (by simp)
        change _ = (s.boot i).pending
        rw [hb]
        rfl
      · obtain rfl := Option.some.inj hstep
        exact h.keep (by rw [hb]; rfl) (by simp) (by simp)
    · cases hstep
  | frame i f =>
    simp only [Overlay.step] at hstep
    split_ifs at hstep with hf
    obtain rfl := Option.some.inj hstep
    exact h.handleFrame (by simpa using hf)

theorem run_member (hA : Addressed D B) {as : List (JoinAction ι)}
    (hrun : JoinRun D B (.init B) as s) : Member B s :=
  hrun.invariant member_init fun _ _ _ h _ hstep => h.step hA hstep

omit [DecidableEq ι] in
theorem Addressed.inj (hA : Addressed D B) {i j : ι}
    (h : (B i).advertiseAddr = (B j).advertiseAddr) : i = j := by
  have hi := hA.resolve i
  rw [h, hA.resolve j, Option.some.injEq, Endpoint.node.injEq] at hi
  exact hi.symm

omit [DecidableEq ι] in
/-- A node that has added everything knows all that it was told. -/
theorem Overlay.Takes.knows {l : List Text} (htakes : s.Takes B i l)
    (hadded : (s.boot i).Added) {a : Text} (ha : a ∈ l) (hne : a ≠ (B i).advertiseAddr) :
    a ∈ (s.nodes i).peers.addrs := by
  refine (htakes a ha hne).resolve_right fun hpend => ?_
  cases hb : s.boot i with
  | greet addrs =>
    rw [hb] at hpend
    exact absurd hpend List.not_mem_nil
  | finished =>
    rw [hb] at hpend
    exact absurd hpend List.not_mem_nil
  | idle | dial | hello | getPeers | answer | upsert =>
    rw [hb] at hadded
    exact hadded.elim

omit [DecidableEq ι] in
/-- Two nodes know each other once one has read an answer of the other and is done. -/
theorem Member.mutual (hA : Addressed D B) (h : Member B s) {b : ι} (hib : (i, b) ∈ s.joined)
    (hi : (s.boot i).Added) (hne : i ≠ b) : (B i).advertiseAddr ∈ (s.nodes b).peers.addrs
      ∧ (B b).advertiseAddr ∈ (s.nodes i).peers.addrs := by
  obtain ⟨l, hl, htakes⟩ := h.joined _ hib
  exact ⟨(h.answers _ hl).registered, htakes.knows hi (h.answers _ hl).self
    fun heq => hne (hA.inj heq).symm⟩

end Invariant

/-- Nodes know addresses of nodes only. A node that is done knows those whose answers it has read
and is known to them, and of two that have read answers of the same node one knows the other. -/
theorem bootstrap_acquaints {D : Deployment ι} {B : ι → BootConfig} (hA : Addressed D B)
    {as : List (JoinAction ι)} {s : Overlay ι} (hrun : JoinRun D B (.init B) as s) :
    (∀ i, ∀ a ∈ (s.nodes i).peers.addrs, ∃ j, a = (B j).advertiseAddr)
      ∧ (∀ i b, (i, b) ∈ s.joined → (s.boot i).Added → i ≠ b →
        (B i).advertiseAddr ∈ (s.nodes b).peers.addrs
          ∧ (B b).advertiseAddr ∈ (s.nodes i).peers.addrs)
      ∧ ∀ i j b, (i, b) ∈ s.joined → (j, b) ∈ s.joined → (s.boot i).Added → (s.boot j).Added →
        i ≠ j → (B j).advertiseAddr ∈ (s.nodes i).peers.addrs
          ∨ (B i).advertiseAddr ∈ (s.nodes j).peers.addrs := by
  have h := run_member hA hrun
  refine ⟨h.known, fun i b hib hi hne => h.mutual hA hib hi hne,
    fun i j b hib hjb hi hj hne => ?_⟩
  obtain ⟨l, hl, htakes⟩ := h.joined _ hib
  obtain ⟨l', hl', htakes'⟩ := h.joined _ hjb
  refine (h.pairs _ hl _ hl' rfl).imp (fun ha => ?_) fun ha => ?_
  · exact htakes.knows hi ha fun heq => hne (hA.inj heq).symm
  · exact htakes'.knows hj ha fun heq => hne (hA.inj heq)

/-! ### Two nodes that are given the address of a third -/

def starAddr (i : Fin 3) : Text := bytesOf "10.0.0.1:900" ++ formatNat i

def star : Deployment (Fin 3) where
  codec := codecAt12
  sha256 := four.sha256
  cfg i := .default (if i = 0 then bytesOf "a" else formatNat i)
  resolve addr := ((List.finRange 3).find? fun i => starAddr i = addr).map .node
  raft := false

def starBoot (i : Fin 3) : BootConfig :=
  ⟨starAddr i, [], if i = 0 then [] else [starAddr 0], bytesOf "hello"⟩

theorem addressed_star : Addressed star starBoot where
  nodeID := by decide
  addr i := by
    have hall : ∀ i, starAddr i ≠ [] ∧ bar ∉ starAddr i
        ∧ trimSpace (starAddr i) = starAddr i ∧ comma ∉ starAddr i := by decide +kernel
    exact hall i
  resolve := by decide +kernel

/-- Both say `HELLO` before one of them asks for peers. -/
def starJoin : List (JoinAction (Fin 3)) :=
  [.start 0, .start 1, .start 2, .dial 1 true, .dial 2 true, .hello 1, .hello 2, .getPeers 1,
    .getPeers 2, .read 1, .read 2, .dial 1 true, .dial 2 true, .upsert 1, .upsert 2, .upsert 1,
    .upsert 2, .upsert 1, .upsert 2, .upsert 1, .upsert 2]

theorem bootstrap_acquaints_star : ∃ s, JoinRun star starBoot (.init starBoot) starJoin s
    ∧ s.joined = [(2, 0), (1, 0)]
    ∧ (starAddr 2 ∈ (s.nodes 1).peers.addrs ∨ starAddr 1 ∈ (s.nodes 2).peers.addrs) := by
  obtain ⟨s, hrun, hs⟩ : ∃ s, JoinRun star starBoot (.init starBoot) _ s ∧ _ :=
    exists_run starJoin (fun s => s.joined = [(2, 0), (1, 0)] ∧ ∀ i, (s.boot i).Added)
      (by decide +kernel)
  obtain ⟨hjoined, hadded⟩ := of_decide_eq_true hs
  exact ⟨s, hrun, hjoined, (bootstrap_acquaints addressed_star hrun).2.2 1 2 0
    (by rw [hjoined]; simp) (by rw [hjoined]; simp) (hadded 1) (hadded 2) (by decide)⟩

end EdgeSim.SensorNode
