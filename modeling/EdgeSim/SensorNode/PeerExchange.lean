import EdgeSim.Lib.Joined
import EdgeSim.SensorNode.State

/-!
# Exchanging peers

The frames that a node answers, and what another node makes of the answer to `GETPEERS`. The
addresses are sent with commas between them inside a message with bars; `HELLO` takes any text
without bars for an address, while the reader of the list trims its items and drops empty ones. So
what is read is what was sent as long as no address has a comma or begins or ends with a space.
-/

namespace EdgeSim.SensorNode

open Joined

def comma : UInt8 := ','.toUInt8

/-- `splitAndTrim`. -/
def splitAndTrim (value : Text) : List Text :=
  ((value.splitOn comma).map trimSpace).filter fun item => item ≠ []

/-- The answer to `GETPEERS`. -/
def NodeState.peersResponse (s : NodeState) : Text :=
  bytesOf "PEERS|" ++ [comma].intercalate s.peerAddrs

/-- The end of `helloAndGetPeers`: the addresses in a response, unless it is none. -/
def parsePeers (response : Text) : Option (List Text) :=
  match parseMessage (trimSpace response) with
  | (_, []) => none
  | (msgType, peers :: _) => if msgType ≠ bytesOf "PEERS" then none else some (splitAndTrim peers)

/-- A frame that comes in, with the time in the answer to it and the indices drawn for it. -/
structure Incoming where
  payload : Text
  now : Text
  indices : List ℕ

/-- One round of the loop of `handleConn`: the state, the frame written back, and the frames sent to
other nodes with their addresses. -/
def handleFrame (codec : Codec) (cfg : Config) (s : NodeState) (f : Incoming) :
    NodeState × Option Text × List (Text × Text) :=
  let message := trimSpace f.payload
  if message = [] then (s, none, [])
  else
    match parseMessage message with
    | (msgType, parts) =>
      if msgType = bytesOf "HELLO" then
        match parts with
        | _ :: addr :: _ => (s.upsertPeer addr, some (bytesOf "ACK|HELLO"), [])
        | _ => (s, none, [])
      else if msgType = bytesOf "GETPEERS" then (s, some s.peersResponse, [])
      else if msgType = bytesOf "MESSAGE" then
        match parts with
        | _ :: _ :: _ => (s, some (bytesOf "ACK|MESSAGE|" ++ f.now), [])
        | _ => (s, none, [])
      else if msgType = gossipMsgType then
        match handleGossipMessage codec cfg f.indices s parts with
        | (s, frames) => (s, none, frames)
      else (s, none, [])

/-- The state after the frames. -/
def serve (codec : Codec) (cfg : Config) (s : NodeState) (frames : List Incoming) : NodeState :=
  frames.foldl (fun s f => (handleFrame codec cfg s f).1) s

/-! ## Trimming -/

section Trim

/-- None of the texts stands at the start. -/
def Stripped (seps : List Text) (s : Text) : Prop := ∀ sep ∈ seps, ¬ sep <+: s

variable {seps : List Text} {s t : Text}

theorem Stripped.find?_eq_none (h : Stripped seps s) :
    (seps.find? fun sep => sep.isPrefixOf s) = none := by
  rw [List.find?_eq_none]
  intro sep hsep hpre
  exact h sep hsep (List.isPrefixOf_iff_prefix.1 hpre)

theorem Stripped.trimStart_eq (h : Stripped seps s) (n : ℕ) : trimStart seps n s = s := by
  cases n with
  | zero => rfl
  | succ n => rw [trimStart, h.find?_eq_none]

theorem stripped_trimStart (hseps : ∀ sep ∈ seps, sep ≠ []) :
    ∀ {n : ℕ} {s : Text}, s.length ≤ n → Stripped seps (trimStart seps n s)
  | 0, s, hn => by
    intro sep hsep hpre
    rw [List.eq_nil_of_length_eq_zero (Nat.le_zero.1 hn)] at hpre
    exact hseps sep hsep (List.prefix_nil.1 hpre)
  | n + 1, s, hn => by
    rw [trimStart]
    cases h : seps.find? fun sep => sep.isPrefixOf s with
    | none =>
      intro sep hsep hpre
      exact List.find?_eq_none.1 h sep hsep (List.isPrefixOf_iff_prefix.2 hpre)
    | some sep =>
      have hpos := List.length_pos_iff.2 (hseps sep (List.mem_of_find?_eq_some h))
      refine stripped_trimStart hseps ?_
      rw [List.length_drop]
      omega

theorem trimStart_suffix : ∀ (n : ℕ) (s : Text), trimStart seps n s <:+ s
  | 0, s => List.suffix_rfl
  | n + 1, s => by
    rw [trimStart]
    split
    · exact (trimStart_suffix n _).trans (List.drop_suffix _ _)
    · exact List.suffix_rfl

theorem Stripped.of_isPrefix (h : Stripped seps s) (ht : t <+: s) : Stripped seps t :=
  fun sep hsep hpre => h sep hsep (hpre.trans ht)

/-- No space at either end. -/
def Trimmed (s : Text) : Prop := Stripped spaces s ∧ Stripped (spaces.map List.reverse) s.reverse

theorem trimSpace_isPrefix (s : Text) : trimSpace s <+: trimStart spaces s.length s := by
  have hsuffix : trimStart (spaces.map List.reverse) (trimStart spaces s.length s).length
      (trimStart spaces s.length s).reverse <:+ (trimStart spaces s.length s).reverse :=
    trimStart_suffix _ _
  have hpre := List.reverse_prefix.2 hsuffix
  rwa [List.reverse_reverse] at hpre

theorem trimSpace_subset (s : Text) : trimSpace s ⊆ s :=
  fun _ hb => (trimStart_suffix _ _).subset ((trimSpace_isPrefix s).subset hb)

theorem trimmed_trimSpace (s : Text) : Trimmed (trimSpace s) := by
  refine ⟨(stripped_trimStart (by decide) le_rfl).of_isPrefix (trimSpace_isPrefix s), ?_⟩
  rw [trimSpace, List.reverse_reverse]
  exact stripped_trimStart (by decide) (by rw [List.length_reverse])

theorem trimmed_iff : Trimmed s ↔ trimSpace s = s := by
  constructor
  · intro h
    unfold trimSpace
    rw [h.1.trimStart_eq]
    dsimp only
    rw [h.2.trimStart_eq, List.reverse_reverse]
  · intro h
    rw [← h]
    exact trimmed_trimSpace s

end Trim

/-! ## The response -/

section Response

variable {s : NodeState}

/-- The list survives being sent: no comma in an address, no space around it. -/
def Sendable (addr : Text) : Prop := trimSpace addr = addr ∧ comma ∉ addr

theorem mem_splitAndTrim {value item : Text} (h : item ∈ splitAndTrim value) :
    item ≠ [] ∧ Sendable item := by
  rw [splitAndTrim, List.mem_filter] at h
  obtain ⟨x, hx, rfl⟩ := List.mem_map.1 h.1
  refine ⟨by simpa using h.2, trimmed_iff.1 (trimmed_trimSpace x), fun hc => ?_⟩
  exact notMem_of_mem_splitOn hx (trimSpace_subset x hc)

theorem splitAndTrim_join {addrs : List Text} (hne : addrs ≠ [])
    (h : ∀ addr ∈ addrs, addr ≠ [] ∧ Sendable addr) :
    splitAndTrim ([comma].intercalate addrs) = addrs := by
  rw [splitAndTrim, List.splitOn_intercalate comma (fun addr ha => (h addr ha).2.2) hne,
    List.map_congr_left fun addr ha => (h addr ha).2.1, List.map_id', List.filter_eq_self]
  intro addr ha
  simpa using (h addr ha).1

theorem peerAddrs_ne_nil (s : NodeState) : s.peerAddrs ≠ [] := by
  have hself : s.selfAddr ∈ s.peerAddrs :=
    (List.mem_insertionSort _).2 List.mem_cons_self
  exact List.ne_nil_of_mem hself

theorem mem_peerAddrs {addr : Text} :
    addr ∈ s.peerAddrs ↔ addr = s.selfAddr ∨ addr ∈ s.peers.addrs := by
  rw [NodeState.peerAddrs, List.mem_insertionSort, List.mem_cons]

/-- A response whose last address has no space around it is not trimmed. -/
theorem trimSpace_peersResponse (h : ∀ addr ∈ s.peerAddrs, Sendable addr) :
    trimSpace s.peersResponse = s.peersResponse := by
  obtain ⟨l, a, hl⟩ : ∃ l a, s.peerAddrs = l ++ [a] :=
    ⟨_, _, (List.dropLast_append_getLast (peerAddrs_ne_nil s)).symm⟩
  have ha : Trimmed a := trimmed_iff.2 (h a (by rw [hl]; simp)).1
  obtain ⟨x, c, hx, hc⟩ : ∃ x c, s.peersResponse = x ++ c :: a ∧ (c = bar ∨ c = comma) := by
    rw [NodeState.peersResponse, hl]
    rcases intercalate_concat (c := comma) a l with hjoin | ⟨x, hjoin⟩
    · exact ⟨bytesOf "PEERS", bar, by rw [hjoin]; rfl, .inl rfl⟩
    · exact ⟨bytesOf "PEERS|" ++ x, comma, by rw [hjoin, List.append_assoc], .inr rfl⟩
  refine trimmed_iff.1 ⟨fun sep hsep hpre => ?_, fun sep hsep hpre => ?_⟩
  · have hstart : ∀ sep ∈ spaces, sep ≠ [] ∧ sep.head? ≠ some 'P'.toUInt8 := by decide
    obtain ⟨y, hy⟩ := hpre
    cases sep with
    | nil => exact (hstart _ hsep).1 rfl
    | cons b sep =>
      refine (hstart _ hsep).2 ?_
      have hhead := congrArg List.head? hy
      exact hhead
  · have hfree : ∀ sep ∈ spaces.map List.reverse, bar ∉ sep ∧ comma ∉ sep := by decide
    rw [hx, List.reverse_append, List.reverse_cons, List.append_assoc] at hpre
    refine ha.2 sep hsep (prefix_of_notMem hpre ?_)
    rcases hc with rfl | rfl
    · exact (hfree sep hsep).1
    · exact (hfree sep hsep).2

/-- What is read is what was sent exactly when every address can be sent. -/
theorem parsePeers_peersResponse (h : ∀ addr ∈ s.peerAddrs, addr ≠ [] ∧ bar ∉ addr) :
    parsePeers s.peersResponse = some s.peerAddrs ↔ ∀ addr ∈ s.peerAddrs, Sendable addr := by
  constructor
  · intro hparse addr haddr
    unfold parsePeers at hparse
    split at hparse
    · cases hparse
    · split_ifs at hparse
      rw [Option.some.injEq] at hparse
      rw [← hparse] at haddr
      exact (mem_splitAndTrim haddr).2
  · intro hsend
    have htype : toUpper (trimSpace (bytesOf "PEERS")) = bytesOf "PEERS" := by decide
    have hbar : bar ∉ [comma].intercalate s.peerAddrs := by
      intro hmem
      rcases mem_intercalate hmem with hb | ⟨addr, haddr, hb⟩
      · exact absurd hb (by decide)
      · exact (h addr haddr).2 hb
    have hsplit : s.peersResponse.splitOn bar
        = [bytesOf "PEERS", [comma].intercalate s.peerAddrs] := by
      rw [NodeState.peersResponse, show bytesOf "PEERS|" = bytesOf "PEERS" ++ [bar] by decide,
        List.append_assoc, List.singleton_append,
        List.splitOn_append_cons_self_of_not_mem (by decide), List.splitOn_eq_singleton hbar]
    rw [parsePeers, trimSpace_peersResponse hsend, parseMessage, hsplit]
    dsimp only
    rw [htype, if_neg (not_not_intro rfl), splitAndTrim_join (peerAddrs_ne_nil s)
      fun addr haddr => ⟨(h addr haddr).1, hsend addr haddr⟩]

end Response

/-! ## What frames register -/

section Serve

variable {s : NodeState}

/-- What holds of the addresses of a node's peers: `upsertPeer` refuses the empty one, and a field
of a message has no bars. -/
def PeersOK (s : NodeState) : Prop := ∀ addr ∈ s.peers.addrs, addr ≠ [] ∧ bar ∉ addr

theorem PeersOK.upsertPeer {addr : Text} (h : PeersOK s) (hbar : bar ∉ addr) :
    PeersOK (s.upsertPeer addr) := by
  unfold NodeState.upsertPeer
  split_ifs with hnil
  · exact h
  · intro a ha
    dsimp only [PeerMap.insert] at ha
    split_ifs at ha
    · exact h a ha
    · rcases List.mem_cons.1 ha with rfl | ha
      · exact ⟨hnil, hbar⟩
      · exact h a ha

theorem bar_notMem_parts {message msgType part : Text} {parts : List Text}
    (h : parseMessage message = (msgType, parts)) (hp : part ∈ parts) : bar ∉ part := by
  unfold parseMessage at h
  cases hsplit : message.splitOn bar with
  | nil => exact absurd hsplit (List.splitOn_ne_nil _ _)
  | cons first rest =>
    rw [hsplit] at h
    obtain ⟨-, rfl⟩ := Prod.mk.inj h
    exact notMem_of_mem_splitOn (hsplit ▸ List.mem_cons_of_mem _ hp)

theorem handleGossipMessage_peers (codec : Codec) (cfg : Config) (s : NodeState)
    (indices : List ℕ) (parts : List Text) :
    (handleGossipMessage codec cfg indices s parts).1.peers = s.peers
      ∧ (handleGossipMessage codec cfg indices s parts).1.selfAddr = s.selfAddr := by
  obtain ⟨seen, hseen⟩ := checkGossipMessage_fst codec s parts
  unfold handleGossipMessage
  split
  · rename_i hcheck
    rw [hcheck] at hseen
    dsimp only at hseen ⊢
    rw [hseen]
    exact ⟨rfl, rfl⟩
  · rename_i hcheck
    rw [hcheck] at hseen
    dsimp only at hseen ⊢
    rw [hseen]
    split_ifs
    · exact ⟨rfl, rfl⟩
    · exact ⟨rfl, rfl⟩

/-- What one frame does to the peers of a node. -/
theorem PeersOK.handleFrame (h : PeersOK s) (codec : Codec) (cfg : Config) (f : Incoming) :
    PeersOK (handleFrame codec cfg s f).1
      ∧ (handleFrame codec cfg s f).1.selfAddr = s.selfAddr := by
  unfold SensorNode.handleFrame
  dsimp only
  by_cases hmessage : trimSpace f.payload = []
  · rw [if_pos hmessage]
    exact ⟨h, rfl⟩
  · rw [if_neg hmessage]
    cases hparse : parseMessage (trimSpace f.payload) with
    | mk msgType parts =>
      dsimp only
      split_ifs
      · split
        · rename_i name addr rest
          have hbar : bar ∉ addr := bar_notMem_parts hparse (by simp)
          refine ⟨h.upsertPeer hbar, ?_⟩
          dsimp only [NodeState.upsertPeer]
          split_ifs
          · rfl
          · rfl
        · exact ⟨h, rfl⟩
      · exact ⟨h, rfl⟩
      · split
        · exact ⟨h, rfl⟩
        · exact ⟨h, rfl⟩
      · obtain ⟨hpeers, hself⟩ := handleGossipMessage_peers codec cfg s f.indices parts
        refine ⟨?_, hself⟩
        dsimp only
        unfold PeersOK
        rw [hpeers]
        exact h
      · exact ⟨h, rfl⟩

theorem PeersOK.serve (h : PeersOK s) (codec : Codec) (cfg : Config) (frames : List Incoming) :
    PeersOK (serve codec cfg s frames) ∧ (serve codec cfg s frames).selfAddr = s.selfAddr := by
  induction frames generalizing s with
  | nil => exact ⟨h, rfl⟩
  | cons f frames ih =>
    obtain ⟨hok, hself⟩ := h.handleFrame codec cfg f
    exact ⟨(ih hok).1, (ih hok).2.trans hself⟩

end Serve

/-- The frame `GETPEERS`. -/
def getPeers : Incoming := ⟨bytesOf "GETPEERS", [], []⟩

theorem handleFrame_getPeers (codec : Codec) (cfg : Config) (s : NodeState) :
    handleFrame codec cfg s getPeers = (s, some s.peersResponse, []) := by
  have hmessage : trimSpace getPeers.payload = bytesOf "GETPEERS" := by decide
  have hparse : parseMessage (bytesOf "GETPEERS") = (bytesOf "GETPEERS", []) := by decide
  unfold handleFrame
  rw [hmessage]
  dsimp only
  rw [hparse, if_neg (by decide)]
  dsimp only
  rw [if_neg (by decide), if_pos rfl]

/-- After any frames, what is read from the answer to `GETPEERS` is the node's list exactly when no
address that was registered has a comma or a space around it. -/
theorem peer_exchange (codec : Codec) (cfg : Config) {selfAddr : Text} (hne : selfAddr ≠ [])
    (htrim : trimSpace selfAddr = selfAddr) (hcomma : comma ∉ selfAddr) (hbar : bar ∉ selfAddr)
    (frames : List Incoming) :
    let s := serve codec cfg (.init selfAddr) frames
    ∃ response, (handleFrame codec cfg s getPeers).2.1 = some response
      ∧ (parsePeers response = some s.peerAddrs
        ↔ ∀ addr ∈ s.peers.addrs, trimSpace addr = addr ∧ comma ∉ addr) := by
  intro s
  have hinit : PeersOK (.init selfAddr) := fun addr ha => absurd ha List.not_mem_nil
  obtain ⟨hok, hself⟩ : PeersOK s ∧ s.selfAddr = selfAddr := hinit.serve codec cfg frames
  refine ⟨s.peersResponse, by rw [handleFrame_getPeers], ?_⟩
  rw [parsePeers_peersResponse]
  · constructor
    · exact fun hsend addr ha => hsend addr (mem_peerAddrs.2 (.inr ha))
    · intro hsend addr ha
      rcases mem_peerAddrs.1 ha with rfl | ha
      · rw [hself]
        exact ⟨htrim, hcomma⟩
      · exact hsend addr ha
  · intro addr ha
    rcases mem_peerAddrs.1 ha with rfl | ha
    · rw [hself]
      exact ⟨hne, hbar⟩
    · exact hok addr ha

def selfAt1 : Text := bytesOf "10.0.0.1:9000"

theorem peer_exchange_pair :
    ∃ response, (handleFrame codecAt12 (.default [])
        (serve codecAt12 (.default []) (.init selfAt1)
          [⟨bytesOf "HELLO|b|10.0.0.2:9000", [], []⟩]) getPeers).2.1 = some response
      ∧ parsePeers response = some (serve codecAt12 (.default []) (.init selfAt1)
          [⟨bytesOf "HELLO|b|10.0.0.2:9000", [], []⟩]).peerAddrs := by
  obtain ⟨response, hresponse, hparse⟩ := peer_exchange codecAt12 (.default [])
    (show selfAt1 ≠ [] by decide) (by decide +kernel) (by decide) (by decide)
    [⟨bytesOf "HELLO|b|10.0.0.2:9000", [], []⟩]
  exact ⟨response, hresponse, hparse.2 (by decide +kernel)⟩

/-- One `HELLO` with a comma in its address registers one peer, and two are read. -/
theorem comma_splits_address :
    let s := serve codecAt12 (.default []) (.init selfAt1)
      [⟨bytesOf "HELLO|b|10.0.0.2:9000,10.0.0.3:9000", [], []⟩]
    s.peerAddrs = [selfAt1, bytesOf "10.0.0.2:9000,10.0.0.3:9000"]
      ∧ (handleFrame codecAt12 (.default []) s getPeers).2.1.bind parsePeers
        = some [selfAt1, bytesOf "10.0.0.2:9000", bytesOf "10.0.0.3:9000"] := by
  decide +kernel

end EdgeSim.SensorNode
