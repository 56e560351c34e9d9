import EdgeSim.Dht.BuildNetwork

/-!
# A sequence of stores, and what a lookup then reads

The stores of one key all go to the same nodes, the closest to it, so these hold the value of the
last store and no other node holds the key. A sequence of stores goes on as long as none of them
panics.
-/

namespace EdgeSim.Dht

open KNearest

/-- A call of `IterativeStore` by a node. -/
structure StoreCall where
  runtime : Runtime
  caller : NodeID
  key : String
  value : List UInt8
  alpha : ℤ
  maxRounds : ℤ

section

variable (keyToID : String → NodeID) (k : ℤ)

def Network.storeFrom (E : Expiry) (net : Network) (c : StoreCall) :
    Option (StoreOutcome Network) :=
  (iterativeStore c.runtime keyToID E.round (net.table c.caller)
    (some fun asked p t => net.findNode c.runtime (E.request asked.length) k p t)
    (some (Network.storeNext E)) c.key c.value ⟨k, c.alpha, c.maxRounds⟩ (net, 0)).map fun out =>
      ⟨out.state.1, out.closest, out.err⟩

def Network.findFrom (E : Expiry) (net : Network) (R : Runtime) (reader : NodeID)
    (alpha maxRounds : ℤ) (key : String) : Option FindValueOutcome :=
  iterativeFindValue R keyToID E.round (net.table reader)
    (some fun asked p key => net.findValue R keyToID (E.request asked.length) k p key) key
    ⟨k, alpha, maxRounds⟩

/-- The network after the stores, one after the other. -/
def Network.afterStores (net : Network) (calls : List StoreCall) : Option Network :=
  calls.foldlM (fun net c => (net.storeFrom keyToID k .never c).map StoreOutcome.state) net

end

/-- The value of the last store of a key. -/
def lastStored (calls : List StoreCall) (key : String) : Option (List UInt8) :=
  (calls.reverse.find? fun c => c.key = key).map StoreCall.value

section

variable {net : Network} {ids : Finset NodeID} {R : Runtime} {keyToID : String → NodeID} {k : ℤ}
  {n : Node} {id : NodeID} {key : String} {value : List UInt8}

theorem lastStored_append (calls : List StoreCall) (c : StoreCall) :
    lastStored (calls ++ [c]) = Function.update (lastStored calls) c.key (some c.value) := by
  funext key
  rw [lastStored, List.reverse_append, List.reverse_singleton, List.singleton_append,
    List.find?_cons]
  by_cases hkey : key = c.key
  · simp [hkey]
  · rw [Function.update_of_ne hkey, lastStored]
    simp [Ne.symm hkey]

/-! ## One store -/

theorem nodes_store (net : Network) (id : NodeID) (n : Node) (id' : NodeID) :
    (net.setNode id (n.storeLocal key value)).nodes id'
      = if id' = id then some (n.storeLocal key value) else net.nodes id' :=
  Function.update_apply ..

theorem store_storeLocal (n : Node) (key : String) (value : List UInt8) (key' : String) :
    (n.storeLocal key value).store key' = if key' = key then some value else n.store key' :=
  Function.update_apply ..

theorem get_store (hn : net.nodes id = some n) (id' : NodeID) (key' : String) :
    (net.setNode id (n.storeLocal key value)).get id' key'
      = if key' = key ∧ id' = id then some value else net.get id' key' := by
  rw [Network.get, nodes_store]
  by_cases hid : id' = id
  · rw [if_pos hid, Option.bind_some, store_storeLocal]
    by_cases hkey : key' = key
    · rw [if_pos hkey, if_pos ⟨hkey, hid⟩]
    · rw [if_neg hkey, if_neg fun hand => hkey hand.1, Network.get, hid, hn, Option.bind_some]
  · rw [if_neg hid, if_neg fun hand => hid hand.2, Network.get]

theorem Full.store (h : Full net ids) (hn : net.nodes id = some n) :
    Full (net.setNode id (n.storeLocal key value)) ids where
  reachable := by
    intro id' n' hn'
    rw [nodes_store] at hn'
    split_ifs at hn' with hid
    · cases hn'
      rw [hid]
      exact h.reachable id n hn
    · exact h.reachable id' n' hn'
  mem := by
    intro id'
    rw [nodes_store, h.mem id']
    split_ifs with hid
    · simp [hid, hn]
    · rfl
  table := by
    intro id' n' hn'
    rw [nodes_store] at hn'
    split_ifs at hn' with hid
    · cases hn'
      rw [hid]
      exact h.table id n hn
    · exact h.table id' n' hn'

theorem storeNext_of_some {E : Expiry} {i : ℕ} {p : Peer} (hn : net.nodes p.id = some n)
    (hE : E.store i = false) :
    Network.storeNext E (net, i) p key value
      = ((net.setNode p.id (n.storeLocal key value), i + 1), none) := by
  rw [Network.storeNext, hE, Network.storeValue_of_some hn]

/-- Stores to nodes of the network all succeed. -/
theorem storeAll_spec (key : String) (value : List UInt8) :
    ∀ (l : List Peer) {net : Network} (i : ℕ), Full net ids → (∀ p ∈ l, p.id ∈ ids) →
      ∃ net', storeAll (Network.storeNext .never) key value l (net, i)
          = ((net', i + l.length), none)
        ∧ Full net' ids
        ∧ ∀ id key', net'.get id key'
          = if key' = key ∧ id ∈ l.map Peer.id then some value else net.get id key'
  | [], net, i, h, _ => ⟨net, rfl, h, by simp⟩
  | p :: l, net, i, h, hl => by
    obtain ⟨n, hn⟩ := h.exists_node (hl p List.mem_cons_self)
    obtain ⟨net', hrun, hfull, hget⟩ := storeAll_spec key value l (i + 1) (h.store hn)
      fun q hq => hl q (List.mem_cons_of_mem p hq)
    refine ⟨net', ?_, hfull, fun id key' => ?_⟩
    · rw [storeAll, storeNext_of_some hn rfl, List.length_cons, Nat.add_comm l.length,
        ← Nat.add_assoc]
      exact hrun
    · rw [hget, get_store hn]
      by_cases hkey : key' = key
      · by_cases hid : id = p.id <;> simp [hkey, hid]
      · simp [hkey]

/-! ## Sequences of stores -/

/-- Every node of the network holds, of each key, the value given by `last` if it is one of the
closest nodes to the key, and nothing otherwise. -/
structure Stored (keyToID : String → NodeID) (k : ℤ) (ids : Finset NodeID)
    (last : String → Option (List UInt8)) (net : Network) : Prop where
  full : Full net ids
  get : ∀ key H, Nearest (xorDistance (keyToID key)) k.toNat ids H →
    ∀ id, net.get id key = if id ∈ H then last key else none

/-- What is asked of a store: a caller in the network, and options that need no default. -/
def StoreCall.OK (ids : Finset NodeID) (c : StoreCall) : Prop :=
  c.caller ∈ ids ∧ 1 ≤ c.alpha ∧ 2 ≤ c.maxRounds

theorem Stored.storeFrom {last : String → Option (List UInt8)} (h : Stored keyToID k ids last net)
    (hcard : 2 ≤ ids.card) (hk : 1 ≤ k) {c : StoreCall} (hc : c.OK ids)
    (hmax : c.alpha ≤ maxPeers) :
    ∃ out, net.storeFrom keyToID k .never c = some out ∧ out.err = none
      ∧ Nearest (xorDistance (keyToID c.key)) k.toNat ids (out.closest.map Peer.id)
      ∧ Stored keyToID k ids (Function.update last c.key (some c.value)) out.state := by
  obtain ⟨hcaller, halpha, hrounds⟩ := hc
  obtain ⟨n, hn⟩ := h.full.exists_node hcaller
  obtain ⟨l, calls, rounds, hfind, hnear⟩ := h.full.findNode hcard c.runtime (keyToID c.key)
    ⟨k, c.alpha, c.maxRounds⟩ hmax Expiry.never_round hn
  rw [normalize_eq hk halpha (by dsimp only; omega)] at hfind hnear
  obtain ⟨net', hstore, hfull, hget⟩ := storeAll_spec c.key c.value l 0 h.full
    fun p hp => hnear.mem _ (List.mem_map_of_mem hp)
  have hout : net.storeFrom keyToID k .never c = some ⟨net', l, none⟩ := by
    rw [Network.storeFrom, Network.table, hn, Option.map_some]
    simp only [Expiry.never_request]
    rw [iterativeStore_of_ok hfind rfl, hstore, Option.map_some]
  refine ⟨_, hout, rfl, hnear, hfull, fun key H hH id => ?_⟩
  rw [hget]
  by_cases hkey : key = c.key
  · subst hkey
    rw [Function.update_self, hH.eq hnear]
    by_cases hid : id ∈ l.map Peer.id
    · rw [if_pos ⟨rfl, hid⟩, if_pos hid]
    · rw [if_neg fun hand => hid hand.2, if_neg hid, h.get _ _ hnear, if_neg hid]
  · rw [if_neg fun hand => hkey hand.1, Function.update_of_ne hkey, h.get key H hH]

theorem Full.storeFrom_panics (h : Full net ids) (hcard : 2 ≤ ids.card) {c : StoreCall}
    (hc : c.OK ids) (hmax : maxPeers < c.alpha) : net.storeFrom keyToID k .never c = none := by
  obtain ⟨n, hn⟩ := h.exists_node hc.1
  rw [Network.storeFrom, Network.table, hn, Option.map_some, iterativeStore,
    iterativeFindNode_panics c.runtime _ (keyToID c.key) rfl hmax (h.reachable.wf hn)
      (h.peers_ne_nil hcard hn), Option.map_none, Option.map_none]

/-- A store that returned had a batch size that can be made. -/
theorem Full.alpha_le (h : Full net ids) (hcard : 2 ≤ ids.card) {c : StoreCall} (hc : c.OK ids)
    {out : StoreOutcome Network} (hout : net.storeFrom keyToID k .never c = some out) :
    c.alpha ≤ maxPeers := by
  by_contra hmax
  rw [h.storeFrom_panics hcard hc (not_le.1 hmax)] at hout
  cases hout

theorem stored_afterStores (keyToID : String → NodeID) (h : Full net ids)
    (hempty : ∀ id key, net.get id key = none) (hcard : 2 ≤ ids.card) (hk : 1 ≤ k)
    (calls : List StoreCall) (hcalls : ∀ c ∈ calls, c.OK ids) {after : Network}
    (hafter : net.afterStores keyToID k calls = some after) :
    Stored keyToID k ids (lastStored calls) after := by
  induction calls using List.reverseRecOn generalizing after with
  | nil =>
    cases hafter
    refine ⟨h, fun key H _ id => ?_⟩
    rw [hempty]
    split_ifs <;> rfl
  | append_singleton calls c ih =>
    rw [Network.afterStores, List.foldlM_append] at hafter
    obtain ⟨before, hbefore, hlast⟩ := Option.bind_eq_some_iff.1 hafter
    rw [List.foldlM_cons] at hlast
    obtain ⟨_, hstate, hnil⟩ := Option.bind_eq_some_iff.1 hlast
    cases hnil
    obtain ⟨out, hout, rfl⟩ := Option.map_eq_some_iff.1 hstate
    have hstored := ih (fun c' hc' => hcalls c' (List.mem_append_left _ hc')) hbefore
    have hc := hcalls c (by simp)
    obtain ⟨out', hout', -, -, hnext⟩ := hstored.storeFrom hcard hk hc
      (hstored.full.alpha_le hcard hc hout)
    rw [hout, Option.some.injEq] at hout'
    rw [lastStored_append, hout']
    exact hnext

/-! ## Reading -/

/-- A value that is read is held by a node. -/
theorem found_last {last : String → Option (List UInt8)} (h : Stored keyToID k ids last net)
    {value : Option (List UInt8)} {calls : List (Peer × Except LookupError ValueAnswer)}
    (hfound : Found (fun _ p key => net.findValue R keyToID false k p key) key value calls) :
    ∃ stored, last key = some stored ∧ value = some stored := by
  obtain ⟨before, p, answer, rfl, hreport, rfl, -⟩ := hfound.last
  have hanswer := hfound.answered.of_mem (p, .ok answer) (by simp)
  obtain ⟨stored, hget, hvalue⟩ := Network.findValue_found hanswer.symm hreport
  obtain ⟨H, hH⟩ := exists_nearest (xorDistance_injective (keyToID key)) k.toNat ids
  rw [h.get key H hH] at hget
  split_ifs at hget
  exact ⟨stored, hget, hvalue⟩

/-- A lookup that ends without the value, of a key that was stored, would have asked a node that
holds it. -/
theorem not_stored {last : String → Option (List UInt8)} (h : Stored keyToID k ids last net)
    (hcard : 2 ≤ ids.card) (hk : 1 ≤ k) {reader : NodeID} (hn : net.nodes reader = some n)
    {alpha maxRounds : ℤ} (halpha : 1 ≤ alpha) (hmax : alpha ≤ maxPeers) (hrounds : 2 ≤ maxRounds)
    {calls : List (Peer × Except LookupError ValueAnswer)} (hunfound : Unfound calls)
    (hcalls : ∀ c ∈ calls, c.2 = net.findValue R keyToID false k c.1 key) {l : List Peer}
    {rounds : ℕ} (hnode : iterativeFindNode R Expiry.never.round (some n.rt)
      (some fun _ p _ => (net.findValue R keyToID false k p key).map ValueAnswer.peers)
      (keyToID key) ⟨k, alpha, maxRounds⟩ = some ⟨.ok l, calls.map asFindNode, rounds⟩) :
    last key = none := by
  by_contra hsome
  obtain ⟨value, hlast⟩ := Option.ne_none_iff_exists'.1 hsome
  obtain ⟨H, hH⟩ := exists_nearest (xorDistance_injective (keyToID key)) k.toNat ids
  obtain ⟨out, hout, id, hid, hasked⟩ := h.full.findNode_asks_closest ⟨k, alpha, maxRounds⟩ hcard
    Expiry.never_round hn R hk halpha hmax hrounds hH fun p hp =>
      (Network.findValue_of_get_none (by rw [h.get key H hH, if_neg hp])).1
  rw [hnode, Option.some.injEq] at hout
  rw [← hout, FindNodeOutcome.queries, queries_asFindNode] at hasked
  obtain ⟨p, hp, rfl⟩ := List.mem_map.1 hasked
  obtain ⟨c, hc, rfl⟩ := List.mem_map.1 hp
  have hget : net.get c.1.id key = some value := by
    rw [h.get key H hH, if_pos hid, hlast]
  have hanswer := (hcalls c hc).trans (Network.findValue_of_get hget)
  exact absurd (hunfound c hc _ hanswer) (by simp)

theorem Stored.findFrom {last : String → Option (List UInt8)} (h : Stored keyToID k ids last net)
    (hcard : 2 ≤ ids.card) (hk : 1 ≤ k) (R : Runtime) {reader : NodeID} (hreader : reader ∈ ids)
    {alpha maxRounds : ℤ} (halpha : 1 ≤ alpha) (hmax : alpha ≤ maxPeers) (hrounds : 2 ≤ maxRounds)
    (key : String) :
    ∃ out, net.findFrom keyToID k .never R reader alpha maxRounds key = some out
      ∧ out.value = last key
      ∧ out.err = if (last key).isSome then none else some .valueNotFound := by
  obtain ⟨n, hn⟩ := h.full.exists_node hreader
  rw [Network.findFrom, Network.table, hn, Option.map_some]
  obtain ⟨l, calls, rounds, hnode, ⟨vcalls, hout, rfl, hunfound, hans⟩ | hfound⟩ :=
    iterativeFindValue_lockstep
      (fun _ p _ => (net.findValue R keyToID false k p key).map ValueAnswer.peers)
      (fun _ p key => net.findValue R keyToID false k p key) keyToID key
      (h.full.reachable.wf hn) (h.full.peers_ne_nil hcard hn) (fun _ _ => rfl)
      Expiry.never_round Expiry.never_round R R ⟨k, alpha, maxRounds⟩ hmax
  · refine ⟨_, hout, ?_⟩
    rw [not_stored h hcard hk hn halpha hmax hrounds hunfound hans.of_mem hnode]
    exact ⟨rfl, rfl⟩
  · obtain ⟨value, vcalls, hout, hfound, -⟩ := hfound
    obtain ⟨stored, hlast, rfl⟩ := found_last h hfound
    refine ⟨_, hout, ?_⟩
    rw [hlast]
    exact ⟨rfl, rfl⟩

theorem Full.findFrom_panics (h : Full net ids) (hcard : 2 ≤ ids.card) (R : Runtime)
    {reader : NodeID} (hreader : reader ∈ ids) {alpha : ℤ} (maxRounds : ℤ) (key : String)
    (hmax : maxPeers < alpha) :
    net.findFrom keyToID k .never R reader alpha maxRounds key = none := by
  obtain ⟨n, hn⟩ := h.exists_node hreader
  rw [Network.findFrom, Network.table, hn, Option.map_some]
  exact iterativeFindValue_panics R keyToID _ key rfl hmax (h.reachable.wf hn)
    (h.peers_ne_nil hcard hn)

/-- Read after write: after any stores that returned, a store goes to the closest `k` nodes of the
network and to no other, and a lookup from any node finds the value of the last store of the key, or
reports that there is none. Both do so just if a batch of `alpha` peers can be made. -/
theorem read_after_write (keyToID : String → NodeID) (h : Full net ids) (hcard : 2 ≤ ids.card)
    (hempty : ∀ id key, net.get id key = none) (hk : 1 ≤ k) (calls : List StoreCall)
    (hcalls : ∀ c ∈ calls, c.OK ids) {before : Network}
    (hbefore : net.afterStores keyToID k calls = some before) :
    (∀ c : StoreCall, c.OK ids →
      ((∃ out, before.storeFrom keyToID k .never c = some out ∧ out.err = none
        ∧ Nearest (xorDistance (keyToID c.key)) k.toNat ids (out.closest.map Peer.id)
        ∧ ∀ id key, out.state.get id key = if key = c.key then
            (if id ∈ out.closest.map Peer.id then some c.value else none) else before.get id key)
      ↔ c.alpha ≤ maxPeers))
    ∧ ∀ (R : Runtime) (reader : NodeID) (alpha maxRounds : ℤ) (key : String),
      reader ∈ ids → 1 ≤ alpha → 2 ≤ maxRounds →
      ((∃ out, before.findFrom keyToID k .never R reader alpha maxRounds key = some out
        ∧ out.value = lastStored calls key
        ∧ out.err = if (lastStored calls key).isSome then none else some .valueNotFound)
      ↔ alpha ≤ maxPeers) := by
  have hstored := stored_afterStores keyToID h hempty hcard hk calls hcalls hbefore
  refine ⟨fun c hc => ⟨?_, fun hmax => ?_⟩,
    fun R reader alpha maxRounds key hreader halpha hrounds => ⟨?_, fun hmax => ?_⟩⟩
  · rintro ⟨out, hout, -⟩
    exact hstored.full.alpha_le hcard hc hout
  · obtain ⟨out, hout, herr, hnear, hafter⟩ := hstored.storeFrom hcard hk hc hmax
    refine ⟨out, hout, herr, hnear, fun id key => ?_⟩
    obtain ⟨H, hH⟩ := exists_nearest (xorDistance_injective (keyToID key)) k.toNat ids
    rw [hafter.get key H hH]
    by_cases hkey : key = c.key
    · subst hkey
      rw [hH.eq hnear, Function.update_self, if_pos rfl]
    · rw [Function.update_of_ne hkey, if_neg hkey, hstored.get key H hH]
  · rintro ⟨out, hout, -⟩
    by_contra hmax
    rw [hstored.full.findFrom_panics hcard R hreader maxRounds key (not_le.1 hmax)] at hout
    cases hout
  · exact hstored.findFrom hcard hk R hreader halpha hmax hrounds key

/-- Two nodes, a store by the first, and what the second reads. -/
theorem read_after_write_pair :
    let keyToID : String → NodeID := fun name => if name = "node-1" then .ofNat 1 else .ofNat 2
    let call : StoreCall := ⟨.plain, .ofNat 1, "key", [7], 3, 20⟩
    ∃ before out, (buildNetwork keyToID (fun _ _ => 0) 2).afterStores keyToID 1 [call] = some before
      ∧ before.findFrom keyToID 1 .never .plain (.ofNat 2) 3 20 "key" = some out
      ∧ out.value = some [7] := by
  intro keyToID call
  have hcount : ((2 : ℕ) : ℤ) ≤ bucketK + 1 := by decide
  obtain ⟨hfull, hempty⟩ := buildNetwork_full keyToID (fun _ _ => 0)
    (by decide +kernel) hcount
  have hcall : ∀ c ∈ [call], c.OK ((nodeNames 2).map keyToID).toFinset := by
    intro c hc
    rw [List.mem_singleton.1 hc]
    exact ⟨by decide +kernel, by decide, by decide⟩
  have hsome : ((buildNetwork keyToID (fun _ _ => 0) 2).afterStores keyToID 1 [call]).isSome := by
    decide +kernel
  obtain ⟨before, hbefore⟩ := Option.isSome_iff_exists.1 hsome
  obtain ⟨out, hout, hvalue, -⟩ := ((read_after_write keyToID hfull (by decide +kernel) hempty
    le_rfl [call] hcall hbefore).2 .plain (.ofNat 2) 3 20 "key" (by decide +kernel) (by decide)
    (by decide)).2 (by decide)
  exact ⟨before, out, hbefore, hout, hvalue⟩

theorem read_after_write_panics :
    let keyToID : String → NodeID := fun name => if name = "node-1" then .ofNat 1 else .ofNat 2
    let net := buildNetwork keyToID (fun _ _ => 0) 2
    (net.storeFrom keyToID 1 .never ⟨.plain, .ofNat 1, "key", [7], 2 ^ 60, 20⟩).isNone
    ∧ (net.afterStores keyToID 1 [⟨.plain, .ofNat 1, "key", [7], 3, 20⟩]).isSome
    ∧ ∀ before, net.afterStores keyToID 1 [⟨.plain, .ofNat 1, "key", [7], 3, 20⟩] = some before →
      before.findFrom keyToID 1 .never .plain (.ofNat 2) (2 ^ 60) 20 "key" = none := by
  intro keyToID net
  refine ⟨by decide +kernel, by decide +kernel, fun before hbefore => ?_⟩
  obtain ⟨hfull, hempty⟩ := buildNetwork_full keyToID (fun _ _ => 0) (by decide +kernel)
    (show ((2 : ℕ) : ℤ) ≤ bucketK + 1 by decide)
  have hcard : 2 ≤ ((nodeNames 2).map keyToID).toFinset.card := by decide +kernel
  have hstored := stored_afterStores keyToID hfull hempty hcard le_rfl _ (by
    intro c hc
    rw [List.mem_singleton.1 hc]
    exact ⟨by decide +kernel, by decide, by decide⟩) hbefore
  exact hstored.full.findFrom_panics hcard .plain (by decide +kernel) 20 "key" (by decide)

end

end EdgeSim.Dht
