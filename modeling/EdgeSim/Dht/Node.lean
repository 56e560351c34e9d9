import EdgeSim.Dht.ValueLookup

/-!
# Nodes, and a network of them

`store.go`: a node has a routing table and a local store, answers the three requests, and a value is
stored on the closest peers that a node lookup finds. `cmd/dhtsim` puts nodes in one process: a map
from IDs to nodes, with requesters that call the handler of the node they are meant for. The rounds
of a call and the handlers it reaches all look at the one context that the call was given.
-/

namespace EdgeSim.Dht

/-! ## Nodes -/

structure Node where
  peer : Peer
  rt : RoutingTable
  store : String → Option (List UInt8)

/-- The time of a peer that was never seen. -/
def zeroTime : ℤ := 0

def newNode (id : NodeID) (addr : String) (bucketSize : ℤ) : Node where
  peer := ⟨id, addr, zeroTime⟩
  rt := newRoutingTable id bucketSize
  store := fun _ => none

namespace Node

def storeLocal (n : Node) (key : String) (value : List UInt8) : Node :=
  { n with store := Function.update n.store key (some value) }

def findValueLocal (n : Node) (key : String) : Option (List UInt8) := n.store key

/-- The handlers are given whether the context is done. -/
def handleFindNode (R : Runtime) (done : Bool) (n : Node) (target : NodeID) (k : ℤ) :
    Except LookupError (List Peer) :=
  if done then .error .canceled else .ok (n.rt.getClosestPeers R target k)

def handleStore (done : Bool) (n : Node) (key : String) (value : List UInt8) :
    Node × Option LookupError :=
  if done then (n, some .canceled) else (n.storeLocal key value, none)

def handleFindValue (R : Runtime) (keyToID : String → NodeID) (done : Bool) (n : Node)
    (key : String) (k : ℤ) : Except LookupError ValueAnswer :=
  if done then .error .canceled
  else
    match n.findValueLocal key with
    | some value => .ok ⟨some value, [], true⟩
    | none => .ok ⟨none, n.rt.getClosestPeers R (keyToID key) k, false⟩

end Node

/-! ## `IterativeStore` -/

/-- A store request changes the state `σ` of the other peers. -/
abbrev StoreRequester (σ : Type) := σ → Peer → String → List UInt8 → σ × Option LookupError

/-- What a store returns, and the state it leaves. -/
structure StoreOutcome (σ : Type) where
  state : σ
  closest : List Peer
  err : Option LookupError

section

variable {σ : Type}

/-- The requests to the closest peers, up to the first that fails. -/
def storeAll (store : StoreRequester σ) (key : String) (value : List UInt8) :
    List Peer → σ → σ × Option LookupError
  | [], w => (w, none)
  | peer :: closest, w =>
    match store w peer key value with
    | (w, some err) => (w, some err)
    | (w, none) => storeAll store key value closest w

def iterativeStore (R : Runtime) (keyToID : String → NodeID) (ctx : ℕ → Bool)
    (rt : Option RoutingTable) (find : Option FindNodeRequester) (store : Option (StoreRequester σ))
    (key : String) (value : List UInt8) (opts : FindNodeOptions) (w : σ) :
    Option (StoreOutcome σ) :=
  match rt, find, store with
  | none, _, _ => some ⟨w, [], some .nilTable⟩
  | some _, none, _ => some ⟨w, [], some .nilFindNode⟩
  | some _, some _, none => some ⟨w, [], some .nilStore⟩
  | some rt, some find, some store =>
    (iterativeFindNode R ctx (some rt) (some find) (keyToID key) opts).map fun out =>
      match out.result with
      | .error err => ⟨w, [], some err⟩
      | .ok closest =>
        let (w, err) := storeAll store key value closest w
        ⟨w, closest, err⟩

section

variable {R : Runtime} {keyToID : String → NodeID} {ctx : ℕ → Bool} {rt : RoutingTable}
  {find : FindNodeRequester} {store : StoreRequester σ} {key : String} {value : List UInt8}
  {opts : FindNodeOptions} {w : σ} {out : FindNodeOutcome}

theorem iterativeStore_of_error {err : LookupError}
    (h : iterativeFindNode R ctx (some rt) (some find) (keyToID key) opts = some out)
    (hout : out.result = .error err) :
    iterativeStore R keyToID ctx (some rt) (some find) (some store) key value opts w
      = some ⟨w, [], some err⟩ := by
  rw [iterativeStore, h, Option.map_some, hout]

theorem iterativeStore_of_ok {closest : List Peer}
    (h : iterativeFindNode R ctx (some rt) (some find) (keyToID key) opts = some out)
    (hout : out.result = .ok closest) :
    iterativeStore R keyToID ctx (some rt) (some find) (some store) key value opts w
      = some ⟨(storeAll store key value closest w).1, closest,
        (storeAll store key value closest w).2⟩ := by
  rw [iterativeStore, h, Option.map_some, hout]

end

end

/-! ## Contexts -/

/-- The first check of its context in a call that finds it done, which it then stays: the check of a
round or of a request after so many requests, or the check of a store after so many stores. -/
inductive Expiry where
  | never
  | atRound (requests : ℕ)
  | atRequest (requests : ℕ)
  | atStore (stores : ℕ)
  deriving DecidableEq

namespace Expiry

/-- The context is done at the check of a round. -/
def round : Expiry → ℕ → Bool
  | atRound n, i => n ≤ i
  | atRequest n, i => n < i
  | _, _ => false

/-- The context is done at the check of a request. -/
def request : Expiry → ℕ → Bool
  | atRound n, i => n ≤ i
  | atRequest n, i => n ≤ i
  | _, _ => false

/-- The context is done at the check of a store. -/
def store : Expiry → ℕ → Bool
  | never, _ => false
  | atStore n, i => n ≤ i
  | _, _ => true

@[simp] theorem never_round (i : ℕ) : never.round i = false := rfl

@[simp] theorem never_request (i : ℕ) : never.request i = false := rfl

@[simp] theorem never_store (i : ℕ) : never.store i = false := rfl

variable {E : Expiry} {i j : ℕ}

theorem request_mono (h : E.request i = true) (hij : i ≤ j) : E.request j = true := by
  cases E <;> simp [request] at h ⊢ <;> omega

/-- A context that is done at a request is done at the next round. -/
theorem round_of_request (h : E.request i = true) (hij : i < j) : E.round j = true := by
  cases E <;> simp [request, round] at h ⊢ <;> omega

theorem store_of_request (h : E.request i = true) (j : ℕ) : E.store j = true := by
  cases E <;> simp [request, store] at h ⊢

end Expiry

/-! ## The network of `cmd/dhtsim` -/

structure Network where
  nodes : NodeID → Option Node

namespace Network

def setNode (net : Network) (id : NodeID) (n : Node) : Network :=
  ⟨Function.update net.nodes id (some n)⟩

def findNode (R : Runtime) (done : Bool) (k : ℤ) (net : Network) (peer : Peer) (target : NodeID) :
    Except LookupError (List Peer) :=
  match net.nodes peer.id with
  | none => .error (.unknownPeer peer.id)
  | some remote => remote.handleFindNode R done target k

def storeValue (done : Bool) (net : Network) (peer : Peer) (key : String) (value : List UInt8) :
    Network × Option LookupError :=
  match net.nodes peer.id with
  | none => (net, some (.unknownPeer peer.id))
  | some remote =>
    let (remote, err) := remote.handleStore done key value
    (net.setNode peer.id remote, err)

def findValue (R : Runtime) (keyToID : String → NodeID) (done : Bool) (k : ℤ) (net : Network)
    (peer : Peer) (key : String) : Except LookupError ValueAnswer :=
  match net.nodes peer.id with
  | none => .error (.unknownPeer peer.id)
  | some remote => remote.handleFindValue R keyToID done key k

/-- A store request of a call, with the number of its requests so far. -/
def storeNext (E : Expiry) (w : Network × ℕ) (peer : Peer) (key : String) (value : List UInt8) :
    (Network × ℕ) × Option LookupError :=
  let (net, err) := w.1.storeValue (E.store w.2) peer key value
  ((net, w.2 + 1), err)

/-- The table of a node, nil if there is no such node. -/
def table (net : Network) (id : NodeID) : Option RoutingTable := (net.nodes id).map Node.rt

/-- What a node holds under a key. -/
def get (net : Network) (id : NodeID) (key : String) : Option (List UInt8) :=
  (net.nodes id).bind fun n => n.store key

variable {net : Network} {R : Runtime} {k : ℤ} {p : Peer} {target : NodeID} {n : Node}
  {key : String} {value : List UInt8} {keyToID : String → NodeID}

theorem findNode_of_some (h : net.nodes p.id = some n) :
    net.findNode R false k p target = .ok (n.rt.getClosestPeers R target k) := by
  simp [findNode, h, Node.handleFindNode]

theorem findNode_eq_ok {done : Bool} {response : List Peer}
    (h : net.findNode R done k p target = .ok response) :
    ∃ n, net.nodes p.id = some n ∧ response = n.rt.getClosestPeers R target k := by
  cases hn : net.nodes p.id with
  | none => simp [findNode, hn] at h
  | some n =>
    cases done with
    | true => simp [findNode, hn, Node.handleFindNode] at h
    | false =>
      rw [findNode_of_some hn] at h
      exact ⟨n, rfl, (Except.ok.inj h).symm⟩

theorem findValue_of_get (h : net.get p.id key = some value) :
    net.findValue R keyToID false k p key = .ok ⟨some value, [], true⟩ := by
  obtain ⟨n, hn, hvalue⟩ := Option.bind_eq_some_iff.1 h
  simp [findValue, hn, Node.handleFindValue, Node.findValueLocal, hvalue]

theorem findValue_of_get_none (h : net.get p.id key = none) :
    (net.findValue R keyToID false k p key).map ValueAnswer.peers
        = net.findNode R false k p (keyToID key)
      ∧ ∀ answer, net.findValue R keyToID false k p key = .ok answer → answer.found = false := by
  cases hn : net.nodes p.id with
  | none => simp [findValue, findNode, hn, Except.map]
  | some n =>
    have hvalue : n.store key = none := by simpa [get, hn] using h
    simp only [findValue, findNode, hn, Node.handleFindValue, Node.handleFindNode,
      Node.findValueLocal, hvalue, Bool.false_eq_true, if_false]
    refine ⟨rfl, fun answer hanswer => ?_⟩
    cases hanswer
    rfl

theorem findValue_found {answer : ValueAnswer}
    (h : net.findValue R keyToID false k p key = .ok answer) (hfound : answer.found = true) :
    ∃ value, net.get p.id key = some value ∧ answer.value = some value := by
  cases hget : net.get p.id key with
  | none =>
    rw [(findValue_of_get_none hget).2 answer h] at hfound
    cases hfound
  | some value =>
    rw [findValue_of_get hget] at h
    cases h
    exact ⟨value, rfl, rfl⟩

theorem storeValue_of_some (h : net.nodes p.id = some n) :
    net.storeValue false p key value = (net.setNode p.id (n.storeLocal key value), none) := by
  simp [storeValue, h, Node.handleStore]

/-! ### Networks of real tables -/

/-- The tables have come about by calls of `AddPeer` and `RemovePeer`. -/
def Reachable (net : Network) : Prop :=
  ∀ id n, net.nodes id = some n → ∃ bucketSize ops, n.rt = tableAfter id bucketSize ops

theorem Reachable.wf {id : NodeID} (h : net.Reachable) (hn : net.nodes id = some n) : n.rt.WF := by
  obtain ⟨bucketSize, ops, hrt⟩ := h id n hn
  rw [hrt]
  exact (wf_tableAfter id bucketSize ops).1

end Network

theorem ids_ne_zero {rt : RoutingTable} {id : NodeID} (h : rt.WF) (hid : id ∈ rt.ids) : id ≠ 0 := by
  obtain ⟨p, hp, rfl⟩ := RoutingTable.mem_ids.1 hid
  obtain ⟨i, hi⟩ := RoutingTable.mem_peers.1 hp
  exact (RoutingTable.checkPeer_eq_none.1 (h.checked i p hi)).2.1

theorem mem_learnedIDs {response : List Peer} {id : NodeID} :
    id ∈ learnedIDs response ↔ id ∈ response.map Peer.id ∧ id ≠ 0 := by
  simp [learnedIDs]

theorem mem_learned {calls : List (Peer × Except LookupError (List Peer))} {id : NodeID} :
    id ∈ learned calls ↔ ∃ p response, (p, .ok response) ∈ calls ∧ id ∈ learnedIDs response := by
  simp only [learned, List.mem_toFinset, List.mem_flatMap, Prod.exists]
  constructor
  · rintro ⟨p, answer, hc, hid⟩
    cases answer with
    | error err => simp at hid
    | ok response => exact ⟨p, response, hc, hid⟩
  · rintro ⟨p, response, hc, hid⟩
    exact ⟨p, .ok response, hc, hid⟩

end EdgeSim.Dht
