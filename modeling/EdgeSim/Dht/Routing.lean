import EdgeSim.Lib.Bytes
import Mathlib.Data.List.Nodup
import Mathlib.Data.Fintype.Basic
import Mathlib.Logic.Function.Basic

/-!
# Peers, buckets and the routing table

`pkg/dht`: 160-bit node IDs with the XOR distance, `bucket.go` and `routing.go`. A bucket is the
slice of its peers, least recently added first; the slice is shifted in place when a peer leaves the
middle of it. `AddPeer` reads the clock, so it is given the time.
-/

namespace EdgeSim.Dht

open Bytes

abbrev NodeIDLength : ℕ := 20

/-- A `[20]byte`. -/
@[ext] structure NodeID where
  bytes : List UInt8
  length_eq : bytes.length = NodeIDLength
  deriving DecidableEq

instance : Zero NodeID := ⟨⟨List.replicate NodeIDLength 0, List.length_replicate⟩⟩

structure Peer where
  id : NodeID
  addr : String
  lastSeen : ℤ
  deriving DecidableEq

def xorBytes (a b : NodeID) : List UInt8 := List.zipWith (· ^^^ ·) a.bytes b.bytes

/-- The XOR of the IDs, read as a number, most significant byte first. -/
def xorDistance (a b : NodeID) : ℕ := ofBytes (xorBytes a b)

/-- `bits.LeadingZeros8`. -/
def leadingZeros8 (x : UInt8) : ℕ := if x = 0 then 8 else 7 - x.toNat.log2

/-- The loop of `bucketIndex` from byte `i` on. -/
def bucketIndexFrom : ℕ → List UInt8 → ℕ
  | _, [] => NodeIDLength * 8 - 1
  | i, x :: xs => if x = 0 then bucketIndexFrom (i + 1) xs else i * 8 + (7 - leadingZeros8 x)

def bucketIndex (localID peerID : NodeID) : ℕ := bucketIndexFrom 0 (xorBytes localID peerID)

theorem length_xorBytes (a b : NodeID) : (xorBytes a b).length = NodeIDLength := by
  rw [xorBytes, List.length_zipWith, a.length_eq, b.length_eq, min_self]

/-- The distance is the XOR of the IDs as numbers. -/
theorem xorDistance_eq (a b : NodeID) : xorDistance a b = ofBytes a.bytes ^^^ ofBytes b.bytes :=
  ofBytes_xor (a.length_eq.trans b.length_eq.symm)

theorem NodeID.ofBytes_inj {a b : NodeID} (h : ofBytes a.bytes = ofBytes b.bytes) : a = b :=
  NodeID.ext (Bytes.ofBytes_inj (a.length_eq.trans b.length_eq.symm) h)

/-- Different IDs are at different distances. -/
theorem xorDistance_injective (target : NodeID) : Function.Injective (xorDistance target) := by
  intro a b h
  rw [xorDistance_eq, xorDistance_eq, Nat.xor_right_inj] at h
  exact NodeID.ofBytes_inj h

theorem bucketIndexFrom_lt :
    ∀ {i : ℕ} {xs : List UInt8}, i + xs.length ≤ NodeIDLength →
      bucketIndexFrom i xs < NodeIDLength * 8
  | i, [], _ => by simp [bucketIndexFrom]
  | i, x :: xs, h => by
    rw [List.length_cons] at h
    rw [bucketIndexFrom]
    split_ifs
    · exact bucketIndexFrom_lt (by omega)
    · omega

theorem bucketIndex_lt (localID peerID : NodeID) : bucketIndex localID peerID < NodeIDLength * 8 :=
  bucketIndexFrom_lt (by rw [length_xorBytes, Nat.zero_add])

/-! ## Buckets -/

structure Bucket where
  peers : List Peer
  maxSize : ℕ
  maxSize_pos : 0 < maxSize

def newBucket (maxSize : ℤ) : Bucket where
  peers := []
  maxSize := if maxSize ≤ 0 then 20 else maxSize.toNat
  maxSize_pos := by split_ifs <;> omega

namespace Bucket

/-- `copy(s[i:], s[i+1:])`: what is behind `i` moves down by one, and the last entry stays. -/
def copyDown (s : List Peer) (i : ℕ) : List Peer :=
  s.take i ++ s.drop (i + 1) ++ s.drop (s.length - 1)

def indexOf (b : Bucket) (peerID : NodeID) : Option ℕ :=
  b.peers.findIdx? fun p => p.id = peerID

def moveToEnd (s : List Peer) (i : ℕ) : List Peer :=
  match s[i]? with
  | none => s
  | some peer => (copyDown s i).set (s.length - 1) peer

/-- The bucket and the evicted peer. -/
def add (b : Bucket) (peer : Peer) : Bucket × Option Peer :=
  match b.indexOf peer.id with
  | some i => ({ b with peers := moveToEnd (b.peers.set i peer) i }, none)
  | none =>
    if b.maxSize ≤ b.peers.length then
      ({ b with peers := b.peers.drop 1 ++ [peer] }, b.peers.head?)
    else ({ b with peers := b.peers ++ [peer] }, none)

def remove (b : Bucket) (peerID : NodeID) : Bucket × Bool :=
  match b.indexOf peerID with
  | none => (b, false)
  | some i => ({ b with peers := (copyDown b.peers i).take (b.peers.length - 1) }, true)

variable {b : Bucket} {p q : Peer}

theorem copyDown_eq {s : List Peer} {i : ℕ} (hi : i < s.length) :
    ∃ last, copyDown s i = s.eraseIdx i ++ [last] := by
  refine ⟨s[s.length - 1], ?_⟩
  rw [copyDown, ← List.eraseIdx_eq_take_drop_succ, List.drop_eq_getElem_cons (by omega),
    List.drop_eq_nil_of_le (by omega)]

theorem moveToEnd_eq {s : List Peer} {i : ℕ} (h : s[i]? = some p) :
    moveToEnd s i = s.eraseIdx i ++ [p] := by
  obtain ⟨hi, -⟩ := List.getElem?_eq_some_iff.1 h
  obtain ⟨last, hlast⟩ := copyDown_eq hi
  have hlen := List.length_eraseIdx_of_lt hi
  simp only [moveToEnd, h, hlast]
  rw [List.set_append_right _ _ (by omega), hlen, Nat.sub_self, List.set_cons_zero]

theorem peers_remove (b : Bucket) (peerID : NodeID) :
    (b.remove peerID).1.peers = b.peers.eraseP fun p => p.id = peerID := by
  rw [List.eraseP_eq_eraseIdx, remove, indexOf]
  cases h : b.peers.findIdx? fun p => p.id = peerID with
  | none => rfl
  | some i =>
    have hi := (List.findIdx?_eq_some_iff_findIdx_eq.1 h).1
    obtain ⟨last, hlast⟩ := copyDown_eq hi
    have hlen := List.length_eraseIdx_of_lt hi
    simp only [hlast]
    rw [← hlen, List.take_left]

/-- What a bucket keeps when a peer is added: all but the peer's old entry, or all but the oldest of
a full bucket. -/
def kept (b : Bucket) (peer : Peer) : List Peer :=
  if peer.id ∈ b.peers.map Peer.id then b.peers.eraseP fun p => p.id = peer.id
  else if b.maxSize ≤ b.peers.length then b.peers.tail
  else b.peers

theorem indexOf_eq_none {peerID : NodeID} :
    b.indexOf peerID = none ↔ peerID ∉ b.peers.map Peer.id := by
  simp [indexOf]

theorem peers_add (b : Bucket) (peer : Peer) : (b.add peer).1.peers = b.kept peer ++ [peer] := by
  rw [add, kept]
  cases h : b.indexOf peer.id with
  | none =>
    rw [if_neg (indexOf_eq_none.1 h)]
    dsimp only
    split_ifs
    · rw [List.drop_one]
    · rfl
  | some i =>
    have hmem : peer.id ∈ b.peers.map Peer.id := by
      by_contra hmem
      rw [indexOf_eq_none.2 hmem] at h
      cases h
    have hi := (List.findIdx?_eq_some_iff_findIdx_eq.1 h).1
    rw [indexOf] at h
    rw [if_pos hmem, List.eraseP_eq_eraseIdx, h]
    dsimp only
    rw [moveToEnd_eq (List.getElem?_set_self hi), List.eraseIdx_set_eq]

@[simp] theorem maxSize_add (b : Bucket) (peer : Peer) :
    (b.add peer).1.maxSize = b.maxSize := by
  rw [add]
  split
  · rfl
  · split_ifs <;> rfl

@[simp] theorem maxSize_remove (b : Bucket) (peerID : NodeID) :
    (b.remove peerID).1.maxSize = b.maxSize := by
  rw [remove]
  split <;> rfl

theorem kept_sublist (b : Bucket) (peer : Peer) : (b.kept peer).Sublist b.peers := by
  rw [kept]
  split_ifs
  · exact List.eraseP_sublist
  · exact List.tail_sublist _
  · exact List.Sublist.refl _

/-- A peer that a bucket loses to another one is the oldest of the bucket, which is full. -/
theorem eq_head_of_lost (hq : q ∈ b.peers) (hid : q.id ≠ p.id) (hlost : q ∉ b.kept p) :
    b.maxSize ≤ b.peers.length ∧ b.peers.head? = some q := by
  rw [kept] at hlost
  split_ifs at hlost with h1 h2
  · exact absurd ((List.mem_eraseP_of_neg (by simpa using hid)).2 hq) hlost
  · cases hpeers : b.peers with
    | nil => simp [hpeers] at hq
    | cons r rs =>
      rw [hpeers] at hq hlost
      rcases List.mem_cons.1 hq with rfl | hrs
      · exact ⟨hpeers ▸ h2, rfl⟩
      · exact absurd hrs hlost
  · exact absurd hq hlost

/-- The bounds on a bucket, and one entry for an ID. -/
structure WF (b : Bucket) : Prop where
  bounded : b.peers.length ≤ b.maxSize
  nodup : (b.peers.map Peer.id).Nodup

theorem WF.notMem_eraseP (h : b.WF) {peerID : NodeID} :
    peerID ∉ (b.peers.eraseP fun p => p.id = peerID).map Peer.id := by
  intro hmem
  have hfun : (fun p : Peer => decide (p.id = peerID)) = (peerID == ·) ∘ Peer.id := by
    funext p
    rw [Function.comp_apply, beq_eq_decide, decide_eq_decide, eq_comm]
  rw [hfun, ← List.eraseP_map, ← List.erase_eq_eraseP] at hmem
  exact h.nodup.not_mem_erase hmem

theorem WF.notMem_kept (h : b.WF) (peer : Peer) : peer.id ∉ (b.kept peer).map Peer.id := by
  by_cases hmem : peer.id ∈ b.peers.map Peer.id
  · rw [kept, if_pos hmem]
    exact h.notMem_eraseP
  · exact fun hkept => hmem (((b.kept_sublist peer).map Peer.id).subset hkept)

theorem WF.length_kept (h : b.WF) (peer : Peer) : (b.kept peer).length < b.maxSize := by
  have hb := h.bounded
  have hpos := b.maxSize_pos
  rw [kept]
  split_ifs with h1 h2
  · obtain ⟨p, hp, hid⟩ := List.mem_map.1 h1
    have hpeers := List.length_pos_of_mem hp
    rw [List.length_eraseP_of_mem hp (by simpa using hid)]
    omega
  · rw [List.length_tail]
    omega
  · omega

theorem wf_newBucket (maxSize : ℤ) : (newBucket maxSize).WF where
  bounded := Nat.zero_le _
  nodup := List.nodup_nil

theorem WF.add (h : b.WF) (peer : Peer) : (b.add peer).1.WF where
  bounded := by
    have hlen := h.length_kept peer
    rw [peers_add, maxSize_add, List.length_append, List.length_singleton]
    omega
  nodup := by
    rw [peers_add, List.map_append, List.map_singleton, List.nodup_append]
    refine ⟨h.nodup.sublist ((b.kept_sublist peer).map Peer.id), List.nodup_singleton _, ?_⟩
    intro id hid _ hmem heq
    rw [heq, List.mem_singleton.1 hmem] at hid
    exact h.notMem_kept peer hid

theorem WF.remove (h : b.WF) (peerID : NodeID) : (b.remove peerID).1.WF where
  bounded := by
    rw [peers_remove, maxSize_remove]
    exact List.eraseP_sublist.length_le.trans h.bounded
  nodup := by
    rw [peers_remove]
    exact h.nodup.sublist (List.eraseP_sublist.map Peer.id)

end Bucket

/-! ## The table -/

structure RoutingTable where
  localID : NodeID
  buckets : Fin (NodeIDLength * 8) → Bucket

inductive PeerError where
  | invalidPeer
  | selfPeer
  deriving DecidableEq, Repr

def newRoutingTable (localID : NodeID) (bucketSize : ℤ) : RoutingTable where
  localID := localID
  buckets := fun _ => newBucket (if bucketSize ≤ 0 then 20 else bucketSize)

namespace RoutingTable

def bucketOf (rt : RoutingTable) (peerID : NodeID) : Fin (NodeIDLength * 8) :=
  ⟨bucketIndex rt.localID peerID, bucketIndex_lt _ _⟩

def setBucket (rt : RoutingTable) (i : Fin (NodeIDLength * 8)) (b : Bucket) : RoutingTable :=
  { rt with buckets := Function.update rt.buckets i b }

/-- What `AddPeer` refuses. -/
def checkPeer (localID : NodeID) (peer : Peer) : Option PeerError :=
  if peer.addr = "" then some .invalidPeer
  else if peer.id = 0 then some .invalidPeer
  else if peer.id = localID then some .selfPeer
  else none

/-- `AddPeer` at the time `now`: the table and the error. -/
def addPeer (now : ℤ) (rt : RoutingTable) (peer : Peer) : RoutingTable × Option PeerError :=
  match checkPeer rt.localID peer with
  | some err => (rt, some err)
  | none =>
    let peer := { peer with lastSeen := now }
    let i := rt.bucketOf peer.id
    (rt.setBucket i ((rt.buckets i).add peer).1, none)

def removePeer (rt : RoutingTable) (peerID : NodeID) : RoutingTable × Bool :=
  let i := rt.bucketOf peerID
  let (b, removed) := (rt.buckets i).remove peerID
  (rt.setBucket i b, removed)

/-- The peers of all buckets, bucket after bucket. -/
def peers (rt : RoutingTable) : List Peer :=
  (List.finRange (NodeIDLength * 8)).flatMap fun i => (rt.buckets i).peers

@[simp] theorem buckets_setBucket_self (rt : RoutingTable) (i : Fin (NodeIDLength * 8))
    (b : Bucket) :
    (rt.setBucket i b).buckets i = b :=
  Function.update_self ..

theorem buckets_setBucket_of_ne {rt : RoutingTable} {i j : Fin (NodeIDLength * 8)} {b : Bucket}
    (h : j ≠ i) : (rt.setBucket i b).buckets j = rt.buckets j :=
  Function.update_of_ne h ..

theorem mem_peers {rt : RoutingTable} {p : Peer} :
    p ∈ rt.peers ↔ ∃ i, p ∈ (rt.buckets i).peers := by
  simp [peers]

end RoutingTable

/-- The calls that change a table. -/
inductive Op where
  | addPeer (now : ℤ) (peer : Peer)
  | removePeer (peerID : NodeID)
  deriving DecidableEq

def RoutingTable.apply (rt : RoutingTable) : Op → RoutingTable
  | .addPeer now peer => (rt.addPeer now peer).1
  | .removePeer peerID => (rt.removePeer peerID).1

/-- The table after the calls `ops`. -/
def tableAfter (localID : NodeID) (bucketSize : ℤ) (ops : List Op) : RoutingTable :=
  ops.foldl RoutingTable.apply (newRoutingTable localID bucketSize)

theorem tableAfter_append (localID : NodeID) (bucketSize : ℤ) (ops : List Op) (op : Op) :
    tableAfter localID bucketSize (ops ++ [op]) = (tableAfter localID bucketSize ops).apply op := by
  rw [tableAfter, List.foldl_append]
  rfl

end EdgeSim.Dht
