import EdgeSim.Dht.Routing
import Mathlib.Data.List.FinRange

/-!
# What holds of a routing table

Whatever calls are made, a bucket keeps its bound and holds an ID once, a peer is in the bucket of
its ID, and only peers that pass the checks are stored. A bucket is in the order in which its peers
were last added, so the peer it gives up is the one added least recently.
-/

namespace EdgeSim.Dht

namespace RoutingTable

variable {rt : RoutingTable} {p q : Peer} {now : ℤ}

theorem checkPeer_eq_none {localID : NodeID} :
    checkPeer localID p = none ↔ p.addr ≠ "" ∧ p.id ≠ 0 ∧ p.id ≠ localID := by
  unfold checkPeer
  split_ifs <;> simp_all

theorem addPeer_of_some {err : PeerError} (h : checkPeer rt.localID p = some err) :
    rt.addPeer now p = (rt, some err) := by
  rw [addPeer, h]

theorem addPeer_of_none (h : checkPeer rt.localID p = none) :
    rt.addPeer now p = (rt.setBucket (rt.bucketOf p.id)
      ((rt.buckets (rt.bucketOf p.id)).add { p with lastSeen := now }).1, none) := by
  rw [addPeer, h]

theorem checkPeer_of_addPeer (h : (rt.addPeer now p).2 = none) : checkPeer rt.localID p = none := by
  cases hc : checkPeer rt.localID p with
  | none => rfl
  | some err =>
    rw [addPeer_of_some hc] at h
    cases h

theorem removePeer_eq (rt : RoutingTable) (peerID : NodeID) :
    (rt.removePeer peerID).1 = rt.setBucket (rt.bucketOf peerID)
      ((rt.buckets (rt.bucketOf peerID)).remove peerID).1 := rfl

structure WF (rt : RoutingTable) : Prop where
  bucket : ∀ i, (rt.buckets i).WF
  placed : ∀ i, ∀ p ∈ (rt.buckets i).peers, rt.bucketOf p.id = i
  checked : ∀ i, ∀ p ∈ (rt.buckets i).peers, checkPeer rt.localID p = none

theorem wf_new (localID : NodeID) (bucketSize : ℤ) : (newRoutingTable localID bucketSize).WF where
  bucket := fun _ => Bucket.wf_newBucket _
  placed := fun _ _ hp => absurd hp List.not_mem_nil
  checked := fun _ _ hp => absurd hp List.not_mem_nil

/-- A bucket of peers that belong in it may be put in its place. -/
theorem WF.setBucket {i : Fin (NodeIDLength * 8)} {b : Bucket} (h : rt.WF) (hb : b.WF)
    (hp : ∀ p ∈ b.peers, rt.bucketOf p.id = i ∧ checkPeer rt.localID p = none) :
    (rt.setBucket i b).WF where
  bucket := by
    intro j
    by_cases hj : j = i
    · rwa [hj, buckets_setBucket_self]
    · rw [buckets_setBucket_of_ne hj]
      exact h.bucket j
  placed := by
    intro j p hmem
    by_cases hj : j = i
    · rw [hj, buckets_setBucket_self] at hmem
      rw [hj]
      exact (hp p hmem).1
    · rw [buckets_setBucket_of_ne hj] at hmem
      exact h.placed j p hmem
  checked := by
    intro j p hmem
    by_cases hj : j = i
    · rw [hj, buckets_setBucket_self] at hmem
      exact (hp p hmem).2
    · rw [buckets_setBucket_of_ne hj] at hmem
      exact h.checked j p hmem

theorem WF.addPeer (h : rt.WF) (now : ℤ) (p : Peer) : (rt.addPeer now p).1.WF := by
  cases hc : checkPeer rt.localID p with
  | some err =>
    rw [addPeer_of_some hc]
    exact h
  | none =>
    rw [addPeer_of_none hc]
    refine h.setBucket ((h.bucket _).add _) fun q hq => ?_
    rw [Bucket.peers_add, List.mem_append, List.mem_singleton] at hq
    rcases hq with hq | rfl
    · have hmem := (Bucket.kept_sublist _ _).subset hq
      exact ⟨h.placed _ q hmem, h.checked _ q hmem⟩
    · exact ⟨rfl, hc⟩

theorem WF.removePeer (h : rt.WF) (peerID : NodeID) : (rt.removePeer peerID).1.WF := by
  rw [removePeer_eq]
  refine h.setBucket ((h.bucket _).remove _) fun q hq => ?_
  rw [Bucket.peers_remove] at hq
  have hmem := List.eraseP_sublist.subset hq
  exact ⟨h.placed _ q hmem, h.checked _ q hmem⟩

theorem WF.apply (h : rt.WF) (op : Op) : (rt.apply op).WF := by
  cases op with
  | addPeer now p => exact h.addPeer now p
  | removePeer peerID => exact h.removePeer peerID

theorem localID_apply (rt : RoutingTable) (op : Op) : (rt.apply op).localID = rt.localID := by
  cases op with
  | addPeer now p =>
    rw [RoutingTable.apply, RoutingTable.addPeer]
    split <;> rfl
  | removePeer peerID => rfl

theorem WF.ids_nodup (h : rt.WF) : (rt.peers.map Peer.id).Nodup := by
  rw [peers, List.map_flatMap, List.nodup_flatMap]
  refine ⟨fun i _ => (h.bucket i).nodup, (List.nodup_finRange _).imp fun {i j} hij => ?_⟩
  intro id hi hj
  obtain ⟨p, hp, rfl⟩ := List.mem_map.1 hi
  obtain ⟨q, hq, hqp⟩ := List.mem_map.1 hj
  exact hij ((h.placed i p hp).symm.trans (hqp ▸ h.placed j q hq))

/-- A peer that an addition takes out, other than the peer's own old entry, was the first of the
bucket, and the bucket was full. -/
theorem WF.lost (h : rt.WF) (hok : (rt.addPeer now p).2 = none) (hq : q ∈ rt.peers)
    (hid : q.id ≠ p.id) (hlost : q ∉ (rt.addPeer now p).1.peers) :
    rt.bucketOf q.id = rt.bucketOf p.id
      ∧ (rt.buckets (rt.bucketOf p.id)).maxSize ≤ (rt.buckets (rt.bucketOf p.id)).peers.length
      ∧ (rt.buckets (rt.bucketOf p.id)).peers.head? = some q := by
  obtain ⟨i, hi⟩ := mem_peers.1 hq
  rw [addPeer_of_none (checkPeer_of_addPeer hok), mem_peers] at hlost
  have hplaced := h.placed i q hi
  have hsame : i = rt.bucketOf p.id := by
    by_contra hne
    exact hlost ⟨i, by rwa [buckets_setBucket_of_ne hne]⟩
  subst hsame
  refine ⟨hplaced, Bucket.eq_head_of_lost hi hid fun hkept => hlost ⟨rt.bucketOf p.id, ?_⟩⟩
  rw [buckets_setBucket_self, Bucket.peers_add]
  exact List.mem_append_left _ hkept

end RoutingTable

theorem wf_tableAfter (localID : NodeID) (bucketSize : ℤ) (ops : List Op) :
    (tableAfter localID bucketSize ops).WF
      ∧ (tableAfter localID bucketSize ops).localID = localID := by
  induction ops using List.reverseRecOn with
  | nil => exact ⟨RoutingTable.wf_new localID bucketSize, rfl⟩
  | append_singleton ops op ih =>
    rw [tableAfter_append]
    exact ⟨ih.1.apply op, (RoutingTable.localID_apply _ op).trans ih.2⟩

/-! ## The order of a bucket -/

/-- The call is an `AddPeer` of the ID that succeeds. -/
def Op.adds (localID id : NodeID) : Op → Bool
  | .addPeer _ peer => peer.id = id ∧ RoutingTable.checkPeer localID peer = none
  | .removePeer _ => false

/-- The number of calls since the ID was last added, of all calls if it never was. -/
def sinceAdd (localID : NodeID) (ops : List Op) (id : NodeID) : ℕ :=
  ops.reverse.findIdx (Op.adds localID id)

section

variable {localID id : NodeID} {bucketSize now : ℤ} {ops : List Op} {op : Op} {p q : Peer}

theorem sinceAdd_of_adds (h : op.adds localID id = true) :
    sinceAdd localID (ops ++ [op]) id = 0 := by
  rw [sinceAdd, List.reverse_append, List.reverse_singleton, List.singleton_append,
    List.findIdx_cons, h, cond_true]

theorem sinceAdd_of_not_adds (h : op.adds localID id = false) :
    sinceAdd localID (ops ++ [op]) id = sinceAdd localID ops id + 1 := by
  rw [sinceAdd, List.reverse_append, List.reverse_singleton, List.singleton_append,
    List.findIdx_cons, h, cond_false, sinceAdd]

/-- The list is of added peers, less recently added first. -/
structure Aged (localID : NodeID) (ops : List Op) (l : List Peer) : Prop where
  added : ∀ p ∈ l, sinceAdd localID ops p.id < ops.length
  order : l.Pairwise fun p q => sinceAdd localID ops q.id < sinceAdd localID ops p.id

theorem Aged.sublist {l m : List Peer} (h : Aged localID ops m) (hl : l.Sublist m) :
    Aged localID ops l :=
  ⟨fun p hp => h.added p (hl.subset hp), h.order.sublist hl⟩

theorem Aged.step {l : List Peer} (h : Aged localID ops l)
    (hop : ∀ p ∈ l, op.adds localID p.id = false) : Aged localID (ops ++ [op]) l where
  added := by
    intro p hp
    have hlt := h.added p hp
    rw [sinceAdd_of_not_adds (hop p hp), List.length_append, List.length_singleton]
    omega
  order := by
    refine h.order.imp_of_mem fun {p q} hp hq hlt => ?_
    rw [sinceAdd_of_not_adds (hop p hp), sinceAdd_of_not_adds (hop q hq)]
    omega

theorem Aged.concat {l : List Peer} (h : Aged localID ops l)
    (hop : ∀ p ∈ l, op.adds localID p.id = false) (hq : op.adds localID q.id = true) :
    Aged localID (ops ++ [op]) (l ++ [q]) where
  added := by
    intro p hp
    rcases List.mem_append.1 hp with hp | hp
    · exact (h.step hop).added p hp
    · rw [List.mem_singleton.1 hp, sinceAdd_of_adds hq]
      simp
  order := by
    refine List.pairwise_append.2 ⟨(h.step hop).order, List.pairwise_singleton _ _, ?_⟩
    intro p hp r hr
    rw [List.mem_singleton.1 hr, sinceAdd_of_adds hq, sinceAdd_of_not_adds (hop p hp)]
    omega

theorem adds_eq_false (h : ∀ now peer, op = .addPeer now peer →
    RoutingTable.checkPeer localID peer = none → peer.id ≠ id) : op.adds localID id = false := by
  cases op with
  | removePeer peerID => rfl
  | addPeer now peer =>
    simp only [Op.adds, decide_eq_false_iff_not, not_and]
    exact fun hid hc => h now peer rfl hc hid

theorem aged_addPeer {rt : RoutingTable} (now : ℤ) (p : Peer) (hwf : rt.WF)
    (h : ∀ i, Aged rt.localID ops (rt.buckets i).peers) (i : Fin (NodeIDLength * 8)) :
    Aged rt.localID (ops ++ [.addPeer now p]) ((rt.addPeer now p).1.buckets i).peers := by
  cases hc : RoutingTable.checkPeer rt.localID p with
  | some err =>
    rw [RoutingTable.addPeer_of_some hc]
    refine (h i).step fun q _ => adds_eq_false fun _ _ hop hnone => ?_
    cases hop
    rw [hc] at hnone
    cases hnone
  | none =>
    rw [RoutingTable.addPeer_of_none hc]
    by_cases hi : i = rt.bucketOf p.id
    · subst hi
      rw [RoutingTable.buckets_setBucket_self, Bucket.peers_add]
      refine ((h _).sublist (Bucket.kept_sublist _ _)).concat (fun q hq => ?_)
        (by simp [Op.adds, hc])
      refine adds_eq_false fun _ _ hop _ heq => ?_
      cases hop
      exact (hwf.bucket _).notMem_kept { p with lastSeen := now }
        (List.mem_map.2 ⟨q, hq, heq.symm⟩)
    · rw [RoutingTable.buckets_setBucket_of_ne hi]
      refine (h i).step fun q hq => adds_eq_false fun _ _ hop _ heq => ?_
      cases hop
      exact hi (heq ▸ (hwf.placed i q hq).symm)

theorem aged_removePeer {rt : RoutingTable} (peerID : NodeID)
    (h : ∀ i, Aged rt.localID ops (rt.buckets i).peers) (i : Fin (NodeIDLength * 8)) :
    Aged rt.localID (ops ++ [.removePeer peerID]) ((rt.removePeer peerID).1.buckets i).peers := by
  refine Aged.step ((h i).sublist ?_) fun _ _ => rfl
  rw [RoutingTable.removePeer_eq]
  by_cases hi : i = rt.bucketOf peerID
  · subst hi
    rw [RoutingTable.buckets_setBucket_self, Bucket.peers_remove]
    exact List.eraseP_sublist
  · rw [RoutingTable.buckets_setBucket_of_ne hi]

theorem aged_tableAfter (localID : NodeID) (bucketSize : ℤ) (ops : List Op) :
    ∀ i, Aged localID ops ((tableAfter localID bucketSize ops).buckets i).peers := by
  induction ops using List.reverseRecOn with
  | nil => exact fun i => ⟨fun _ hp => absurd hp List.not_mem_nil, List.Pairwise.nil⟩
  | append_singleton ops op ih =>
    obtain ⟨hwf, hlocal⟩ := wf_tableAfter localID bucketSize ops
    rw [tableAfter_append]
    intro i
    cases op with
    | addPeer now p =>
      have haged := aged_addPeer now p hwf (by rwa [hlocal]) i
      rwa [hlocal] at haged
    | removePeer peerID =>
      have haged := aged_removePeer peerID (by rwa [hlocal]) i
      rwa [hlocal] at haged

/-- The representation invariant, and what an addition takes out: the peer is the one of its bucket
that was added least recently, and the only one. -/
theorem table_invariant (localID : NodeID) (bucketSize : ℤ) (ops : List Op) :
    let rt := tableAfter localID bucketSize ops
    (∀ i, (rt.buckets i).peers.length ≤ (rt.buckets i).maxSize)
    ∧ (∀ i, ∀ p ∈ (rt.buckets i).peers, bucketIndex localID p.id = i)
    ∧ (rt.peers.map Peer.id).Nodup
    ∧ (∀ p ∈ rt.peers, p.id ≠ localID ∧ p.id ≠ 0 ∧ p.addr ≠ "")
    ∧ ∀ now peer,
      ((rt.addPeer now peer).2 ≠ none → (rt.addPeer now peer).1 = rt)
      ∧ ((rt.addPeer now peer).2 = none →
        ∀ q ∈ rt.peers, q.id ≠ peer.id → q ∉ (rt.addPeer now peer).1.peers →
          bucketIndex localID q.id = bucketIndex localID peer.id
          ∧ sinceAdd localID ops q.id < ops.length
          ∧ (∀ r ∈ rt.peers, r ≠ q → bucketIndex localID r.id = bucketIndex localID q.id →
              sinceAdd localID ops r.id < sinceAdd localID ops q.id)
          ∧ ∀ r ∈ rt.peers, r.id ≠ peer.id → r ∉ (rt.addPeer now peer).1.peers → r = q) := by
  intro rt
  obtain ⟨hwf, hlocal⟩ : rt.WF ∧ rt.localID = localID := wf_tableAfter localID bucketSize ops
  have haged : ∀ i, Aged localID ops (rt.buckets i).peers := aged_tableAfter localID bucketSize ops
  refine ⟨fun i => (hwf.bucket i).bounded, fun i p hp => ?_, hwf.ids_nodup, fun p hp => ?_, ?_⟩
  · rw [← hlocal, ← hwf.placed i p hp]
    rfl
  · obtain ⟨i, hi⟩ := RoutingTable.mem_peers.1 hp
    have hc := RoutingTable.checkPeer_eq_none.1 (hwf.checked i p hi)
    rw [hlocal] at hc
    exact ⟨hc.2.2, hc.2.1, hc.1⟩
  · intro now peer
    refine ⟨fun herr => ?_, fun hok q hq hid hlost => ?_⟩
    · cases hc : RoutingTable.checkPeer rt.localID peer with
      | some err => rw [RoutingTable.addPeer_of_some hc]
      | none => exact absurd (by rw [RoutingTable.addPeer_of_none hc]) herr
    · obtain ⟨hbucket, -, hhead⟩ := hwf.lost hok hq hid hlost
      obtain ⟨rest, hrest⟩ := List.head?_eq_some_iff.1 hhead
      have hmine := haged (rt.bucketOf peer.id)
      rw [hrest] at hmine
      refine ⟨?_, hmine.added q (by simp), fun r hr hrq hsame => ?_, fun r hr hrid hrlost => ?_⟩
      · rw [← hlocal]
        exact congrArg Fin.val hbucket
      · -- `r` is behind `q` in their bucket
        obtain ⟨i, hi⟩ := RoutingTable.mem_peers.1 hr
        have hri : i = rt.bucketOf peer.id := by
          rw [← hwf.placed i r hi, ← hbucket]
          exact Fin.ext (by rw [← hlocal] at hsame; exact hsame)
        rw [hri, hrest] at hi
        exact List.rel_of_pairwise_cons hmine.order ((List.mem_cons.1 hi).resolve_left hrq)
      · obtain ⟨-, -, hhead'⟩ := hwf.lost hok hr hrid hrlost
        rw [hhead] at hhead'
        exact (Option.some.inj hhead').symm

end

end EdgeSim.Dht
