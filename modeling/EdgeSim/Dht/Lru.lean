import EdgeSim.Dht.Closest
import EdgeSim.Lib.Recency
import Mathlib.Data.Finset.Card
import Mathlib.Data.List.Induction

/-!
# A bucket holds the peers added last

A bucket against the history of its calls. `Add` shifts the slice and overwrites its end, which
comes to: take the ID out, put the peer at the end, keep the last `maxSize`. So a bucket lists the
most recent `Add` of each of its IDs in order, and without `Remove` it is the end of the list of all
of them.
-/

namespace EdgeSim.Dht

open Lists
open Recency

namespace Bucket

variable {b : Bucket} {p q : Peer}

theorem WF.kept_eq (h : b.WF) (peer : Peer) :
    b.kept peer = (b.peers.filter fun p => p.id ≠ peer.id).rtake (b.maxSize - 1) := by
  have hlen := h.length_kept peer
  unfold kept at hlen ⊢
  split_ifs at hlen ⊢ with h1 h2
  · rw [eraseP_eq_filter h.nodup] at hlen ⊢
    rw [rtake_of_length_le (by omega)]
  · rw [filter_eq_self_of_notMem h1, List.rtake]
    have hbound := h.bounded
    have hpos := b.maxSize_pos
    rw [show b.peers.length - (b.maxSize - 1) = 1 by omega, List.drop_one]
  · rw [filter_eq_self_of_notMem h1, rtake_of_length_le (by omega)]

/-- `Add` is one use of the peer. -/
theorem WF.peers_add_eq_touch (h : b.WF) (peer : Peer) :
    (b.add peer).1.peers = touch Peer.id b.maxSize b.peers peer := by
  have hpos := b.maxSize_pos
  rw [peers_add, h.kept_eq, touch, ← List.rtake_concat_succ, Nat.sub_add_cancel hpos]

theorem WF.peers_remove_eq_filter (h : b.WF) (peerID : NodeID) :
    (b.remove peerID).1.peers = b.peers.filter fun p => p.id ≠ peerID := by
  rw [peers_remove, eraseP_eq_filter h.nodup]

theorem add_snd (b : Bucket) (peer : Peer) :
    (b.add peer).2 = if peer.id ∈ b.peers.map Peer.id then none
      else if b.maxSize ≤ b.peers.length then b.peers.head? else none := by
  unfold add
  cases h : b.indexOf peer.id with
  | none =>
    rw [if_neg (indexOf_eq_none.1 h)]
    dsimp only
    split_ifs <;> rfl
  | some i =>
    have hmem : peer.id ∈ b.peers.map Peer.id := by
      by_contra hmem
      rw [indexOf_eq_none.2 hmem] at h
      cases h
    rw [if_pos hmem]

/-- What `Add` returns is what the bucket loses. -/
theorem WF.add_snd_eq_some (h : b.WF) :
    (b.add p).2 = some q ↔ q ∈ b.peers ∧ q.id ∉ (b.add p).1.peers.map Peer.id := by
  rw [peers_add, List.map_append, List.map_singleton, List.mem_append, List.mem_singleton, not_or]
  constructor
  · intro hq
    rw [add_snd] at hq
    split_ifs at hq with h1 h2
    obtain ⟨rest, hrest⟩ := List.head?_eq_some_iff.1 hq
    have hnodup := h.nodup
    rw [hrest, List.map_cons, List.nodup_cons] at hnodup
    refine ⟨by rw [hrest]; exact List.mem_cons_self, ?_, ?_⟩
    · rw [kept, if_neg h1, if_pos h2, hrest]
      exact hnodup.1
    · rintro hid
      exact h1 (by rw [hrest, ← hid]; exact List.mem_cons_self)
  · rintro ⟨hq, hkept, hid⟩
    have hlost : q ∉ b.kept p := fun hmem => hkept (List.mem_map.2 ⟨q, hmem, rfl⟩)
    obtain ⟨hfull, hhead⟩ := eq_head_of_lost hq hid hlost
    have hnew : p.id ∉ b.peers.map Peer.id := by
      intro hmem
      rw [kept, if_pos hmem] at hlost
      exact hlost ((List.mem_eraseP_of_neg (by simpa using hid)).2 hq)
    rw [add_snd, if_neg hnew, if_pos hfull, hhead]

/-- `p` is in the bucket with only peers of the given IDs behind it, unless these IDs fill a
bucket. -/
def Holds (b : Bucket) (p : Peer) (ids : List NodeID) : Prop :=
  (∃ older newer, b.peers = older ++ p :: newer ∧ ∀ q ∈ newer, q.id ∈ ids)
  ∨ b.maxSize ≤ ids.toFinset.card

theorem filter_split {older newer : List Peer} {id : NodeID} (h : b.peers = older ++ p :: newer)
    (hid : p.id ≠ id) :
    b.peers.filter (fun q => q.id ≠ id)
      = older.filter (fun q => q.id ≠ id) ++ p :: newer.filter (fun q => q.id ≠ id) := by
  rw [h, List.filter_append, List.filter_cons_of_pos (by simpa using hid)]

theorem WF.holds_add (h : b.WF) {ids : List NodeID} (hid : p.id ≠ q.id) (hold : b.Holds p ids) :
    (b.add q).1.Holds p (ids ++ [q.id]) := by
  unfold Holds
  rw [maxSize_add]
  rcases hold with ⟨older, newer, hpeers, hnewer⟩ | hfull
  · set behind := newer.filter (fun r => r.id ≠ q.id) ++ [q]
    have hids : ∀ r ∈ behind, r.id ∈ ids ++ [q.id] := by
      intro r hr
      rcases List.mem_append.1 hr with hr | hr
      · exact List.mem_append_left _ (hnewer r (List.mem_of_mem_filter hr))
      · rw [List.mem_singleton.1 hr]
        exact List.mem_append_right _ (List.mem_singleton_self _)
    have htouch : (b.add q).1.peers
        = (older.filter (fun r => r.id ≠ q.id) ++ p :: behind).rtake b.maxSize := by
      rw [h.peers_add_eq_touch, touch, filter_split hpeers hid, List.append_assoc,
        List.cons_append]
    rcases le_or_gt (p :: behind).length b.maxSize with hfit | hfit
    · rw [rtake_append_of_ge hfit] at htouch
      exact .inl ⟨_, behind, htouch, hids⟩
    · -- the peers behind `p` are then all that is kept, and they are of different IDs
      right
      have hnodup : (behind.map Peer.id).Nodup := by
        have hold := h.nodup
        rw [hpeers, List.map_append, List.map_cons] at hold
        exact nodup_filter_concat (List.nodup_cons.1 (List.nodup_append.1 hold).2.1).2 q
      have hsub : (behind.map Peer.id).toFinset ⊆ (ids ++ [q.id]).toFinset := by
        intro id hmem
        obtain ⟨r, hr, rfl⟩ := List.mem_map.1 (List.mem_toFinset.1 hmem)
        exact List.mem_toFinset.2 (hids r hr)
      have hcard := Finset.card_le_card hsub
      rw [List.toFinset_card_of_nodup hnodup, List.length_map] at hcard
      rw [List.length_cons] at hfit
      omega
  · refine .inr (hfull.trans (Finset.card_le_card ?_))
    rw [List.toFinset_append]
    exact Finset.subset_union_left

theorem WF.holds_remove (h : b.WF) {ids : List NodeID} {peerID : NodeID} (hid : p.id ≠ peerID)
    (hold : b.Holds p ids) : (b.remove peerID).1.Holds p ids := by
  unfold Holds
  rw [maxSize_remove, h.peers_remove_eq_filter]
  rcases hold with ⟨older, newer, hpeers, hnewer⟩ | hfull
  · refine .inl ⟨_, _, filter_split hpeers hid, fun q hq => hnewer q (List.mem_of_mem_filter hq)⟩
  · exact .inr hfull

end Bucket

/-! ## Histories -/

inductive BucketCall where
  | add (peer : Peer)
  | remove (peerID : NodeID)
  deriving DecidableEq

def Bucket.apply (b : Bucket) : BucketCall → Bucket
  | .add peer => (b.add peer).1
  | .remove peerID => (b.remove peerID).1

/-- The bucket after the calls. -/
def bucketAfter (maxSize : ℤ) (calls : List BucketCall) : Bucket :=
  calls.foldl Bucket.apply (newBucket maxSize)

/-- The peers that were added, in order. -/
def added (calls : List BucketCall) : List Peer :=
  calls.filterMap fun
    | .add peer => some peer
    | .remove _ => none

section

variable {maxSize : ℤ} {calls : List BucketCall} {p : Peer}

theorem bucketAfter_append (maxSize : ℤ) (calls calls' : List BucketCall) :
    bucketAfter maxSize (calls ++ calls') = calls'.foldl Bucket.apply (bucketAfter maxSize calls) :=
  List.foldl_append

theorem added_concat_add (calls : List BucketCall) (peer : Peer) :
    added (calls ++ [.add peer]) = added calls ++ [peer] := by
  simp [added]

theorem added_concat_remove (calls : List BucketCall) (peerID : NodeID) :
    added (calls ++ [.remove peerID]) = added calls := by
  simp [added]

theorem Bucket.WF.apply {b : Bucket} (h : b.WF) (call : BucketCall) : (b.apply call).WF := by
  cases call with
  | add peer => exact h.add peer
  | remove peerID => exact h.remove peerID

theorem maxSize_apply (b : Bucket) (call : BucketCall) : (b.apply call).maxSize = b.maxSize := by
  cases call with
  | add peer => exact b.maxSize_add peer
  | remove peerID => exact b.maxSize_remove peerID

theorem Bucket.WF.foldl {b : Bucket} (h : b.WF) (calls : List BucketCall) :
    (calls.foldl Bucket.apply b).WF := by
  induction calls generalizing b with
  | nil => exact h
  | cons call calls ih => exact ih (h.apply call)

theorem wf_bucketAfter (maxSize : ℤ) (calls : List BucketCall) : (bucketAfter maxSize calls).WF :=
  (Bucket.wf_newBucket maxSize).foldl calls

theorem maxSize_bucketAfter (h : 0 < maxSize) (calls : List BucketCall) :
    (bucketAfter maxSize calls).maxSize = maxSize.toNat := by
  induction calls using List.reverseRecOn with
  | nil => exact if_neg (not_le.2 h)
  | append_singleton calls call ih =>
    rw [bucketAfter_append]
    exact (maxSize_apply _ call).trans ih

/-- The peers are in the order of their most recent `Add`. -/
theorem sublist_latest (maxSize : ℤ) (calls : List BucketCall) :
    (bucketAfter maxSize calls).peers.Sublist (latest Peer.id (added calls)) := by
  induction calls using List.reverseRecOn with
  | nil => exact List.nil_sublist _
  | append_singleton calls call ih =>
    have hwf := wf_bucketAfter maxSize calls
    rw [bucketAfter_append]
    cases call with
    | add peer =>
      rw [added_concat_add, latest_concat]
      have htouch : (touch Peer.id (bucketAfter maxSize calls).maxSize
          (bucketAfter maxSize calls).peers peer).Sublist _ := touch_sublist _ _
      rw [← hwf.peers_add_eq_touch] at htouch
      exact htouch.trans ((ih.filter _).append (List.Sublist.refl _))
    | remove peerID =>
      rw [added_concat_remove]
      refine List.Sublist.trans ?_ ih
      have hremove := hwf.peers_remove_eq_filter peerID
      exact hremove ▸ List.filter_sublist

/-- A peer stays until `maxSize` others are added. -/
theorem holds_after {b : Bucket} (hwf : b.WF) (hmem : ∃ older, b.peers = older ++ [p])
    (after : List BucketCall) (hadd : p.id ∉ (added after).map Peer.id)
    (hremove : .remove p.id ∉ after) :
    (after.foldl Bucket.apply b).Holds p ((added after).map Peer.id) := by
  induction after using List.reverseRecOn with
  | nil =>
    obtain ⟨older, hpeers⟩ := hmem
    exact .inl ⟨older, [], hpeers, fun q hq => absurd hq List.not_mem_nil⟩
  | append_singleton after call ih =>
    have hwf' := hwf.foldl after
    rw [List.foldl_append]
    have hremove' : .remove p.id ∉ after := fun h => hremove (List.mem_append_left _ h)
    cases call with
    | add q =>
      rw [added_concat_add, List.map_append, List.mem_append, not_or] at hadd
      rw [added_concat_add, List.map_append]
      exact hwf'.holds_add (by simpa using hadd.2) (ih hadd.1 hremove')
    | remove peerID =>
      rw [added_concat_remove] at hadd ⊢
      refine hwf'.holds_remove ?_ (ih hadd hremove')
      rintro rfl
      exact hremove (List.mem_append_right _ (List.mem_singleton_self _))

theorem peers_eq_rtake (h : 0 < maxSize) (hcalls : ∀ id, .remove id ∉ calls) :
    (bucketAfter maxSize calls).peers = (latest Peer.id (added calls)).rtake maxSize.toNat := by
  induction calls using List.reverseRecOn with
  | nil => exact (List.rtake_nil _).symm
  | append_singleton calls call ih =>
    have hwf := wf_bucketAfter maxSize calls
    have hsize := maxSize_bucketAfter h calls
    rw [bucketAfter_append]
    cases call with
    | add peer =>
      have hpeers := ih fun id hmem => hcalls id (List.mem_append_left _ hmem)
      have hadd := hwf.peers_add_eq_touch peer
      rw [hsize, hpeers, touch_latest (by omega), ← added_concat_add] at hadd
      exact hadd
    | remove peerID =>
      exact absurd (List.mem_append_right _ (List.mem_singleton_self _)) (hcalls peerID)

/-- The bucket by its history: its peers are in the order of their most recent `Add`, a peer that is
not removed stays until `maxSize` others have been added, without `Remove` the bucket is the last
`maxSize` IDs, and `Add` returns the peer it drops, the first. -/
theorem bucket_lru (hsize : 0 < maxSize) (calls : List BucketCall) :
    let b := bucketAfter maxSize calls
    b.peers.Sublist (latest Peer.id (added calls))
    ∧ (∀ before after p, calls = before ++ .add p :: after → p.id ∉ (added after).map Peer.id →
        .remove p.id ∉ after → (((added after).map Peer.id).toFinset.card : ℤ) < maxSize →
        p ∈ b.peers)
    ∧ ((∀ id, .remove id ∉ calls) →
        b.peers.map Peer.id = ((added calls).map Peer.id).dedup.rtake maxSize.toNat)
    ∧ ∀ p q, ((b.add p).2 = some q ↔ q ∈ b.peers ∧ q.id ∉ (b.add p).1.peers.map Peer.id)
        ∧ ((b.add p).2 = some q → b.peers.head? = some q) := by
  intro b
  refine ⟨sublist_latest maxSize calls, ?_, fun hcalls => ?_, fun p q => ⟨?_, fun hq => ?_⟩⟩
  · intro before after p hcalls hadd hremove hcard
    have hwf := wf_bucketAfter maxSize before
    have hb : b = after.foldl Bucket.apply ((bucketAfter maxSize before).add p).1 := by
      rw [show b = bucketAfter maxSize calls from rfl, hcalls, bucketAfter_append]
      rfl
    have hhold := holds_after (hwf.add p) ⟨_, Bucket.peers_add _ p⟩ after hadd hremove
    rw [← hb] at hhold
    rcases hhold with ⟨older, newer, hpeers, -⟩ | hfull
    · rw [hpeers]
      exact List.mem_append_right _ List.mem_cons_self
    · rw [maxSize_bucketAfter hsize] at hfull
      omega
  · rw [peers_eq_rtake hsize hcalls, List.rtake, List.rtake, List.map_drop, ← map_latest,
      List.length_map]
  · exact (wf_bucketAfter maxSize calls).add_snd_eq_some
  · rw [Bucket.add_snd] at hq
    split_ifs at hq
    exact hq

/-- The dry run of the source: `A`, `B`, `C`, `B` again, `D`. -/
def dryRun : List BucketCall :=
  [1, 2, 3, 2, 4].map fun n => .add ⟨.ofNat n, "10.0.0.1:7000", n⟩

theorem bucket_lru_dryRun :
    (bucketAfter 3 dryRun).peers.map Peer.id = [.ofNat 3, .ofNat 2, .ofNat 4] := by
  have hlru := bucket_lru (show (0 : ℤ) < 3 by decide) dryRun
  rw [hlru.2.2.1 fun id hmem => by simp [dryRun] at hmem]
  decide +kernel

end

end EdgeSim.Dht
