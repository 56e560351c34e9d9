import EdgeSim.Dht.BuildNetwork
import Mathlib.Logic.Relation

/-!
# A lookup in a small network asks everyone

When the tables are no larger than `k` an answer is all that a node knows, and when the nodes that
can be reached are no more than the candidate limit none of them is ever cut off. The lookup then
goes on until it has asked everyone it can reach.
-/

namespace EdgeSim.Dht

open KNearest

/-- The node `a` has `b` in its table. -/
def Knows (net : Network) (a b : NodeID) : Prop := ∃ n, net.nodes a = some n ∧ b ∈ n.rt.ids

section

variable {net : Network} {R : Runtime} {k : ℤ} {target start : NodeID} {limit : ℤ}
  {s : Lookup (List Peer)} {V : Finset NodeID} {n₀ : Node}

/-- The closest `k` of a table that has no more are all of it. -/
theorem mem_closest_iff {rt : RoutingTable} {id : NodeID} (hwf : rt.WF) (hk : 0 < k)
    (hsmall : (rt.peers.length : ℤ) ≤ k) :
    id ∈ (rt.getClosestPeers R target k).map Peer.id ↔ id ∈ rt.ids := by
  have hnear := RoutingTable.closest_ids_nearest R target hwf hk
  refine ⟨hnear.mem id, hnear.mem_of_card_le ?_⟩
  rw [hwf.card_ids]
  omega

/-- Where every table has at most `k` peers, an answer tells all that the asked node knows. -/
theorem mem_learned_iff (hreach : net.Reachable) (hk : 0 < k)
    (hsmall : ∀ id n, net.nodes id = some n → (n.rt.peers.length : ℤ) ≤ k)
    {calls : List (Peer × Except LookupError (List Peer))}
    (hcalls : ∀ c ∈ calls, c.2 = net.findNode R false k c.1 target) {id : NodeID} :
    id ∈ learned calls ↔ ∃ c ∈ calls, Knows net c.1.id id := by
  rw [mem_learned]
  constructor
  · rintro ⟨p, response, hc, hid⟩
    obtain ⟨n, hn, rfl⟩ := Network.findNode_eq_ok (hcalls _ hc).symm
    have hmem := (mem_learnedIDs.1 hid).1
    rw [mem_closest_iff (hreach.wf hn) hk (hsmall _ n hn)] at hmem
    exact ⟨_, hc, n, hn, hmem⟩
  · rintro ⟨c, hc, n, hn, hid⟩
    have hanswer := hcalls c hc
    rw [Network.findNode_of_some hn] at hanswer
    refine ⟨c.1, n.rt.getClosestPeers R target k, by rwa [← hanswer],
      mem_learnedIDs.2 ⟨?_, ids_ne_zero (hreach.wf hn) hid⟩⟩
    rwa [mem_closest_iff (hreach.wf hn) hk (hsmall _ n hn)]

/-- What a lookup gets to know can be reached from where it starts. -/
theorem Explored.known_subset (hreach : net.Reachable) (hk : 0 < k)
    (hsmall : ∀ id n, net.nodes id = some n → (n.rt.peers.length : ℤ) ≤ k)
    (hstart : net.nodes start = some n₀)
    (hV : ∀ id, id ∈ V ↔ Relation.TransGen (Knows net) start id)
    (h : Explored (fun _ p t => net.findNode R false k p t) target limit
      (startIDs R n₀.rt target k) s) :
    startIDs R n₀.rt target k ∪ learned s.calls ⊆ V := by
  have hcalls := h.answered.of_mem
  -- what is known after the first `i` calls, by induction on `i`
  have key : ∀ i, startIDs R n₀.rt target k ∪ learned (s.calls.take i) ⊆ V := by
    intro i
    induction i with
    | zero =>
      rw [List.take_zero, show learned [] = ∅ from rfl, Finset.union_empty]
      intro id hid
      rw [startIDs, List.mem_toFinset,
        mem_closest_iff (hreach.wf hstart) hk (hsmall _ _ hstart)] at hid
      exact (hV id).2 (.single ⟨n₀, hstart, hid⟩)
    | succ i ih =>
      rw [List.take_add_one, learned_append, ← Finset.union_assoc]
      refine Finset.union_subset ih fun id hid => ?_
      rw [mem_learned_iff hreach hk hsmall fun c hc =>
        hcalls c (List.mem_of_getElem? (Option.mem_toList.1 hc))] at hid
      obtain ⟨c, hc, hknows⟩ := hid
      have hasked := ih (h.known i c (Option.mem_toList.1 hc))
      exact (hV id).2 (.tail ((hV _).1 hasked) hknows)
  have hall := key s.calls.length
  rwa [List.take_length] at hall

/-- When all that is known has been asked, nothing that can be reached is missing. -/
theorem Explored.subset_known (hreach : net.Reachable) (hk : 0 < k)
    (hsmall : ∀ id n, net.nodes id = some n → (n.rt.peers.length : ℤ) ≤ k)
    (hstart : net.nodes start = some n₀)
    (hV : ∀ id, id ∈ V ↔ Relation.TransGen (Knows net) start id)
    (h : Explored (fun _ p t => net.findNode R false k p t) target limit
      (startIDs R n₀.rt target k) s)
    (hasked : ∀ id ∈ startIDs R n₀.rt target k ∪ learned s.calls, id ∈ s.queries.map Peer.id) :
    V ⊆ startIDs R n₀.rt target k ∪ learned s.calls := by
  intro id hid
  induction (hV id).1 hid with
  | single hknows =>
    obtain ⟨n, hn, hmem⟩ := hknows
    rw [hstart, Option.some.injEq] at hn
    subst hn
    refine Finset.mem_union_left _ ?_
    rwa [startIDs, List.mem_toFinset, mem_closest_iff (hreach.wf hstart) hk (hsmall _ _ hstart)]
  | @tail b c hb hknows ih =>
    obtain ⟨p, hp, hpb⟩ := List.mem_map.1 (hasked b (ih ((hV b).2 hb)))
    obtain ⟨call, hcall, rfl⟩ := List.mem_map.1 hp
    refine Finset.mem_union_right _ ?_
    rw [mem_learned_iff hreach hk hsmall h.answered.of_mem]
    exact ⟨call, hcall, hpb ▸ hknows⟩

/-- All that is known has been asked: the rounds ended for that reason, or there were enough of
them. -/
theorem Explored.all_asked {requester : FindNodeRequester} {S : Finset NodeID} {rounds : ℕ}
    (h : Explored requester target limit S s) (hsub : S ∪ learned s.calls ⊆ V)
    (hlimit : (V.card : ℤ) ≤ limit) (hrounds : rounds ≤ s.calls.length)
    (hend : V.card ≤ rounds ∨ ∀ p ∈ s.shortlist, p.id ∈ s.queries.map Peer.id) :
    ∀ id ∈ S ∪ learned s.calls, id ∈ s.queries.map Peer.id := by
  have hcard := Finset.card_le_card hsub
  intro id hid
  rcases hend with henough | hqueried
  · -- as many queries as there are nodes to reach
    have hasked : (s.queries.map Peer.id).toFinset ⊆ V := fun q hq =>
      hsub (h.queried_known q (List.mem_toFinset.1 hq))
    have hlen : V.card ≤ (s.queries.map Peer.id).toFinset.card := by
      rw [List.toFinset_card_of_nodup h.nodup, List.length_map, Lookup.queries, List.length_map]
      omega
    rw [← List.mem_toFinset, Finset.eq_of_subset_of_card_le hasked hlen]
    exact hsub hid
  · obtain ⟨p, hp, rfl⟩ := List.mem_map.1 (h.nearest.mem_of_card_le (by omega) hid)
    exact hqueried p hp

/-- A lookup in a network of small tables returns the closest of all nodes it can reach, after one
query to each, just if a batch of `alpha` peers can be made. -/
theorem findNode_exhaustive (opts : FindNodeOptions) {ctx : ℕ → Bool} (R : Runtime)
    (target : NodeID) (hctx : ∀ n, ctx n = false) (hreach : net.Reachable)
    (hsmall : ∀ id n, net.nodes id = some n →
      (n.rt.peers.length : ℤ) ≤ (normalizeFindNodeOptions opts).k)
    (hstart : net.nodes start = some n₀) (hne : n₀.rt.peers ≠ [])
    (hV : ∀ id, id ∈ V ↔ Relation.TransGen (Knows net) start id)
    (hlimit : (V.card : ℤ) ≤ candidateLimit (normalizeFindNodeOptions opts).k
      (normalizeFindNodeOptions opts).alpha)
    (hrounds : (V.card : ℤ) ≤ (normalizeFindNodeOptions opts).maxRounds) :
    let k := (normalizeFindNodeOptions opts).k
    (∃ out l, iterativeFindNode R ctx (some n₀.rt)
        (some fun _ p t => net.findNode R false k p t) target opts = some out
      ∧ out.result = .ok l ∧ Nearest (xorDistance target) k.toNat V (l.map Peer.id)
      ∧ out.queries.length = V.card)
    ↔ opts.alpha ≤ maxPeers := by
  intro k
  have hk : 0 < k := (normalize_pos opts).1
  have hwf := hreach.wf hstart
  constructor
  · rintro ⟨out, -, hout, -⟩
    by_contra hmax
    rw [iterativeFindNode_panics R _ target (hctx 0) (not_le.1 hmax) hwf hne] at hout
    cases hout
  · intro hmax
    obtain ⟨s, rounds, hout, hs, hle, hend⟩ := iterativeFindNode_spec R
      (fun _ p t => net.findNode R false k p t) target opts hctx hmax hwf hne
    have hsub := hs.known_subset hreach hk hsmall hstart hV
    have hasked := hs.all_asked hsub hlimit hle (hend.imp_left fun h => by omega)
    have hknown : startIDs R n₀.rt target k ∪ learned s.calls = V :=
      subset_antisymm hsub (hs.subset_known hreach hk hsmall hstart hV hasked)
    have hkl := le_candidateLimit k (normalizeFindNodeOptions opts).alpha
    refine ⟨_, trimPeers s.shortlist k, hout, rfl, ?_, ?_⟩
    · rw [trimPeers_eq hk, List.map_take, ← hknown]
      exact hs.nearest.take (Int.toNat_le_toNat hkl)
    · have hqueries : (s.queries.map Peer.id).toFinset = V := by
        ext id
        rw [← hknown, List.mem_toFinset]
        exact ⟨hs.queried_known id, hasked id⟩
      rw [← hqueries, List.toFinset_card_of_nodup hs.nodup, List.length_map]
      rfl

/-- In a full network everyone can be reached, the start through any other node. -/
theorem Full.transGen_iff {ids : Finset NodeID} (h : Full net ids) (hcard : 2 ≤ ids.card)
    (hstart : start ∈ ids) (id : NodeID) :
    id ∈ ids ↔ Relation.TransGen (Knows net) start id := by
  have hknows : ∀ {a b : NodeID}, a ∈ ids → b ∈ ids → b ≠ a → Knows net a b := by
    intro a b ha hb hne
    obtain ⟨n, hn⟩ := h.exists_node ha
    exact ⟨n, hn, by rw [h.table a n hn]; exact Finset.mem_erase.2 ⟨hne, hb⟩⟩
  constructor
  · intro hid
    by_cases hne : id = start
    · obtain ⟨x, hx, hxs⟩ := Finset.exists_mem_ne (by omega : 1 < ids.card) start
      rw [hne]
      exact .tail (.single (hknows hstart hx hxs)) (hknows hx hstart hxs.symm)
    · exact .single (hknows hstart hid hne)
  · intro hpath
    cases hpath with
    | single hk =>
      obtain ⟨n, hn, hmem⟩ := hk
      rw [h.table _ n hn] at hmem
      exact Finset.mem_of_mem_erase hmem
    | tail _ hk =>
      obtain ⟨n, hn, hmem⟩ := hk
      rw [h.table _ n hn] at hmem
      exact Finset.mem_of_mem_erase hmem

/-- The tables of a full network of at most `k + 1` nodes have at most `k` peers. -/
theorem Full.length_peers_le {ids : Finset NodeID} (h : Full net ids) {id : NodeID} {n : Node}
    (hn : net.nodes id = some n) (hcard : (ids.card : ℤ) ≤ k + 1) :
    (n.rt.peers.length : ℤ) ≤ k := by
  have hsize := (h.reachable.wf hn).card_ids
  have hid : id ∈ ids := (h.mem id).2 (Option.isSome_iff_exists.2 ⟨n, hn⟩)
  have hpos := Finset.card_pos.2 ⟨id, hid⟩
  rw [h.table id n hn, Finset.card_erase_of_mem hid] at hsize
  omega

theorem findNode_exhaustive_pair :
    let keyToID : String → NodeID := fun name => if name = "node-1" then .ofNat 1 else .ofNat 2
    let net := buildNetwork keyToID (fun _ _ => 0) 2
    ∃ n out, net.nodes (.ofNat 1) = some n
      ∧ iterativeFindNode .plain (fun _ => false) (some n.rt)
        (some fun _ p t => net.findNode .plain false 20 p t) (.ofNat 5) ⟨20, 3, 20⟩ = some out
      ∧ out.queries.length = 2 := by
  intro keyToID net
  obtain ⟨hfull, -⟩ : Full net ((nodeNames 2).map keyToID).toFinset ∧ _ :=
    buildNetwork_full keyToID (fun _ _ => 0) (by decide +kernel) (by decide)
  have hstart : NodeID.ofNat 1 ∈ ((nodeNames 2).map keyToID).toFinset := by decide +kernel
  have hcard : ((nodeNames 2).map keyToID).toFinset.card = 2 := by decide +kernel
  obtain ⟨n, hn⟩ := hfull.exists_node hstart
  obtain ⟨out, -, hout, -, -, hlen⟩ := (findNode_exhaustive ⟨20, 3, 20⟩ .plain (.ofNat 5)
    (fun _ => rfl) hfull.reachable
    (fun id m hm => hfull.length_peers_le hm (by rw [hcard]; decide)) hn
    (hfull.peers_ne_nil hcard.ge hn) (hfull.transGen_iff hcard.ge hstart) (by decide +kernel)
    (by decide +kernel)).2 (by decide)
  exact ⟨n, out, hn, hout, hlen.trans hcard⟩

theorem findNode_exhaustive_panics :
    let keyToID : String → NodeID := fun name => if name = "node-1" then .ofNat 1 else .ofNat 2
    let net := buildNetwork keyToID (fun _ _ => 0) 2
    iterativeFindNode .plain (fun _ => false) (net.table (.ofNat 1))
      (some fun _ p t => net.findNode .plain false 20 p t) (.ofNat 5) ⟨20, 2 ^ 60, 20⟩ = none := by
  decide +kernel

end

end EdgeSim.Dht
