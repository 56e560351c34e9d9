import EdgeSim.Dht.Node

/-!
# Reading what was written

A network in which every node has every other node in its table, as `buildNetwork` makes it. A store
goes to the closest `k` of all nodes: a caller that is one of them is not in its own table, but it
is in the answer of the first peer it asks. A value lookup starts at the node closest to the key,
the reader apart, which has the value unless the reader alone has it; then that node names the
reader, and the second round asks it.
-/

namespace EdgeSim.Dht

open KNearest

/-- Every node has every other node in its table. -/
structure Full (net : Network) (ids : Finset NodeID) : Prop where
  reachable : net.Reachable
  mem : ∀ id, id ∈ ids ↔ (net.nodes id).isSome
  table : ∀ id n, net.nodes id = some n → n.rt.ids = ids.erase id

section

variable {net : Network} {ids : Finset NodeID} {R : Runtime} {ctx : ℕ → Bool} {k : ℤ}
  {target caller : NodeID} {n : Node} {opts : FindNodeOptions} {s : Lookup (List Peer)}

theorem Full.exists_node {id : NodeID} (h : Full net ids) (hid : id ∈ ids) :
    ∃ n, net.nodes id = some n :=
  Option.isSome_iff_exists.1 ((h.mem id).1 hid)

theorem Full.closest (h : Full net ids) {id : NodeID} (hn : net.nodes id = some n) (R : Runtime)
    (target : NodeID) (hk : 0 < k) :
    Nearest (xorDistance target) k.toNat (ids.erase id)
      ((n.rt.getClosestPeers R target k).map Peer.id) := by
  rw [← h.table id n hn]
  exact RoutingTable.closest_ids_nearest R target (h.reachable.wf hn) hk

theorem Full.peers_ne_nil (h : Full net ids) (hcard : 2 ≤ ids.card)
    (hn : net.nodes caller = some n) : n.rt.peers ≠ [] := by
  intro hnil
  have hids := (h.reachable.wf hn).card_ids
  have hcaller : caller ∈ ids := (h.mem caller).2 (Option.isSome_iff_exists.2 ⟨n, hn⟩)
  rw [h.table caller n hn, Finset.card_erase_of_mem hcaller, hnil, List.length_nil] at hids
  omega

theorem Full.startIDs_subset (h : Full net ids) (hn : net.nodes caller = some n) (R : Runtime)
    (target : NodeID) (hk : 0 < k) :
    startIDs R n.rt target k ⊆ ids := fun id hid =>
  Finset.mem_of_mem_erase ((h.closest hn R target hk).mem id (List.mem_toFinset.1 hid))

theorem Full.startIDs_nonempty (h : Full net ids) (hcard : 2 ≤ ids.card)
    (hn : net.nodes caller = some n) (R : Runtime) (target : NodeID) (hk : 0 < k) :
    (startIDs R n.rt target k).Nonempty := by
  have hlen := getClosestPeers_ne_nil R target (h.reachable.wf hn) (h.peers_ne_nil hcard hn) hk
  obtain ⟨p, hp⟩ := List.exists_mem_of_length_pos (Nat.pos_of_ne_zero hlen)
  exact ⟨p.id, List.mem_toFinset.2 (List.mem_map_of_mem hp)⟩

/-- Answers of the nodes name nodes only. -/
theorem Full.learned_subset (h : Full net ids) (hk : 0 < k)
    {calls : List (Peer × Except LookupError (List Peer))}
    (hcalls : ∀ c ∈ calls, ∃ done, c.2 = net.findNode R done k c.1 target) :
    learned calls ⊆ ids := by
  intro id hid
  obtain ⟨p, response, hc, hmem⟩ := mem_learned.1 hid
  obtain ⟨done, hanswer⟩ := hcalls _ hc
  obtain ⟨n, hn, rfl⟩ := Network.findNode_eq_ok hanswer.symm
  exact Finset.mem_of_mem_erase ((h.closest hn R target hk).mem id (mem_learnedIDs.1 hmem).1)

/-- A node that is asked names every other of the closest. -/
theorem Full.mem_learned_of_asked (h : Full net ids) (hk : 0 < k) {H : List NodeID} {id : NodeID}
    (hH : Nearest (xorDistance target) k.toNat ids H) (hid : id ∈ H)
    {calls : List (Peer × Except LookupError (List Peer))}
    {c : Peer × Except LookupError (List Peer)} (hc : c ∈ calls) (hcid : c.1.id ∈ ids)
    (hanswer : c.2 = net.findNode R false k c.1 target) (hne : id ≠ c.1.id) :
    id ∈ learned calls := by
  obtain ⟨n, hn⟩ := h.exists_node hcid
  rw [Network.findNode_of_some hn] at hanswer
  have hother : id ∈ ids.erase c.1.id := Finset.mem_erase.2 ⟨hne, hH.mem id hid⟩
  refine mem_learned.2 ⟨c.1, _, by rw [← hanswer]; exact hc, mem_learnedIDs.2 ⟨?_, ?_⟩⟩
  · exact hH.mem_of_subset (h.closest hn R target hk) (Finset.erase_subset _ _) hid hother
  · rw [← h.table c.1.id n hn] at hother
    exact ids_ne_zero (h.reachable.wf hn) hother

/-- A lookup has made a call. -/
theorem Explored.exists_call {requester : FindNodeRequester} {limit : ℤ} {S : Finset NodeID}
    {rounds : ℕ} (h : Explored requester target limit S s) (hS : S.Nonempty) (hlimit : 0 < limit)
    (hrounds : rounds ≤ s.calls.length)
    (hend : 0 < rounds ∨ ∀ p ∈ s.shortlist, p.id ∈ s.queries.map Peer.id) :
    ∃ c, c ∈ s.calls := by
  rcases hend with hpos | hall
  · exact List.exists_mem_of_length_pos (by omega)
  · have hlen := h.nearest.length_eq
    have hcard : 0 < (S ∪ learned s.calls).card :=
      Finset.card_pos.2 (hS.mono Finset.subset_union_left)
    rw [List.length_map] at hlen
    obtain ⟨p, hp⟩ := List.exists_mem_of_length_pos (by omega : 0 < s.shortlist.length)
    obtain ⟨q, hq, -⟩ := List.mem_map.1 (hall p hp)
    obtain ⟨c, hc, -⟩ := List.mem_map.1 hq
    exact ⟨c, hc⟩

/-- A node lookup from any node returns the closest of the whole network. -/
theorem Full.findNode (h : Full net ids) (hcard : 2 ≤ ids.card) (R : Runtime) (target : NodeID)
    (opts : FindNodeOptions) (hmax : opts.alpha ≤ maxPeers) (hctx : ∀ n, ctx n = false)
    (hn : net.nodes caller = some n) :
    ∃ l calls rounds, iterativeFindNode R ctx (some n.rt)
        (some fun _ p t => net.findNode R false (normalizeFindNodeOptions opts).k p t) target opts
        = some ⟨.ok l, calls, rounds⟩
      ∧ Nearest (xorDistance target) (normalizeFindNodeOptions opts).k.toNat ids
        (l.map Peer.id) := by
  obtain ⟨hk, -, hrounds⟩ := normalize_pos opts
  have hlimit := le_candidateLimit (normalizeFindNodeOptions opts).k
    (normalizeFindNodeOptions opts).alpha
  obtain ⟨s, rounds, hout, hs, hle, hend⟩ := iterativeFindNode_spec R
    (fun _ p t => net.findNode R false (normalizeFindNodeOptions opts).k p t) target opts hctx
    hmax (h.reachable.wf hn) (h.peers_ne_nil hcard hn)
  have hcalls := hs.answered.of_mem
  have hsub := Finset.union_subset (h.startIDs_subset hn R target hk)
    (h.learned_subset hk fun c hc => ⟨false, hcalls c hc⟩)
  have hnear := hs.nearest.take (Int.toNat_le_toNat hlimit)
  obtain ⟨H, hH⟩ := exists_nearest (xorDistance_injective target)
    (normalizeFindNodeOptions opts).k.toNat ids
  -- the closest of the network are all known
  have hknown : ∀ id ∈ H, id ∈ startIDs R n.rt target (normalizeFindNodeOptions opts).k
      ∪ learned s.calls := by
    intro id hid
    by_cases hself : id = caller
    · obtain ⟨c, hc⟩ := hs.exists_call (h.startIDs_nonempty hcard hn R target hk)
        (hk.trans_le hlimit) hle (hend.imp_left fun hr => by omega)
      have hasked : c.1.id ∈ startIDs R n.rt target (normalizeFindNodeOptions opts).k
          ∪ learned s.calls := hs.queried_known _ (List.mem_map_of_mem (List.mem_map_of_mem hc))
      by_cases hcid : id = c.1.id
      · rw [hcid]
        exact hasked
      · exact Finset.mem_union_right _
          (h.mem_learned_of_asked hk hH hid hc (hsub hasked) (hcalls c hc) hcid)
    · refine Finset.mem_union_left _ (List.mem_toFinset.2 ?_)
      exact hH.mem_of_subset (h.closest hn R target hk) (Finset.erase_subset _ _) hid
        (Finset.mem_erase.2 ⟨hself, hH.mem id hid⟩)
  refine ⟨_, _, _, hout, ?_⟩
  rw [trimPeers_eq hk, List.map_take, ← (hH.restrict hknown hsub).eq hnear]
  exact hH

/-! ## The first two rounds of a lookup -/

section

variable {requester : FindNodeRequester} {p : Peer} {rest : List Peer}

theorem batch_of_head (halpha : 0 < opts.alpha) (hs : s.shortlist = p :: rest)
    (hp : p.id ∉ s.queries.map Peer.id) :
    ∃ batch, s.nextBatch opts.alpha = p :: batch := by
  obtain ⟨m, hm⟩ : ∃ m, opts.alpha.toNat = m + 1 := ⟨opts.alpha.toNat - 1, by omega⟩
  rw [Lookup.nextBatch, hs, List.filter_cons_of_pos (by simpa [Lookup.queried] using hp), hm,
    List.take_succ_cons]
  exact ⟨_, rfl⟩

theorem head_asked (R : Runtime) (requester : FindNodeRequester) (target : NodeID)
    (halpha : 0 < opts.alpha) (hnodup : (s.shortlist.map Peer.id).Nodup)
    (hs : s.shortlist = p :: rest) (hp : p.id ∉ s.queries.map Peer.id) :
    p ∈ (nextRound R requester target opts s).queries := by
  obtain ⟨calls, hcalls, hfst⟩ := nextRound_calls R requester target opts hnodup
  obtain ⟨batch, hbatch⟩ := batch_of_head halpha hs hp
  rw [Lookup.queries, hcalls, List.map_append, hfst, hbatch]
  exact List.mem_append_right _ List.mem_cons_self

theorem findNodeRounds_next (hctx : ∀ n, ctx n = false) (halpha : 0 < opts.alpha)
    (hmax : opts.alpha ≤ maxPeers) (n round : ℕ) (hs : s.shortlist = p :: rest)
    (hp : p.id ∉ s.queries.map Peer.id) :
    findNodeRounds R ctx requester target opts (n + 1) round s
      = findNodeRounds R ctx requester target opts n (round + 1)
        (nextRound R requester target opts s) := by
  obtain ⟨batch, hbatch⟩ := batch_of_head halpha hs hp
  rw [findNodeRounds_succ _ _ _ _ _ _ halpha hmax, if_neg (by simp [hctx]), hbatch]
  exact if_neg (by simp)

/-- A lookup that has a round left asks the head of its shortlist, unless it has done so. -/
theorem findNodeRounds_asks_head (R : Runtime) (requester : FindNodeRequester) (target : NodeID)
    (hctx : ∀ n, ctx n = false) (halpha : 0 < opts.alpha) (hmax : opts.alpha ≤ maxPeers)
    (hnodup : (s.shortlist.map Peer.id).Nodup) (hs : s.shortlist = p :: rest) (n round : ℕ) :
    ∃ last t, findNodeRounds R ctx requester target opts (n + 1) round s = some (last, t, false)
      ∧ p.id ∈ t.queries.map Peer.id := by
  by_cases hp : p.id ∈ s.queries.map Peer.id
  · obtain ⟨last, t, hrun⟩ := findNodeRounds_returns R requester target hctx halpha hmax (n + 1)
      round s
    have hpre := findNodeRounds_isPrefix halpha hmax (n + 1) round hrun
    exact ⟨last, t, hrun, ((hpre.map Prod.fst).map Peer.id).subset hp⟩
  · obtain ⟨last, t, hrun⟩ := findNodeRounds_returns R requester target hctx halpha hmax n
      (round + 1) (nextRound R requester target opts s)
    have hpre := findNodeRounds_isPrefix halpha hmax n (round + 1) hrun
    refine ⟨last, t, ?_, ?_⟩
    · rw [findNodeRounds_next hctx halpha hmax n round hs hp, hrun]
    · have hasked := head_asked R requester target halpha hnodup hs hp
      exact ((hpre.map Prod.fst).map Peer.id).subset (List.mem_map_of_mem hasked)

end

/-- The reader alone is closest when the closest of the others is not among them. -/
theorem reader_closest {H : List NodeID} {reader q : NodeID} (hk : 0 < k)
    (hH : Nearest (xorDistance target) k.toNat ids H) (hq : q ∈ ids) (hqH : q ∉ H)
    (hleast : ∀ x ∈ ids.erase reader, xorDistance target q ≤ xorDistance target x) :
    reader ∈ H ∧ ∀ x ∈ ids, x ≠ reader → xorDistance target reader < xorDistance target x := by
  have hlen := hH.length_eq
  have hcard := Finset.card_pos.2 ⟨q, hq⟩
  obtain ⟨y, hy⟩ := List.exists_mem_of_length_pos (by omega : 0 < H.length)
  have hlt := hH.closest q hq hqH y hy
  have hreader : y = reader := by
    by_contra hne
    exact absurd (hleast y (Finset.mem_erase.2 ⟨hne, hH.mem y hy⟩)) hlt.not_ge
  rw [hreader] at hy hlt
  exact ⟨hy, fun x hx hne => hlt.trans_le (hleast x (Finset.mem_erase.2 ⟨hne, hx⟩))⟩

/-- A lookup that has asked none of the closest nodes has the reader at the head of its shortlist,
if the reader is the closest node of all. -/
theorem Full.reader_next (h : Full net ids) {reader : NodeID} (hn : net.nodes reader = some n)
    (hk : 0 < k) {limit : ℤ} (hlimit : 0 < limit) {H : List NodeID}
    (hH : Nearest (xorDistance target) k.toNat ids H) {f : Peer → Except LookupError (List Peer)}
    (hf : ∀ p, p.id ∉ H → f p = net.findNode R false k p target)
    (hs : Explored (fun _ p _ => f p) target limit (startIDs R n.rt target k) s)
    (hcall : ∃ c, c ∈ s.calls) (hnone : ∀ id ∈ H, id ∉ s.queries.map Peer.id) (hreader : reader ∈ H)
    (hleast : ∀ x ∈ ids, x ≠ reader → xorDistance target reader < xorDistance target x) :
    ∃ p rest, s.shortlist = p :: rest ∧ p.id = reader := by
  have hasked : ∀ c ∈ s.calls, c.1.id ∈ s.queries.map Peer.id := fun c hc =>
    List.mem_map_of_mem (List.mem_map_of_mem hc)
  have hcalls : ∀ c ∈ s.calls, c.2 = net.findNode R false k c.1 target := fun c hc =>
    (hs.answered.of_mem c hc).trans (hf c.1 fun hmem => hnone _ hmem (hasked c hc))
  have hsub := Finset.union_subset (h.startIDs_subset hn R target hk)
    (h.learned_subset hk fun c hc => ⟨false, hcalls c hc⟩)
  obtain ⟨c, hc⟩ := hcall
  have hcid : reader ≠ c.1.id := fun heq => hnone reader hreader (heq ▸ hasked c hc)
  have hknown : reader ∈ learned s.calls := h.mem_learned_of_asked hk hH hreader hc
    (hsub (hs.queried_known _ (hasked c hc))) (hcalls c hc) hcid
  obtain ⟨ids', hids⟩ := hs.nearest.exists_cons (by omega) (Finset.mem_union_right _ hknown)
    fun x hx => hleast x (hsub hx)
  obtain ⟨p, rest, hshort, hp, -⟩ := List.map_eq_cons_iff.1 hids
  exact ⟨p, rest, hshort, hp⟩

/-- Two rounds are enough to ask one of the closest nodes of the network. -/
theorem Full.asks_closest (h : Full net ids) (hcard : 2 ≤ ids.card) (hctx : ∀ n, ctx n = false)
    {reader : NodeID} (hn : net.nodes reader = some n) (R : Runtime)
    (hk : 0 < opts.k) (halpha : 0 < opts.alpha) (hmax : opts.alpha ≤ maxPeers) {H : List NodeID}
    (hH : Nearest (xorDistance target) opts.k.toNat ids H)
    {f : Peer → Except LookupError (List Peer)}
    (hf : ∀ p, p.id ∉ H → f p = net.findNode R false opts.k p target) (m : ℕ) :
    ∃ last t, findNodeRounds R ctx (fun _ p _ => f p) target opts (m + 2) 0
        (.start (sortPeersByDistance R target (n.rt.getClosestPeers R target opts.k)))
        = some (last, t, false)
      ∧ ∃ id ∈ H, id ∈ t.queries.map Peer.id := by
  have hwf := h.reachable.wf hn
  rw [RoutingTable.sortPeers_getClosestPeers R target hwf hk]
  have hclosest := h.closest hn R target hk
  have hexplored := explored_table R (fun _ p _ => f p) target opts hwf hk
  rw [RoutingTable.sortPeers_getClosestPeers R target hwf hk] at hexplored
  cases hlist : n.rt.getClosestPeers R target opts.k with
  | nil =>
    have hlen := getClosestPeers_ne_nil R target hwf (h.peers_ne_nil hcard hn) hk
    rw [hlist] at hlen
    exact absurd rfl hlen
  | cons q rest =>
    rw [hlist] at hclosest hexplored
    by_cases hqH : q.id ∈ H
    · obtain ⟨last, t, hrun, hasked⟩ := findNodeRounds_asks_head R (fun _ p _ => f p)
        target (s := .start (q :: rest)) hctx halpha hmax hclosest.nodup rfl (m + 1) 0
      exact ⟨last, t, hrun, q.id, hqH, hasked⟩
    · have hhead : q.id ∈ ids.erase reader := hclosest.mem _ (by simp)
      obtain ⟨hreader, hleast⟩ := reader_closest hk hH (Finset.mem_of_mem_erase hhead) hqH
        fun x hx => hclosest.head_le hx
      have hfirst := head_asked R (fun _ p _ => f p) target halpha
        (s := .start (q :: rest)) hclosest.nodup rfl List.not_mem_nil
      have hlimit : 0 < candidateLimit opts.k opts.alpha := hk.trans_le (le_candidateLimit _ _)
      have hnext := hexplored.nextRound (R := R) hk
      rw [findNodeRounds_next hctx halpha hmax (m + 1) 0 rfl List.not_mem_nil]
      by_cases hnone : ∃ id ∈ H, id ∈ (nextRound R (fun _ p _ => f p) target opts
          (.start (q :: rest))).queries.map Peer.id
      · obtain ⟨id, hid, hasked⟩ := hnone
        obtain ⟨last, t, hrun⟩ := findNodeRounds_returns R (fun _ p _ => f p) target hctx halpha
          hmax (m + 1) 1 (nextRound R (fun _ p _ => f p) target opts (.start (q :: rest)))
        have hpre := findNodeRounds_isPrefix halpha hmax (m + 1) 1 hrun
        exact ⟨last, t, hrun, id, hid, ((hpre.map Prod.fst).map Peer.id).subset hasked⟩
      · push Not at hnone
        obtain ⟨c, hc, -⟩ := List.mem_map.1 hfirst
        obtain ⟨p, rest', hshort, rfl⟩ := h.reader_next hn hk hlimit hH hf hnext ⟨c, hc⟩ hnone
          hreader hleast
        obtain ⟨last, t, hrun, hasked⟩ := findNodeRounds_asks_head R (fun _ p _ => f p)
          target hctx halpha hmax hnext.nearest.nodup hshort m 1
        exact ⟨last, t, hrun, p.id, hreader, hasked⟩

theorem normalize_eq (hk : 1 ≤ opts.k) (halpha : 1 ≤ opts.alpha) (hrounds : 1 ≤ opts.maxRounds) :
    normalizeFindNodeOptions opts = opts := by
  rw [normalizeFindNodeOptions, if_neg (by omega), if_neg (by omega), if_neg (by omega)]

theorem Full.findNode_asks_closest (h : Full net ids) (opts : FindNodeOptions)
    (hcard : 2 ≤ ids.card) (hctx : ∀ n, ctx n = false) {reader : NodeID}
    (hn : net.nodes reader = some n) (R : Runtime) (hk : 1 ≤ opts.k) (halpha : 1 ≤ opts.alpha)
    (hmax : opts.alpha ≤ maxPeers) (hrounds : 2 ≤ opts.maxRounds) {H : List NodeID}
    (hH : Nearest (xorDistance target) opts.k.toNat ids H)
    {f : Peer → Except LookupError (List Peer)}
    (hf : ∀ p, p.id ∉ H → f p = net.findNode R false opts.k p target) :
    ∃ out, iterativeFindNode R ctx (some n.rt) (some fun _ p _ => f p) target opts = some out
      ∧ ∃ id ∈ H, id ∈ out.queries.map Peer.id := by
  obtain ⟨m, hm⟩ : ∃ m, opts.maxRounds.toNat = m + 2 := ⟨opts.maxRounds.toNat - 2, by omega⟩
  obtain ⟨last, t, hrun, hasked⟩ := h.asks_closest hcard hctx hn R hk halpha hmax hH hf m
  have hlen := getClosestPeers_ne_nil R target (h.reachable.wf hn) (h.peers_ne_nil hcard hn) hk
  rw [iterativeFindNode, normalize_eq hk halpha (by omega), if_neg hlen, hm, hrun]
  exact ⟨_, rfl, hasked⟩

end

end EdgeSim.Dht
