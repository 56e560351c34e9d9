import EdgeSim.Dht.Lookup

/-!
# A node lookup finds the closest of what it has heard of

Between rounds the shortlist is the list of the closest of all IDs heard of so far, as many as the
candidate limit allows. A round merges what it learns and cuts the list to the limit again; what is
cut off then could not come back among the closest. The limit is at least `k`, also when `k * 4`
overflows, so the first `k` are the closest `k`. All of this is up to the panic of `make`, which the
first round meets if `alpha` is out of range.
-/

namespace EdgeSim.Dht

open KNearest

section

variable {R R' : Runtime} {ctx : ℕ → Bool} {requester : FindNodeRequester} {target : NodeID}
  {opts : FindNodeOptions} {s s' : Lookup (List Peer)} {S : Finset NodeID}

/-- The IDs in the successful answers. -/
def learned (calls : List (Peer × Except LookupError (List Peer))) : Finset NodeID :=
  (calls.flatMap fun c => match c.2 with
    | .ok response => learnedIDs response
    | .error _ => []).toFinset

@[simp] theorem learned_append (calls calls' : List (Peer × Except LookupError (List Peer))) :
    learned (calls ++ calls') = learned calls ∪ learned calls' := by
  rw [learned, List.flatMap_append, List.toFinset_append]
  rfl

theorem learned_ok (p : Peer) (response : List Peer) :
    learned [(p, .ok response)] = (learnedIDs response).toFinset := by
  simp [learned]

theorem learned_error (p : Peer) (err : LookupError) : learned [(p, .error err)] = ∅ := by
  simp [learned]

/-- Every recorded answer is what `f` answered, given the peers asked before. -/
def Answered {α : Type} (f : List Peer → Peer → Except LookupError α)
    (calls : List (Peer × Except LookupError α)) : Prop :=
  ∀ i c, calls[i]? = some c → c.2 = f ((calls.take i).map Prod.fst) c.1

theorem answered_nil {α : Type} (f : List Peer → Peer → Except LookupError α) : Answered f [] :=
  fun i c h => by simp at h

theorem Answered.concat {α : Type} {f : List Peer → Peer → Except LookupError α}
    {calls : List (Peer × Except LookupError α)} {p : Peer} {answer : Except LookupError α}
    (h : Answered f calls) (hp : f (calls.map Prod.fst) p = answer) :
    Answered f (calls ++ [(p, answer)]) := by
  intro i c hc
  rcases Nat.lt_or_ge i calls.length with hi | hi
  · rw [List.getElem?_append_left hi] at hc
    rw [List.take_append_of_le_length hi.le]
    exact h i c hc
  · rw [List.getElem?_append_right hi, List.getElem?_singleton] at hc
    split_ifs at hc with h0
    cases hc
    rw [show i = calls.length by omega, List.take_left]
    exact hp.symm

/-- An answer that does not depend on the peers asked before. -/
theorem Answered.of_mem {α : Type} {f : Peer → Except LookupError α}
    {calls : List (Peer × Except LookupError α)} (h : Answered (fun _ => f) calls) :
    ∀ c ∈ calls, c.2 = f c.1 := by
  intro c hc
  obtain ⟨i, hi⟩ := List.mem_iff_getElem?.1 hc
  exact h i c hi

theorem findNodeBatch_answered :
    ∀ (batch : List Peer) {s : Lookup (List Peer)},
      Answered (fun asked p => requester asked p target) s.calls →
      Answered (fun asked p => requester asked p target)
        (findNodeBatch R requester target batch s).calls
  | [], _, h => h
  | p :: batch, s, h => by
    rw [findNodeBatch]
    cases hanswer : requester s.queries p target with
    | error err => exact findNodeBatch_answered batch (h.concat hanswer)
    | ok response => exact findNodeBatch_answered batch (h.concat hanswer)

/-- The calls of a batch, and the IDs it leaves in the shortlist. -/
theorem findNodeBatch_spec (R : Runtime) (requester : FindNodeRequester) (target : NodeID) :
    ∀ (batch : List Peer) {s : Lookup (List Peer)}, (s.shortlist.map Peer.id).Nodup →
      ∃ calls, (findNodeBatch R requester target batch s).calls = s.calls ++ calls
        ∧ calls.map Prod.fst = batch
        ∧ ((findNodeBatch R requester target batch s).shortlist.map Peer.id).Nodup
        ∧ ((findNodeBatch R requester target batch s).shortlist.map Peer.id).toFinset
          = (s.shortlist.map Peer.id).toFinset ∪ learned calls
  | [], s, h => ⟨[], by simp [findNodeBatch], rfl, h, by simp [findNodeBatch, learned]⟩
  | p :: batch, s, h => by
    rw [findNodeBatch]
    cases requester s.queries p target with
    | error err =>
      obtain ⟨calls, hcalls, hbatch, hnodup, hids⟩ :=
        findNodeBatch_spec R requester target batch (s := s.ask p (.error err)) h
      refine ⟨(p, .error err) :: calls, ?_, by rw [List.map_cons, hbatch], hnodup, ?_⟩
      · rw [hcalls, Lookup.ask, List.append_assoc, List.singleton_append]
      · rw [hids, ← List.singleton_append, learned_append, learned_error, Finset.empty_union]
        rfl
    | ok response =>
      obtain ⟨hmerged, hmids⟩ :=
        mergePeers_spec R (s.ask p (.ok response)).calls.length response h
      obtain ⟨calls, hcalls, hbatch, hnodup, hids⟩ :=
        findNodeBatch_spec R requester target batch
          (s := (s.ask p (.ok response)).merge R response) hmerged
      refine ⟨(p, .ok response) :: calls, ?_, by rw [List.map_cons, hbatch], hnodup, ?_⟩
      · rw [hcalls, Lookup.merge, Lookup.ask, List.append_assoc, List.singleton_append]
      · rw [hids, ← List.singleton_append, learned_append, learned_ok, ← Finset.union_assoc,
          ← hmids]
        rfl

/-- Between rounds: the shortlist is the closest of what is known, and no ID was queried twice or
before it was known. -/
structure Explored (requester : FindNodeRequester) (target : NodeID) (limit : ℤ)
    (S : Finset NodeID) (s : Lookup (List Peer)) : Prop where
  nearest : Nearest (xorDistance target) limit.toNat (S ∪ learned s.calls)
    (s.shortlist.map Peer.id)
  nodup : (s.queries.map Peer.id).Nodup
  known : ∀ i c, s.calls[i]? = some c → c.1.id ∈ S ∪ learned (s.calls.take i)
  answered : Answered (fun asked p => requester asked p target) s.calls

theorem learned_take_subset (calls : List (Peer × Except LookupError (List Peer))) (i : ℕ) :
    learned (calls.take i) ⊆ learned calls := by
  intro id hid
  rw [← List.take_append_drop i calls, learned_append]
  exact Finset.mem_union_left _ hid

theorem Explored.queried_known {limit : ℤ} (h : Explored requester target limit S s) :
    ∀ id ∈ s.queries.map Peer.id, id ∈ S ∪ learned s.calls := by
  intro id hid
  obtain ⟨p, hp, rfl⟩ := List.mem_map.1 hid
  obtain ⟨c, hc, rfl⟩ := List.mem_map.1 hp
  obtain ⟨i, hi⟩ := List.mem_iff_getElem?.1 hc
  exact Finset.union_subset_union_right (learned_take_subset s.calls i) (h.known i c hi)

/-- The next batch: peers of the shortlist that were not queried. -/
theorem batch_spec (alpha : ℤ) (hnodup : (s.shortlist.map Peer.id).Nodup) :
    ((s.nextBatch alpha).map Peer.id).Nodup
      ∧ ∀ p ∈ s.nextBatch alpha, p ∈ s.shortlist ∧ p.id ∉ s.queries.map Peer.id := by
  have hsub : (s.nextBatch alpha).Sublist s.shortlist :=
    (List.take_sublist _ _).trans List.filter_sublist
  refine ⟨hnodup.sublist (hsub.map Peer.id), fun p hp => ⟨hsub.subset hp, ?_⟩⟩
  simpa [Lookup.queried] using (List.mem_filter.1 (List.mem_of_mem_take hp)).2

theorem queried_of_batch_nil (halpha : 0 < opts.alpha)
    (h : (s.nextBatch opts.alpha).length = 0) :
    ∀ p ∈ s.shortlist, p.id ∈ s.queries.map Peer.id := by
  rw [Lookup.nextBatch, List.length_take] at h
  have hnil : (s.shortlist.filter fun p => !s.queried p.id) = [] :=
    List.eq_nil_of_length_eq_zero (by omega)
  intro p hp
  have hq := List.filter_eq_nil_iff.1 hnil p hp
  simpa [Lookup.queried] using hq

/-- Sorting and trimming the IDs of `l` leaves the closest of them. -/
theorem settled_nearest (R : Runtime) (target : NodeID) {l : List Peer} {limit : ℤ}
    (hlimit : 0 < limit) (h : (l.map Peer.id).Nodup) :
    Nearest (xorDistance target) limit.toNat (l.map Peer.id).toFinset
      ((trimPeers (sortPeersByDistance R target l) limit).map Peer.id) := by
  have hperm := (sortPeers_perm R target l).map Peer.id
  rw [trimPeers_eq hlimit, List.map_take, ← List.toFinset_eq_of_perm _ _ hperm]
  exact nearest_take _ (List.pairwise_map.2 (sortPeers_ordered R target h))

/-- The state at the end of a round. -/
def nextRound (R : Runtime) (requester : FindNodeRequester) (target : NodeID)
    (opts : FindNodeOptions) (s : Lookup (List Peer)) : Lookup (List Peer) :=
  (findNodeBatch R requester target (s.nextBatch opts.alpha) s).settle R target
    (candidateLimit opts.k opts.alpha)

section

variable (R : Runtime) (requester : FindNodeRequester) (target : NodeID) (n round : ℕ)
  (s : Lookup (List Peer))

theorem findNodeRounds_succ (halpha : 0 < opts.alpha) (hmax : opts.alpha ≤ maxPeers) :
    findNodeRounds R ctx requester target opts (n + 1) round s
      = if ctx s.calls.length then some (round, s, true)
        else if (s.nextBatch opts.alpha).length = 0 then some (round, s, false)
        else findNodeRounds R ctx requester target opts n (round + 1)
          (nextRound R requester target opts s) := by
  rw [findNodeRounds, nextUnqueried_eq s halpha hmax]
  rfl

theorem findNodeRounds_panics (hctx : ctx s.calls.length = false) (hmax : maxPeers < opts.alpha) :
    findNodeRounds R ctx requester target opts (n + 1) round s = none := by
  rw [findNodeRounds, nextUnqueried_panics _ hmax, if_neg (by simp [hctx])]

end

theorem nextRound_calls (R : Runtime) (requester : FindNodeRequester) (target : NodeID)
    (opts : FindNodeOptions) (hnodup : (s.shortlist.map Peer.id).Nodup) :
    ∃ calls, (nextRound R requester target opts s).calls = s.calls ++ calls
      ∧ calls.map Prod.fst = s.nextBatch opts.alpha := by
  obtain ⟨calls, hcalls, hfst, -⟩ :=
    findNodeBatch_spec R requester target (s.nextBatch opts.alpha) hnodup
  exact ⟨calls, hcalls, hfst⟩

theorem Explored.nextRound (hk : 0 < opts.k)
    (h : Explored requester target (candidateLimit opts.k opts.alpha) S s) :
    Explored requester target (candidateLimit opts.k opts.alpha) S
      (nextRound R requester target opts s) := by
  have hlimit : 0 < candidateLimit opts.k opts.alpha := hk.trans_le (le_candidateLimit _ _)
  obtain ⟨hbatch, hfresh⟩ := batch_spec (s := s) opts.alpha h.nearest.nodup
  obtain ⟨calls, hcalls, hfst, hnodup, hids⟩ := findNodeBatch_spec R requester
    target (s.nextBatch opts.alpha) h.nearest.nodup
  have hc : (Dht.nextRound R requester target opts s).calls = s.calls ++ calls := hcalls
  have hq : (Dht.nextRound R requester target opts s).queries
      = s.queries ++ s.nextBatch opts.alpha := by
    rw [Lookup.queries, hc, List.map_append, hfst]
    rfl
  refine ⟨?_, ?_, ?_, findNodeBatch_answered _ h.answered⟩
  · have hnear := settled_nearest R target hlimit hnodup
    rw [hids] at hnear
    rw [hc, learned_append, ← Finset.union_assoc]
    exact h.nearest.absorb hnear
  · rw [hq, List.map_append, List.nodup_append]
    refine ⟨h.nodup, hbatch, ?_⟩
    intro id hid _ hmem heq
    obtain ⟨p, hp, rfl⟩ := List.mem_map.1 hmem
    rw [heq] at hid
    exact (hfresh p hp).2 hid
  · intro i c hi
    rw [hc] at hi ⊢
    rcases Nat.lt_or_ge i s.calls.length with hlt | hge
    · rw [List.getElem?_append_left hlt] at hi
      rw [List.take_append_of_le_length hlt.le]
      exact h.known i c hi
    · -- the batch was in the shortlist when the round began
      rw [List.getElem?_append_right hge] at hi
      have hmem : c.1 ∈ s.nextBatch opts.alpha :=
        hfst ▸ List.mem_map_of_mem (List.mem_of_getElem? hi)
      rw [List.take_append, List.take_of_length_le hge, learned_append, ← Finset.union_assoc]
      exact Finset.mem_union_left _ (h.nearest.mem _ (List.mem_map_of_mem (hfresh _ hmem).1))

theorem length_nextRound (R : Runtime) (requester : FindNodeRequester) (target : NodeID)
    (hbatch : (s.nextBatch opts.alpha).length ≠ 0)
    (hnodup : (s.shortlist.map Peer.id).Nodup) :
    s.calls.length < (nextRound R requester target opts s).calls.length := by
  obtain ⟨calls, hc, hfst⟩ := nextRound_calls R requester target opts hnodup
  have hlen := congrArg List.length hfst
  rw [List.length_map] at hlen
  rw [hc, List.length_append]
  omega

/-- The order in which maps are ranged over is lost in the sort at the end of a round. -/
theorem findNodeBatch_perm (R R' : Runtime) :
    ∀ (batch : List Peer) {s s' : Lookup (List Peer)}, s.calls = s'.calls →
      s.shortlist.Perm s'.shortlist → (s.shortlist.map Peer.id).Nodup →
      (findNodeBatch R requester target batch s).calls
          = (findNodeBatch R' requester target batch s').calls
        ∧ (findNodeBatch R requester target batch s).shortlist.Perm
          (findNodeBatch R' requester target batch s').shortlist
  | [], _, _, hcalls, hperm, _ => ⟨hcalls, hperm⟩
  | p :: batch, s, s', hcalls, hperm, hnodup => by
    have hq : s.queries = s'.queries := by rw [Lookup.queries, hcalls, Lookup.queries]
    rw [findNodeBatch, findNodeBatch, ← hq]
    cases requester s.queries p target with
    | error err =>
      exact findNodeBatch_perm R R' batch (by rw [Lookup.ask, hcalls, Lookup.ask]) hperm hnodup
    | ok response =>
      refine findNodeBatch_perm R R' batch ?_ (mergePeers_perm _ _ hnodup hperm)
        (mergePeers_spec R _ response hnodup).1
      rw [Lookup.merge, Lookup.ask, hcalls, Lookup.merge, Lookup.ask]

theorem nextRound_eq (R R' : Runtime) (requester : FindNodeRequester) (target : NodeID)
    (opts : FindNodeOptions) (hnodup : (s.shortlist.map Peer.id).Nodup) :
    nextRound R requester target opts s = nextRound R' requester target opts s := by
  obtain ⟨-, -, -, hids, -⟩ := findNodeBatch_spec R requester target
    (s.nextBatch opts.alpha) hnodup
  obtain ⟨hcalls, hperm⟩ := findNodeBatch_perm R R'
    (s.nextBatch opts.alpha) (Eq.refl s.calls) (List.Perm.refl _) hnodup
  rw [nextRound, nextRound, Lookup.settle, Lookup.settle, hcalls,
    sortPeers_eq R R' target hids hperm]

theorem findNodeRounds_eq (R R' : Runtime) (ctx : ℕ → Bool) (hk : 0 < opts.k)
    (halpha : 0 < opts.alpha) (hmax : opts.alpha ≤ maxPeers) :
    ∀ (n round : ℕ) {s : Lookup (List Peer)},
      Explored requester target (candidateLimit opts.k opts.alpha) S s →
      findNodeRounds R ctx requester target opts n round s
        = findNodeRounds R' ctx requester target opts n round s
  | 0, _, _, _ => rfl
  | n + 1, round, s, h => by
    have hround := findNodeRounds_eq R R' ctx hk halpha hmax n (round + 1)
      (h.nextRound (R := R) hk)
    rw [findNodeRounds_succ _ _ _ _ _ _ halpha hmax, findNodeRounds_succ _ _ _ _ _ _ halpha hmax,
      hround, nextRound_eq R R' requester target opts h.nearest.nodup]

/-- How the rounds of a lookup end: by the context, at the last of them, or with all of the
shortlist queried. -/
theorem findNodeRounds_spec (R : Runtime) (ctx : ℕ → Bool) (hk : 0 < opts.k)
    (halpha : 0 < opts.alpha) (hmax : opts.alpha ≤ maxPeers) :
    ∀ (n round : ℕ) {s : Lookup (List Peer)},
      Explored requester target (candidateLimit opts.k opts.alpha) S s → round ≤ s.calls.length →
      ∃ last t canceled,
        findNodeRounds R ctx requester target opts n round s = some (last, t, canceled)
        ∧ Explored requester target (candidateLimit opts.k opts.alpha) S t
        ∧ last ≤ t.calls.length
        ∧ (canceled = true ∧ ctx t.calls.length = true
          ∨ canceled = false
            ∧ (last = round + n ∨ ∀ p ∈ t.shortlist, p.id ∈ t.queries.map Peer.id))
  | 0, round, s, h, hround =>
    ⟨round, s, false, rfl, h, hround, .inr ⟨rfl, .inl rfl⟩⟩
  | n + 1, round, s, h, hround => by
    rw [findNodeRounds_succ _ _ _ _ _ _ halpha hmax]
    split_ifs with hdone hbatch
    · exact ⟨round, s, true, rfl, h, hround, .inl ⟨rfl, hdone⟩⟩
    · exact ⟨round, s, false, rfl, h, hround,
        .inr ⟨rfl, .inr (queried_of_batch_nil halpha hbatch)⟩⟩
    · have hlen := length_nextRound R requester target hbatch h.nearest.nodup
      obtain ⟨last, t, canceled, heq, ht, hlast, hend⟩ := findNodeRounds_spec R ctx hk halpha hmax n
        (round + 1) (h.nextRound (R := R) hk) (by omega)
      refine ⟨last, t, canceled, heq, ht, hlast, ?_⟩
      rwa [Nat.add_right_comm, Nat.add_assoc] at hend

theorem explored_start {l : List Peer} (hk : 0 < opts.k) (hnodup : (l.map Peer.id).Nodup)
    (hlen : l.length ≤ opts.k.toNat) :
    Explored requester target (candidateLimit opts.k opts.alpha) (l.map Peer.id).toFinset
      (.start (sortPeersByDistance R target l)) where
  nearest := by
    have hle := le_candidateLimit opts.k opts.alpha
    have hsort := (sortPeers_perm R target l).length_eq
    have hnear := settled_nearest R target (hk.trans_le hle) hnodup
    rw [trimPeers_eq (hk.trans_le hle), List.take_of_length_le (by omega)] at hnear
    rw [Lookup.start, show learned [] = ∅ from rfl, Finset.union_empty]
    exact hnear
  nodup := List.nodup_nil
  known := fun i c hi => by simp [Lookup.start] at hi
  answered := answered_nil _

variable {rt : RoutingTable}

/-- The IDs a lookup starts from. -/
def startIDs (R : Runtime) (rt : RoutingTable) (target : NodeID) (k : ℤ) : Finset NodeID :=
  ((rt.getClosestPeers R target k).map Peer.id).toFinset

theorem explored_table (R : Runtime) (requester : FindNodeRequester) (target : NodeID)
    (opts : FindNodeOptions) (hwf : rt.WF) (hk : 0 < opts.k) :
    Explored requester target (candidateLimit opts.k opts.alpha) (startIDs R rt target opts.k)
      (.start (sortPeersByDistance R target (rt.getClosestPeers R target opts.k))) := by
  have hnear := RoutingTable.closest_ids_nearest R target hwf hk
  have hlen := hnear.length_eq
  rw [List.length_map] at hlen
  exact explored_start hk hnear.nodup (by omega)

theorem getClosestPeers_ne_nil (R : Runtime) (target : NodeID) (hwf : rt.WF) (hne : rt.peers ≠ [])
    {k : ℤ} (hk : 0 < k) :
    (rt.getClosestPeers R target k).length ≠ 0 := by
  have hlen := (RoutingTable.closest_ids_nearest R target hwf hk).length_eq
  have hpos := List.length_pos_iff.2 hne
  rw [hwf.card_ids, List.length_map] at hlen
  omega

theorem length_getClosestPeers_nil (R : Runtime) (target : NodeID) (hwf : rt.WF)
    (hnil : rt.peers = []) {k : ℤ} (hk : 0 < k) :
    (rt.getClosestPeers R target k).length = 0 := by
  have hlen := (RoutingTable.closest_ids_nearest R target hwf hk).length_eq
  rw [hwf.card_ids, hnil, List.length_map] at hlen
  simpa using hlen

/-- A lookup that is not canceled ends in an explored state, whose first `k` it returns. -/
theorem iterativeFindNode_spec (R : Runtime) (requester : FindNodeRequester) (target : NodeID)
    (opts : FindNodeOptions) (hctx : ∀ n, ctx n = false) (hmax : opts.alpha ≤ maxPeers)
    (hwf : rt.WF) (hne : rt.peers ≠ []) :
    ∃ s rounds, iterativeFindNode R ctx (some rt) (some requester) target opts
        = some ⟨.ok (trimPeers s.shortlist (normalizeFindNodeOptions opts).k), s.calls, rounds⟩
      ∧ Explored requester target
        (candidateLimit (normalizeFindNodeOptions opts).k (normalizeFindNodeOptions opts).alpha)
        (startIDs R rt target (normalizeFindNodeOptions opts).k) s
      ∧ rounds ≤ s.calls.length
      ∧ (rounds = (normalizeFindNodeOptions opts).maxRounds.toNat
        ∨ ∀ p ∈ s.shortlist, p.id ∈ s.queries.map Peer.id) := by
  obtain ⟨hk, halpha, -⟩ := normalize_pos opts
  obtain ⟨rounds, s, canceled, hrun, hs, hle, ⟨-, hdone⟩ | ⟨rfl, hend⟩⟩ := findNodeRounds_spec R
    ctx hk halpha ((normalize_alpha_le opts).2 hmax)
    (normalizeFindNodeOptions opts).maxRounds.toNat 0
    (explored_table R requester target _ hwf hk) (Nat.zero_le _)
  · rw [hctx] at hdone
    cases hdone
  · refine ⟨s, rounds, ?_, hs, hle, by simpa using hend⟩
    rw [iterativeFindNode, if_neg (getClosestPeers_ne_nil R target hwf hne hk), hrun]

theorem iterativeFindNode_panics (R : Runtime) (requester : FindNodeRequester) (target : NodeID)
    (hctx : ctx 0 = false) (hmax : maxPeers < opts.alpha) (hwf : rt.WF) (hne : rt.peers ≠ []) :
    iterativeFindNode R ctx (some rt) (some requester) target opts = none := by
  obtain ⟨hk, -, hrounds⟩ := normalize_pos opts
  have hmax' := mt (normalize_alpha_le opts).1 hmax.not_ge
  rw [iterativeFindNode, if_neg (getClosestPeers_ne_nil R target hwf hne hk),
    ← Nat.succ_pred_eq_of_pos (show 0 < (normalizeFindNodeOptions opts).maxRounds.toNat by omega),
    findNodeRounds_panics R requester target _ _ _ hctx (not_le.1 hmax')]

theorem iterativeFindNode_eq (R R' : Runtime) (hmax : opts.alpha ≤ maxPeers) (hwf : rt.WF) :
    iterativeFindNode R ctx (some rt) (some requester) target opts
      = iterativeFindNode R' ctx (some rt) (some requester) target opts := by
  obtain ⟨hk, halpha, -⟩ := normalize_pos opts
  have hclosest := hwf.getClosestPeers_eq R R' target (normalizeFindNodeOptions opts).k
  have hnodup := (RoutingTable.closest_ids_nearest R target hwf hk).nodup
  have hrounds := findNodeRounds_eq R R' ctx hk halpha ((normalize_alpha_le opts).2 hmax)
    (normalizeFindNodeOptions opts).maxRounds.toNat 0
    (explored_table R requester target _ hwf hk)
  rw [iterativeFindNode, iterativeFindNode, hrounds, ← hclosest,
    sortPeers_eq R R' target hnodup (List.Perm.refl _)]

/-- A node lookup returns the closest `k` of the IDs it started from and was told of, in order,
asks no ID twice, and comes out the same in every runtime; if it stops by itself it has asked every
peer it returns. It does so just if a batch of `alpha` peers can be made. -/
theorem findNode_correct (localID : NodeID) (bucketSize : ℤ) (ops : List Op) (R : Runtime)
    (requester : FindNodeRequester) (target : NodeID) (opts : FindNodeOptions)
    (hctx : ∀ n, ctx n = false) (hne : (tableAfter localID bucketSize ops).peers ≠ []) :
    let rt := tableAfter localID bucketSize ops
    let k := (normalizeFindNodeOptions opts).k
    (∃ out, iterativeFindNode R ctx (some rt) (some requester) target opts = some out
      ∧ (out.queries.map Peer.id).Nodup
      ∧ (∀ i c, out.calls[i]? = some c → c.2 = requester (out.queries.take i) c.1 target)
      ∧ (∃ l, out.result = .ok l
        ∧ Nearest (xorDistance target) k.toNat (startIDs R rt target k ∪ learned out.calls)
          (l.map Peer.id)
        ∧ ((out.rounds : ℤ) < (normalizeFindNodeOptions opts).maxRounds →
          ∀ p ∈ l, p.id ∈ out.queries.map Peer.id))
      ∧ ∀ R', iterativeFindNode R' ctx (some rt) (some requester) target opts = some out)
    ↔ opts.alpha ≤ maxPeers := by
  intro rt k
  have hwf : rt.WF := (wf_tableAfter localID bucketSize ops).1
  have hk : 0 < k := (normalize_pos opts).1
  constructor
  · rintro ⟨out, hout, -⟩
    by_contra hmax
    rw [iterativeFindNode_panics R requester target (hctx 0) (not_le.1 hmax) hwf hne] at hout
    cases hout
  · intro hmax
    obtain ⟨s, rounds, hout, hs, -, hend⟩ :=
      iterativeFindNode_spec R requester target opts hctx hmax hwf hne
    have hlimit : k ≤ candidateLimit (normalizeFindNodeOptions opts).k
        (normalizeFindNodeOptions opts).alpha := le_candidateLimit _ _
    refine ⟨_, hout, hs.nodup, ?_, ⟨trimPeers s.shortlist k, rfl, ?_, ?_⟩, ?_⟩
    · intro i c hc
      rw [FindNodeOutcome.queries, ← List.map_take]
      exact hs.answered i c hc
    · rw [trimPeers_eq hk, List.map_take]
      exact hs.nearest.take (by omega)
    · intro hlt p hp
      rw [trimPeers_eq hk] at hp
      refine (hend.resolve_left ?_) p (List.mem_of_mem_take hp)
      dsimp only at hlt
      omega
    · intro R'
      rw [← hout, iterativeFindNode_eq R' R hmax hwf]

theorem findNode_correct_pair :
    let rt := tableAfter (.ofNat 1) 20 [.addPeer 0 ⟨.ofNat 2, "a", 0⟩]
    ∃ out, iterativeFindNode .plain (fun _ => false) (some rt)
        (some fun _ _ _ => .ok [⟨.ofNat 3, "b", 0⟩, ⟨0, "c", 0⟩]) (.ofNat 3) ⟨0, 0, 0⟩ = some out
      ∧ (out.queries.map Peer.id).Nodup := by
  obtain ⟨out, hout, hnodup, -⟩ := (findNode_correct (.ofNat 1) 20
    [.addPeer 0 ⟨.ofNat 2, "a", 0⟩] .plain
    (fun _ _ _ => .ok [⟨.ofNat 3, "b", 0⟩, ⟨0, "c", 0⟩]) (.ofNat 3) ⟨0, 0, 0⟩ (fun _ => rfl)
    (by decide +kernel)).2 (by decide)
  exact ⟨out, hout, hnodup⟩

theorem findNode_panics :
    iterativeFindNode .plain (fun _ => false)
      (some (tableAfter (.ofNat 1) 20 [.addPeer 0 ⟨.ofNat 2, "a", 0⟩])) (some fun _ _ _ => .ok [])
      (.ofNat 3) ⟨0, 2 ^ 60, 0⟩ = none := by
  decide +kernel

end

end EdgeSim.Dht
