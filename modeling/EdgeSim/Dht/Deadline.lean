import EdgeSim.Dht.ReadAfterWrite

/-!
# Calls whose context runs out

A context that is done stays done. A lookup that sees it run out during a round is ended by the
check of the next one; after the last round there is none, but then the first store finds the
context done. So a store that returns without the error of the context is the store that no deadline
disturbs. The same holds of a value lookup, if it finds its value before its last round.
-/

namespace EdgeSim.Dht

open KNearest

/-! ## Node lookups -/

section

variable {R : Runtime} {ctx ctx' : ℕ → Bool} {find find' : FindNodeRequester} {target : NodeID}
  {opts : FindNodeOptions} {N : ℕ}

theorem length_findNodeBatch :
    ∀ (batch : List Peer) {s : Lookup (List Peer)},
      (findNodeBatch R find target batch s).calls.length = s.calls.length + batch.length
  | [], _ => rfl
  | p :: batch, s => by
    rw [findNodeBatch]
    cases find s.queries p target with
    | error err =>
      rw [length_findNodeBatch batch]
      simp only [Lookup.ask, List.length_append, List.length_cons, List.length_nil]
      omega
    | ok response =>
      rw [length_findNodeBatch batch]
      simp only [Lookup.merge, Lookup.ask, List.length_append, List.length_cons, List.length_nil]
      omega

/-- A batch depends only on the answers to its own requests. -/
theorem findNodeBatch_congr
    (hfind : ∀ asked p, asked.length < N → find asked p target = find' asked p target) :
    ∀ (batch : List Peer) {s : Lookup (List Peer)},
      (findNodeBatch R find target batch s).calls.length ≤ N →
      findNodeBatch R find target batch s = findNodeBatch R find' target batch s
  | [], _, _ => rfl
  | p :: batch, s, h => by
    have hlt : s.queries.length < N := by
      rw [length_findNodeBatch, List.length_cons] at h
      rw [Lookup.queries, List.length_map]
      omega
    rw [findNodeBatch] at h ⊢
    rw [findNodeBatch, ← hfind _ p hlt]
    cases hanswer : find s.queries p target with
    | error err =>
      rw [hanswer] at h
      exact findNodeBatch_congr hfind batch h
    | ok response =>
      rw [hanswer] at h
      exact findNodeBatch_congr hfind batch h

theorem findNodeRounds_congr (find' : FindNodeRequester)
    (hfind : ∀ asked p, asked.length < N → find asked p target = find' asked p target)
    (hctx' : ∀ n, ctx' n = false) (halpha : 0 < opts.alpha) (hmax : opts.alpha ≤ maxPeers)
    {last : ℕ} {t : Lookup (List Peer)} (ht : t.calls.length ≤ N) :
    ∀ (n round : ℕ) {s : Lookup (List Peer)},
      findNodeRounds R ctx find target opts n round s = some (last, t, false) →
      findNodeRounds R ctx' find' target opts n round s = some (last, t, false)
  | 0, _, _, h => h
  | n + 1, round, s, h => by
    rw [findNodeRounds_succ _ _ _ _ _ _ halpha hmax] at h
    rw [findNodeRounds_succ _ _ _ _ _ _ halpha hmax, if_neg (by simp [hctx'])]
    split_ifs at h with hdone hbatch
    · cases h
    · rw [if_pos hbatch]
      exact h
    · have hpre := findNodeRounds_isPrefix halpha hmax n (round + 1) h
      have hnext : nextRound R find target opts s = nextRound R find' target opts s := by
        rw [nextRound, nextRound, findNodeBatch_congr hfind _ (hpre.length_le.trans ht)]
      rw [if_neg hbatch, ← hnext]
      exact findNodeRounds_congr find' hfind hctx' halpha hmax ht n (round + 1) h

end

/-! ## Stores -/

section

variable {E : Expiry} {net : Network} {ids : Finset NodeID} {R : Runtime}
  {keyToID : String → NodeID} {k : ℤ} {n : Node} {id target : NodeID} {key : String}
  {value : List UInt8}

/-- The first store that finds its context done ends the call. -/
theorem storeAll_canceled {i : ℕ} {p : Peer} (l : List Peer) (hn : net.nodes p.id = some n)
    (hE : E.store i = true) :
    (storeAll (Network.storeNext E) key value (p :: l) (net, i)).2 = some .canceled := by
  simp [storeAll, Network.storeNext, Network.storeValue, hn, hE, Node.handleStore]

theorem storeAll_expiry (E : Expiry) (key : String) (value : List UInt8) :
    ∀ (l : List Peer) {net : Network} (i : ℕ), Full net ids → (∀ p ∈ l, p.id ∈ ids) →
      (storeAll (Network.storeNext E) key value l (net, i)).2 = some .canceled
      ∨ storeAll (Network.storeNext E) key value l (net, i)
        = storeAll (Network.storeNext .never) key value l (net, i)
  | [], _, _, _, _ => .inr rfl
  | p :: l, net, i, h, hl => by
    obtain ⟨n, hn⟩ := h.exists_node (hl p List.mem_cons_self)
    cases hE : E.store i with
    | true => exact .inl (storeAll_canceled l hn hE)
    | false =>
      rw [storeAll, storeAll, storeNext_of_some hn hE, storeNext_of_some hn (Expiry.never_store i)]
      exact storeAll_expiry E key value l (i + 1) (h.store hn) fun q hq =>
        hl q (List.mem_cons_of_mem p hq)

/-- What a lookup knows are nodes, also if some requests find the context done. -/
theorem Full.explored_subset (h : Full net ids) (hn : net.nodes id = some n) (hk : 0 < k)
    {limit : ℤ} {s : Lookup (List Peer)}
    (hs : Explored (fun asked p t => net.findNode R (E.request asked.length) k p t) target limit
      (startIDs R n.rt target k) s) :
    ∀ p ∈ s.shortlist, p.id ∈ ids := by
  have hcalls : ∀ c ∈ s.calls, ∃ done, c.2 = net.findNode R done k c.1 target := by
    intro c hc
    obtain ⟨i, hi⟩ := List.mem_iff_getElem?.1 hc
    exact ⟨_, hs.answered i c hi⟩
  intro p hp
  exact Finset.union_subset (h.startIDs_subset hn R target hk) (h.learned_subset hk hcalls)
    (hs.nearest.mem p.id (List.mem_map_of_mem hp))

theorem Full.shortlist_ne_nil (h : Full net ids) (hcard : 2 ≤ ids.card)
    (hn : net.nodes id = some n) (hk : 0 < k) {limit : ℤ} (hlimit : 0 < limit)
    {find : FindNodeRequester} {s : Lookup (List Peer)}
    (hs : Explored find target limit (startIDs R n.rt target k) s) : s.shortlist ≠ [] := by
  intro hnil
  have hlen := hs.nearest.length_eq
  have hpos : 0 < (startIDs R n.rt target k ∪ learned s.calls).card :=
    Finset.card_pos.2 ((h.startIDs_nonempty hcard hn R target hk).mono Finset.subset_union_left)
  rw [hnil, List.map_nil, List.length_nil] at hlen
  omega

/-- A lookup ends with the error of its context; or with nodes, as it would without a deadline
unless a request of it has found the context done. -/
theorem Full.findNode_expiry (h : Full net ids) (hcard : 2 ≤ ids.card) (E : Expiry) (R : Runtime)
    (target : NodeID) (opts : FindNodeOptions) (hk : 1 ≤ opts.k) (halpha : 1 ≤ opts.alpha)
    (hmax : opts.alpha ≤ maxPeers) (hrounds : 1 ≤ opts.maxRounds) (hn : net.nodes id = some n) :
    ∃ out, iterativeFindNode R E.round (some n.rt)
        (some fun asked p t => net.findNode R (E.request asked.length) opts.k p t) target opts
        = some out
      ∧ (out.result = .error .canceled
        ∨ ∃ l, out.result = .ok l ∧ l ≠ [] ∧ (∀ p ∈ l, p.id ∈ ids)
          ∧ ((∃ i, E.request i = true) ∨ iterativeFindNode R Expiry.never.round (some n.rt)
            (some fun _ p t => net.findNode R false opts.k p t) target opts = some out)) := by
  have hwf := h.reachable.wf hn
  have hlen := getClosestPeers_ne_nil R target hwf (h.peers_ne_nil hcard hn) hk
  have hlimit : 0 < candidateLimit opts.k opts.alpha := lt_of_lt_of_le hk (le_candidateLimit _ _)
  obtain ⟨last, t, canceled, hrun, hs, -, hend⟩ := findNodeRounds_spec R E.round hk halpha hmax
    opts.maxRounds.toNat 0 (explored_table R
      (fun asked p t => net.findNode R (E.request asked.length) opts.k p t) target opts hwf hk)
    (Nat.zero_le _)
  rw [iterativeFindNode, normalize_eq hk halpha hrounds, if_neg hlen, hrun]
  rcases hend with ⟨rfl, -⟩ | ⟨rfl, -⟩
  · exact ⟨_, rfl, .inl rfl⟩
  · refine ⟨_, rfl, .inr ⟨trimPeers t.shortlist opts.k, rfl, ?_, ?_, ?_⟩⟩
    · have hne := List.length_pos_iff.2 (h.shortlist_ne_nil hcard hn hk hlimit hs)
      rw [trimPeers_eq hk, ← List.length_pos_iff, List.length_take]
      omega
    · intro p hp
      rw [trimPeers_eq hk] at hp
      exact h.explored_subset hn hk hs p (List.mem_of_mem_take hp)
    · by_cases hreq : ∃ i, E.request i = true
      · exact .inl hreq
      · have hlive : ∀ i, E.request i = false := fun i => Bool.eq_false_iff.2 fun h => hreq ⟨i, h⟩
        have hsame := findNodeRounds_congr (fun _ p t => net.findNode R false opts.k p t)
          (fun asked p _ => by rw [hlive]) Expiry.never_round halpha hmax le_rfl _ 0 hrun
        refine .inr ?_
        rw [iterativeFindNode, normalize_eq hk halpha hrounds, if_neg hlen, hsame]

/-- A store that does not fail with the error of its context is the store without a deadline. -/
theorem Full.storeFrom_expiry (h : Full net ids) (hcard : 2 ≤ ids.card) (hk : 1 ≤ k)
    {c : StoreCall} (hc : c.OK ids) (hmax : c.alpha ≤ maxPeers) (E : Expiry) :
    net.storeFrom keyToID k E c = net.storeFrom keyToID k .never c
    ∨ ∃ out, net.storeFrom keyToID k E c = some out ∧ out.err = some .canceled := by
  obtain ⟨hcaller, halpha, hrounds⟩ := hc
  obtain ⟨n, hn⟩ := h.exists_node hcaller
  obtain ⟨out, hout, hresult⟩ := h.findNode_expiry hcard E c.runtime (keyToID c.key)
    ⟨k, c.alpha, c.maxRounds⟩ hk halpha hmax (by dsimp only; omega) hn
  simp only [Network.storeFrom, Network.table, hn, Option.map_some, Expiry.never_request]
  rcases hresult with herr | ⟨l, hl, hne, hids, hnever⟩
  · rw [iterativeStore_of_error hout herr]
    exact .inr ⟨_, rfl, rfl⟩
  · rw [iterativeStore_of_ok hout hl]
    rcases storeAll_expiry E c.key c.value l 0 h hids with hcanceled | hsame
    · exact .inr ⟨_, rfl, hcanceled⟩
    · rcases hnever with ⟨i, hi⟩ | hnever
      · obtain ⟨p, rest, rfl⟩ := List.exists_cons_of_ne_nil hne
        obtain ⟨m, hm⟩ := h.exists_node (hids p List.mem_cons_self)
        exact .inr ⟨_, rfl, storeAll_canceled rest hm (Expiry.store_of_request hi 0)⟩
      · rw [iterativeStore_of_ok hnever hl, hsame]
        exact .inl rfl

end

/-! ## Value lookups -/

section

variable {E : Expiry} {R : Runtime} {ctx : ℕ → Bool} {requester requester' : FindValueRequester}
  {key : String} {target : NodeID} {opts opts' : FindNodeOptions}

/-- The requests that find the context done fail, and the others are answered as without it. -/
structure Expires (E : Expiry) (key : String) (requester requester' : FindValueRequester) :
    Prop where
  done : ∀ asked p, E.request asked.length = true → ∃ err, requester asked p key = .error err
  live : ∀ asked p, E.request asked.length = false →
    requester asked p key = requester' asked p key

theorem Lookup.length_queries {α : Type} (s : Lookup α) : s.queries.length = s.calls.length :=
  List.length_map ..

theorem findValueBatch_done (h : Expires E key requester requester') :
    ∀ (batch : List Peer) {v : Lookup ValueAnswer}, E.request v.calls.length = true →
      ∃ v', findValueBatch R requester key batch v = (v', none)
        ∧ v.calls.length ≤ v'.calls.length
  | [], v, _ => ⟨v, rfl, le_rfl⟩
  | p :: batch, v, hdone => by
    obtain ⟨err, herr⟩ := h.done v.queries p (by rwa [v.length_queries])
    have hlen : (v.ask p (.error err)).calls.length = v.calls.length + 1 := by simp [Lookup.ask]
    obtain ⟨v', hrun, hle⟩ := findValueBatch_done h batch (v := v.ask p (.error err))
      (Expiry.request_mono hdone (by omega))
    refine ⟨v', ?_, by omega⟩
    rw [findValueBatch, herr]
    exact hrun

theorem findValueBatch_expiry (h : Expires E key requester requester') :
    ∀ (batch : List Peer) {v : Lookup ValueAnswer},
      findValueBatch R requester key batch v = findValueBatch R requester' key batch v
      ∨ ∃ v' i, findValueBatch R requester key batch v = (v', none) ∧ E.request i = true
        ∧ i < v'.calls.length
  | [], _ => .inl rfl
  | p :: batch, v => by
    cases hdone : E.request v.calls.length with
    | true =>
      obtain ⟨err, herr⟩ := h.done v.queries p (by rwa [v.length_queries])
      have hlen : (v.ask p (.error err)).calls.length = v.calls.length + 1 := by simp [Lookup.ask]
      obtain ⟨v', hrun, hle⟩ := findValueBatch_done (R := R) h batch (v := v.ask p (.error err))
        (Expiry.request_mono hdone (by omega))
      refine .inr ⟨v', v.calls.length, ?_, hdone, by omega⟩
      rw [findValueBatch, herr]
      exact hrun
    | false =>
      rw [findValueBatch, findValueBatch, h.live v.queries p (by rwa [v.length_queries])]
      cases requester' v.queries p key with
      | error err => exact findValueBatch_expiry h batch
      | ok answer =>
        dsimp only
        split_ifs
        · exact .inl rfl
        · exact findValueBatch_expiry h batch

/-- A lookup that finds its value is at most canceled by a deadline, if it has a round more. -/
theorem findValueRounds_expiry (h : Expires E key requester requester') (opts : FindNodeOptions)
    (halpha : 0 < opts.alpha) (hmax : opts.alpha ≤ maxPeers) (hk : opts'.k = opts.k)
    (ha : opts'.alpha = opts.alpha) {found : Lookup ValueAnswer} {value : Option (List UInt8)} :
    ∀ (n m : ℕ) {v : Lookup ValueAnswer}, n < m →
      findValueRounds R ctx requester' key target opts' n v = some (found, .found value) →
      findValueRounds R E.round requester key target opts m v = some (found, .found value)
      ∨ ∃ v', findValueRounds R E.round requester key target opts m v = some (v', .canceled)
  | 0, _, _, _, hrun => by cases hrun
  | _ + 1, 0, _, hlt, _ => by omega
  | n + 1, m + 1, v, hlt, hrun => by
    rw [findValueRounds_succ _ _ _ _ _ _ (ha ▸ halpha) (ha ▸ hmax), hk, ha] at hrun
    rw [findValueRounds_succ _ _ _ _ _ _ halpha hmax]
    split_ifs at hrun with hctx hbatch
    · cases hrun
    · cases hrun
    · by_cases hround : E.round v.calls.length = true
      · exact .inr ⟨v, if_pos hround⟩
      · rw [if_neg hround, if_neg hbatch]
        rcases findValueBatch_expiry (R := R) h (v.nextBatch opts.alpha) (v := v) with
          hsame | ⟨v', i, hnone, hi, hlen⟩
        · rw [hsame]
          cases hanswers : findValueBatch R requester' key (v.nextBatch opts.alpha) v with
          | mk v' result =>
            rw [hanswers] at hrun
            cases result with
            | some value' => exact .inl hrun
            | none => exact findValueRounds_expiry h opts halpha hmax hk ha n m (by omega) hrun
        · rw [hnone]
          obtain ⟨m, rfl⟩ : ∃ m', m = m' + 1 := ⟨m - 1, by omega⟩
          refine .inr ⟨v'.settle R target (candidateLimit opts.k opts.alpha), ?_⟩
          change findValueRounds R _ requester key target opts (m + 1) _ = _
          rw [findValueRounds_succ _ _ _ _ _ _ halpha hmax]
          exact if_pos (Expiry.round_of_request hi hlen)

theorem iterativeFindValue_found {keyToID : String → NodeID} {rt : RoutingTable}
    {out : FindValueOutcome}
    (h : iterativeFindValue R keyToID ctx (some rt) (some requester) key opts = some out)
    (herr : out.err = none) :
    ∃ found, findValueRounds R ctx requester key (keyToID key) (normalizeFindNodeOptions opts)
      (normalizeFindNodeOptions opts).maxRounds.toNat (.start (sortPeersByDistance R (keyToID key)
        (rt.getClosestPeers R (keyToID key) (normalizeFindNodeOptions opts).k)))
      = some (found, .found out.value) := by
  rw [iterativeFindValue] at h
  split_ifs at h
  · cases h
    cases herr
  · split at h
    · cases h
    · rename_i s value hrun
      cases h
      exact ⟨s, hrun⟩
    · cases h
      cases herr
    · cases h
      cases herr

end

section

variable {net : Network} {ids : Finset NodeID} {keyToID : String → NodeID} {k : ℤ} {key : String}

theorem Network.expires (net : Network) (E : Expiry) (R : Runtime)
    (keyToID : String → NodeID) (k : ℤ) (key : String) :
    Expires E key (fun asked p key => net.findValue R keyToID (E.request asked.length) k p key)
      (fun _ p key => net.findValue R keyToID false k p key) where
  done := by
    intro asked p hdone
    rw [hdone, Network.findValue]
    cases net.nodes p.id with
    | none => exact ⟨_, rfl⟩
    | some n => exact ⟨.canceled, rfl⟩
  live := by
    intro asked p hlive
    rw [hlive]

/-- A stored value is read, or the lookup fails with the error of its context, if it has three
rounds. -/
theorem Stored.findFrom_expiry {last : String → Option (List UInt8)}
    (h : Stored keyToID k ids last net) (hcard : 2 ≤ ids.card) (hk : 1 ≤ k) (E : Expiry)
    (R : Runtime) {reader : NodeID} (hreader : reader ∈ ids) {alpha maxRounds : ℤ}
    (halpha : 1 ≤ alpha) (hmax : alpha ≤ maxPeers) (hrounds : 3 ≤ maxRounds) {value : List UInt8}
    (hlast : last key = some value) :
    ∃ out, net.findFrom keyToID k E R reader alpha maxRounds key = some out
      ∧ (out.value = some value ∧ out.err = none ∨ out.err = some .canceled) := by
  obtain ⟨n, hn⟩ := h.full.exists_node hreader
  have hlen := getClosestPeers_ne_nil R (keyToID key) (h.full.reachable.wf hn)
    (h.full.peers_ne_nil hcard hn) hk
  -- two rounds find the value
  obtain ⟨out, hout, hvalue, herr⟩ := h.findFrom hcard hk R hreader halpha hmax
    (show (2 : ℤ) ≤ 2 from le_rfl) key
  rw [hlast, Option.isSome_some, if_pos rfl] at herr
  rw [Network.findFrom, Network.table, hn, Option.map_some] at hout
  obtain ⟨found, hfound⟩ := iterativeFindValue_found hout herr
  rw [normalize_eq hk halpha (by dsimp only; omega), hvalue, hlast] at hfound
  rw [Network.findFrom, Network.table, hn, Option.map_some, iterativeFindValue,
    normalize_eq hk halpha (by dsimp only; omega), if_neg hlen]
  rcases findValueRounds_expiry (net.expires E R keyToID k key) ⟨k, alpha, maxRounds⟩ halpha
    hmax rfl rfl 2 maxRounds.toNat (by omega) hfound with hrun | ⟨v, hrun⟩
  · rw [hrun]
    exact ⟨_, rfl, .inl ⟨rfl, rfl⟩⟩
  · rw [hrun]
    exact ⟨_, rfl, .inr rfl⟩

end

end EdgeSim.Dht
