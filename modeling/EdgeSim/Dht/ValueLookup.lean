import EdgeSim.Dht.LookupSpec

/-!
# A value lookup follows the node lookup

The loops of `IterativeFindValue` and `IterativeFindNode` are kept apart in the source. With the
same answers they make the same calls, up to the first peer that reports the value.
-/

namespace EdgeSim.Dht

section

variable {R R' : Runtime} {ctx ctx' : ℕ → Bool} {find : FindNodeRequester}
  {requester : FindValueRequester} {key : String} {target : NodeID} {opts : FindNodeOptions}
  {s : Lookup (List Peer)} {v : Lookup ValueAnswer}

/-- A call as the node lookup makes it. -/
def asFindNode (c : Peer × Except LookupError ValueAnswer) :
    Peer × Except LookupError (List Peer) :=
  (c.1, c.2.map ValueAnswer.peers)

/-- No call of the list has reported the value. -/
def Unfound (calls : List (Peer × Except LookupError ValueAnswer)) : Prop :=
  ∀ c ∈ calls, ∀ answer, c.2 = .ok answer → answer.found = false

/-- The two lookups have made the same calls, and know the same peers. -/
structure Matches (requester : FindValueRequester) (key : String) (s : Lookup (List Peer))
    (v : Lookup ValueAnswer) : Prop where
  perm : s.shortlist.Perm v.shortlist
  nodup : (s.shortlist.map Peer.id).Nodup
  calls : s.calls = v.calls.map asFindNode
  unfound : Unfound v.calls
  answered : Answered (fun asked p => requester asked p key) v.calls

theorem Matches.queries (h : Matches requester key s v) : s.queries = v.queries := by
  rw [Lookup.queries, h.calls, List.map_map]
  rfl

theorem Matches.nextBatch (h : Matches requester key s v) (heq : s.shortlist = v.shortlist)
    (alpha : ℤ) : s.nextBatch alpha = v.nextBatch alpha := by
  simp only [Lookup.nextBatch, Lookup.queried, h.queries, heq]

/-- The value lookup has ended at the first peer that reports the value. -/
structure Found (requester : FindValueRequester) (key : String) (value : Option (List UInt8))
    (calls : List (Peer × Except LookupError ValueAnswer)) : Prop where
  last : ∃ before p answer, calls = before ++ [(p, .ok answer)] ∧ answer.found = true
    ∧ answer.value = value ∧ Unfound before
  answered : Answered (fun asked p => requester asked p key) calls

theorem findNodeBatch_isPrefix :
    ∀ (batch : List Peer) {s : Lookup (List Peer)},
      s.calls <+: (findNodeBatch R find target batch s).calls
  | [], _ => List.prefix_rfl
  | p :: batch, s => by
    rw [findNodeBatch]
    cases find s.queries p target with
    | error err =>
      exact (List.prefix_append s.calls _).trans
        (findNodeBatch_isPrefix batch (s := s.ask p (.error err)))
    | ok response =>
      exact (List.prefix_append s.calls _).trans
        (findNodeBatch_isPrefix batch (s := (s.ask p (.ok response)).merge R response))

theorem nextRound_isPrefix (s : Lookup (List Peer)) :
    s.calls <+: (nextRound R find target opts s).calls :=
  findNodeBatch_isPrefix _

theorem findNodeRounds_isPrefix (halpha : 0 < opts.alpha) (hmax : opts.alpha ≤ maxPeers) {last : ℕ}
    {t : Lookup (List Peer)} {canceled : Bool} :
    ∀ (n round : ℕ) {s : Lookup (List Peer)},
      findNodeRounds R ctx find target opts n round s = some (last, t, canceled) →
      s.calls <+: t.calls
  | 0, round, s, h => by
    cases h
    exact List.prefix_rfl
  | n + 1, round, s, h => by
    rw [findNodeRounds_succ _ _ _ _ _ _ halpha hmax] at h
    split_ifs at h
    · cases h
      exact List.prefix_rfl
    · cases h
      exact List.prefix_rfl
    · exact (nextRound_isPrefix s).trans (findNodeRounds_isPrefix halpha hmax n (round + 1) h)

theorem findNodeRounds_returns (R : Runtime) (find : FindNodeRequester) (target : NodeID)
    (hctx : ∀ n, ctx n = false) (halpha : 0 < opts.alpha) (hmax : opts.alpha ≤ maxPeers) :
    ∀ (n round : ℕ) (s : Lookup (List Peer)),
      ∃ last t, findNodeRounds R ctx find target opts n round s = some (last, t, false)
  | 0, round, s => ⟨round, s, rfl⟩
  | n + 1, round, s => by
    rw [findNodeRounds_succ _ _ _ _ _ _ halpha hmax, if_neg (by simp [hctx])]
    split_ifs
    · exact ⟨round, s, rfl⟩
    · exact findNodeRounds_returns R find target hctx halpha hmax n (round + 1) _

/-- The lookup ends with the value a batch has found, or goes on. -/
def afterBatch (next : Lookup ValueAnswer → Option (Lookup ValueAnswer × ValueEnd)) :
    Lookup ValueAnswer × Option (Option (List UInt8)) → Option (Lookup ValueAnswer × ValueEnd)
  | (v, some value) => some (v, .found value)
  | (v, none) => next v

section

variable (R : Runtime) (requester : FindValueRequester) (key : String) (target : NodeID) (n : ℕ)
  (v : Lookup ValueAnswer)

theorem findValueRounds_succ (halpha : 0 < opts.alpha) (hmax : opts.alpha ≤ maxPeers) :
    findValueRounds R ctx requester key target opts (n + 1) v
      = if ctx v.calls.length then some (v, .canceled)
        else if (v.nextBatch opts.alpha).length = 0 then some (v, .exhausted)
        else afterBatch (fun v => findValueRounds R ctx requester key target opts n
            (v.settle R target (candidateLimit opts.k opts.alpha)))
          (findValueBatch R requester key (v.nextBatch opts.alpha) v) := by
  rw [findValueRounds, nextUnqueried_eq v halpha hmax]
  rfl

theorem findValueRounds_panics (hctx : ctx v.calls.length = false)
    (hmax : maxPeers < opts.alpha) :
    findValueRounds R ctx requester key target opts (n + 1) v = none := by
  rw [findValueRounds, nextUnqueried_panics _ hmax, if_neg (by simp [hctx])]

end

theorem Unfound.concat {calls : List (Peer × Except LookupError ValueAnswer)} {p : Peer}
    {result : Except LookupError ValueAnswer} (h : Unfound calls)
    (hresult : ∀ answer, result = .ok answer → answer.found = false) :
    Unfound (calls ++ [(p, result)]) := by
  intro c hc
  rcases List.mem_append.1 hc with hc | hc
  · exact h c hc
  · rw [List.mem_singleton.1 hc]
    exact hresult

/-- A batch of the one lookup beside the batch of the other. -/
theorem findValueBatch_lockstep (R R' : Runtime)
    (hfind : ∀ asked p, find asked p target = (requester asked p key).map ValueAnswer.peers) :
    ∀ (batch : List Peer) {s : Lookup (List Peer)} {v : Lookup ValueAnswer},
      Matches requester key s v →
      (∃ v', findValueBatch R' requester key batch v = (v', none)
        ∧ Matches requester key (findNodeBatch R find target batch s) v')
      ∨ ∃ v' value, findValueBatch R' requester key batch v = (v', some value)
        ∧ Found requester key value v'.calls
        ∧ v'.calls.map asFindNode <+: (findNodeBatch R find target batch s).calls
  | [], s, v, h => .inl ⟨v, rfl, h⟩
  | p :: batch, s, v, h => by
    rw [findNodeBatch, findValueBatch, hfind, h.queries]
    cases hanswer : requester v.queries p key with
    | error err =>
      refine findValueBatch_lockstep R R' hfind batch ⟨h.perm, h.nodup, ?_, ?_, ?_⟩
      · simp only [Lookup.ask, h.calls, List.map_append, List.map_singleton]
        rfl
      · exact h.unfound.concat fun _ hok => by cases hok
      · exact h.answered.concat hanswer
    | ok answer =>
      by_cases hfound : answer.found = true
      · refine .inr ⟨v.ask p (.ok answer), answer.value, if_pos hfound,
          ⟨⟨v.calls, p, answer, rfl, hfound, rfl, h.unfound⟩, h.answered.concat hanswer⟩, ?_⟩
        refine List.IsPrefix.trans ?_ (findNodeBatch_isPrefix batch)
        simp only [Lookup.merge, Lookup.ask, h.calls, List.map_append, List.map_singleton]
        exact List.prefix_rfl
      · dsimp only
        rw [if_neg hfound]
        refine findValueBatch_lockstep R R' hfind batch ⟨?_, ?_, ?_, ?_, ?_⟩
        · exact mergePeers_perm _ _ h.nodup h.perm
        · exact (mergePeers_spec R _ answer.peers h.nodup).1
        · simp only [Lookup.merge, Lookup.ask, h.calls, List.map_append, List.map_singleton]
          rfl
        · refine h.unfound.concat fun a hok => ?_
          cases hok
          exact Bool.eq_false_iff.2 hfound
        · exact h.answered.concat hanswer

theorem Matches.settle (h : Matches requester key s v) (R R' : Runtime) (target : NodeID)
    {limit : ℤ} (hlimit : 0 < limit) :
    Matches requester key (s.settle R target limit) (v.settle R' target limit)
      ∧ (s.settle R target limit).shortlist = (v.settle R' target limit).shortlist := by
  have heq : (s.settle R target limit).shortlist = (v.settle R' target limit).shortlist := by
    rw [Lookup.settle, Lookup.settle, sortPeers_eq R R' target h.nodup h.perm]
  exact ⟨⟨List.Perm.of_eq heq, (settled_nearest R target hlimit h.nodup).nodup, h.calls, h.unfound,
    h.answered⟩, heq⟩

theorem findValueRounds_lockstep (R R' : Runtime)
    (hfind : ∀ asked p, find asked p target = (requester asked p key).map ValueAnswer.peers)
    (hctx : ∀ n, ctx n = false) (hctx' : ∀ n, ctx' n = false) (hk : 0 < opts.k)
    (halpha : 0 < opts.alpha) (hmax : opts.alpha ≤ maxPeers) :
    ∀ (n round : ℕ) {s : Lookup (List Peer)} {v : Lookup ValueAnswer},
      Matches requester key s v → s.shortlist = v.shortlist →
      ∃ last t, findNodeRounds R ctx find target opts n round s = some (last, t, false)
        ∧ ((∃ v', findValueRounds R' ctx' requester key target opts n v = some (v', .exhausted)
            ∧ Matches requester key t v' ∧ t.shortlist = v'.shortlist)
          ∨ ∃ v' value,
            findValueRounds R' ctx' requester key target opts n v = some (v', .found value)
            ∧ Found requester key value v'.calls ∧ v'.calls.map asFindNode <+: t.calls)
  | 0, round, s, v, h, heq => ⟨round, s, rfl, .inl ⟨v, rfl, h, heq⟩⟩
  | n + 1, round, s, v, h, heq => by
    have hlimit : 0 < candidateLimit opts.k opts.alpha := hk.trans_le (le_candidateLimit _ _)
    have hlive : ¬ ctx s.calls.length = true := by simp [hctx]
    have hlive' : ¬ ctx' v.calls.length = true := by simp [hctx']
    rw [findNodeRounds_succ _ _ _ _ _ _ halpha hmax, findValueRounds_succ _ _ _ _ _ _ halpha hmax,
      h.nextBatch heq, if_neg hlive, if_neg hlive']
    split_ifs with hbatch
    · exact ⟨round, s, rfl, .inl ⟨v, rfl, h, heq⟩⟩
    · rcases findValueBatch_lockstep R R' hfind (v.nextBatch opts.alpha) h with
        ⟨v', hrun, hmatch⟩ | ⟨v', value, hrun, hfound, hpre⟩
      · rw [hrun, nextRound, h.nextBatch heq]
        obtain ⟨hsettled, hshort⟩ := hmatch.settle R R' target hlimit
        exact findValueRounds_lockstep R R' hfind hctx hctx' hk halpha hmax n (round + 1) hsettled
          hshort
      · rw [hrun]
        obtain ⟨last, t, hlast⟩ := findNodeRounds_returns R find target hctx halpha hmax n
          (round + 1) (nextRound R find target opts s)
        have hcalls := findNodeRounds_isPrefix halpha hmax n (round + 1) hlast
        rw [← h.nextBatch heq] at hpre
        exact ⟨last, t, hlast, .inr ⟨v', value, rfl, hfound, hpre.trans hcalls⟩⟩

theorem matches_start {l : List Peer} (h : (l.map Peer.id).Nodup) :
    Matches requester key (.start l) (.start l) where
  perm := List.Perm.refl l
  nodup := h
  calls := rfl
  unfound := fun _ hc => absurd hc List.not_mem_nil
  answered := answered_nil _

variable {rt : RoutingTable}

theorem iterativeFindNode_empty (R : Runtime) (ctx : ℕ → Bool) (find : FindNodeRequester)
    (target : NodeID) (opts : FindNodeOptions) (hwf : rt.WF) (hnil : rt.peers = []) :
    iterativeFindNode R ctx (some rt) (some find) target opts
      = some ⟨.error .noClosePeers, [], 0⟩ := by
  have hlen := length_getClosestPeers_nil R target hwf hnil (normalize_pos opts).1
  rw [iterativeFindNode, if_pos hlen]

theorem iterativeFindValue_empty (R : Runtime) (keyToID : String → NodeID) (ctx : ℕ → Bool)
    (requester : FindValueRequester) (key : String) (opts : FindNodeOptions) (hwf : rt.WF)
    (hnil : rt.peers = []) :
    iterativeFindValue R keyToID ctx (some rt) (some requester) key opts
      = some ⟨none, [], some .noClosePeers, []⟩ := by
  have hlen := length_getClosestPeers_nil R (keyToID key) hwf hnil (normalize_pos opts).1
  rw [iterativeFindValue, if_pos hlen]

theorem iterativeFindValue_panics (R : Runtime) (keyToID : String → NodeID)
    (requester : FindValueRequester) (key : String) (hctx : ctx 0 = false)
    (hmax : maxPeers < opts.alpha) (hwf : rt.WF) (hne : rt.peers ≠ []) :
    iterativeFindValue R keyToID ctx (some rt) (some requester) key opts = none := by
  obtain ⟨hk, -, hrounds⟩ := normalize_pos opts
  have hmax' := mt (normalize_alpha_le opts).1 hmax.not_ge
  rw [iterativeFindValue, if_neg (getClosestPeers_ne_nil R _ hwf hne hk),
    ← Nat.succ_pred_eq_of_pos (show 0 < (normalizeFindNodeOptions opts).maxRounds.toNat by omega),
    findValueRounds_panics R requester key _ _ _ hctx (not_le.1 hmax')]

/-- The two lookups beside each other: the value lookup ends without the value in the state of the
node lookup, or it ends with the value at a call of it. -/
theorem iterativeFindValue_lockstep (find : FindNodeRequester) (requester : FindValueRequester)
    (keyToID : String → NodeID) (key : String) (hwf : rt.WF) (hne : rt.peers ≠ [])
    (hfind : ∀ asked p, find asked p (keyToID key) = (requester asked p key).map ValueAnswer.peers)
    (hctx : ∀ n, ctx n = false) (hctx' : ∀ n, ctx' n = false) (R R' : Runtime)
    (opts : FindNodeOptions) (hmax : opts.alpha ≤ maxPeers) :
    ∃ l calls rounds, iterativeFindNode R ctx (some rt) (some find) (keyToID key) opts
        = some ⟨.ok l, calls, rounds⟩
      ∧ ((∃ vcalls, iterativeFindValue R' keyToID ctx' (some rt) (some requester) key opts
            = some ⟨none, l, some .valueNotFound, vcalls⟩
          ∧ calls = vcalls.map asFindNode ∧ Unfound vcalls
          ∧ Answered (fun asked p => requester asked p key) vcalls)
        ∨ ∃ value vcalls, iterativeFindValue R' keyToID ctx' (some rt) (some requester) key opts
            = some ⟨value, [], none, vcalls⟩
          ∧ Found requester key value vcalls ∧ vcalls.map asFindNode <+: calls) := by
  obtain ⟨hk, halpha, -⟩ := normalize_pos opts
  have hclosest := hwf.getClosestPeers_eq R' R (keyToID key) (normalizeFindNodeOptions opts).k
  have hnodup := (RoutingTable.closest_ids_nearest R (keyToID key) hwf hk).nodup
  have hsort := sortPeers_eq R' R (keyToID key) hnodup (List.Perm.refl _)
  have hlen := getClosestPeers_ne_nil R (keyToID key) hwf hne hk
  simp only [iterativeFindNode, iterativeFindValue, hclosest, hsort]
  rw [if_neg hlen, if_neg hlen]
  obtain ⟨last, t, hrun, hvalue⟩ := findValueRounds_lockstep R R' hfind hctx hctx' hk halpha
    ((normalize_alpha_le opts).2 hmax) (normalizeFindNodeOptions opts).maxRounds.toNat 0
    (matches_start (((sortPeers_perm R (keyToID key) _).map Peer.id).nodup_iff.2 hnodup)) rfl
  refine ⟨_, t.calls, last, by rw [hrun], ?_⟩
  rcases hvalue with ⟨v, hv, hmatch, heq⟩ | ⟨v, value, hv, hfound, hpre⟩
  · exact .inl ⟨v.calls, by rw [hv, heq], hmatch.calls, hmatch.unfound, hmatch.answered⟩
  · exact .inr ⟨value, v.calls, by rw [hv], hfound, hpre⟩

end

/-- The peer answers with the value. -/
def Reports (f : Peer → Except LookupError ValueAnswer) (p : Peer) : Prop :=
  ∃ answer, f p = .ok answer ∧ answer.found = true

section

variable {f : Peer → Except LookupError ValueAnswer} {key : String}
  {calls : List (Peer × Except LookupError ValueAnswer)}

theorem queries_asFindNode (calls : List (Peer × Except LookupError ValueAnswer)) :
    (calls.map asFindNode).map Prod.fst = calls.map Prod.fst := by
  rw [List.map_map]
  rfl

theorem not_reports (hunfound : Unfound calls)
    (hanswered : ∀ c ∈ calls, c.2 = f c.1) : ∀ p ∈ calls.map Prod.fst, ¬ Reports f p := by
  intro p hp
  obtain ⟨c, hc, rfl⟩ := List.mem_map.1 hp
  rintro ⟨answer, hanswer, hfound⟩
  rw [hunfound c hc answer ((hanswered c hc).trans hanswer)] at hfound
  cases hfound

/-- Where a value lookup that finds the value stops, seen from the queries of the node lookup. -/
theorem Found.first {value : Option (List UInt8)} {queries : List Peer}
    (h : Found (fun _ p _ => f p) key value calls) (hq : calls.map Prod.fst <+: queries) :
    ∃ i p answer, queries[i]? = some p ∧ f p = .ok answer ∧ answer.found = true
      ∧ answer.value = value ∧ calls.map Prod.fst = queries.take (i + 1)
      ∧ ∀ q ∈ queries.take i, ¬ Reports f q := by
  obtain ⟨before, p, answer, rfl, hfound, hvalue, hunfound⟩ := h.last
  obtain ⟨rest, rfl⟩ := hq
  have hanswered := h.answered.of_mem
  have hlen : before.length = (before.map Prod.fst).length := by rw [List.length_map]
  have hlast : f p = .ok answer := (hanswered (p, .ok answer) (by simp)).symm
  rw [List.map_append, List.map_singleton, List.append_assoc, List.singleton_append]
  refine ⟨before.length, p, answer, ?_, hlast, hfound, hvalue, ?_, ?_⟩
  · rw [hlen, List.getElem?_append_right le_rfl, Nat.sub_self, List.getElem?_cons_zero]
  · rw [hlen, List.take_length_add_append, List.take_succ_cons, List.take_zero]
  · rw [hlen, List.take_left]
    exact not_reports hunfound fun c hc => hanswered c (List.mem_append_left _ hc)

/-- What a value lookup returns, beside the node lookup over the same answers: they agree that
there is no peer to start from; if no peer that the node lookup asks has the value, they ask the
same peers and end with the same ones; otherwise the value lookup asks the same peers up to the
first that has the value, and returns it. -/
def Agrees (f : Peer → Except LookupError ValueAnswer) (node : FindNodeOutcome)
    (out : FindValueOutcome) : Prop :=
  (node.result = .error .noClosePeers ∧ node.queries = [] ∧ out.queries = []
    ∧ out.value = none ∧ out.peers = [] ∧ out.err = some .noClosePeers)
  ∨ ∃ l, node.result = .ok l
    ∧ ((∀ p ∈ node.queries, ¬ Reports f p) → out.queries = node.queries
      ∧ out.value = none ∧ out.peers = l ∧ out.err = some .valueNotFound)
    ∧ ∀ i p answer, node.queries[i]? = some p → f p = .ok answer → answer.found = true →
      (∀ q ∈ node.queries.take i, ¬ Reports f q) → out.queries = node.queries.take (i + 1)
      ∧ out.value = answer.value ∧ out.peers = [] ∧ out.err = none

theorem agrees_of_unfound {l : List Peer} {rounds : ℕ} (hunfound : Unfound calls)
    (hanswered : ∀ c ∈ calls, c.2 = f c.1) :
    Agrees f ⟨.ok l, calls.map asFindNode, rounds⟩ ⟨none, l, some .valueNotFound, calls⟩ := by
  refine .inr ⟨l, rfl, ?_⟩
  rw [FindNodeOutcome.queries, FindValueOutcome.queries, queries_asFindNode]
  refine ⟨fun _ => ⟨rfl, rfl, rfl, rfl⟩, fun i p answer hp hanswer hreport _ => ?_⟩
  exact absurd ⟨answer, hanswer, hreport⟩
    (not_reports hunfound hanswered p (List.mem_of_getElem? hp))

theorem agrees_of_found {l : List Peer} {rounds : ℕ} {value : Option (List UInt8)}
    {ncalls : List (Peer × Except LookupError (List Peer))}
    (hfound : Found (fun _ p _ => f p) key value calls) (hpre : calls.map asFindNode <+: ncalls) :
    Agrees f ⟨.ok l, ncalls, rounds⟩ ⟨value, [], none, calls⟩ := by
  refine .inr ⟨l, rfl, ?_⟩
  have hq := hpre.map Prod.fst
  rw [queries_asFindNode] at hq
  rw [FindNodeOutcome.queries, FindValueOutcome.queries]
  obtain ⟨i, p, answer, hp, hanswer, hreport, hval, htake, hfirst⟩ := hfound.first hq
  have hreports : Reports f p := ⟨answer, hanswer, hreport⟩
  refine ⟨fun hnone => absurd hreports (hnone p (List.mem_of_getElem? hp)), ?_⟩
  intro j q answer' hq' hanswer' hreport' hfirst'
  have hij : i = j := by
    rcases Nat.lt_trichotomy i j with hlt | heq | hlt
    · exact absurd hreports (hfirst' p (List.mem_of_getElem? (by
        rw [List.getElem?_take_of_lt hlt, hp])))
    · exact heq
    · exact absurd ⟨answer', hanswer', hreport'⟩ (hfirst q (List.mem_of_getElem? (by
        rw [List.getElem?_take_of_lt hlt, hq'])))
  subst hij
  rw [hp] at hq'
  cases hq'
  rw [hanswer] at hanswer'
  cases hanswer'
  exact ⟨htake, hval.symm, rfl, rfl⟩

/-- A value lookup agrees with the node lookup for the ID of its key just if a batch of `alpha`
peers can be made, or neither has a peer to start from. -/
theorem findValue_agrees (localID : NodeID) (bucketSize : ℤ) (ops : List Op)
    (keyToID : String → NodeID) (f : Peer → Except LookupError ValueAnswer) (key : String)
    (opts : FindNodeOptions) (R R' : Runtime) (ctx ctx' : ℕ → Bool) (hctx : ∀ n, ctx n = false)
    (hctx' : ∀ n, ctx' n = false) :
    let rt := tableAfter localID bucketSize ops
    (∃ node out, iterativeFindNode R ctx (some rt)
        (some fun _ p _ => (f p).map ValueAnswer.peers) (keyToID key) opts = some node
      ∧ iterativeFindValue R' keyToID ctx' (some rt) (some fun _ p _ => f p) key opts = some out
      ∧ Agrees f node out)
    ↔ opts.alpha ≤ maxPeers ∨ rt.peers = [] := by
  intro rt
  have hwf : rt.WF := (wf_tableAfter localID bucketSize ops).1
  by_cases hnil : rt.peers = []
  · refine iff_of_true ⟨_, _, iterativeFindNode_empty R ctx _ _ opts hwf hnil,
      iterativeFindValue_empty R' keyToID ctx' _ key opts hwf hnil, ?_⟩ (.inr hnil)
    exact .inl ⟨rfl, rfl, rfl, rfl, rfl, rfl⟩
  · constructor
    · rintro ⟨node, out, -, hout, -⟩
      refine .inl (not_lt.1 fun hmax => ?_)
      rw [iterativeFindValue_panics R' keyToID _ key (hctx' 0) hmax hwf hnil] at hout
      cases hout
    · intro hcond
      obtain ⟨l, calls, rounds, hnode, hvalue⟩ := iterativeFindValue_lockstep
        (fun _ p _ => (f p).map ValueAnswer.peers) (fun _ p _ => f p) keyToID key hwf hnil
        (fun _ _ => rfl) hctx hctx' R R' opts (hcond.resolve_right hnil)
      rcases hvalue with
        ⟨vcalls, hout, rfl, hunfound, hanswered⟩ | ⟨value, vcalls, hout, hfound, hpre⟩
      · exact ⟨_, _, hnode, hout, agrees_of_unfound hunfound hanswered.of_mem⟩
      · exact ⟨_, _, hnode, hout, agrees_of_found hfound hpre⟩

theorem findValue_agrees_pair :
    ∃ out, iterativeFindValue .plain (fun _ => .ofNat 3) (fun _ => false)
        (some (tableAfter (.ofNat 1) 20 [.addPeer 0 ⟨.ofNat 2, "a", 0⟩]))
        (some fun _ _ _ => .ok ⟨some [7], [], true⟩) "key" ⟨0, 0, 0⟩ = some out
      ∧ out.value = some [7] := by
  obtain ⟨node, out, hnode, hout, hagrees⟩ := (findValue_agrees (.ofNat 1) 20
    [.addPeer 0 ⟨.ofNat 2, "a", 0⟩] (fun _ => .ofNat 3) (fun _ => .ok ⟨some [7], [], true⟩) "key"
    ⟨0, 0, 0⟩ .plain .plain (fun _ => false) (fun _ => false) (fun _ => rfl) (fun _ => rfl)).2
    (.inl (by decide))
  have hqueries : some node.queries = some [⟨.ofNat 2, "a", 0⟩] := by
    rw [← Option.map_some, ← hnode]
    decide +kernel
  rw [Option.some.injEq] at hqueries
  refine ⟨out, hout, ?_⟩
  rcases hagrees with ⟨-, hnil, -⟩ | ⟨-, -, -, hfirst⟩
  · rw [hqueries] at hnil
    cases hnil
  · exact (hfirst 0 ⟨.ofNat 2, "a", 0⟩ ⟨some [7], [], true⟩ (by rw [hqueries]; rfl) rfl rfl
      (by simp)).2.1

theorem findValue_panics :
    iterativeFindValue .plain (fun _ => .ofNat 3) (fun _ => false)
      (some (tableAfter (.ofNat 1) 20 [.addPeer 0 ⟨.ofNat 2, "a", 0⟩]))
      (some fun _ _ _ => .ok ⟨some [7], [], true⟩) "key" ⟨0, 2 ^ 60, 0⟩ = none := by
  decide +kernel

end

end EdgeSim.Dht
