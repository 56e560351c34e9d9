import EdgeSim.Dht.Closest

/-!
# The iterative lookups

`IterativeFindNode` and `IterativeFindValue`, which have the same loop written twice. A requester is
what the other peers answer: it may answer the same question differently each time, so it is given
the peers that were asked before. The lookups keep a record of their calls, of which the code has
only the set of queried IDs. A context is whether it is done at the check that a round makes after
so many calls. What can be addressed can be allocated, so a lookup panics only where `make` refuses
the size it is given; it returns `none` then.
-/

namespace EdgeSim.Dht

inductive LookupError where
  | nilTable
  | nilFindNode
  | nilFindValue
  | nilStore
  | noClosePeers
  | valueNotFound
  | canceled
  | unknownPeer (id : NodeID)
  | remote (text : String)
  deriving DecidableEq

structure FindNodeOptions where
  k : ℤ
  alpha : ℤ
  maxRounds : ℤ
  deriving DecidableEq

def normalizeFindNodeOptions (opts : FindNodeOptions) : FindNodeOptions where
  k := if opts.k ≤ 0 then 20 else opts.k
  alpha := if opts.alpha ≤ 0 then 3 else opts.alpha
  maxRounds := if opts.maxRounds ≤ 0 then NodeIDLength * 8 else opts.maxRounds

/-- The value of a 64-bit `int` expression. -/
def wrap64 (n : ℤ) : ℤ := n.bmod (2 ^ 64)

def candidateLimit (k alpha : ℤ) : ℤ :=
  let limit := wrap64 (k * 4)
  let minLimit := wrap64 (alpha * 2)
  let limit := if limit < minLimit then minLimit else limit
  if limit < k then k else limit

def trimPeers (peers : List Peer) (k : ℤ) : List Peer :=
  if k ≤ 0 ∨ (peers.length : ℤ) ≤ k then peers else peers.take k.toNat

/-- The largest capacity of a `[]Peer`. `make` panics beyond the `2 ^ 48` bytes that a heap address
reaches, and a `Peer` has 64: its ID 20 and 4 of padding, the string 16 and the time 24. -/
def maxPeers : ℤ := 2 ^ 48 / 64

/-- The loop of `nextUnqueried`, with the batch so far. -/
def nextUnqueriedFrom (queried : NodeID → Bool) (alpha : ℤ) : List Peer → List Peer → List Peer
  | batch, [] => batch
  | batch, peer :: shortlist =>
    if queried peer.id then nextUnqueriedFrom queried alpha batch shortlist
    else if alpha ≤ (batch ++ [peer]).length then batch ++ [peer]
    else nextUnqueriedFrom queried alpha (batch ++ [peer]) shortlist

def nextUnqueried (shortlist : List Peer) (queried : NodeID → Bool) (alpha : ℤ) :
    Option (List Peer) :=
  if alpha < 0 ∨ maxPeers < alpha then none else some (nextUnqueriedFrom queried alpha [] shortlist)

/-- An assignment to the map from IDs to peers, which is the list of its values. -/
def put (seen : List Peer) (peer : Peer) : List Peer :=
  seen.filter (fun p => p.id ≠ peer.id) ++ [peer]

/-- The map that `mergePeers` ranges over. -/
def mergeSeen (existing incoming : List Peer) : List Peer :=
  incoming.foldl (fun seen peer => if peer.id = 0 then seen else put seen peer)
    (existing.foldl put [])

/-- `mergePeers` with the `n`-th range over a map. -/
def mergePeers (R : Runtime) (n : ℕ) (existing incoming : List Peer) : List Peer :=
  if incoming.length = 0 then existing else R.range n (mergeSeen existing incoming)

/-- The shortlist of a lookup and the calls it has made, with their answers. -/
structure Lookup (α : Type) where
  shortlist : List Peer
  calls : List (Peer × Except LookupError α)

namespace Lookup

variable {α : Type}

def queries (s : Lookup α) : List Peer := s.calls.map Prod.fst

def queried (s : Lookup α) (id : NodeID) : Bool := id ∈ s.queries.map Peer.id

def ask (s : Lookup α) (peer : Peer) (answer : Except LookupError α) : Lookup α :=
  { s with calls := s.calls ++ [(peer, answer)] }

def merge (R : Runtime) (s : Lookup α) (incoming : List Peer) : Lookup α :=
  { s with shortlist := mergePeers R s.calls.length s.shortlist incoming }

/-- The end of a round. -/
def settle (R : Runtime) (target : NodeID) (limit : ℤ) (s : Lookup α) : Lookup α :=
  { s with shortlist := trimPeers (sortPeersByDistance R target s.shortlist) limit }

def start (shortlist : List Peer) : Lookup α := ⟨shortlist, []⟩

end Lookup

/-! ## `IterativeFindNode` -/

/-- The answer of a peer, given the peers asked before. -/
abbrev FindNodeRequester := List Peer → Peer → NodeID → Except LookupError (List Peer)

def findNodeBatch (R : Runtime) (requester : FindNodeRequester) (target : NodeID) :
    List Peer → Lookup (List Peer) → Lookup (List Peer)
  | [], s => s
  | peer :: batch, s =>
    match requester s.queries peer target with
    | .error err => findNodeBatch R requester target batch (s.ask peer (.error err))
    | .ok response =>
      findNodeBatch R requester target batch ((s.ask peer (.ok response)).merge R response)

/-- The rounds from `round` on, at most `n` of them: the round at which they end, the state there,
and whether the context ended them. -/
def findNodeRounds (R : Runtime) (ctx : ℕ → Bool) (requester : FindNodeRequester) (target : NodeID)
    (opts : FindNodeOptions) : ℕ → ℕ → Lookup (List Peer) → Option (ℕ × Lookup (List Peer) × Bool)
  | 0, round, s => some (round, s, false)
  | n + 1, round, s =>
    if ctx s.calls.length then some (round, s, true)
    else
      match nextUnqueried s.shortlist s.queried opts.alpha with
      | none => none
      | some batch =>
        if batch.length = 0 then some (round, s, false)
        else
          findNodeRounds R ctx requester target opts n (round + 1)
            ((findNodeBatch R requester target batch s).settle R target
              (candidateLimit opts.k opts.alpha))

/-- What a node lookup returns, with its calls and the rounds it took. -/
structure FindNodeOutcome where
  result : Except LookupError (List Peer)
  calls : List (Peer × Except LookupError (List Peer))
  rounds : ℕ

def FindNodeOutcome.queries (out : FindNodeOutcome) : List Peer := out.calls.map Prod.fst

def iterativeFindNode (R : Runtime) (ctx : ℕ → Bool) (rt : Option RoutingTable)
    (requester : Option FindNodeRequester) (target : NodeID) (opts : FindNodeOptions) :
    Option FindNodeOutcome :=
  match rt, requester with
  | none, _ => some ⟨.error .nilTable, [], 0⟩
  | some _, none => some ⟨.error .nilFindNode, [], 0⟩
  | some rt, some requester =>
    let opts := normalizeFindNodeOptions opts
    let shortlist := rt.getClosestPeers R target opts.k
    if shortlist.length = 0 then some ⟨.error .noClosePeers, [], 0⟩
    else
      match findNodeRounds R ctx requester target opts opts.maxRounds.toNat 0
          (.start (sortPeersByDistance R target shortlist)) with
      | none => none
      | some (round, s, true) => some ⟨.error .canceled, s.calls, round⟩
      | some (round, s, false) => some ⟨.ok (trimPeers s.shortlist opts.k), s.calls, round⟩

/-! ## `IterativeFindValue` -/

/-- What a find-value requester returns when it does not fail; `none` is a nil value. -/
structure ValueAnswer where
  value : Option (List UInt8)
  peers : List Peer
  found : Bool
  deriving DecidableEq

abbrev FindValueRequester := List Peer → Peer → String → Except LookupError ValueAnswer

/-- The batch up to the first peer that reports the value, and that value. -/
def findValueBatch (R : Runtime) (requester : FindValueRequester) (key : String) :
    List Peer → Lookup ValueAnswer → Lookup ValueAnswer × Option (Option (List UInt8))
  | [], s => (s, none)
  | peer :: batch, s =>
    match requester s.queries peer key with
    | .error err => findValueBatch R requester key batch (s.ask peer (.error err))
    | .ok answer =>
      if answer.found then (s.ask peer (.ok answer), some answer.value)
      else findValueBatch R requester key batch ((s.ask peer (.ok answer)).merge R answer.peers)

/-- How the rounds of a value lookup end. -/
inductive ValueEnd where
  | found (value : Option (List UInt8))
  | exhausted
  | canceled
  deriving DecidableEq

def findValueRounds (R : Runtime) (ctx : ℕ → Bool) (requester : FindValueRequester) (key : String)
    (target : NodeID) (opts : FindNodeOptions) :
    ℕ → Lookup ValueAnswer → Option (Lookup ValueAnswer × ValueEnd)
  | 0, s => some (s, .exhausted)
  | n + 1, s =>
    if ctx s.calls.length then some (s, .canceled)
    else
      match nextUnqueried s.shortlist s.queried opts.alpha with
      | none => none
      | some batch =>
        if batch.length = 0 then some (s, .exhausted)
        else
          match findValueBatch R requester key batch s with
          | (s, some value) => some (s, .found value)
          | (s, none) =>
            findValueRounds R ctx requester key target opts n
              (s.settle R target (candidateLimit opts.k opts.alpha))

/-- The three results of a value lookup, with its calls. -/
structure FindValueOutcome where
  value : Option (List UInt8)
  peers : List Peer
  err : Option LookupError
  calls : List (Peer × Except LookupError ValueAnswer)

def FindValueOutcome.queries (out : FindValueOutcome) : List Peer := out.calls.map Prod.fst

def iterativeFindValue (R : Runtime) (keyToID : String → NodeID) (ctx : ℕ → Bool)
    (rt : Option RoutingTable) (requester : Option FindValueRequester) (key : String)
    (opts : FindNodeOptions) : Option FindValueOutcome :=
  match rt, requester with
  | none, _ => some ⟨none, [], some .nilTable, []⟩
  | some _, none => some ⟨none, [], some .nilFindValue, []⟩
  | some rt, some requester =>
    let opts := normalizeFindNodeOptions opts
    let target := keyToID key
    let shortlist := rt.getClosestPeers R target opts.k
    if shortlist.length = 0 then some ⟨none, [], some .noClosePeers, []⟩
    else
      match findValueRounds R ctx requester key target opts opts.maxRounds.toNat
          (.start (sortPeersByDistance R target shortlist)) with
      | none => none
      | some (s, .found value) => some ⟨value, [], none, s.calls⟩
      | some (s, .canceled) => some ⟨none, [], some .canceled, s.calls⟩
      | some (s, .exhausted) =>
        some ⟨none, trimPeers s.shortlist opts.k, some .valueNotFound, s.calls⟩

/-! ## What the helpers do -/

section

variable {R R' : Runtime} {target : NodeID} {l m incoming : List Peer} {k alpha : ℤ}

theorem normalize_pos (opts : FindNodeOptions) :
    0 < (normalizeFindNodeOptions opts).k ∧ 0 < (normalizeFindNodeOptions opts).alpha
      ∧ 0 < (normalizeFindNodeOptions opts).maxRounds := by
  simp only [normalizeFindNodeOptions]
  refine ⟨by split_ifs <;> omega, by split_ifs <;> omega, ?_⟩
  split_ifs
  · decide
  · omega

theorem normalize_alpha_le (opts : FindNodeOptions) :
    (normalizeFindNodeOptions opts).alpha ≤ maxPeers ↔ opts.alpha ≤ maxPeers := by
  simp only [normalizeFindNodeOptions, maxPeers]
  split_ifs <;> omega

theorem le_candidateLimit (k alpha : ℤ) : k ≤ candidateLimit k alpha := by
  unfold candidateLimit
  dsimp only
  split_ifs <;> omega

theorem trimPeers_eq (h : 0 < k) : trimPeers l k = l.take k.toNat := by
  unfold trimPeers
  split_ifs with hk
  · rw [List.take_of_length_le (by omega)]
  · rfl

theorem nextUnqueriedFrom_eq {queried : NodeID → Bool} :
    ∀ {batch : List Peer} (l : List Peer), (batch.length : ℤ) < alpha →
      nextUnqueriedFrom queried alpha batch l
        = batch ++ (l.filter fun p => !queried p.id).take (alpha.toNat - batch.length)
  | batch, [], _ => by simp [nextUnqueriedFrom]
  | batch, p :: l, h => by
    rw [nextUnqueriedFrom]
    by_cases hq : queried p.id
    · rw [if_pos hq, nextUnqueriedFrom_eq l h, List.filter_cons_of_neg (by simp [hq])]
    · rw [if_neg hq, List.filter_cons_of_pos (by simp [hq])]
      have hsucc : alpha.toNat - batch.length
          = (alpha.toNat - (batch ++ [p]).length) + 1 := by
        rw [List.length_append, List.length_singleton]
        omega
      rw [hsucc, List.take_succ_cons]
      split_ifs with hfull
      · rw [Nat.sub_eq_zero_of_le (by omega), List.take_zero]
      · rw [nextUnqueriedFrom_eq l (by omega), List.append_assoc, List.singleton_append]

/-- The peers that a round asks, if it does not panic. -/
def Lookup.nextBatch {α : Type} (s : Lookup α) (alpha : ℤ) : List Peer :=
  (s.shortlist.filter fun p => !s.queried p.id).take alpha.toNat

theorem nextUnqueried_eq {α : Type} (s : Lookup α) (h : 0 < alpha) (hmax : alpha ≤ maxPeers) :
    nextUnqueried s.shortlist s.queried alpha = some (s.nextBatch alpha) := by
  rw [nextUnqueried, if_neg (by omega), nextUnqueriedFrom_eq _ (by simpa using h), List.nil_append,
    List.length_nil, Nat.sub_zero, Lookup.nextBatch]

theorem nextUnqueried_panics (queried : NodeID → Bool) (h : maxPeers < alpha) :
    nextUnqueried l queried alpha = none :=
  if_pos (.inr h)

theorem nodup_put (h : (l.map Peer.id).Nodup) (p : Peer) : ((put l p).map Peer.id).Nodup := by
  rw [put, List.map_append, List.map_singleton, List.nodup_append]
  refine ⟨h.sublist (List.filter_sublist.map Peer.id), List.nodup_singleton _, ?_⟩
  intro id hid _ hmem heq
  obtain ⟨q, hq, rfl⟩ := List.mem_map.1 hid
  rw [List.mem_singleton.1 hmem] at heq
  exact absurd heq (by simpa using (List.mem_filter.1 hq).2)

theorem ids_put (l : List Peer) (p : Peer) :
    ((put l p).map Peer.id).toFinset = insert p.id (l.map Peer.id).toFinset := by
  ext id
  simp only [put, List.map_append, List.map_singleton, List.mem_toFinset, List.mem_append,
    List.mem_singleton, List.mem_map, List.mem_filter, Finset.mem_insert, decide_eq_true_eq]
  constructor
  · rintro (⟨q, ⟨hq, -⟩, rfl⟩ | rfl)
    · exact .inr ⟨q, hq, rfl⟩
    · exact .inl rfl
  · rintro (rfl | ⟨q, hq, rfl⟩)
    · exact .inr rfl
    · by_cases hid : q.id = p.id
      · exact .inr hid
      · exact .inl ⟨q, ⟨hq, hid⟩, rfl⟩

theorem put_perm (h : l.Perm m) (p : Peer) : (put l p).Perm (put m p) :=
  (h.filter _).append_right _

theorem put_fresh {p : Peer} (h : p.id ∉ l.map Peer.id) : put l p = l ++ [p] := by
  rw [put, List.filter_eq_self.2]
  intro q hq
  exact decide_eq_true fun heq => h (List.mem_map.2 ⟨q, hq, heq⟩)

/-- The first loop of `mergePeers` copies the list. -/
theorem foldl_put : ∀ {l m : List Peer}, ((m ++ l).map Peer.id).Nodup → l.foldl put m = m ++ l
  | [], m, _ => by simp
  | p :: l, m, h => by
    have hfresh : p.id ∉ m.map Peer.id := by
      intro hmem
      rw [List.map_append, List.nodup_append] at h
      exact h.2.2 p.id hmem p.id (by simp) rfl
    rw [List.foldl_cons, put_fresh hfresh, foldl_put (by rwa [List.append_assoc]),
      List.append_assoc,
      List.singleton_append]

/-- The IDs of a response that are not zero. -/
def learnedIDs (response : List Peer) : List NodeID :=
  (response.map Peer.id).filter (· ≠ 0)

/-- The second loop of `mergePeers`. -/
theorem mergeSeen_spec (h : (l.map Peer.id).Nodup) :
    ((mergeSeen l incoming).map Peer.id).Nodup
      ∧ ((mergeSeen l incoming).map Peer.id).toFinset
        = (l.map Peer.id).toFinset ∪ (learnedIDs incoming).toFinset := by
  rw [mergeSeen, foldl_put (by simpa using h), List.nil_append]
  induction incoming generalizing l with
  | nil => simpa [learnedIDs] using h
  | cons p incoming ih =>
    rw [List.foldl_cons, learnedIDs, List.map_cons]
    by_cases hp : p.id = 0
    · rw [if_pos hp, List.filter_cons_of_neg (by simp [hp])]
      exact ih h
    · rw [if_neg hp, List.filter_cons_of_pos (by simp [hp])]
      obtain ⟨hnodup, hids⟩ := ih (nodup_put h p)
      refine ⟨hnodup, ?_⟩
      rw [hids, ids_put, List.toFinset_cons, Finset.insert_union, Finset.union_insert]
      rfl

theorem mergeSeen_perm (h : (l.map Peer.id).Nodup) (hperm : l.Perm m) :
    (mergeSeen l incoming).Perm (mergeSeen m incoming) := by
  have hm := (hperm.map Peer.id).nodup_iff.1 h
  rw [mergeSeen, mergeSeen, foldl_put (by simpa using h), foldl_put (by simpa using hm),
    List.nil_append, List.nil_append]
  clear h hm
  induction incoming generalizing l m with
  | nil => exact hperm
  | cons p incoming ih =>
    rw [List.foldl_cons, List.foldl_cons]
    refine ih ?_
    split_ifs
    · exact hperm
    · exact put_perm hperm p

theorem mergePeers_spec (R : Runtime) (n : ℕ) (incoming : List Peer) (h : (l.map Peer.id).Nodup) :
    ((mergePeers R n l incoming).map Peer.id).Nodup
      ∧ ((mergePeers R n l incoming).map Peer.id).toFinset
        = (l.map Peer.id).toFinset ∪ (learnedIDs incoming).toFinset := by
  rw [mergePeers]
  split_ifs with hnil
  · rw [List.eq_nil_of_length_eq_zero hnil]
    exact ⟨h, by simp [learnedIDs]⟩
  · have hperm := (R.range_perm n (mergeSeen l incoming)).map Peer.id
    rw [hperm.nodup_iff, List.toFinset_eq_of_perm _ _ hperm]
    exact mergeSeen_spec h

/-- The order in which a map is ranged over only permutes the shortlist. -/
theorem mergePeers_perm (n n' : ℕ) (h : (l.map Peer.id).Nodup) (hperm : l.Perm m) :
    (mergePeers R n l incoming).Perm (mergePeers R' n' m incoming) := by
  rw [mergePeers, mergePeers]
  split_ifs with hnil
  · exact hperm
  · exact (R.range_perm n _).trans ((mergeSeen_perm h hperm).trans (R'.range_perm n' _).symm)

end

end EdgeSim.Dht
