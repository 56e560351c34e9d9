import EdgeSim.Raft.AppendEntries
import EdgeSim.Raft.Apply
import EdgeSim.Raft.Safety
import EdgeSim.Raft.Trace

/-!
# Where the entries of a log come from

Every entry of every log was made by one call of `Propose`, and a node holds it because it made
that call itself or accepted a request of that very call: nothing else sends entries, and no
request sends one again. So a follower that has missed an entry of a term acknowledges none of the
later ones.
-/

namespace EdgeSim.Raft

open Lists TermLog TermLog.Group

/-- In the run by `as`, `q` has answered a request of the `Propose` call `p` with `Success`. -/
def Accepted (C : Cluster) (as : List Action) (p : ℕ) (q : String) : Prop :=
  ∃ bs c u u' call req n es resp, bs ++ [.handleAppendEntries c] <+: as ∧ C.Run C.init bs u
    ∧ u.step C (.handleAppendEntries c) = some u' ∧ Handled u u' c call req n es resp
    ∧ call.proposal = some p ∧ call.peer = q ∧ resp.success = true

/-- The entry `e` at index `k` of the log of `id` is that of the `Propose` call `p`. -/
def Source (C : Cluster) (as : List Action) (s : System) (id : String) (k : ℕ) (e : LogEntry)
    (p : ℕ) : Prop :=
  ∃ P, s.proposals[p]? = some P ∧ P.entry = e ∧ P.newIndex = k + 1
    ∧ .propose P.node e.command ∈ as ∧ (P.node = id ∨ Accepted C as p id)

structure Provenance (C : Cluster) (as : List Action) (s : System) : Prop where
  unique : ∀ (p q : ℕ) (P R : Proposal), s.proposals[p]? = some P → s.proposals[q]? = some R →
    P.entry.term = R.entry.term → P.newIndex = R.newIndex → p = q
  made : ∀ P ∈ s.proposals, .propose P.node P.entry.command ∈ as
  logs : ∀ id ∈ C.ids, ∀ k e, (s.node id).log[k]? = some e → ∃ p, Source C as s id k e p
  answers : ∀ c call x p, s.appendCalls[c]? = some call → s.Answered c call x →
    call.proposal = some p → x.resp.success = true → Accepted C as p call.peer

section

variable {C : Cluster} {s s' : System} {A B : Group String LogEntry} {as bs : List Action}
  {a : Action} {id q : String} {c k p : ℕ} {e : LogEntry}

theorem Accepted.mono (h : as <+: bs) (ha : Accepted C as p q) : Accepted C bs p q := by
  obtain ⟨cs, c, u, u', call, req, n, es, resp, hpre, hrest⟩ := ha
  exact ⟨cs, c, u, u', call, req, n, es, resp, hpre.trans h, hrest⟩

theorem Source.step (htr : Trace s a s') (h : Source C as s id k e p) :
    Source C (as ++ [a]) s' id k e p := by
  obtain ⟨P, hP, rfl, hk, hmade, hfrom⟩ := h
  obtain ⟨P', hP', hnode, hentry, -, -, -, hnew⟩ := htr.retains p P hP
  refine ⟨P', hP', hentry, by rw [hnew, hk], ?_, ?_⟩
  · rw [hnode]
    exact List.mem_append_left _ hmade
  · rw [hnode]
    exact hfrom.imp_right fun ha => ha.mono (as.prefix_append [a])

/-! ## A request that is handled -/

theorem length_le_of_matchPrevLog {n : Node} {t : ℕ} (h : n.matchPrevLog k t = true) :
    k ≤ n.log.length := by
  unfold Node.matchPrevLog at h
  split_ifs at h with h0
  · omega
  · split at h
    · cases h
    · rename_i x hx
      have := (List.getElem?_eq_some_iff.1 hx).1
      omega

/-- A request adds no more than the entry it carries. -/
theorem getElem?_handleAppendEntries {n n' : Node} {req : AppendEntriesRequest}
    {es : List (ℕ × LogEntry)} {resp : AppendEntriesResponse}
    (h : n.handleAppendEntries req = some (n', es, resp))
    (hent : req.entries = [] ∨ ∃ e, req.entries = [e]) (hk : n'.log[k]? = some e) :
    n.log[k]? = some e
      ∨ resp.success = true ∧ k = req.prevLogIndex ∧ req.entries = [e] := by
  rcases Node.handleAppendEntries_cases h with
    ⟨-, rfl, -, -⟩ | ⟨-, -, -, rfl, -, -⟩ | ⟨-, hm, -, rfl, rfl⟩
  · exact .inl hk
  · rw [Node.adopt_log] at hk
    exact .inl hk
  change (Node.appendFrom n.log req.prevLogIndex req.entries)[k]? = some e at hk
  rcases hent with hnil | ⟨x, hx⟩
  · rw [hnil] at hk
    exact .inl hk
  have hlen := length_le_of_matchPrevLog (hm.resolve_left (by rw [hx]; simp))
  simp only [hx, Node.appendFrom, Node.appendEntry] at hk
  split at hk
  · split_ifs at hk
    · rcases getElem?_concat_cases hk with ⟨hk, hlt⟩ | ⟨hk', rfl⟩
      · rw [List.getElem?_take_of_lt (by rw [List.length_take] at hlt; omega)] at hk
        exact .inl hk
      · rw [List.length_take, min_eq_left hlen] at hk'
        exact .inr ⟨rfl, hk', hx⟩
    · exact .inl hk
  · rename_i hnone
    have hge := List.getElem?_eq_none_iff.1 hnone
    rcases getElem?_concat_cases hk with ⟨hk, -⟩ | ⟨hk', rfl⟩
    · exact .inl hk
    · exact .inr ⟨rfl, by omega, hx⟩

/-- What a step leaves in a batch was there, or the step has handled the request it answers. -/
theorem batch_step (hl : Local s a s' id) {b : Batch} {x : Answer}
    (hb : b ∈ (s'.replicas id).batches) (hx : b.answer = some x) :
    (∃ b ∈ (s.replicas id).batches, b.answer = some x)
      ∨ ∃ call req n es, a = .handleAppendEntries x.call ∧ s.appendCalls[x.call]? = some call
        ∧ call.peer = id ∧ call.request = some req
        ∧ (s.node id).handleAppendEntries req = some (n, es, x.resp) := by
  cases hl with
  | stay h =>
    rw [h] at hb
    exact .inl ⟨b, hb, hx⟩
  | @quiet y hy h =>
    left
    cases y with
    | handleAppendEntries c req => exact hy.elim
    | commitProposal i => exact hy.elim
    | becomeLeader =>
      obtain ⟨n, -, hr⟩ := Option.map_eq_some_iff.1 h
      rw [← hr] at hb
      exact ⟨b, hb, hx⟩
    | appendCommand command =>
      simp only [Replica.step] at h
      split_ifs at h
      simp only [Option.some.injEq] at h
      rw [← h] at hb
      exact ⟨b, hb, hx⟩
    | apply i =>
      obtain ⟨e, todo, answer, hi, hr⟩ := Replica.apply_eq h
      rw [hr] at hb
      rcases List.mem_or_eq_of_mem_set hb with hb | rfl
      · exact ⟨b, hb, hx⟩
      · exact ⟨_, List.mem_of_getElem? hi, hx⟩
    | finish i =>
      obtain ⟨⟨r, answer⟩, hr, hr'⟩ := Option.map_eq_some_iff.1 h
      rw [← hr', (Replica.finish_eq hr).2] at hb
      exact ⟨b, List.mem_of_mem_eraseIdx hb, hx⟩
    | handleRequestVote req | observeTerm t | startCandidacy =>
      simp only [Replica.step, Option.some.injEq] at h
      rw [← h] at hb
      exact ⟨b, hb, hx⟩
  | @handle c call req ha hc hpeer hreq h =>
    obtain ⟨n, es, resp, hn, hr⟩ := Replica.handleAppendEntries_eq h
    rw [hr] at hb
    rcases List.mem_append.1 hb with hb | hb
    · exact .inl ⟨b, hb, hx⟩
    · rw [List.mem_singleton.1 hb, Option.some.injEq] at hx
      subst hx
      exact .inr ⟨call, req, n, es, ha, hc, hpeer, hreq, hn⟩
  | commit hP hnode hend h =>
    obtain ⟨n, es, -, hr⟩ := Replica.commitProposal_eq h
    rw [hr] at hb
    rcases List.mem_append.1 hb with hb | hb
    · exact .inl ⟨b, hb, hx⟩
    · rw [List.mem_singleton.1 hb] at hx
      cases hx

/-! ## The invariant -/

theorem provenance_init (C : Cluster) : Provenance C [] C.init where
  unique p q P R hP := by simp [Cluster.init] at hP
  made P hP := by simp [Cluster.init] at hP
  logs id hid k e he := by
    change (C.node id).log[k]? = some e at he
    rw [C.node_eq hid] at he
    cases he
  answers c call x p hc := by simp [Cluster.init] at hc

/-- The proposals of a step, read back. -/
theorem proposals_back (htr : Trace s a s') {P' : Proposal} (hP' : s'.proposals[p]? = some P') :
    (∃ P, s.proposals[p]? = some P ∧ P.Same P')
      ∨ p = s.proposals.length ∧ ∃ id command, a = .propose id command
        ∧ Proposed s s' id command P' := by
  rcases Nat.lt_or_ge p s.proposals.length with hlt | hge
  · obtain ⟨P'', hP'', hsame⟩ := htr.retains p _ (List.getElem?_eq_getElem hlt)
    rw [hP', Option.some.injEq] at hP''
    subst hP''
    exact .inl ⟨_, List.getElem?_eq_getElem hlt, hsame⟩
  · have hlen := (List.getElem?_eq_some_iff.1 hP').1
    rcases htr.logs with ⟨-, hsame⟩ | ⟨id, command, P, ha, hprop⟩
      | ⟨c, call, req, n, es, resp, -, hh⟩
    · omega
    · have hps := hprop.proposals_eq
      have hp : p = s.proposals.length := by
        rw [hps, List.length_append, List.length_singleton] at hlen
        omega
      rw [hps, hp, List.getElem?_concat_length, Option.some.injEq] at hP'
      subst hP'
      exact .inr ⟨hp, id, command, ha, hprop⟩
    · rw [hh.proposals_eq] at hlen
      omega

/-- A new entry stands above all those of its term. -/
theorem Proposed.newIndex_gt (hR : Reached C s A) {command : String} {P R : Proposal}
    (h : Proposed s s' id command P) (hid : id ∈ C.ids) (hm : R ∈ s.proposals)
    (hterm : R.entry.term = P.entry.term) : R.newIndex < P.newIndex := by
  have htracks := hR.sim.follows.tracks id hid
  have hok := hR.sim.proposals R hm
  obtain ⟨l, hl, -⟩ := hok.entry
  obtain ⟨l', hl'⟩ := htracks.leader.1 h.leader
  rw [hterm, h.entry_eq] at hl
  obtain rfl := hR.inv.leader_unique hl hl'
  have hle := hok.newIndex_le
  rw [← htracks.term_eq] at hl'
  rw [hterm, h.entry_eq, ← htracks.term_eq, ← hR.inv.led_log hl', htracks.log_eq] at hle
  rw [h.newIndex_eq]
  omega

theorem propose_mem {command : String} (h : s.step C (.propose id command) = some s') :
    id ∈ C.ids := by
  cases step_cases h with
  | refuse hid => exact hid
  | propose hid => exact hid

theorem Provenance.unique_step (h : Provenance C as s) (hR : Reached C s A) (htr : Trace s a s')
    (hstep : s.step C a = some s') {p q : ℕ} {P R : Proposal} (hP : s'.proposals[p]? = some P)
    (hQ : s'.proposals[q]? = some R) (hterm : P.entry.term = R.entry.term)
    (hnew : P.newIndex = R.newIndex) : p = q := by
  rcases proposals_back htr hP with ⟨P₀, hP₀, -, hPe, -, -, -, hPn⟩ | ⟨hp, id, command, rfl, hprop⟩
  · rcases proposals_back htr hQ with
      ⟨Q₀, hQ₀, -, hQe, -, -, -, hQn⟩ | ⟨-, id, command, rfl, hprop⟩
    · exact h.unique p q P₀ Q₀ hP₀ hQ₀ (by rw [← hPe, ← hQe, hterm]) (by rw [← hPn, ← hQn, hnew])
    · have := hprop.newIndex_gt hR (propose_mem hstep) (List.mem_of_getElem? hP₀)
        (by rw [← hPe, hterm])
      omega
  · rcases proposals_back htr hQ with ⟨Q₀, hQ₀, -, hQe, -, -, -, hQn⟩ | ⟨hq, -⟩
    · have := hprop.newIndex_gt hR (propose_mem hstep) (List.mem_of_getElem? hQ₀)
        (by rw [← hQe, hterm])
      omega
    · rw [hp, hq]

theorem Provenance.made_step (h : Provenance C as s) (htr : Trace s a s') {P : Proposal}
    (hP : P ∈ s'.proposals) : .propose P.node P.entry.command ∈ as ++ [a] := by
  obtain ⟨p, hp⟩ := List.mem_iff_getElem?.1 hP
  rcases proposals_back htr hp with ⟨P₀, hP₀, hnode, hentry, -⟩ | ⟨-, id, command, rfl, hprop⟩
  · rw [hnode, hentry]
    exact List.mem_append_left _ (h.made P₀ (List.mem_of_getElem? hP₀))
  · rw [hprop.node_eq, hprop.entry_eq]
    exact List.mem_append_right _ (List.mem_singleton_self _)

/-- An entry that a follower has just taken is that of the call whose request it handled. -/
theorem Handled.source (h : Provenance C as s) (hR : Reached C s A) (hs : C.Run C.init as s)
    (hstep : s.step C (.handleAppendEntries c) = some s')
    {call : AppendCall} {req : AppendEntriesRequest} {n : Node} {es : List (ℕ × LogEntry)}
    {resp : AppendEntriesResponse} (hh : Handled s s' c call req n es resp)
    (hsucc : resp.success = true) (hk : k = req.prevLogIndex) (hent : req.entries = [e]) :
    ∃ p, Source C (as ++ [.handleAppendEntries c]) s' call.peer k e p := by
  have hok := hR.sim.calls call (List.mem_of_getElem? hh.call_eq)
  obtain ⟨-, -, hentries, hprev, -⟩ := hok.request req hh.request_eq
  rcases hp : call.proposal with _ | p
  · rw [hok.heartbeat hp, hent] at hentries
    cases hentries
  · obtain ⟨P, hP, -, -, hPe, hPi, -⟩ := hok.proposal p hp
    rw [hPe, hent, List.singleton_inj] at hentries
    rw [hPi, Option.some.injEq] at hprev
    have hPm := List.mem_of_getElem? hP
    refine ⟨p, P, hh.proposals_eq ▸ hP, hentries.symm, ?_, ?_, .inr ?_⟩
    · rw [(hR.sim.proposals P hPm).newIndex_eq, hprev, hk]
    · rw [hentries]
      exact List.mem_append_left _ (h.made P hPm)
    · exact ⟨as, c, s, s', call, req, n, es, resp, List.prefix_rfl, hs, hstep, hh, hp, rfl, hsucc⟩

theorem Provenance.logs_step (h : Provenance C as s) (hR : Reached C s A)
    (hs : C.Run C.init as s) (hstep : s.step C a = some s') (htr : Trace s a s') (hid : id ∈ C.ids)
    (he : (s'.node id).log[k]? = some e) : ∃ p, Source C (as ++ [a]) s' id k e p := by
  have hold : (s.node id).log[k]? = some e → ∃ p, Source C (as ++ [a]) s' id k e p := by
    intro hlog
    obtain ⟨p, hsrc⟩ := h.logs id hid k e hlog
    exact ⟨p, hsrc.step htr⟩
  rcases htr.logs with
    ⟨hsame, -⟩ | ⟨v, command, P, rfl, hprop⟩ | ⟨c, call, req, n, es, resp, rfl, hh⟩
  · rw [hsame] at he
    exact hold he
  · by_cases hv : id = v
    · subst hv
      rw [hprop.log_eq] at he
      rcases getElem?_concat_cases he with ⟨he, -⟩ | ⟨hk, rfl⟩
      · exact hold he
      · refine ⟨s.proposals.length, P, ?_, rfl, ?_, ?_, .inl hprop.node_eq⟩
        · rw [hprop.proposals_eq, List.getElem?_concat_length]
        · rw [hprop.newIndex_eq, hk]
        · rw [hprop.node_eq, hprop.entry_eq]
          exact List.mem_append_right _ (List.mem_singleton_self _)
    · rw [hprop.others id hv] at he
      exact hold he
  · by_cases hpeer : id = call.peer
    · subst hpeer
      rw [hh.node_eq, Function.update_self] at he
      have hent : req.entries = [] ∨ ∃ e, req.entries = [e] := by
        obtain ⟨l, -, hnil | ⟨e, he, -⟩⟩ :=
          hR.sim.genuine (List.mem_of_getElem? hh.call_eq) hh.request_eq
        · exact .inl hnil
        · exact .inr ⟨e, he⟩
      rcases getElem?_handleAppendEntries hh.result_eq hent he with hlog | ⟨hsucc, hk, hent⟩
      · exact hold hlog
      · exact hh.source h hR hs hstep hsucc hk hent
    · rw [hh.node_eq, Function.update_of_ne hpeer] at he
      exact hold he

theorem Provenance.answers_step (h : Provenance C as s) (hR : Reached C s A)
    (hs : C.Run C.init as s) (hstep : s.step C a = some s') (hR' : Reached C s' B)
    {call' : AppendCall} {x : Answer}
    (hc : s'.appendCalls[c]? = some call') (hx : s'.Answered c call' x)
    (hp : call'.proposal = some p) (hsucc : x.resp.success = true) :
    Accepted C (as ++ [a]) p call'.peer := by
  have htr := step_trace hR hstep hR'.sim.alive
  have hl := (step_effect hstep hR'.sim.alive).nodes
  have hold : ∀ call, s.appendCalls[c]? = some call → Became s c call call' →
      s.Answered c call x → Accepted C (as ++ [a]) p call'.peer := by
    intro call hcall hb hx
    rw [hb.peer]
    exact (h.answers c call x p hcall hx (hb.proposal ▸ hp) hsucc).mono (as.prefix_append [a])
  have hfrom := htr.calls c call' hc
  rcases or_assoc.2 hx with hx | ⟨rfl, b, hb, hbx⟩
  · rcases hfrom with ⟨hreplies, hreceived, -⟩ | ⟨call, hcall, hbec⟩
    · rw [hreplies, hreceived] at hx
      simp at hx
    · exact hold call hcall hbec (hbec.answers x hx)
  have hmem := (C.mem_of_peer (hR'.sim.calls call' (List.mem_of_getElem? hc)).caller_mem
    (hR'.sim.calls call' (List.mem_of_getElem? hc)).peer_mem).1
  rcases batch_step (hl call'.peer) hb hbx with hb | ⟨call, req, n, es, rfl, hcall, hpeer, hreq, hn⟩
  · obtain ⟨b, hb, hbx⟩ := hb
    obtain ⟨call, -, hcall, -⟩ := hR.sim.answers _ hmem b hb x hbx
    rcases hfrom with ⟨-, -, hlen⟩ | ⟨call₀, hcall₀, hbec⟩
    · have := (List.getElem?_eq_some_iff.1 hcall).1
      omega
    · exact hold call₀ hcall₀ hbec (.inr (.inr ⟨rfl, b, hbec.peer ▸ hb, hbx⟩))
  · rcases hfrom with ⟨-, -, hlen⟩ | ⟨call₀, hcall₀, hbec⟩
    · have := (List.getElem?_eq_some_iff.1 hcall).1
      omega
    · rw [hcall, Option.some.injEq] at hcall₀
      subst hcall₀
      obtain ⟨call₁, req₁, n₁, es₁, resp, hh⟩ := step_handled hstep hR'.sim.alive
      obtain rfl : call = call₁ := Option.some.inj (hcall.symm.trans hh.call_eq)
      obtain rfl : req = req₁ := Option.some.inj (hreq.symm.trans hh.request_eq)
      have hresp := hh.result_eq
      rw [hpeer, hn, Option.some.injEq, Prod.mk.injEq, Prod.mk.injEq] at hresp
      exact ⟨as, x.call, s, s', call, req, n₁, es₁, resp, List.prefix_rfl, hs, hstep, hh,
        hbec.proposal ▸ hp, hpeer, hresp.2.2 ▸ hsucc⟩

theorem run_provenance (hs : C.Run C.init as s) : Provenance C as s := by
  induction hs with
  | nil => exact provenance_init C
  | snoc hs _ hstep ih =>
    obtain ⟨A, hR⟩ := reached hs
    obtain ⟨B, -, hR'⟩ := hR.step hstep
    have htr := step_trace hR hstep hR'.sim.alive
    exact
      { unique := fun p q P R hP hQ => ih.unique_step hR htr hstep hP hQ
        made := fun P hP => ih.made_step htr hP
        logs := fun id hid k e he => ih.logs_step hR hs hstep htr hid he
        answers := fun c call x p hc hx hp hsucc =>
          ih.answers_step hR hs hstep hR' hc hx hp hsucc }

theorem Provenance.source_unique (h : Provenance C as s) {p q : ℕ} (hp : Source C as s id k e p)
    (hq : Source C as s id k e q) : p = q := by
  obtain ⟨P, hP, hPe, hPk, -⟩ := hp
  obtain ⟨R, hQ, hQe, hQk, -⟩ := hq
  exact h.unique p q P R hP hQ (by rw [hPe, hQe]) (by rw [hPk, hQk])

/-! ## Entries of a log -/

/-- Every entry of every log comes from exactly one call of `Propose`, which its node made itself or
accepted a request of. -/
theorem entry_provenance (hs : C.Run C.init as s) (hid : id ∈ C.ids)
    (he : (s.node id).log[k]? = some e) : ∃! p, Source C as s id k e p := by
  have h := run_provenance hs
  obtain ⟨p, hp⟩ := h.logs id hid k e he
  exact ⟨p, hp, fun q hq => h.source_unique hq hp⟩

theorem entry_provenance_trio : ∃ s, trio.Run trio.init
      (electBy "a" 0 ++ [.propose "a" "x"] ++ exchange "b" 2) s
    ∧ ∃! p, Source trio (electBy "a" 0 ++ [.propose "a" "x"] ++ exchange "b" 2) s "b" 0
      ⟨1, "x"⟩ p := by
  obtain ⟨s, hs, hp⟩ : ∃ s, trio.Run trio.init _ s ∧ _ :=
    Runs.exists_run (electBy "a" 0 ++ [.propose "a" "x"] ++ exchange "b" 2)
      (fun s => (s.node "b").log[0]? = some ⟨1, "x"⟩) (by decide +kernel)
  simp only [decide_eq_true_eq] at hp
  exact ⟨s, hs, entry_provenance hs (by decide) hp⟩

/-! ## Entries that are applied -/

/-- Whatever overtakes what, an entry that is collected is pending until it is applied. -/
theorem run_applied_perm {ok : Replica → ReplicaAction → Prop} {n : Node} {r : Replica}
    {xs : List ReplicaAction} (h : Runs.Run Replica.step ok (.start n) xs r) :
    (r.applied ++ r.pending).Perm r.collected := by
  refine h.invariant (I := fun r => (r.applied ++ r.pending).Perm r.collected) (.refl _) ?_
  rintro r x r' hI - hs
  rcases Replica.step_cases hs with ⟨es, -, hpend, hcoll, happ⟩ | ⟨b, rfl, hb⟩
  · rw [happ, hpend, hcoll, ← List.append_assoc]
    exact hI.append_right es
  · obtain ⟨pre, y, post, -, hpend, hpend', happ, hcoll, -⟩ := Replica.pending_apply hb
    rw [hpend] at hI
    have hmove : (y :: (pre ++ post)).Perm (pre ++ y :: post) := List.perm_middle.symm
    rw [happ, hpend', hcoll, List.append_assoc, List.singleton_append]
    exact (hmove.append_left r.applied).trans hI

theorem run_applied_nodup (hs : C.Run C.init as s) (hid : id ∈ C.ids) :
    ((s.replicas id).applied.map Prod.fst).Nodup := by
  obtain ⟨xs, hrun⟩ := run_replica hs id
  have hnodup : ((s.replicas id).collected.map Prod.fst).Nodup := by
    rw [(run_sound (C.created id hid) hrun).indices]
    exact List.nodup_range
  have hperm := ((run_applied_perm hrun).map Prod.fst).nodup_iff.2 hnodup
  rw [List.map_append] at hperm
  exact hperm.of_append_left

/-- What a step collects at a node stands in its log. -/
theorem collected_step (hl : Local s a s' id) {x : ℕ × LogEntry}
    (hx : x ∈ (s'.replicas id).collected) :
    x ∈ (s.replicas id).collected ∨ (s'.node id).log[x.1]? = some x.2 := by
  cases hl with
  | stay h => exact .inl (h ▸ hx)
  | quiet hy h => exact .inl ((Replica.quiet_step hy h).2.2 ▸ hx)
  | handle ha hc hpeer hreq h =>
    obtain ⟨n, es, resp, hn, hr⟩ := Replica.handleAppendEntries_eq h
    rw [System.node, hr]
    rw [hr] at hx
    refine (List.mem_append.1 hx).imp_right fun hes => ?_
    rcases Node.handleAppendEntries_cases hn with
      ⟨-, -, rfl, -⟩ | ⟨-, -, -, -, rfl, -⟩ | ⟨-, -, ⟨m, hm⟩, rfl, -⟩
    · cases hes
    · cases hes
    · exact (Node.collectCommittedLocked_spec hm).2.2 x hes
  | commit hP hnode hend h =>
    obtain ⟨n, es, hn, hr⟩ := Replica.commitProposal_eq h
    rw [System.node, hr]
    rw [hr] at hx
    refine (List.mem_append.1 hx).imp_right fun hes => ?_
    rcases Node.commitProposal_cases hn with ⟨-, -, rfl⟩ | ⟨-, hcoll, rfl⟩
    · cases hes
    · exact (Node.collectCommittedLocked_spec hcoll).2.2 x hes

theorem run_collected (hs : C.Run C.init as s) (hid : id ∈ C.ids) :
    ∀ x ∈ (s.replicas id).collected, ∃ p, Source C as s id x.1 x.2 p := by
  induction hs with
  | nil => simp [Cluster.init, Replica.start]
  | snoc hs hok hstep ih =>
    intro x hx
    obtain ⟨A, hR⟩ := reached hs
    obtain ⟨B, -, hR'⟩ := hR.step hstep
    rcases collected_step ((step_effect hstep hR'.sim.alive).nodes id) hx with hx | hx
    · obtain ⟨p, hp⟩ := ih x hx
      exact ⟨p, hp.step (step_trace hR hstep hR'.sim.alive)⟩
    · exact (run_provenance (hs.snoc hok hstep)).logs id hid _ _ hx

theorem run_applied_source (hs : C.Run C.init as s) (hid : id ∈ C.ids) :
    ∀ x ∈ (s.replicas id).applied, ∃ p, Source C as s id x.1 x.2 p := by
  intro x hx
  obtain ⟨xs, hrun⟩ := run_replica hs id
  exact run_collected hs hid x ((run_sound (C.created id hid) hrun).applied x hx)

/-- `ApplyFunc` is called at most once for an index, with the entry of exactly one call of
`Propose`, so at most once for each call; this holds in any order of the calls. -/
theorem applied_once (hs : C.Run C.init as s) (hid : id ∈ C.ids) :
    ((s.replicas id).applied.map Prod.fst).Nodup
      ∧ ∀ x ∈ (s.replicas id).applied, ∃! p, Source C as s id x.1 x.2 p := by
  refine ⟨run_applied_nodup hs hid, fun x hx => ?_⟩
  obtain ⟨p, hp⟩ := run_applied_source hs hid x hx
  exact ⟨p, hp, fun q hq => (run_provenance hs).source_unique hq hp⟩

theorem applied_once_trio : ∃ s, trio.Run trio.init
      (electBy "a" 0 ++ [.propose "a" "x"] ++ exchange "b" 2 ++ [.apply "a" 0]) s
    ∧ (s.replicas "a").applied = [(0, ⟨1, "x"⟩)]
    ∧ ∀ x ∈ (s.replicas "a").applied, ∃! p, Source trio
      (electBy "a" 0 ++ [.propose "a" "x"] ++ exchange "b" 2 ++ [.apply "a" 0])
      s "a" x.1 x.2 p := by
  obtain ⟨s, hs, hp⟩ : ∃ s, trio.Run trio.init _ s ∧ _ :=
    Runs.exists_run (electBy "a" 0 ++ [.propose "a" "x"] ++ exchange "b" 2 ++ [.apply "a" 0])
      (fun s => (s.replicas "a").applied = [(0, ⟨1, "x"⟩)]) (by decide +kernel)
  simp only [decide_eq_true_eq] at hp
  exact ⟨s, hs, hp, (applied_once hs (by decide)).2⟩

/-! ## Entries that are acknowledged -/

theorem run_retains (hR : Reached C s A) {t : System} (h : C.Run s bs t) :
    Retains s.proposals t.proposals := by
  refine h.related (I := fun s => ∃ A, Reached C s A)
    (R := fun s t => Retains s.proposals t.proposals) (fun s => retains_refl s.proposals) ?_
    ⟨A, hR⟩ ?_
  · intro s t u hst htu q P hP
    obtain ⟨P', hP', h1, h2, h3, h4, h5, h6⟩ := hst q P hP
    obtain ⟨P'', hP'', g1, g2, g3, g4, g5, g6⟩ := htu q P' hP'
    exact ⟨P'', hP'', g1.trans h1, g2.trans h2, g3.trans h3, g4.trans h4, g5.trans h5,
      g6.trans h6⟩
  · rintro s a u ⟨A, hR⟩ - hstep
    obtain ⟨B, -, hR'⟩ := hR.step hstep
    exact ⟨⟨B, hR'⟩, (step_trace hR hstep hR'.sim.alive).retains⟩

/-- A follower that has accepted the entry of a call has all that the leader's log has up to it. -/
theorem Handled.take_log (hR : Reached C s A) (hR' : Reached C s' B) (hx : Ext A B)
    {call : AppendCall} {req : AppendEntriesRequest} {n : Node} {es : List (ℕ × LogEntry)}
    {resp : AppendEntriesResponse} (hh : Handled s s' c call req n es resp) {P : Proposal}
    (hp : call.proposal = some p) (hP : s.proposals[p]? = some P) (hsucc : resp.success = true) :
    (s'.node call.peer).log.take P.newIndex
      = (B.lead P.node P.entry.term).take P.newIndex := by
  have hok := hR.sim.calls call (List.mem_of_getElem? hh.call_eq)
  have hid := (C.mem_of_peer hok.caller_mem hok.peer_mem).1
  have hlog := (hR'.sim.follows.tracks call.peer hid).log_eq
  obtain ⟨-, -, hentries, hprev, -⟩ := hok.request req hh.request_eq
  obtain ⟨P', hP', -, -, hPe, hPi, -⟩ := hok.proposal p hp
  rw [hP, Option.some.injEq] at hP'
  subst hP'
  rw [hPe] at hentries
  rw [hPi, Option.some.injEq] at hprev
  have hPok := (hR.sim.proposals P (List.mem_of_getElem? hP)).mono hx
  obtain ⟨l, hl, -, hget, -⟩ := hPok.entry
  -- the follower has an entry of that term there, and so everything below it
  obtain ⟨x, hget', hterm⟩ : ∃ x, n.log[P.prevIndex]? = some x ∧ x.term = P.entry.term := by
    rcases Node.handleAppendEntries_cases hh.result_eq with
      ⟨-, -, -, rfl⟩ | ⟨-, -, -, -, -, rfl⟩ | ⟨-, hm, -, rfl, -⟩
    · cases hsucc
    · cases hsucc
    · have hlen := length_le_of_matchPrevLog (hm.resolve_left (by rw [hentries]; simp))
      obtain ⟨x, hx, hterm⟩ := Node.getElem?_appendFrom hlen
        (show req.entries[0]? = some P.entry by rw [hentries]; rfl)
      rw [Nat.add_zero, ← hprev] at hx
      exact ⟨x, hprev ▸ hx, hterm⟩
  rw [hPok.newIndex_eq, hh.node_eq, Function.update_self]
  rw [hh.node_eq, Function.update_self] at hlog
  exact log_matching hR'.inv (hlog ▸ hR'.inv.wf_log call.peer) (hR'.inv.wf_lead hl) hget' hget
    hterm

theorem Provenance.accepted (h : Provenance C as s) (hack : Acked s p q) : Accepted C as p q := by
  obtain ⟨call, hc, hp, rfl, x, hx, hsucc⟩ := hack
  obtain ⟨c, hc⟩ := List.mem_iff_getElem?.1 hc
  exact h.answers c call x p hc (.inr (.inl hx)) hp hsucc

/-- A follower that acknowledges an entry has accepted every earlier entry of that term, each by a
request of its own: after missing one it acknowledges no more in the term. -/
theorem acknowledged_after_earlier (hs : C.Run C.init as s) {r : ℕ} {P R : Proposal}
    (hP : s.proposals[p]? = some P) (hQ : s.proposals[r]? = some R)
    (hterm : R.entry.term = P.entry.term) (hle : R.newIndex ≤ P.newIndex) (hack : Acked s p q) :
    Accepted C as r q := by
  obtain ⟨cs, c, u, u', call, req, n, es, resp, ⟨rest, rfl⟩, hu, hstep, hh, hp, rfl, hsucc⟩ :=
    (run_provenance hs).accepted hack
  -- the state in which the follower has just accepted, and what becomes of it
  have hu' : C.Run C.init (cs ++ [.handleAppendEntries c]) u' := hu.snoc trivial hstep
  obtain ⟨w, hw, hrest⟩ := hs.split
  obtain rfl := hw.eq hu'
  obtain ⟨A, hR⟩ := reached hu
  obtain ⟨A', hA', hR'⟩ := hR.step hstep
  obtain ⟨B, hB, hRs⟩ := hR'.run hrest
  have hx := (steps_inv hR'.inv hB).2
  have hok := hR.sim.calls call (List.mem_of_getElem? hh.call_eq)
  obtain ⟨hid, hself⟩ := C.mem_of_peer hok.caller_mem hok.peer_mem
  obtain ⟨P₀, hP₀, hcaller, -⟩ := hok.proposal p hp
  obtain ⟨P', hP', hnode, hentry, -, -, -, hnew⟩ :=
    run_retains hR' hrest p P₀ (hh.proposals_eq ▸ hP₀)
  rw [hP, Option.some.injEq] at hP'
  subst hP'
  have htake := hh.take_log hR hR' (steps_inv hR.inv hA').2 hp hP₀ hsucc
  have hPok := hR'.sim.proposals P₀ (List.mem_of_getElem? (hh.proposals_eq ▸ hP₀))
  have hQok := hRs.sim.proposals R (List.mem_of_getElem? hQ)
  obtain ⟨l, hl, -⟩ := hPok.entry
  obtain ⟨l', hl', -, hget, -⟩ := hQok.entry
  rw [hterm, hentry] at hl' hget
  have hleader : R.node = P₀.node := hRs.inv.leader_unique hl' (hx.led hl)
  have hlt : R.prevIndex < P₀.newIndex := by
    have := hQok.newIndex_eq
    omega
  -- so the entry is in its log, and what put it there is the call's own request
  have hlog : (w.node call.peer).log[R.prevIndex]? = some R.entry := by
    rw [← List.getElem?_take_of_lt hlt, htake, List.getElem?_take_of_lt hlt,
      ← prefix_getElem? (hx.lead hl) (hlt.trans_le hPok.newIndex_le), ← hleader]
    exact hget
  obtain ⟨p', R₀, hR₀, hRe, hRn, -, hfrom⟩ := (run_provenance hu').logs _ hid _ _ hlog
  obtain ⟨R', hR'', hnode', hentry', -, -, -, hnew'⟩ := run_retains hR' hrest p' R₀ hR₀
  obtain rfl : p' = r := (run_provenance hs).unique p' r R' R hR'' hQ (by rw [hentry', hRe])
    (by rw [hnew', hRn, hQok.newIndex_eq])
  rw [hQ, Option.some.injEq] at hR''
  subst hR''
  rcases hfrom with hmade | hacc
  · rw [← hnode', hleader, ← hcaller] at hmade
    exact absurd hmade.symm hself
  · exact hacc.mono (List.prefix_append _ _)

/-- `b` is sent two entries; the second request makes it apply the first. -/
def twoEntries : List Action :=
  electBy "a" 0 ++ [.propose "a" "x"] ++ exchange "b" 2 ++ [.propose "a" "y", .sendAppendEntries 4,
    .handleAppendEntries 4, .apply "b" 0, .finish "b" 0, .receiveAppend 4 (some 0)]

theorem acknowledged_after_earlier_trio : ∃ s, trio.Run trio.init twoEntries s
    ∧ Acked s 1 "b" ∧ Accepted trio twoEntries 0 "b" := by
  obtain ⟨s, hs, hp⟩ : ∃ s, trio.Run trio.init _ s ∧ _ :=
    Runs.exists_run twoEntries
      (fun s => Acked s 1 "b" ∧ (s.proposals[0]?).any (fun P => P.entry.term = 1 ∧ P.newIndex = 1)
        ∧ (s.proposals[1]?).any fun P => P.entry.term = 1 ∧ P.newIndex = 2) (by decide +kernel)
  simp only [decide_eq_true_eq] at hp
  obtain ⟨hack, hx, hy⟩ := hp
  obtain ⟨R, hQ, hR⟩ := (Option.any_eq_true _ _).1 hx
  obtain ⟨P, hP, hP'⟩ := (Option.any_eq_true _ _).1 hy
  simp only [decide_eq_true_eq] at hR hP'
  exact ⟨s, hs, hack, acknowledged_after_earlier hs hP hQ (by rw [hR.1, hP'.1])
    (by rw [hR.2, hP'.2]; decide) hack⟩

end

end EdgeSim.Raft
