import EdgeSim.Lib.TermLog

/-!
# Every step keeps the invariant

One lemma a step. Most fields speak of a past that only grows (`Ext`); what a step adds to it is
checked against the term it is added in.
-/

namespace TermLog.Group

open Lists

variable {N E : Type*} {tm : E → ℕ} {Q : QuorumSystem N} {A B : Group N E}

theorem inv_start : Inv tm Q (start : Group N E) where
  vote_le h := by simp [start] at h
  led_le h := by simp [start] at h
  led_votes h := by simp [start] at h
  led_log h := by simp [start] at h
  led_pre h := by simp [start] at h
  led_old h := by simp [start] at h
  led_new h := by simp [start] at h
  wf_log n k e h := by simp [start] at h
  wf_vote h := by simp [start] at h
  wf_lead h := by simp [start] at h
  log_le h := by simp [start] at h
  stored_le h := h.elim
  stored_led h := h.elim
  log_stored h := by simp [start] at h
  stored_below h := h.elim
  log_kept v t i L s _ h := h.elim
  vote_kept h := by simp [start] at h

/-- What was kept is still kept, if nothing was taken in the terms it is about and no term that
had a leader got another. -/
theorem Kept.ext (h : Inv tm Q A) (hx : Ext A B) {v : N} {t u : ℕ} {l : List E}
    (hled : ∀ {L L' t s s'}, B.led L t = some s → A.led L' t = some s' → A.led L t = some s)
    (hs : ∀ {t' i}, t' < t → B.stored v t' i → A.stored v t' i) (hk : A.Kept v t u l) :
    B.Kept v t u l := by
  intro t' i L s ht' hv hL
  have hv' := hs ht' hv
  obtain ⟨L', s', hL', -⟩ := h.stored_led hv'
  have hLA := hled hL hL'
  rw [take_eq_of_isPrefix (hx.lead hLA) (h.stored_length_le hv' hLA).2]
  exact (hk t' i L s ht' hv' hLA).imp_right hx.lost

/-- The same where the terms that `v` has reached gain nothing but in the current one. -/
theorem Kept.ext_of_current (h : Inv tm Q A) (hx : Ext A B)
    (hled : ∀ {L t s}, B.led L t = some s → A.led L t = some s)
    (hnew : ∀ {v t i}, B.stored v t i → A.stored v t i ∨ t = A.term v) {v : N} {t u : ℕ}
    {l : List E} (ht : t ≤ A.term v) (hk : A.Kept v t u l) : B.Kept v t u l :=
  hk.ext h hx (fun hL _ => hled hL) fun ht' hs => (hnew hs).resolve_right (by omega)

/-- The votes that made a leader still do. -/
theorem Inv.led_votes_ext (h : Inv tm Q A) (hx : Ext A B)
    (hkept : ∀ {v t c l}, A.vote v t = some (c, l) → A.Kept v t t l → B.Kept v t t l) {n : N}
    {t : ℕ} {l : List E} (hn : A.led n t = some l) : ∃ S, Q.IsQuorum S ∧ ∀ v ∈ S, ∃ lv,
      B.vote v t = some (n, lv) ∧ UpToDate tm lv l ∧ B.Kept v t t lv := by
  obtain ⟨S, hS, hv⟩ := h.led_votes hn
  refine ⟨S, hS, fun v hvS => ?_⟩
  obtain ⟨lv, hvote, hup, hk⟩ := hv v hvS
  exact ⟨lv, hx.vote hvote, hup, hkept hvote hk⟩

theorem WF.append_singleton {l : List E} {e : E} {L : N} {s : List E} (h : A.WF tm l)
    (hL : A.led L (tm e) = some s) (hp : l ++ [e] <+: A.lead L (tm e)) : A.WF tm (l ++ [e]) := by
  intro k e' hk
  rcases getElem?_concat_cases hk with ⟨hk, hkl⟩ | ⟨-, rfl⟩
  · rw [List.take_append_of_le_length (by omega)]
    exact h k e' hk
  · exact ⟨L, s, hL, take_isPrefix hp _⟩

variable [DecidableEq N]

section Raise

variable {n : N} {t : ℕ}

theorem ext_raise (ht : A.term n < t) : Ext A (A.raise n t) where
  term m := by
    by_cases hm : m = n
    · subst hm
      simp only [raise, Function.update_self]
      exact ht.le
    · simp [raise, Function.update_of_ne hm]
  vote := id
  led := id
  lead _ := List.prefix_rfl
  stored := id

theorem inv_raise (h : Inv tm Q A) (ht : A.term n < t) : Inv tm Q (A.raise n t) where
  vote_le hv := (h.vote_le hv).trans ((ext_raise ht).term _)
  led_le hn := (h.led_le hn).trans ((ext_raise ht).term _)
  led_votes := h.led_votes
  led_log {m l} hm := by
    by_cases hmn : m = n
    · subst hmn
      -- `m` has not led a term as high as this one
      have hle := h.led_le (n := m) (t := (A.raise m t).term m) hm
      simp only [raise, Function.update_self] at hle
      omega
    · simp only [raise, Function.update_of_ne hmn] at hm ⊢
      exact h.led_log hm
  led_pre := h.led_pre
  led_old := h.led_old
  led_new := h.led_new
  wf_log := h.wf_log
  wf_vote := h.wf_vote
  wf_lead := h.wf_lead
  log_le he := (h.log_le he).trans ((ext_raise ht).term _)
  stored_le hv := (h.stored_le hv).trans ((ext_raise ht).term _)
  stored_led := h.stored_led
  log_stored := h.log_stored
  stored_below := h.stored_below
  log_kept v t' i L s _ hv hL := by
    have hle := (ext_raise ht).term v
    rcases h.log_kept v t' i L s (by have := h.stored_le hv; omega) hv hL with hp | hp
    · exact .inl hp
    · exact .inr (hp.mono (by omega))
  vote_kept := h.vote_kept

end Raise

section Cast

variable {v c : N}

theorem ext_castVote (hv : A.vote v (A.term v) = none) : Ext A (A.castVote v c) where
  term _ := le_rfl
  vote {w t x} hw := by
    simp only [castVote, update₂]
    split_ifs with hwt
    · rw [hwt.1, hwt.2, hv] at hw
      cases hw
    · exact hw
  led := id
  lead _ := List.prefix_rfl
  stored := id

theorem vote_castVote {w : N} {t : ℕ} {x : N × List E} (h : (A.castVote v c).vote w t = some x) :
    A.vote w t = some x ∨ w = v ∧ t = A.term v ∧ x = (c, A.log v) := by
  simp only [castVote, update₂] at h
  split_ifs at h with hwt
  · simp only [Option.some.injEq] at h
    exact .inr ⟨hwt.1, hwt.2, h.symm⟩
  · exact .inl h

theorem inv_castVote (h : Inv tm Q A) (hv : A.vote v (A.term v) = none) :
    Inv tm Q (A.castVote v c) where
  vote_le {w t x} hw := by
    rcases vote_castVote hw with hw | ⟨rfl, rfl, -⟩
    · exact h.vote_le hw
    · exact le_rfl
  led_le := h.led_le
  led_votes hn := h.led_votes_ext (ext_castVote hv) (fun _ hk => hk) hn
  led_log := h.led_log
  led_pre := h.led_pre
  led_old := h.led_old
  led_new := h.led_new
  wf_log := h.wf_log
  wf_vote {w t c' l} hw := by
    rcases vote_castVote hw with hw | ⟨rfl, -, hx⟩
    · exact h.wf_vote hw
    · simp only [Prod.mk.injEq] at hx
      rw [hx.2]
      exact h.wf_log w
  wf_lead := h.wf_lead
  log_le := h.log_le
  stored_le := h.stored_le
  stored_led := h.stored_led
  log_stored := h.log_stored
  stored_below := h.stored_below
  log_kept := h.log_kept
  vote_kept {w t c' l} hw := by
    rcases vote_castVote hw with hw | ⟨rfl, rfl, hx⟩
    · exact h.vote_kept hw
    · simp only [Prod.mk.injEq] at hx
      rw [hx.2]
      intro t' i L s ht' hs hL
      exact h.log_kept w t' i L s (by omega) hs hL

end Cast

section Elect

variable {n : N} {S : Set N}

theorem led_elect {m : N} {t : ℕ} {l : List E} (h : (A.elect n).led m t = some l) :
    A.led m t = some l ∨ m = n ∧ t = A.term n ∧ l = A.log n := by
  simp only [elect, update₂] at h
  split_ifs at h with hmt
  · simp only [Option.some.injEq] at h
    exact .inr ⟨hmt.1, hmt.2, h.symm⟩
  · exact .inl h

theorem lead_elect (hn : A.led n (A.term n) = none) {m : N} {t : ℕ} {l : List E}
    (hm : A.led m t = some l) : (A.elect n).lead m t = A.lead m t := by
  simp only [elect, update₂]
  split_ifs with hmt
  · rw [hmt.1, hmt.2, hn] at hm
    cases hm
  · rfl

theorem ext_elect (hn : A.led n (A.term n) = none) : Ext A (A.elect n) where
  term _ := le_rfl
  vote := id
  led {m t l} hm := by
    simp only [elect, update₂]
    split_ifs with hmt
    · rw [hmt.1, hmt.2, hn] at hm
      cases hm
    · exact hm
  lead hm := by rw [lead_elect hn hm]
  stored := id

theorem lead_elect_self : (A.elect n).lead n (A.term n) = A.log n := by simp [elect, update₂]

theorem inv_elect (h : Inv tm Q A) (hS : Q.IsQuorum S)
    (hv : ∀ v ∈ S, ∃ l, A.vote v (A.term n) = some (n, l) ∧ UpToDate tm l (A.log n))
    (hn : A.led n (A.term n) = none) : Inv tm Q (A.elect n) := by
  have hx := ext_elect hn
  -- the term had no leader: it would have been elected by a quorum too
  have hno : ∀ {m t l}, A.led m t = some l → t ≠ A.term n := by
    rintro m t l hm rfl
    have hmn := h.leader_eq hS (fun v hvS => (hv v hvS).imp fun _ hl => hl.1) hm
    rw [hmn, hn] at hm
    cases hm
  have hled : ∀ {L L' t s s'}, (A.elect n).led L t = some s → A.led L' t = some s' →
      A.led L t = some s := by
    intro L L' t s s' hL hL'
    rcases led_elect hL with hL | ⟨-, rfl, -⟩
    · exact hL
    · exact absurd rfl (hno hL')
  have hold : ∀ {v t i}, A.stored v t i → t ≠ A.term n := by
    intro v t i hs
    obtain ⟨L, l, hL, -⟩ := h.stored_led hs
    exact hno hL
  refine
    { vote_le := h.vote_le, led_le := ?led_le, led_votes := ?led_votes, led_log := ?led_log
      led_pre := ?led_pre, led_old := ?led_old, led_new := ?led_new
      wf_log := fun m => hx.wf tm (h.wf_log m), wf_vote := fun hw => hx.wf tm (h.wf_vote hw)
      wf_lead := ?wf_lead, log_le := h.log_le, stored_le := h.stored_le
      stored_led := ?stored_led, log_stored := h.log_stored, stored_below := ?stored_below
      log_kept := fun v => (h.log_kept v).ext h hx hled fun _ => id
      vote_kept := fun hw => (h.vote_kept hw).ext h hx hled fun _ => id }
  case led_le =>
    intro m t l hm
    rcases led_elect hm with hm | ⟨rfl, rfl, -⟩
    · exact h.led_le hm
    · exact le_rfl
  case led_votes =>
    intro m t l hm
    rcases led_elect hm with hm | ⟨rfl, rfl, rfl⟩
    · exact h.led_votes_ext hx (fun _ hk => hk.ext h hx hled fun _ => id) hm
    · refine ⟨S, hS, fun v hvS => ?_⟩
      obtain ⟨lv, h1, h2⟩ := hv v hvS
      refine ⟨lv, h1, h2, Kept.ext h hx hled (fun _ => id) fun t' i L s ht' hs hL => ?_⟩
      rcases h.vote_kept h1 t' i L s ht' hs hL with hp | ⟨w, m', l, htw, hwt, hm', hp⟩
      · exact .inl hp
      · have := hno hm'
        exact .inr ⟨w, m', l, htw, by omega, hm', hp⟩
  case led_log =>
    intro m l hm
    rcases led_elect hm with hm | ⟨rfl, -, -⟩
    · rw [show (A.elect n).term m = A.term m from rfl] at hm ⊢
      rw [lead_elect hn hm]
      exact h.led_log hm
    · exact (lead_elect_self (A := A) (n := m)).symm
  case led_pre =>
    intro m t l hm
    rcases led_elect hm with hm | ⟨rfl, rfl, rfl⟩
    · exact (h.led_pre hm).trans (hx.lead hm)
    · rw [lead_elect_self]
  case led_old =>
    intro m t l hm e he
    rcases led_elect hm with hm | ⟨rfl, rfl, rfl⟩
    · exact h.led_old hm e he
    · obtain ⟨k, hk⟩ := List.mem_iff_getElem?.1 he
      obtain ⟨L, s, hL, -⟩ := h.wf_log m k e hk
      exact lt_of_le_of_ne (h.log_le he) (hno hL)
  case led_new =>
    intro m t l k e hm hk he
    rcases led_elect hm with hm | ⟨rfl, rfl, rfl⟩
    · rw [lead_elect hn hm] at he
      exact h.led_new hm hk he
    · rw [lead_elect_self, List.getElem?_eq_none hk] at he
      cases he
  case wf_lead =>
    intro m t l hm
    rcases led_elect hm with hm | ⟨rfl, rfl, -⟩
    · rw [lead_elect hn hm]
      exact hx.wf tm (h.wf_lead hm)
    · rw [lead_elect_self]
      exact hx.wf tm (h.wf_log m)
  case stored_led =>
    intro v t i hs
    obtain ⟨L, l, hL, hli, hi⟩ := h.stored_led hs
    exact ⟨L, l, hx.led hL, hli, by rwa [lead_elect hn hL]⟩
  case stored_below =>
    intro v t i L l k e hs hL hk he
    rcases led_elect hL with hL | ⟨rfl, rfl, -⟩
    · rw [lead_elect hn hL] at he
      exact h.stored_below hs hL hk he
    · exact absurd rfl (hold hs)

end Elect

section Append

variable {n : N} {e : E} {l : List E}

theorem lead_append {m : N} {t : ℕ} (h : ¬ (m = n ∧ t = A.term n)) :
    (A.append n e).lead m t = A.lead m t := by
  simp only [append, update₂]
  rw [if_neg h]

theorem lead_append_self : (A.append n e).lead n (A.term n) = A.log n ++ [e] := by
  simp [append, update₂]

theorem log_append_self : (A.append n e).log n = A.log n ++ [e] := by simp [append]

theorem log_append_of_ne {m : N} (h : m ≠ n) : (A.append n e).log m = A.log m := by
  simp [append, Function.update_of_ne h]

theorem ext_append (h : Inv tm Q A) (hn : A.led n (A.term n) = some l) :
    Ext A (A.append n e) where
  term _ := le_rfl
  vote := id
  led := id
  lead {m t _} _ := by
    by_cases hmt : m = n ∧ t = A.term n
    · rw [hmt.1, hmt.2, lead_append_self, ← h.led_log hn]
      exact List.prefix_append _ _
    · rw [lead_append hmt]
  stored := .inl

theorem inv_append (h : Inv tm Q A) (hn : A.led n (A.term n) = some l) (he : tm e = A.term n) :
    Inv tm Q (A.append n e) := by
  have hx := ext_append (e := e) h hn
  have hlog : ∀ m, A.log m <+: (A.append n e).log m := by
    intro m
    by_cases hm : m = n
    · rw [hm, log_append_self]
      exact List.prefix_append _ _
    · rw [log_append_of_ne hm]
  have hwf : (A.append n e).WF tm (A.log n ++ [e]) := by
    refine (hx.wf tm (h.wf_log n)).append_singleton (L := n) (s := l) (by rw [he]; exact hn) ?_
    rw [he, lead_append_self]
  -- what is new was taken by `n` in its current term, no earlier than any of its votes
  have hkept : ∀ {v t u l}, t ≤ A.term v → A.Kept v t u l → (A.append n e).Kept v t u l := by
    refine Kept.ext_of_current h hx id ?_
    rintro v t i (hs | ⟨rfl, rfl, -⟩)
    · exact .inl hs
    · exact .inr rfl
  refine
    { vote_le := h.vote_le, led_le := h.led_le
      led_votes := fun hm => h.led_votes_ext hx (fun hw => hkept (h.vote_le hw)) hm
      led_log := ?led_log
      led_pre := fun hm => (h.led_pre hm).trans (hx.lead hm), led_old := h.led_old
      led_new := ?led_new, wf_log := ?wf_log, wf_vote := fun hw => hx.wf tm (h.wf_vote hw)
      wf_lead := ?wf_lead, log_le := ?log_le, stored_le := ?stored_le, stored_led := ?stored_led
      log_stored := ?log_stored, stored_below := ?stored_below, log_kept := ?log_kept
      vote_kept := fun hw => hkept (h.vote_le hw) (h.vote_kept hw) }
  case led_log =>
    intro m l' hm
    by_cases hmn : m = n
    · rw [hmn, log_append_self]
      exact lead_append_self.symm
    · rw [log_append_of_ne hmn, lead_append fun h' => hmn h'.1]
      exact h.led_log hm
  case led_new =>
    intro m t l' k e' hm hk hk'
    by_cases hmt : m = n ∧ t = A.term n
    · obtain ⟨rfl, rfl⟩ := hmt
      rw [lead_append_self] at hk'
      rcases getElem?_concat_cases hk' with ⟨hk', -⟩ | ⟨-, rfl⟩
      · rw [h.led_log hn] at hk'
        exact h.led_new hm hk hk'
      · exact he
    · rw [lead_append hmt] at hk'
      exact h.led_new hm hk hk'
  case wf_log =>
    intro m
    by_cases hmn : m = n
    · rw [hmn, log_append_self]
      exact hwf
    · rw [log_append_of_ne hmn]
      exact hx.wf tm (h.wf_log m)
  case wf_lead =>
    intro m t l' hm
    by_cases hmt : m = n ∧ t = A.term n
    · rw [hmt.1, hmt.2, lead_append_self]
      exact hwf
    · rw [lead_append hmt]
      exact hx.wf tm (h.wf_lead hm)
  case log_le =>
    intro m e' he'
    by_cases hmn : m = n
    · rw [hmn, log_append_self, List.mem_append, List.mem_singleton] at he'
      rw [hmn]
      rcases he' with he' | rfl
      · exact h.log_le he'
      · exact he.le
    · rw [log_append_of_ne hmn] at he'
      exact h.log_le he'
  case stored_le =>
    rintro v t i (hv | ⟨rfl, rfl, -⟩)
    · exact h.stored_le hv
    · exact le_rfl
  case stored_led =>
    rintro v t i (hv | ⟨rfl, rfl, rfl⟩)
    · obtain ⟨L, l', hL, hli, hi⟩ := h.stored_led hv
      exact ⟨L, l', hL, hli, hi.trans (hx.lead hL).length_le⟩
    · have hle := (h.led_pre hn).length_le
      rw [← h.led_log hn] at hle
      exact ⟨v, l, hn, by omega, by rw [lead_append_self]; simp⟩
  case log_stored =>
    intro v k e' hk
    by_cases hvn : v = n
    · subst hvn
      rw [log_append_self] at hk
      rcases getElem?_concat_cases hk with ⟨hk, -⟩ | ⟨rfl, rfl⟩
      · exact .inl (h.log_stored hk)
      · exact .inr ⟨rfl, he, rfl⟩
    · rw [log_append_of_ne hvn] at hk
      exact .inl (h.log_stored hk)
  case stored_below =>
    rintro v t i L l' k e' (hv | ⟨rfl, rfl, rfl⟩) hL hki hk
    · have hi := (h.stored_length_le hv hL).2
      rw [prefix_getElem? (hx.lead hL) (by omega)] at hk
      exact .inl (h.stored_below hv hL hki hk)
    · obtain rfl := h.leader_unique hL hn
      rw [lead_append_self] at hk
      rcases getElem?_concat_cases hk with ⟨hk, -⟩ | ⟨rfl, rfl⟩
      · exact .inl (h.log_stored hk)
      · exact .inr ⟨rfl, he, rfl⟩
  case log_kept =>
    rintro v t i L s ht (hv | ⟨rfl, rfl, rfl⟩) hL
    · rw [take_eq_of_isPrefix (hx.lead hL) (h.stored_length_le hv hL).2]
      rcases h.log_kept v t i L s ht hv hL with hp | hp
      · exact .inl (hp.trans (hlog v))
      · exact .inr (hx.lost hp)
    · obtain rfl := h.leader_unique hL hn
      rw [lead_append_self, log_append_self]
      exact .inl (take_isPrefix List.prefix_rfl _)

end Append

section Store

variable {v L : N} {i : ℕ} {l : List E}

theorem log_store_of_ne {w : N} (h : w ≠ v) : (A.store v L i).log w = A.log w := by
  simp [store, Function.update_of_ne h]

/-- A log stays, or it is the one of `v` and becomes the leader's up to the entry taken. -/
theorem log_store_cases (w : N) :
    (A.store v L i).log w = A.log w ∧ (w = v → (A.lead L (A.term v)).take i <+: A.log v) ∨
      w = v ∧ ¬ (A.lead L (A.term v)).take i <+: A.log v
        ∧ (A.store v L i).log w = (A.lead L (A.term v)).take i := by
  by_cases hw : w = v
  · subst hw
    by_cases hp : (A.lead L (A.term w)).take i <+: A.log w
    · exact .inl ⟨by simp [store, hp], fun _ => hp⟩
    · exact .inr ⟨rfl, hp, by simp [store, hp]⟩
  · exact .inl ⟨log_store_of_ne hw, fun h => absurd h hw⟩

theorem ext_store : Ext A (A.store v L i) :=
  ⟨fun _ => le_rfl, id, id, fun _ => List.prefix_rfl, .inl⟩

/-- Below the entry taken, the leader's log is the replica's own. -/
theorem lead_stored (h : Inv tm Q A) (hL : A.led L (A.term v) = some l) (hl : l.length < i)
    (hi : i ≤ (A.lead L (A.term v)).length)
    (hp : (A.lead L (A.term v)).take (i - 1) <+: A.log v) {k : ℕ} {e : E} (hk : k < i)
    (he : (A.lead L (A.term v))[k]? = some e) : (A.store v L i).stored v (tm e) (k + 1) := by
  rcases Nat.lt_or_ge k (i - 1) with hki | hki
  · refine .inl (h.log_stored ?_)
    rw [prefix_getElem? hp (by simp; omega), List.getElem?_take_of_lt hki]
    exact he
  · exact .inr ⟨rfl, h.led_new hL (by omega) he, by omega⟩

omit [DecidableEq N] in
/-- What `v` has of an earlier leader is in the log that replaces its own, or was lost. -/
theorem taken_or_lost (h : Inv tm Q A) (hL : A.led L (A.term v) = some l) (hl : l.length < i)
    (hnot : ¬ (A.lead L (A.term v)).take i <+: A.log v) {t j : ℕ} {L' : N} {s : List E}
    (hv : A.stored v t j) (hL' : A.led L' t = some s) (hpre : (A.lead L' t).take j <+: A.log v) :
    (A.lead L' t).take j <+: (A.lead L (A.term v)).take i
      ∨ A.Lost t (A.term v + 1) ((A.lead L' t).take j) := by
  rcases (h.stored_le hv).lt_or_eq with hlt | rfl
  · -- an entry of an earlier term: the leader started with it, or lost it
    by_cases hpl : (A.lead L' t).take j <+: l
    · exact .inl (List.prefix_take_iff.2 ⟨hpl.trans (h.led_pre hL), hpl.length_le.trans hl.le⟩)
    · exact .inr ⟨A.term v, L, l, hlt, Nat.lt_succ_self _, hL, hpl⟩
  · obtain rfl := h.leader_unique hL' hL
    rcases Nat.le_total j i with hji | hij
    · exact .inl (List.take_prefix_take_left hji)
    · exact absurd ((List.take_prefix_take_left hij).trans hpre) hnot

theorem inv_store (h : Inv tm Q A) (hL : A.led L (A.term v) = some l) (hl : l.length < i)
    (hi : i ≤ (A.lead L (A.term v)).length)
    (hp : (A.lead L (A.term v)).take (i - 1) <+: A.log v) : Inv tm Q (A.store v L i) := by
  have hx := ext_store (A := A) (v := v) (L := L) (i := i)
  have hcases := log_store_cases (A := A) (v := v) (L := L) (i := i)
  have hkept : ∀ {w t u l}, t ≤ A.term w → A.Kept w t u l → (A.store v L i).Kept w t u l := by
    refine Kept.ext_of_current h hx id ?_
    rintro w t j (hs | ⟨rfl, rfl, -⟩)
    · exact .inl hs
    · exact .inr rfl
  refine
    { vote_le := h.vote_le, led_le := h.led_le
      led_votes := fun hm => h.led_votes_ext hx (fun hw => hkept (h.vote_le hw)) hm
      led_log := ?led_log, led_pre := h.led_pre, led_old := h.led_old, led_new := h.led_new
      wf_log := ?wf_log, wf_vote := h.wf_vote, wf_lead := h.wf_lead, log_le := ?log_le
      stored_le := ?stored_le, stored_led := ?stored_led, log_stored := ?log_stored
      stored_below := ?stored_below, log_kept := ?log_kept
      vote_kept := fun hw => hkept (h.vote_le hw) (h.vote_kept hw) }
  case led_log =>
    intro w l' hw
    rcases hcases w with ⟨hlog, -⟩ | ⟨rfl, hnot, -⟩
    · rw [hlog]
      exact h.led_log hw
    · -- `w` leads the term, so the log it is sent is its own
      obtain rfl := h.leader_unique hw hL
      rw [h.led_log hw] at hnot
      exact absurd (take_isPrefix List.prefix_rfl _) hnot
  case wf_log =>
    intro w
    rcases hcases w with ⟨hlog, -⟩ | ⟨-, -, hlog⟩
    · rw [hlog]
      exact h.wf_log w
    · rw [hlog]
      exact (h.wf_lead hL).take tm i
  case log_le =>
    intro w e he
    rcases hcases w with ⟨hlog, -⟩ | ⟨rfl, -, hlog⟩
    · rw [hlog] at he
      exact h.log_le he
    · rw [hlog] at he
      exact h.lead_le hL (List.mem_of_mem_take he)
  case stored_le =>
    rintro w t j (hw | ⟨rfl, rfl, -⟩)
    · exact h.stored_le hw
    · exact le_rfl
  case stored_led =>
    rintro w t j (hw | ⟨rfl, rfl, rfl⟩)
    · exact h.stored_led hw
    · exact ⟨L, l, hL, hl, hi⟩
  case log_stored =>
    intro w k e he
    rcases hcases w with ⟨hlog, -⟩ | ⟨rfl, -, hlog⟩
    · rw [hlog] at he
      exact .inl (h.log_stored he)
    · rw [hlog] at he
      have hki : k < i := by
        by_contra hik
        rw [List.getElem?_eq_none (by simp; omega)] at he
        cases he
      rw [List.getElem?_take_of_lt hki] at he
      exact lead_stored h hL hl hi hp hki he
  case stored_below =>
    rintro w t j L' l' k e (hw | ⟨rfl, rfl, rfl⟩) hL' hkj hk
    · exact .inl (h.stored_below hw hL' hkj hk)
    · obtain rfl := h.leader_unique hL' hL
      exact lead_stored h hL hl hi hp hkj hk
  case log_kept =>
    rintro w t j L' s ht (hw | ⟨rfl, rfl, rfl⟩) hL'
    · rcases h.log_kept w t j L' s ht hw hL' with hpre | hlost
      · rcases hcases w with ⟨hlog, -⟩ | ⟨rfl, hnot, hlog⟩
        · rw [hlog]
          exact .inl hpre
        · rw [hlog]
          exact taken_or_lost h hL hl hnot hw hL' hpre
      · exact .inr hlost
    · obtain rfl := h.leader_unique hL' hL
      rcases hcases w with ⟨hlog, hpre⟩ | ⟨-, -, hlog⟩
      · rw [hlog]
        exact .inl (hpre rfl)
      · rw [hlog]
        exact .inl List.prefix_rfl

end Store

theorem inv_step (h : Inv tm Q A) (hs : Step tm Q A B) : Inv tm Q B ∧ Ext A B := by
  cases hs with
  | raise ht => exact ⟨inv_raise h ht, ext_raise ht⟩
  | castVote c hv => exact ⟨inv_castVote h hv, ext_castVote hv⟩
  | elect hS hv hn => exact ⟨inv_elect h hS hv hn, ext_elect hn⟩
  | append hn he => exact ⟨inv_append h hn he, ext_append h hn⟩
  | store hL hl hi hp => exact ⟨inv_store h hL hl hi hp, ext_store⟩

end TermLog.Group
