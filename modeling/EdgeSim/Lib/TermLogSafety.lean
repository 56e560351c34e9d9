import EdgeSim.Lib.TermLogInv

/-!
# What a group of replicas keeps

Two logs that have entries of one term at one index are the same up to there. An entry that a
quorum took in its own term is in the log of every later leader: a voter the two quorums share
had it when it voted, and a log at least as up to date as the voter's has it too. So what a
quorum took stays, and any two such prefixes are comparable.
-/

namespace TermLog.Group

open Lists

variable {N E : Type*} {tm : E → ℕ} {Q : QuorumSystem N} {A B : Group N E}

theorem log_matching (h : Inv tm Q A) {l l' : List E} (hl : A.WF tm l) (hl' : A.WF tm l') {k : ℕ}
    {e e' : E} (he : l[k]? = some e) (he' : l'[k]? = some e') (ht : tm e = tm e') :
    l.take (k + 1) = l'.take (k + 1) := by
  obtain ⟨L, s, hL, hp⟩ := hl k e he
  obtain ⟨L', s', hL', hp'⟩ := hl' k e' he'
  rw [← ht] at hL' hp'
  obtain rfl := h.leader_unique hL hL'
  have hk : k < l.length := (List.getElem?_eq_some_iff.1 he).1
  have hk' : k < l'.length := (List.getElem?_eq_some_iff.1 he').1
  exact take_eq_take_of_isPrefix hp hp' hk hk'

theorem getLast_of_ne_nil (tm : E → ℕ) {l : List E} (h : l ≠ []) :
    ∃ e, l[l.length - 1]? = some e ∧ lastTerm tm l = tm e := by
  have hlen := List.length_pos_iff.2 h
  refine ⟨l[l.length - 1], List.getElem?_eq_getElem (by omega), ?_⟩
  exact lastTerm_eq tm (List.getElem?_eq_getElem (by omega)) (by omega)

/-- A log is a prefix of the log its last term was led with. -/
theorem WF.prefix_lead {l : List E} (hl : A.WF tm l) (hne : l ≠ []) :
    ∃ L s, A.led L (lastTerm tm l) = some s ∧ l <+: A.lead L (lastTerm tm l) := by
  have hlen := List.length_pos_iff.2 hne
  obtain ⟨e, he, ht⟩ := getLast_of_ne_nil tm hne
  obtain ⟨L, s, hL, hp⟩ := hl _ e he
  rw [List.take_of_length_le (by omega), ← ht] at hp
  exact ⟨L, s, by rw [ht]; exact hL, hp⟩

/-- Terms do not fall along a log. -/
theorem le_lastTerm (h : Inv tm Q A) {l : List E} (hl : A.WF tm l) {e : E} (he : e ∈ l) :
    tm e ≤ lastTerm tm l := by
  obtain ⟨L, s, hL, hp⟩ := hl.prefix_lead (List.ne_nil_of_mem he)
  exact h.lead_le hL (hp.subset he)

/-- The entry a replica took at `i` in term `t` is of that term. -/
theorem stored_entry (h : Inv tm Q A) {v L : N} {t i : ℕ} {s : List E} (hv : A.stored v t i)
    (hL : A.led L t = some s) :
    0 < i ∧ ∃ e, ((A.lead L t).take i)[i - 1]? = some e ∧ tm e = t := by
  obtain ⟨hsi, hi⟩ := h.stored_length_le hv hL
  refine ⟨by omega, (A.lead L t)[i - 1], ?_, ?_⟩
  · rw [List.getElem?_take_of_lt (by omega)]
    exact List.getElem?_eq_getElem (by omega)
  · exact h.led_new hL (k := i - 1) (by omega) (List.getElem?_eq_getElem (by omega))

/-- A log at least as up to date as one with the prefix `p` has it too, when every leader after
`p`'s term and before `u` started with it. -/
theorem prefix_of_upToDate (h : Inv tm Q A) {lv l p : List E} {t u k : ℕ} {e : E}
    (hlv : A.WF tm lv) (hl : A.WF tm l) (hu : ∀ x ∈ l, tm x < u) (hk : p[k]? = some e)
    (hke : p.length = k + 1) (he : tm e = t) (hpv : p <+: lv) (hup : UpToDate tm lv l)
    (hlater : ∀ w m s, t < w → w < u → A.led m w = some s → p <+: s) : p <+: l := by
  have hep : e ∈ p := List.mem_of_getElem? hk
  have hvne : lv ≠ [] := List.ne_nil_of_mem (hpv.subset hep)
  have htv : t ≤ lastTerm tm lv := by
    rw [← he]
    exact le_lastTerm h hlv (hpv.subset hep)
  have hvlen := List.length_pos_iff.2 hvne
  have hlne : l ≠ [] := by
    rintro rfl
    rcases hup with hlt | ⟨-, hle⟩
    · simp [lastTerm] at hlt
    · simp at hle
      exact hvne hle
  obtain ⟨L, s, hL, hpl⟩ := hl.prefix_lead hlne
  obtain ⟨x, hx, hxt⟩ := getLast_of_ne_nil tm hlne
  have hxu := hu x (List.mem_of_getElem? hx)
  rcases hup with hlt | ⟨heq, hle⟩
  · -- a later term: its leader started with `p`, and `l` reaches into what it added
    have hps := hlater _ L s (by omega) (by omega) hL
    have hlead := hps.trans (h.led_pre hL)
    refine List.prefix_of_prefix_length_le hlead hpl ?_
    by_contra hlp
    have hlp' := List.prefix_of_prefix_length_le hpl hlead (by omega)
    have hxs := h.led_old hL x (hps.subset (hlp'.subset (List.mem_of_getElem? hx)))
    omega
  · -- the same last term: both are prefixes of one log
    obtain ⟨L', s', hL', hpv'⟩ := hlv.prefix_lead hvne
    rw [heq] at hL' hpv'
    obtain rfl := h.leader_unique hL hL'
    exact hpv.trans (List.prefix_of_prefix_length_le hpv' hpl hle)

/-- Every member of a quorum took the entry at `i` in term `t`. -/
def QuorumStored (Q : QuorumSystem N) (A : Group N E) (t i : ℕ) : Prop :=
  ∃ S, Q.IsQuorum S ∧ ∀ v ∈ S, A.stored v t i

/-- An entry that a quorum took in its own term is in the log of every later leader, with all
before it. -/
theorem leader_completeness (h : Inv tm Q A) {t i : ℕ} {L : N} {s : List E}
    (hq : QuorumStored Q A t i) (hL : A.led L t = some s) {u : ℕ} {m : N} {l : List E}
    (htu : t < u) (hm : A.led m u = some l) : (A.lead L t).take i <+: l := by
  induction u using Nat.strong_induction_on generalizing m l with
  | _ u ih =>
    obtain ⟨S, hS, hst⟩ := hq
    obtain ⟨T, hT, hvote⟩ := h.led_votes hm
    obtain ⟨v, hvS, hvT⟩ := Q.inter hS hT
    obtain ⟨lv, hv, hup, hkept⟩ := hvote v hvT
    have hsv := hst v hvS
    have hpv : (A.lead L t).take i <+: lv := by
      rcases hkept t i L s htu hsv hL with hp | ⟨w, m', l', htw, hwu, hm', hp⟩
      · exact hp
      · exact absurd (ih w hwu htw hm') hp
    obtain ⟨hi, e, he, hte⟩ := stored_entry h hsv hL
    have hlen := (h.stored_length_le hsv hL).2
    exact prefix_of_upToDate h (h.wf_vote hv) (l := l)
      (fun k e hk => by
        have hwf := (h.wf_lead hm).take tm l.length
        rw [take_eq_of_isPrefix (h.led_pre hm) le_rfl, List.take_length] at hwf
        exact hwf k e hk)
      (h.led_old hm) he (by simp; omega) hte hpv hup
      fun w m' s' htw hwu hm' => ih w hwu htw hm'

/-- A replica still has what it took, once a quorum took it. -/
theorem stored_retained (h : Inv tm Q A) {t i : ℕ} {L v : N} {s : List E}
    (hq : QuorumStored Q A t i) (hL : A.led L t = some s) (hv : A.stored v t i) :
    (A.lead L t).take i <+: A.log v := by
  have hle := h.stored_le hv
  rcases h.log_kept v t i L s (by omega) hv hL with hp | ⟨w, m, l, htw, -, hm, hp⟩
  · exact hp
  · exact absurd (leader_completeness h hq hL htw hm) hp

/-! ## Chosen prefixes -/

/-- `p` ends in an entry that a quorum took in its own term. -/
def Chosen (Q : QuorumSystem N) (A : Group N E) (p : List E) : Prop :=
  p = [] ∨ ∃ L t s, A.led L t = some s ∧ p <+: A.lead L t ∧ QuorumStored Q A t p.length

theorem QuorumStored.ext (hx : Ext A B) {t i : ℕ} (h : QuorumStored Q A t i) :
    QuorumStored Q B t i := by
  obtain ⟨S, hS, hv⟩ := h
  exact ⟨S, hS, fun v hvS => hx.stored (hv v hvS)⟩

theorem Chosen.ext (hx : Ext A B) {p : List E} (h : Chosen Q A p) : Chosen Q B p := by
  rcases h with rfl | ⟨L, t, s, hL, hp, hq⟩
  · exact .inl rfl
  · exact .inr ⟨L, t, s, hx.led hL, hp.trans (hx.lead hL), hq.ext hx⟩

/-- A prefix of a chosen prefix is chosen: whoever took an entry in its own term had taken those
before it in theirs. -/
theorem Chosen.of_isPrefix (h : Inv tm Q A) {p q : List E} (hp : Chosen Q A p) (hqp : q <+: p) :
    Chosen Q A q := by
  rcases hp with rfl | ⟨L, t, s, hL, hpL, S, hS, hv⟩
  · exact .inl (List.prefix_nil.1 hqp)
  · by_cases hq : q = []
    · exact .inl hq
    have hqL := hqp.trans hpL
    have hpos := List.length_pos_iff.2 hq
    have hwf : A.WF tm q := by
      have := (h.wf_lead hL).take tm q.length
      rwa [take_eq_of_isPrefix hqL le_rfl, List.take_length] at this
    obtain ⟨e, he, ht⟩ := getLast_of_ne_nil tm hq
    obtain ⟨L', s', hL', hpre⟩ := hwf.prefix_lead hq
    refine .inr ⟨L', _, s', hL', hpre, S, hS, fun v hvS => ?_⟩
    have hle := hqp.length_le
    have hst := h.stored_below (hv v hvS) hL (k := q.length - 1) (e := e) (by omega)
      (by rw [prefix_getElem? hqL (by omega)]; exact he)
    rw [← ht, show q.length - 1 + 1 = q.length by omega] at hst
    exact hst

theorem Chosen.comparable (h : Inv tm Q A) {p q : List E} (hp : Chosen Q A p)
    (hq : Chosen Q A q) : p <+: q ∨ q <+: p := by
  rcases hp with rfl | ⟨L, t, s, hL, hpL, hpS⟩
  · exact .inl List.nil_prefix
  rcases hq with rfl | ⟨L', t', s', hL', hqL, hqS⟩
  · exact .inr List.nil_prefix
  have hp' : (A.lead L t).take p.length = p := by
    rw [take_eq_of_isPrefix hpL le_rfl, List.take_length]
  have hq' : (A.lead L' t').take q.length = q := by
    rw [take_eq_of_isPrefix hqL le_rfl, List.take_length]
  rcases Nat.lt_trichotomy t t' with htt | rfl | htt
  · have hpl := leader_completeness h hpS hL htt hL'
    rw [hp'] at hpl
    exact List.prefix_or_prefix_of_prefix (hpl.trans (h.led_pre hL')) hqL
  · obtain rfl := h.leader_unique hL hL'
    exact List.prefix_or_prefix_of_prefix hpL hqL
  · have hql := leader_completeness h hqS hL' htt hL
    rw [hq'] at hql
    exact List.prefix_or_prefix_of_prefix hpL (hql.trans (h.led_pre hL))

variable [DecidableEq N]

/-- A step leaves a chosen prefix in the logs that have it. -/
theorem Chosen.retained (h : Inv tm Q A) (hs : Step tm Q A B) {p : List E} {v : N}
    (hc : Chosen Q A p) (hp : p <+: A.log v) : p <+: B.log v := by
  cases hs with
  | raise ht => exact hp
  | castVote c hv => exact hp
  | elect hS hv hn => exact hp
  | @append n e _ hn he =>
    by_cases hvn : v = n
    · subst hvn
      rw [log_append_self]
      exact hp.trans (List.prefix_append _ _)
    · rw [log_append_of_ne hvn]
      exact hp
  | @store w L i l hL hl hi hpre =>
    rcases log_store_cases (A := A) (v := w) (L := L) (i := i) v with ⟨hlog, -⟩ | ⟨rfl, hnot, hlog⟩
    · rw [hlog]
      exact hp
    rw [hlog]
    rcases hc with rfl | ⟨L', t, s, hL', hpL', hq⟩
    · exact List.nil_prefix
    have hp' : (A.lead L' t).take p.length = p := by
      rw [take_eq_of_isPrefix hpL' le_rfl, List.take_length]
    -- the last entry of `p` is of term `t`, and `v` has it
    obtain ⟨S, hS, hst⟩ := hq
    obtain ⟨w, hwS, -⟩ := Q.inter hS hS
    obtain ⟨hpos, e, he, hte⟩ := stored_entry h (hst w hwS) hL'
    rw [hp'] at he
    have htv : t ≤ A.term v := by
      rw [← hte]
      exact h.log_le (hp.subset (List.mem_of_getElem? he))
    rcases htv.lt_or_eq with hlt | rfl
    · have hpl := leader_completeness h ⟨S, hS, hst⟩ hL' hlt hL
      rw [hp'] at hpl
      exact List.prefix_take_iff.2 ⟨hpl.trans (h.led_pre hL), hpl.length_le.trans hl.le⟩
    · obtain rfl := h.leader_unique hL' hL
      rcases Nat.le_total p.length i with hpi | hpi
      · exact List.prefix_take_iff.2 ⟨hpL', hpi⟩
      · have hip : (A.lead L' (A.term v)).take i <+: p := by
          rw [← hp']
          exact List.take_prefix_take_left hpi
        exact absurd (hip.trans hp) hnot

theorem steps_inv (h : Inv tm Q A) (hs : Relation.ReflTransGen (Step tm Q) A B) :
    Inv tm Q B ∧ Ext A B := by
  induction hs with
  | refl => exact ⟨h, .refl A⟩
  | tail _ hstep ih =>
    obtain ⟨hI, hE⟩ := inv_step ih.1 hstep
    exact ⟨hI, ih.2.trans hE⟩

theorem Chosen.retained_steps (h : Inv tm Q A) (hs : Relation.ReflTransGen (Step tm Q) A B)
    {p : List E} {v : N} (hc : Chosen Q A p) (hp : p <+: A.log v) : p <+: B.log v := by
  induction hs with
  | refl => exact hp
  | tail hsteps hstep ih =>
    obtain ⟨hI, hE⟩ := steps_inv h hsteps
    exact (hc.ext hE).retained hI hstep ih

end TermLog.Group
