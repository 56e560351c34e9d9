import EdgeSim.Lib.TermLogSafety

/-!
# Replicas with nothing in common

A replica takes an entry only on top of what it shares with the leader, and a leader offers only
what comes after the log it was elected with. Where every leader to come has a log, no replica
can therefore be given its first entry, or lose the one it has. If besides no two replicas have
the same first entry, then no quorum ever takes anything.
-/

namespace TermLog.Group

variable {N E : Type*} {tm : E → ℕ} {Q : QuorumSystem N} {A B : Group N E}

/-- The first entries of the members are the ones given, and stay so: from the term `T` on, which
all have reached, only a member with a first entry leads. -/
structure Apart (members : Set N) (first : N → Option E) (T : ℕ) (A : Group N E) : Prop where
  head : ∀ v ∈ members, (A.log v).head? = first v
  term : ∀ v ∈ members, T ≤ A.term v
  vote : ∀ v ∈ members, ∀ t c l, T ≤ t → A.vote v t = some (c, l) → first c = none →
    first v ≠ none → l ≠ []
  led : ∀ n t l, T ≤ t → A.led n t = some l → l ≠ [] ∧ l.head? = first n

theorem head?_of_isPrefix {l l' : List E} (h : l <+: l') (hne : l ≠ []) : l'.head? = l.head? := by
  obtain ⟨m, rfl⟩ := h
  exact List.head?_append_of_ne_nil _ hne

theorem upToDate_nil {l : List E} (h : UpToDate tm l []) : l = [] := by
  rcases h with h | ⟨-, h⟩
  · simp [lastTerm] at h
  · exact List.length_eq_zero_iff.1 (Nat.le_zero.1 h)

section

variable [DecidableEq N] {members : Set N} {first : N → Option E} {T : ℕ}

theorem Apart.step (h : Apart members first T A) (hA : Inv tm Q A) (hs : Step tm Q A B)
    (hQ : ∀ S, Q.IsQuorum S → ∃ v ∈ S, v ∈ members ∧ first v ≠ none)
    (hled : ∀ n t l, B.led n t = some l → n ∈ members) : Apart members first T B := by
  cases hs with
  | @raise n t ht =>
    refine ⟨h.head, fun v hv => ?_, h.vote, h.led⟩
    exact (h.term v hv).trans ((ext_raise ht).term v)
  | @castVote w c hv =>
    refine ⟨h.head, h.term, fun v hvm t c' l ht hvote hc hfirst => ?_, h.led⟩
    rcases vote_castVote hvote with hvote | ⟨rfl, -, heq⟩
    · exact h.vote v hvm t c' l ht hvote hc hfirst
    · rw [Prod.mk.injEq] at heq
      rintro rfl
      exact hfirst (by rw [← h.head v hvm, ← heq.2]; rfl)
  | @elect n S hS hv hn =>
    refine ⟨h.head, h.term, h.vote, fun m t l ht hm => ?_⟩
    have hmem := hled m t l hm
    rcases led_elect hm with hm | ⟨rfl, rfl, rfl⟩
    · exact h.led m t l ht hm
    · refine ⟨fun hnil => ?_, h.head m hmem⟩
      -- the quorum has a voter with a log, which an empty log is not up to date with
      obtain ⟨v, hvS, hvm, hfirst⟩ := hQ S hS
      obtain ⟨lv, hvote, hup⟩ := hv v hvS
      rw [hnil] at hup
      refine h.vote v hvm _ _ _ ht hvote ?_ hfirst (upToDate_nil hup)
      rw [← h.head m hmem, hnil]
      rfl
  | @append n e l hn he =>
    refine ⟨fun v hv => ?_, h.term, h.vote, h.led⟩
    by_cases hvn : v = n
    · subst hvn
      obtain ⟨hne, -⟩ := h.led v _ l (h.term v hv) hn
      have hpre := hA.led_pre hn
      rw [← hA.led_log hn] at hpre
      rw [log_append_self, List.head?_append_of_ne_nil _ (hpre.ne_nil hne)]
      exact h.head v hv
    · rw [log_append_of_ne hvn]
      exact h.head v hv
  | @store w L i l hL hl hi hp =>
    refine ⟨fun v hv => ?_, h.term, h.vote, h.led⟩
    rw [← h.head v hv]
    rcases log_store_cases (A := A) (v := w) (L := L) (i := i) v with ⟨hlog, -⟩ | ⟨rfl, -, hlog⟩
    · rw [hlog]
    · -- the entry before the one taken is in both logs, so they start alike
      obtain ⟨hne, -⟩ := h.led L _ l (h.term v hv) hL
      have hlen := List.length_pos_iff.2 hne
      have hpos : (A.lead L (A.term v)).take (i - 1) ≠ [] := by
        rw [← List.length_pos_iff, List.length_take]
        omega
      have hpre : (A.lead L (A.term v)).take (i - 1) <+: (A.lead L (A.term v)).take i :=
        List.take_prefix_take_left (by omega)
      rw [hlog, head?_of_isPrefix hp hpos, head?_of_isPrefix hpre hpos]

theorem Apart.steps (h : Apart members first T A) (hA : Inv tm Q A)
    (hs : Relation.ReflTransGen (Step tm Q) A B)
    (hQ : ∀ S, Q.IsQuorum S → ∃ v ∈ S, v ∈ members ∧ first v ≠ none)
    (hled : ∀ n t l, B.led n t = some l → n ∈ members) : Apart members first T B := by
  induction hs with
  | refl => exact h
  | @tail B D hsteps hstep ih =>
    have hB := (steps_inv hA hsteps).1
    have hx := (inv_step hB hstep).2
    exact (ih fun n t l hn => hled n t l (hx.led hn)).step hB hstep hQ hled

end

/-- Of two members that took an entry of one term at one index, with a quorum, one would have had
the other's first entry. -/
theorem Apart.not_quorumStored {members : Set N} {first : N → Option E} {T : ℕ}
    (h : Apart members first T A) (hA : Inv tm Q A)
    (hfirst : ∀ v ∈ members, ∀ w ∈ members, first v = first w → first v ≠ none → v = w)
    (hQ : ∀ S, Q.IsQuorum S → ∃ v ∈ S, ∃ w ∈ S, v ∈ members ∧ w ∈ members ∧ v ≠ w) (t i : ℕ) :
    ¬ QuorumStored Q A t i := by
  rintro hq
  obtain ⟨S, hS, hstored⟩ := id hq
  obtain ⟨v, hvS, w, hwS, hv, hw, hne⟩ := hQ S hS
  obtain ⟨L, l, hL, hli, hi⟩ := hA.stored_led (hstored v hvS)
  have hpos : (A.lead L t).take i ≠ [] := by
    rw [← List.length_pos_iff, List.length_take]
    omega
  have hhead : ∀ x ∈ S, x ∈ members → first x = ((A.lead L t).take i).head? := by
    intro x hxS hx
    rw [← h.head x hx, head?_of_isPrefix (stored_retained hA hq hL (hstored x hxS)) hpos]
  refine hne (hfirst v hv w hw ((hhead v hvS hv).trans (hhead w hwS hw).symm) ?_)
  rw [hhead v hvS hv]
  simpa using hpos

end TermLog.Group
