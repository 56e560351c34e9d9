import EdgeSim.Lib.TermLogSafety

/-!
# While only one replica has led

A leader takes every entry it adds to its log. So as long as no other term has a leader, its log
stays the one it led with, whatever term it is in now, and every other log is a prefix of it.
-/

namespace TermLog.Group

open Lists

variable {N E : Type*} {tm : E → ℕ} {Q : QuorumSystem N} {A B : Group N E}

/-- The leader of a term took the entries it added in it. -/
def LeaderStored (A : Group N E) : Prop :=
  ∀ n t l k e, A.led n t = some l → l.length ≤ k → (A.lead n t)[k]? = some e →
    A.stored n t (k + 1)

/-- No one but `L` has led, and only the term `t`. -/
def Single (A : Group N E) (L : N) (t : ℕ) : Prop :=
  ∀ m u l, A.led m u = some l → m = L ∧ u = t

theorem leaderStored_start : LeaderStored (start : Group N E) := by
  intro n t l k e h
  simp [start] at h

section

variable [DecidableEq N]

theorem LeaderStored.step (hl : LeaderStored A) (h : Inv tm Q A) (hs : Step tm Q A B) :
    LeaderStored B := by
  cases hs with
  | raise ht => exact hl
  | castVote c hv => exact hl
  | elect hS hv hn =>
    intro m t l k e hm hk he
    rcases led_elect hm with hm | ⟨rfl, rfl, rfl⟩
    · rw [lead_elect hn hm] at he
      exact hl m t l k e hm hk he
    · rw [lead_elect_self, List.getElem?_eq_none hk] at he
      cases he
  | @append n x s hn hx =>
    intro m t l k e hm hk he
    by_cases hmt : m = n ∧ t = A.term n
    · obtain ⟨rfl, rfl⟩ := hmt
      rw [lead_append_self] at he
      rcases getElem?_concat_cases he with ⟨he, -⟩ | ⟨rfl, -⟩
      · rw [h.led_log hn] at he
        exact .inl (hl m _ l k e hm hk he)
      · exact .inr ⟨rfl, rfl, rfl⟩
    · rw [lead_append hmt] at he
      exact .inl (hl m t l k e hm hk he)
  | store hL hs hi hp => exact fun m t l k e hm hk he => .inl (hl m t l k e hm hk he)

theorem LeaderStored.steps (hl : LeaderStored A) (h : Inv tm Q A)
    (hs : Relation.ReflTransGen (Step tm Q) A B) : LeaderStored B := by
  induction hs with
  | refl => exact hl
  | tail hsteps hstep ih => exact ih.step (steps_inv h hsteps).1 hstep

end

variable {L : N} {t : ℕ}

theorem Single.log_isPrefix (hs : A.Single L t) (h : Inv tm Q A) (v : N) :
    A.log v <+: A.lead L t := by
  by_cases hne : A.log v = []
  · rw [hne]
    exact List.nil_prefix
  · obtain ⟨m, s, hm, hp⟩ := (h.wf_log v).prefix_lead hne
    obtain ⟨rfl, ht⟩ := hs _ _ _ hm
    rwa [ht] at hp

theorem Single.log_eq (hs : A.Single L t) (h : Inv tm Q A) (hl : LeaderStored A) {l : List E}
    (hL : A.led L t = some l) : A.log L = A.lead L t := by
  refine (hs.log_isPrefix h L).eq_of_length_le ?_
  -- the log it started with is empty: its entries would be of a term led before
  have hnil : l = [] := by
    rw [List.eq_nil_iff_forall_not_mem]
    intro e he
    obtain ⟨k, hk⟩ := List.mem_iff_getElem?.1 he
    have hlt := (List.getElem?_eq_some_iff.1 hk).1
    obtain ⟨m, s, hm, -⟩ := h.wf_lead hL k e (by rw [prefix_getElem? (h.led_pre hL) hlt, hk])
    have := h.led_old hL e he
    have := (hs _ _ _ hm).2
    omega
  rcases Nat.eq_zero_or_pos (A.lead L t).length with h0 | hpos
  · omega
  · have hlast := List.getElem?_eq_getElem (l := A.lead L t)
      (show (A.lead L t).length - 1 < (A.lead L t).length by omega)
    have hst := hl L t l _ _ hL (by simp [hnil]) hlast
    rw [show (A.lead L t).length - 1 + 1 = (A.lead L t).length by omega] at hst
    have hle := h.stored_le hst
    rcases h.log_kept L t _ L l (by omega) hst hL with hp | ⟨w, m, l', htw, -, hm, -⟩
    · rw [List.take_length] at hp
      exact hp.length_le
    · have := (hs _ _ _ hm).2
      omega

end TermLog.Group
