import EdgeSim.Lib.Lists
import EdgeSim.Lib.Quorum
import Mathlib.Logic.Relation
import Mathlib.Tactic.SplitIfs

/-!
# Replicated logs under numbered leaders

A group of replicas, each with a term and a log. In each term a replica votes at most once; one
that a quorum voted for leads the term if its log is at least as up to date as each of theirs
was, and then only extends its log, by entries of the term. The others copy entries of a leader's
term from its log, each onto the entries before it.

What is recorded of the past is every vote with the voter's log then, every leader with its log
at the start and at the end of its term, and which replica took which entry in the entry's own
term. `Inv` is what every reachable group keeps; it says of each entry taken in its term that the
replica still has it, and had it when it voted, unless some leader in between started without it.
-/

namespace TermLog

open Lists

variable {N E : Type*}

structure Group (N E : Type*) where
  term : N → ℕ
  log : N → List E
  /-- whom a replica voted for in a term, with its log then -/
  vote : N → ℕ → Option (N × List E)
  /-- the log a replica started to lead a term with -/
  led : N → ℕ → Option (List E)
  /-- the log of a replica while it leads a term -/
  lead : N → ℕ → List E
  /-- a replica took the entry of the term at an index, counted from 1 -/
  stored : N → ℕ → ℕ → Prop

/-- The group at the start. -/
def Group.start : Group N E := ⟨fun _ => 0, fun _ => [], fun _ _ => none, fun _ _ => none,
  fun _ _ => [], fun _ _ _ => False⟩

section Order

variable (tm : E → ℕ)

def lastTerm (l : List E) : ℕ := (l.getLast?.map tm).getD 0

/-- `l'` is at least as up to date as `l`. -/
def UpToDate (l l' : List E) : Prop :=
  lastTerm tm l < lastTerm tm l' ∨ lastTerm tm l = lastTerm tm l' ∧ l.length ≤ l'.length

theorem UpToDate.refl (l : List E) : UpToDate tm l l := .inr ⟨rfl, le_rfl⟩

theorem lastTerm_eq {l : List E} {k : ℕ} {e : E} (h : l[k]? = some e) (hk : l.length = k + 1) :
    lastTerm tm l = tm e := by
  have hlast : l.getLast? = some e := by
    rw [List.getLast?_eq_getElem?, hk]
    exact h
  simp [lastTerm, hlast]

end Order

namespace Group

variable (tm : E → ℕ)

/-! ## What is known of the past -/

/-- Each entry came down from a leader of its term, with everything before it. -/
def WF (A : Group N E) (l : List E) : Prop :=
  ∀ k e, l[k]? = some e → ∃ L s, A.led L (tm e) = some s ∧ l.take (k + 1) <+: A.lead L (tm e)

/-- Some leader strictly between the terms `t` and `u` started without `p`. -/
def Lost (A : Group N E) (t u : ℕ) (p : List E) : Prop :=
  ∃ w m l, t < w ∧ w < u ∧ A.led m w = some l ∧ ¬ p <+: l

/-- `l` has what `v` took in the terms before `t`, up to what leaders before `u` started
without. -/
def Kept (A : Group N E) (v : N) (t u : ℕ) (l : List E) : Prop :=
  ∀ t' i L s, t' < t → A.stored v t' i → A.led L t' = some s →
    (A.lead L t').take i <+: l ∨ A.Lost t' u ((A.lead L t').take i)

/-- The past of `A` is part of the past of `B`. -/
structure Ext (A B : Group N E) : Prop where
  term : ∀ n, A.term n ≤ B.term n
  vote : ∀ {v t x}, A.vote v t = some x → B.vote v t = some x
  led : ∀ {n t l}, A.led n t = some l → B.led n t = some l
  lead : ∀ {n t l}, A.led n t = some l → A.lead n t <+: B.lead n t
  stored : ∀ {v t i}, A.stored v t i → B.stored v t i

namespace Ext

variable {A B C : Group N E}

theorem refl (A : Group N E) : Ext A A := ⟨fun _ => le_rfl, id, id, fun _ => List.prefix_rfl, id⟩

theorem trans (h : Ext A B) (h' : Ext B C) : Ext A C :=
  ⟨fun n => (h.term n).trans (h'.term n), fun x => h'.vote (h.vote x), fun x => h'.led (h.led x),
    fun x => (h.lead x).trans (h'.lead (h.led x)), fun x => h'.stored (h.stored x)⟩

theorem wf (h : Ext A B) {l : List E} (hl : A.WF tm l) : B.WF tm l := by
  intro k e hk
  obtain ⟨L, s, hL, hp⟩ := hl k e hk
  exact ⟨L, s, h.led hL, hp.trans (h.lead hL)⟩

theorem lost (h : Ext A B) {t u : ℕ} {p : List E} (hl : A.Lost t u p) : B.Lost t u p := by
  obtain ⟨w, m, l, htw, hwu, hm, hp⟩ := hl
  exact ⟨w, m, l, htw, hwu, h.led hm, hp⟩

end Ext

theorem WF.take {A : Group N E} {l : List E} (h : A.WF tm l) (i : ℕ) : A.WF tm (l.take i) := by
  intro k e hk
  have hki : k < i := by
    by_contra hik
    rw [List.getElem?_eq_none (by simp; omega)] at hk
    cases hk
  rw [List.getElem?_take_of_lt hki] at hk
  obtain ⟨L, s, hL, hp⟩ := h k e hk
  rw [List.take_take, show min (k + 1) i = k + 1 by omega]
  exact ⟨L, s, hL, hp⟩

theorem Lost.mono {A : Group N E} {t u u' : ℕ} {p : List E} (hu : u ≤ u') (h : A.Lost t u p) :
    A.Lost t u' p := by
  obtain ⟨w, m, l, htw, hwu, hm, hp⟩ := h
  exact ⟨w, m, l, htw, hwu.trans_le hu, hm, hp⟩

variable (Q : QuorumSystem N)

structure Inv (A : Group N E) : Prop where
  vote_le : ∀ {v t x}, A.vote v t = some x → t ≤ A.term v
  led_le : ∀ {n t l}, A.led n t = some l → t ≤ A.term n
  led_votes : ∀ {n t l}, A.led n t = some l → ∃ S, Q.IsQuorum S ∧ ∀ v ∈ S, ∃ lv,
    A.vote v t = some (n, lv) ∧ UpToDate tm lv l ∧ A.Kept v t t lv
  led_log : ∀ {n l}, A.led n (A.term n) = some l → A.log n = A.lead n (A.term n)
  led_pre : ∀ {n t l}, A.led n t = some l → l <+: A.lead n t
  led_old : ∀ {n t l}, A.led n t = some l → ∀ e ∈ l, tm e < t
  led_new : ∀ {n t l k e}, A.led n t = some l → l.length ≤ k → (A.lead n t)[k]? = some e →
    tm e = t
  wf_log : ∀ n, A.WF tm (A.log n)
  wf_vote : ∀ {v t c l}, A.vote v t = some (c, l) → A.WF tm l
  wf_lead : ∀ {n t l}, A.led n t = some l → A.WF tm (A.lead n t)
  log_le : ∀ {n e}, e ∈ A.log n → tm e ≤ A.term n
  stored_le : ∀ {v t i}, A.stored v t i → t ≤ A.term v
  stored_led : ∀ {v t i}, A.stored v t i →
    ∃ L l, A.led L t = some l ∧ l.length < i ∧ i ≤ (A.lead L t).length
  log_stored : ∀ {v k e}, (A.log v)[k]? = some e → A.stored v (tm e) (k + 1)
  stored_below : ∀ {v t i L l k e}, A.stored v t i → A.led L t = some l → k < i →
    (A.lead L t)[k]? = some e → A.stored v (tm e) (k + 1)
  log_kept : ∀ v, A.Kept v (A.term v + 1) (A.term v + 1) (A.log v)
  vote_kept : ∀ {v t c l}, A.vote v t = some (c, l) → A.Kept v t (t + 1) l

/-! ## One leader a term -/

section Unique

variable {tm Q} {A : Group N E}

theorem Inv.led_votes' (h : Inv tm Q A) {n : N} {t : ℕ} {l : List E} (hn : A.led n t = some l) :
    ∃ S, Q.IsQuorum S ∧ ∀ v ∈ S, ∃ lv, A.vote v t = some (n, lv) := by
  obtain ⟨S, hS, hv⟩ := h.led_votes hn
  exact ⟨S, hS, fun v hvS => (hv v hvS).imp fun _ hlv => hlv.1⟩

/-- A candidate that a quorum voted for is the only leader its term can have. -/
theorem Inv.leader_eq (h : Inv tm Q A) {n m : N} {t : ℕ} {l : List E} {S : Set N}
    (hS : Q.IsQuorum S) (hv : ∀ v ∈ S, ∃ lv, A.vote v t = some (n, lv))
    (hm : A.led m t = some l) : m = n := by
  obtain ⟨T, hT, hw⟩ := h.led_votes' hm
  obtain ⟨v, hvS, hvT⟩ := Q.inter hS hT
  obtain ⟨_, h1⟩ := hv v hvS
  obtain ⟨_, h2⟩ := hw v hvT
  rw [h1] at h2
  simp only [Option.some.injEq, Prod.mk.injEq] at h2
  exact h2.1.symm

theorem Inv.leader_unique (h : Inv tm Q A) {n m : N} {t : ℕ} {l l' : List E}
    (hn : A.led n t = some l) (hm : A.led m t = some l') : n = m := by
  obtain ⟨S, hS, hv⟩ := h.led_votes' hm
  exact h.leader_eq hS hv hn

/-- A replica has not voted in a term it has not reached, nor led it. -/
theorem Inv.vote_eq_none (h : Inv tm Q A) {v : N} {t : ℕ} (ht : A.term v < t) :
    A.vote v t = none := by
  cases hv : A.vote v t with
  | none => rfl
  | some x => exact absurd (h.vote_le hv) (by omega)

theorem Inv.not_led (h : Inv tm Q A) {n : N} {t : ℕ} (ht : A.term n < t) :
    ¬ ∃ l, A.led n t = some l := by
  rintro ⟨l, hl⟩
  exact absurd (h.led_le hl) (by omega)

theorem Inv.stored_length_le (h : Inv tm Q A) {v L : N} {t i : ℕ} {s : List E}
    (hv : A.stored v t i) (hL : A.led L t = some s) : s.length < i ∧ i ≤ (A.lead L t).length := by
  obtain ⟨L', l, hL', hli, hi⟩ := h.stored_led hv
  obtain rfl := h.leader_unique hL hL'
  rw [hL] at hL'
  simp only [Option.some.injEq] at hL'
  subst hL'
  exact ⟨hli, hi⟩

theorem Inv.lead_le (h : Inv tm Q A) {L : N} {t : ℕ} {s : List E} (hL : A.led L t = some s)
    {e : E} (he : e ∈ A.lead L t) : tm e ≤ t := by
  obtain ⟨k, hk⟩ := List.mem_iff_getElem?.1 he
  rcases Nat.lt_or_ge k s.length with hks | hks
  · rw [prefix_getElem? (h.led_pre hL) hks] at hk
    exact (h.led_old hL e (List.mem_of_getElem? hk)).le
  · exact (h.led_new hL hks hk).le

end Unique

/-! ## Steps -/

section Steps

variable [DecidableEq N]

/-- `f` with the value at `n` and `t` replaced. -/
def update₂ {X : Type*} (f : N → ℕ → X) (n : N) (t : ℕ) (x : X) : N → ℕ → X :=
  fun m u => if m = n ∧ u = t then x else f m u

theorem update₂_of_ne {X : Type*} {f : N → ℕ → X} {n m : N} {t u : ℕ} {x : X} (h : m ≠ n) :
    update₂ f n t x m u = f m u :=
  if_neg fun hm => h hm.1

def raise (A : Group N E) (n : N) (t : ℕ) : Group N E :=
  { A with term := Function.update A.term n t }

/-- `v` votes for `c` in its term. -/
def castVote (A : Group N E) (v c : N) : Group N E :=
  { A with vote := update₂ A.vote v (A.term v) (some (c, A.log v)) }

def elect (A : Group N E) (n : N) : Group N E :=
  { A with
    led := update₂ A.led n (A.term n) (some (A.log n))
    lead := update₂ A.lead n (A.term n) (A.log n) }

def append (A : Group N E) (n : N) (e : E) : Group N E :=
  { A with
    log := Function.update A.log n (A.log n ++ [e])
    lead := update₂ A.lead n (A.term n) (A.log n ++ [e])
    stored := fun v t i => A.stored v t i ∨ v = n ∧ t = A.term n ∧ i = (A.log n).length + 1 }

open scoped Classical in
/-- `v` takes the entry at `i` of the log `L` leads its term with. -/
noncomputable def store (A : Group N E) (v L : N) (i : ℕ) : Group N E :=
  { A with
    log := Function.update A.log v
      (if (A.lead L (A.term v)).take i <+: A.log v then A.log v
        else (A.lead L (A.term v)).take i)
    stored := fun w t j => A.stored w t j ∨ w = v ∧ t = A.term v ∧ j = i }

inductive Step : Group N E → Group N E → Prop
  | raise {A : Group N E} {n : N} {t : ℕ} (ht : A.term n < t) : Step A (A.raise n t)
  | castVote {A : Group N E} {v : N} (c : N) (hv : A.vote v (A.term v) = none) :
      Step A (A.castVote v c)
  | elect {A : Group N E} {n : N} {S : Set N} (hS : Q.IsQuorum S)
      (hv : ∀ v ∈ S, ∃ l, A.vote v (A.term n) = some (n, l) ∧ UpToDate tm l (A.log n))
      (hn : A.led n (A.term n) = none) : Step A (A.elect n)
  | append {A : Group N E} {n : N} {e : E} {l : List E} (hn : A.led n (A.term n) = some l)
      (he : tm e = A.term n) : Step A (A.append n e)
  | store {A : Group N E} {v L : N} {i : ℕ} {l : List E} (hL : A.led L (A.term v) = some l)
      (hl : l.length < i) (hi : i ≤ (A.lead L (A.term v)).length)
      (hp : (A.lead L (A.term v)).take (i - 1) <+: A.log v) : Step A (A.store v L i)

end Steps

end Group

end TermLog
