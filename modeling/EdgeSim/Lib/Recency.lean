import EdgeSim.Lib.Lists
import Mathlib.Data.List.Dedup
import Mathlib.Data.List.Pairwise

/-!
# Least recently used

A list of entries with a key each, as a history of uses. The most recent entry of every key, in
order, is what a cache without a bound would hold; a cache that keeps the last few after each use
holds the end of that list.
-/

namespace Recency

open Lists

variable {α κ : Type*} [DecidableEq κ] (key : α → κ)

/-- The most recent entry of each key, least recently used first. -/
def latest (l : List α) : List α := l.pwFilter fun x y => key x ≠ key y

/-- One use of `x` in a cache of `n` entries. -/
def touch (n : ℕ) (l : List α) (x : α) : List α :=
  (l.filter (fun y => key y ≠ key x) ++ [x]).rtake n

variable {key} {l : List α} {n : ℕ} {k : κ}

theorem map_latest (l : List α) : (latest key l).map key = (l.map key).dedup :=
  (List.pwFilter_map (R := (· ≠ ·)) key l).symm

theorem nodup_latest (l : List α) : ((latest key l).map key).Nodup := by
  rw [map_latest]
  exact List.nodup_dedup _

theorem latest_cons (x : α) (l : List α) :
    latest key (x :: l) = if key x ∈ l.map key then latest key l else x :: latest key l := by
  have hmem : (∀ y ∈ latest key l, key x ≠ key y) ↔ key x ∉ l.map key := by
    rw [← List.mem_dedup, ← map_latest, List.mem_map]
    grind
  split_ifs with h
  · exact List.pwFilter_cons_of_neg (hmem.not.2 (not_not_intro h))
  · exact List.pwFilter_cons_of_pos (hmem.2 h)

theorem latest_concat (l : List α) (x : α) :
    latest key (l ++ [x]) = (latest key l).filter (fun y => key y ≠ key x) ++ [x] := by
  induction l with
  | nil => rfl
  | cons y l ih =>
    have hmem : key y ∈ (l ++ [x]).map key ↔ key y ∈ l.map key ∨ key y = key x := by simp
    rw [List.cons_append, latest_cons, latest_cons, ih]
    by_cases hl : key y ∈ l.map key
    · rw [if_pos (hmem.2 (.inl hl)), if_pos hl]
    · rw [if_neg hl]
      by_cases hx : key y = key x
      · rw [if_pos (hmem.2 (.inr hx)), List.filter_cons_of_neg (by simpa using hx)]
      · rw [if_neg (hmem.not.2 (not_or.2 ⟨hl, hx⟩)), List.filter_cons_of_pos (by simpa using hx),
          List.cons_append]

theorem eraseP_eq_filter (h : (l.map key).Nodup) :
    (l.eraseP fun y => key y = k) = l.filter fun y => key y ≠ k := by
  induction l with
  | nil => rfl
  | cons x l ih =>
    rw [List.map_cons, List.nodup_cons] at h
    by_cases hx : key x = k
    · rw [List.eraseP_cons_of_pos (by simpa using hx), List.filter_cons_of_neg (by simpa using hx),
        filter_eq_self_of_notMem (hx ▸ h.1)]
    · rw [List.eraseP_cons_of_neg (by simpa using hx), List.filter_cons_of_pos (by simpa using hx),
        ih h.2]

/-- With distinct keys at most one entry has a given one. -/
theorem length_le_filter (h : (l.map key).Nodup) :
    l.length ≤ (l.filter fun y => key y ≠ k).length + 1 := by
  have herase := List.le_length_eraseP (p := fun y => key y = k) (l := l)
  rw [eraseP_eq_filter h] at herase
  omega

/-- Keys stay distinct when an entry moves to the end. -/
theorem nodup_filter_concat (h : (l.map key).Nodup) (x : α) :
    ((l.filter (fun y => key y ≠ key x) ++ [x]).map key).Nodup := by
  rw [List.map_append, List.map_singleton, List.nodup_append]
  refine ⟨h.sublist (List.filter_sublist.map _), List.nodup_singleton _, ?_⟩
  intro k hk k' hk' hkk'
  obtain ⟨y, hy, rfl⟩ := List.mem_map.1 hk
  rw [List.mem_singleton.1 hk'] at hkk'
  exact absurd hkk' (by simpa using (List.mem_filter.1 hy).2)

theorem rtake_sublist (l : List α) (n : ℕ) : (l.rtake n).Sublist l := List.drop_sublist _ _

theorem rtake_filter (h : (l.map key).Nodup) :
    ((l.rtake (n + 1)).filter fun y => key y ≠ k).rtake n
      = (l.filter fun y => key y ≠ k).rtake n := by
  rcases le_or_gt l.length (n + 1) with hlen | hlen
  · rw [rtake_of_length_le hlen]
  · have hsplit : l.take (l.length - (n + 1)) ++ l.rtake (n + 1) = l := List.take_append_drop _ _
    have hdistinct : ((l.rtake (n + 1)).map key).Nodup := h.sublist ((rtake_sublist _ _).map key)
    have hkept := length_le_filter (k := k) hdistinct
    have hrlen : (l.rtake (n + 1)).length = n + 1 := by
      rw [List.rtake, List.length_drop]
      omega
    conv_rhs => rw [← hsplit, List.filter_append]
    rw [rtake_append_of_le (by omega)]

theorem touch_sublist (l : List α) (x : α) :
    (touch key n l x).Sublist (l.filter (fun y => key y ≠ key x) ++ [x]) :=
  rtake_sublist _ _

/-- A use takes the end of the history to the end of the longer history. -/
theorem touch_latest (hn : 0 < n) (l : List α) (x : α) :
    touch key n ((latest key l).rtake n) x = (latest key (l ++ [x])).rtake n := by
  obtain ⟨m, rfl⟩ : ∃ m, n = m + 1 := ⟨n - 1, by omega⟩
  rw [touch, latest_concat, List.rtake_concat_succ, List.rtake_concat_succ,
    rtake_filter (nodup_latest l)]

end Recency
