import Mathlib.Data.List.Basic
import Mathlib.Data.List.DropRight
import Mathlib.Data.List.Induction
import Mathlib.Tactic.SplitIfs

/-!
# Lists

Places in a list that is a prefix of another, that has grown by an element or is written to, and
the end of a list.
-/

namespace Lists

variable {α : Type*} {l l' : List α} {k n : ℕ} {x y : α}

/-! ## Prefixes -/

theorem prefix_getElem? (h : l <+: l') (hk : k < l.length) : l'[k]? = l[k]? := by
  obtain ⟨m, rfl⟩ := h
  exact List.getElem?_append_left hk

theorem take_isPrefix (h : l <+: l') (k : ℕ) : l.take k <+: l' :=
  List.take_prefix k l |>.trans h

theorem take_eq_of_isPrefix (h : l <+: l') (hk : k ≤ l.length) : l'.take k = l.take k := by
  obtain ⟨m, rfl⟩ := h
  exact List.take_append_of_le_length hk

/-- Two prefixes of one list that are equally long are equal. -/
theorem take_eq_take_of_isPrefix {m : List α} (h : l.take k <+: m) (h' : l'.take k <+: m)
    (hk : k ≤ l.length) (hk' : k ≤ l'.length) : l.take k = l'.take k :=
  (List.prefix_of_prefix_length_le h h' (by simp [hk, hk'])).eq_of_length (by simp [hk, hk'])

theorem getElem?_eq_of_isPrefix (h : l.take (k + 1) <+: l') (hx : l[k]? = some x) :
    l'[k]? = some x := by
  have hk := (List.getElem?_eq_some_iff.1 hx).1
  rw [prefix_getElem? h (by simp; omega), List.getElem?_take_of_lt (by omega)]
  exact hx

/-! ## Places -/

theorem getElem?_concat_cases (h : (l ++ [y])[k]? = some x) :
    l[k]? = some x ∧ k < l.length ∨ k = l.length ∧ x = y := by
  rcases Nat.lt_or_ge k l.length with hk | hk
  · rw [List.getElem?_append_left hk] at h
    exact .inl ⟨h, hk⟩
  · rw [List.getElem?_append_right hk, List.getElem?_singleton] at h
    split_ifs at h with h0
    simp only [Option.some.injEq] at h
    exact .inr ⟨by omega, h.symm⟩

theorem set_of_getElem? (h : l[k]? = some x) : l.set k x = l := by
  obtain ⟨hk, rfl⟩ := List.getElem?_eq_some_iff.1 h
  exact List.set_getElem_self hk

theorem filterMap_getElem?_range (l : List α) :
    (List.range l.length).filterMap (fun i => l[i]?) = l := by
  induction l using List.reverseRecOn with
  | nil => rfl
  | append_singleton l x ih =>
    rw [List.length_append, List.length_singleton, List.range_succ, List.filterMap_append]
    have hold : (List.range l.length).filterMap (fun i => (l ++ [x])[i]?)
        = (List.range l.length).filterMap fun i => l[i]? :=
      List.filterMap_congr fun i hi => List.getElem?_append_left (List.mem_range.1 hi)
    rw [hold, ih]
    simp

theorem count_concat_of_ne [DecidableEq α] (h : x ≠ y) : (l ++ [x]).count y = l.count y := by
  rw [List.count_append, List.count_singleton, if_neg (by simpa using h), Nat.add_zero]

theorem ite_mem_mono [DecidableEq α] (h : l ⊆ l') (x : α) :
    (if x ∈ l then 1 else 0) ≤ if x ∈ l' then 1 else 0 := by
  split_ifs with h1 h2
  · exact le_rfl
  · exact absurd (h h1) h2
  · exact Nat.zero_le _
  · exact le_rfl

theorem filter_eq_self_of_notMem {κ : Type*} [DecidableEq κ] {key : α → κ} {a : κ}
    (h : a ∉ l.map key) : (l.filter fun y => key y ≠ a) = l := by
  rw [List.filter_eq_self]
  intro y hy
  have hne : key y ≠ a := fun hya => h (List.mem_map.2 ⟨y, hy, hya⟩)
  simpa using hne

/-! ## The end of a list -/

theorem rtake_of_length_le (h : l.length ≤ n) : l.rtake n = l := by
  rw [List.rtake, Nat.sub_eq_zero_of_le h, List.drop_zero]

theorem rtake_append_of_le (h : n ≤ l'.length) : (l ++ l').rtake n = l'.rtake n := by
  have hlen : (l ++ l').length - n = l.length + (l'.length - n) := by
    rw [List.length_append]
    omega
  rw [List.rtake, List.rtake, hlen, List.drop_append]
  simp

theorem rtake_append_of_ge (h : l'.length ≤ n) :
    (l ++ l').rtake n = l.rtake (n - l'.length) ++ l' := by
  have hlen : (l ++ l').length - n = l.length - (n - l'.length) := by
    rw [List.length_append]
    omega
  rw [List.rtake, List.rtake, hlen, List.drop_append_of_le_length (by omega)]

end Lists
