import Mathlib.Data.Finset.Card
import Mathlib.Data.Finset.Image
import Mathlib.Data.List.Sort
import Mathlib.Order.Defs.LinearOrder

/-!
# The nearest members of a set

The `k` members of a finite set at the least distances, as the list of them in the order of the
distance. There is at most one such list. It can be taken in steps: from a list of at least `k`
nearest members one may go on as from the whole set, since what the list leaves out is farther than
everything in it.
-/

namespace KNearest

variable {α β γ : Type*} [LinearOrder β] {d : α → β} {k n : ℕ} {S T : Finset α} {l m : List α}

/-- `l` is the list of the `k` members of `S` at the least `d`, all of `S` if it has no more. -/
structure Nearest (d : α → β) (k : ℕ) (S : Finset α) (l : List α) : Prop where
  sorted : l.Pairwise fun x y => d x < d y
  mem : ∀ x ∈ l, x ∈ S
  length_eq : l.length = min k S.card
  closest : ∀ x ∈ S, x ∉ l → ∀ y ∈ l, d y < d x

theorem nodup_of_sorted (h : l.Pairwise fun x y => d x < d y) : l.Nodup :=
  h.imp fun hxy heq => hxy.ne (congrArg d heq)

/-- Lists without repetition that are sorted alike and have the same members are equal. -/
theorem eq_of_sorted (hl : l.Pairwise fun x y => d x < d y) (hm : m.Pairwise fun x y => d x < d y)
    (hmem : ∀ x, x ∈ l ↔ x ∈ m) : l = m := by
  refine List.Perm.eq_of_pairwise ?_ hl hm
    ((List.perm_ext_iff_of_nodup (nodup_of_sorted hl) (nodup_of_sorted hm)).2 hmem)
  exact fun x y _ _ hxy hyx => absurd hxy hyx.asymm

/-- A list that is no shorter, and misses a member of the other, has a member of its own. -/
theorem exists_mem_notMem {y : α} (hl : l.Nodup) (hlen : m.length ≤ l.length) (hy : y ∈ m)
    (hyl : y ∉ l) : ∃ z ∈ l, z ∉ m := by
  by_contra! hsub
  have hle : (y :: l).length ≤ m.length := by
    refine (List.subperm_of_subset (List.nodup_cons.2 ⟨hyl, hl⟩) ?_).length_le
    intro x hx
    rcases List.mem_cons.1 hx with rfl | hx
    · exact hy
    · exact hsub x hx
  rw [List.length_cons] at hle
  omega

/-- The first `k` of a sorted list are its nearest. -/
theorem nearest_take [DecidableEq α] (k : ℕ) (h : l.Pairwise fun x y => d x < d y) :
    Nearest d k l.toFinset (l.take k) where
  sorted := h.sublist (List.take_sublist k l)
  mem := fun x hx => List.mem_toFinset.2 (List.mem_of_mem_take hx)
  length_eq := by rw [List.length_take, List.toFinset_card_of_nodup (nodup_of_sorted h)]
  closest := by
    intro x hx hxl y hy
    rw [← List.take_append_drop k l, List.pairwise_append] at h
    rw [List.mem_toFinset, ← List.take_append_drop k l, List.mem_append] at hx
    exact h.2.2 y hy x (hx.resolve_left hxl)

theorem exists_nearest (hd : Function.Injective d) (k : ℕ) (S : Finset α) :
    ∃ l, Nearest d k S l := by
  classical
  have htotal : Std.Total fun x y : α => d x ≤ d y := ⟨fun x y => le_total (d x) (d y)⟩
  have htrans : IsTrans α fun x y => d x ≤ d y := ⟨fun _ _ _ hxy hyz => hxy.trans hyz⟩
  have hperm := List.perm_insertionSort (fun x y => d x ≤ d y) S.toList
  have hsorted : (S.toList.insertionSort fun x y => d x ≤ d y).Pairwise fun x y => d x < d y := by
    refine ((List.pairwise_insertionSort _ _).and (hperm.nodup_iff.2 S.nodup_toList)).imp ?_
    exact fun hxy => lt_of_le_of_ne hxy.1 fun heq => hxy.2 (hd heq)
  have hS : (S.toList.insertionSort fun x y => d x ≤ d y).toFinset = S := by
    rw [List.toFinset_eq_of_perm _ _ hperm, Finset.toList_toFinset]
  exact ⟨_, hS ▸ nearest_take k hsorted⟩

namespace Nearest

theorem nodup (h : Nearest d k S l) : l.Nodup := nodup_of_sorted h.sorted

/-- A member that is left out leaves the list at its full length. -/
theorem length_of_notMem {x : α} (h : Nearest d k S l) (hx : x ∈ S) (hxl : x ∉ l) :
    l.length = k := by
  classical
  have hlt : l.length < S.card := by
    rw [← List.toFinset_card_of_nodup h.nodup]
    refine Finset.card_lt_card (Finset.ssubset_iff_of_subset ?_ |>.2 ⟨x, hx, ?_⟩)
    · exact fun y hy => h.mem y (List.mem_toFinset.1 hy)
    · exact fun hmem => hxl (List.mem_toFinset.1 hmem)
  have hlen := h.length_eq
  omega

/-- A set of at most `k` members is all in the list. -/
theorem mem_of_card_le {x : α} (h : Nearest d k S l) (hk : S.card ≤ k) (hx : x ∈ S) : x ∈ l := by
  classical
  have hsub : l.toFinset ⊆ S := fun y hy => h.mem y (List.mem_toFinset.1 hy)
  have hcard : S.card ≤ l.toFinset.card := by
    rw [List.toFinset_card_of_nodup h.nodup, h.length_eq, min_eq_right hk]
  rw [← Finset.eq_of_subset_of_card_le hsub hcard] at hx
  exact List.mem_toFinset.1 hx

/-- A member among the nearest of a set is among the nearest of every subset it is in. -/
theorem mem_of_subset {x : α} (h : Nearest d k T l) (h' : Nearest d k S m) (hST : S ⊆ T)
    (hx : x ∈ l) (hxS : x ∈ S) : x ∈ m := by
  by_contra hxm
  have hm := h'.length_of_notMem hxS hxm
  have hl := h.length_eq
  obtain ⟨z, hz, hzl⟩ := exists_mem_notMem h'.nodup (by omega : l.length ≤ m.length) hx hxm
  exact (h'.closest x hxS hxm z hz).asymm (h.closest z (hST (h'.mem z hz)) hzl x hx)

theorem eq (h : Nearest d k S l) (h' : Nearest d k S m) : l = m :=
  eq_of_sorted h.sorted h'.sorted fun x =>
    ⟨fun hx => h.mem_of_subset h' subset_rfl hx (h.mem x hx),
      fun hx => h'.mem_of_subset h subset_rfl hx (h'.mem x hx)⟩

/-- The nearest of a set are the nearest of any part of it that has them. -/
theorem restrict (h : Nearest d k T l) (hlS : ∀ x ∈ l, x ∈ S) (hST : S ⊆ T) :
    Nearest d k S l where
  sorted := h.sorted
  mem := hlS
  length_eq := by
    classical
    have hle : l.length ≤ S.card := by
      rw [← List.toFinset_card_of_nodup h.nodup]
      exact Finset.card_le_card fun x hx => hlS x (List.mem_toFinset.1 hx)
    have hcard := Finset.card_le_card hST
    have hlen := h.length_eq
    omega
  closest := fun x hx => h.closest x (hST hx)

theorem head_le {x : α} (h : Nearest d k S (x :: l)) {y : α} (hy : y ∈ S) : d x ≤ d y := by
  by_cases hmem : y ∈ x :: l
  · rcases List.mem_cons.1 hmem with rfl | hl
    · exact le_rfl
    · exact (List.rel_of_pairwise_cons h.sorted hl).le
  · exact (h.closest y hy hmem x List.mem_cons_self).le

/-- The least member comes first. -/
theorem exists_cons {x : α} (h : Nearest d k S l) (hk : 0 < k) (hx : x ∈ S)
    (hleast : ∀ y ∈ S, y ≠ x → d x < d y) : ∃ rest, l = x :: rest := by
  have hlen := h.length_eq
  have hcard := Finset.card_pos.2 ⟨x, hx⟩
  cases l with
  | nil =>
    rw [List.length_nil] at hlen
    omega
  | cons y rest =>
    by_cases hyx : y = x
    · exact ⟨rest, by rw [hyx]⟩
    · exact absurd (h.head_le hx) (hleast y (h.mem y List.mem_cons_self) hyx).not_ge

theorem take (h : Nearest d n S l) (hk : k ≤ n) : Nearest d k S (l.take k) where
  sorted := h.sorted.sublist (List.take_sublist k l)
  mem := fun x hx => h.mem x (List.mem_of_mem_take hx)
  length_eq := by
    rw [List.length_take, h.length_eq]
    omega
  closest := by
    classical
    intro x hx hxl y hy
    by_cases hmem : x ∈ l
    · exact (nearest_take k h.sorted).closest x (List.mem_toFinset.2 hmem) hxl y hy
    · exact h.closest x hx hmem y (List.mem_of_mem_take hy)

/-- What is left out of the `k` nearest of `S` is not among the `k` nearest of a larger set. -/
theorem absorb [DecidableEq α] (h : Nearest d k S l) (h' : Nearest d k (l.toFinset ∪ T) m) :
    Nearest d k (S ∪ T) m where
  sorted := h'.sorted
  mem := by
    intro x hx
    rcases Finset.mem_union.1 (h'.mem x hx) with hxl | hxT
    · exact Finset.mem_union_left _ (h.mem x (List.mem_toFinset.1 hxl))
    · exact Finset.mem_union_right _ hxT
  length_eq := by
    have hsub : l.toFinset ⊆ S := fun x hx => h.mem x (List.mem_toFinset.1 hx)
    have hcard := List.toFinset_card_of_nodup h.nodup
    have hl := h.length_eq
    rw [h'.length_eq]
    rcases Nat.lt_or_ge k S.card with hk | hk
    · have h1 := Finset.card_le_card (Finset.subset_union_left : l.toFinset ⊆ l.toFinset ∪ T)
      have h2 := Finset.card_le_card (Finset.subset_union_left : S ⊆ S ∪ T)
      omega
    · rw [Finset.eq_of_subset_of_card_le hsub (by omega)]
  closest := by
    intro x hx hxm y hy
    by_cases hmem : x ∈ l.toFinset ∪ T
    · exact h'.closest x hmem hxm y hy
    · simp only [Finset.mem_union, List.mem_toFinset, not_or] at hmem
      have hxS : x ∈ S := (Finset.mem_union.1 hx).resolve_right hmem.2
      by_cases hyl : y ∈ l
      · exact h.closest x hxS hmem.1 y hyl
      · -- `l` is full, so it has a member that `m` leaves out, between the two
        have hl := h.length_of_notMem hxS hmem.1
        have hm := h'.length_eq
        obtain ⟨z, hz, hzm⟩ := exists_mem_notMem h.nodup (by omega : m.length ≤ l.length) hy hyl
        exact (h'.closest z (Finset.mem_union_left _ (List.mem_toFinset.2 hz)) hzm y hy).trans
          (h.closest x hxS hmem.1 z hz)

theorem map [DecidableEq γ] {e : γ → β} {f : α → γ} (h : Nearest (fun x => e (f x)) k S l)
    (hf : Set.InjOn f S) : Nearest e k (S.image f) (l.map f) where
  sorted := List.pairwise_map.2 h.sorted
  mem := by
    intro x hx
    obtain ⟨y, hy, rfl⟩ := List.mem_map.1 hx
    exact Finset.mem_image_of_mem f (h.mem y hy)
  length_eq := by rw [List.length_map, h.length_eq, Finset.card_image_of_injOn hf]
  closest := by
    intro x hx hxl y hy
    obtain ⟨x, hxS, rfl⟩ := Finset.mem_image.1 hx
    obtain ⟨y, hyl, rfl⟩ := List.mem_map.1 hy
    exact h.closest x hxS (fun hmem => hxl (List.mem_map_of_mem hmem)) y hyl

end Nearest

end KNearest
