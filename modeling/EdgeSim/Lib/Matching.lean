import EdgeSim.Lib.Lists
import Mathlib.Data.List.Forall2
import Mathlib.Data.List.Nodup
import Mathlib.Data.List.Perm.Subperm
import Mathlib.Tactic.Choose

/-!
# Matching a list into another

If every element of a list has a place in another list, and no two have the same, then what stands
at these places is part of the other list, repetitions counted. Lists of pairs from one table are
compared by their keys.
-/

namespace EdgeSim.Matching

open Lists

variable {α β : Type*} {l : List α} {m : List β}

theorem places_subperm {is : List ℕ} (h : is.Nodup) (hlt : ∀ i ∈ is, i < m.length) :
    (is.filterMap fun i => m[i]?).Subperm m := by
  obtain ⟨is', hperm, hsub⟩ := h.subperm fun i hi => List.mem_range.2 (hlt i hi)
  have hrange := hsub.filterMap fun i => m[i]?
  rw [filterMap_getElem?_range] at hrange
  exact ⟨_, hperm.filterMap _, hrange⟩

/-- `S x i` says that the place of `x` is `i`. -/
theorem exists_subperm {R : α → β → Prop} {S : α → ℕ → Prop} (hl : l.Nodup)
    (hplace : ∀ x ∈ l, ∃ i, S x i ∧ ∃ b, m[i]? = some b ∧ R x b)
    (hinj : ∀ x ∈ l, ∀ y ∈ l, ∀ i, S x i → S y i → x = y) :
    ∃ bs : List β, bs.Subperm m ∧ List.Forall₂ R l bs := by
  choose! f hf using hplace
  have hnodup : (l.map f).Nodup :=
    hl.map_on fun x hx y hy hxy => hinj x hx y hy (f x) (hf x hx).1 (hxy ▸ (hf y hy).1)
  refine ⟨(l.map f).filterMap fun i => m[i]?, places_subperm hnodup fun i hi => ?_, ?_⟩
  · obtain ⟨x, hx, rfl⟩ := List.mem_map.1 hi
    obtain ⟨-, b, hb, -⟩ := hf x hx
    exact (List.getElem?_eq_some_iff.1 hb).1
  · have hall : ∀ x ∈ l, ∃ b, m[f x]? = some b ∧ R x b := fun x hx => (hf x hx).2
    clear hl hinj hnodup hf
    induction l with
    | nil => exact .nil
    | cons x l ih =>
      obtain ⟨b, hb, hR⟩ := hall x List.mem_cons_self
      rw [List.map_cons, List.filterMap_cons, hb]
      exact .cons hR (ih fun y hy => hall y (List.mem_cons_of_mem x hy))

theorem isPrefix_of_keys {f : α → Option β} {xs ys : List (α × β)}
    (hx : ∀ x ∈ xs, f x.1 = some x.2) (hy : ∀ y ∈ ys, f y.1 = some y.2)
    (h : xs.map Prod.fst <+: ys.map Prod.fst) : xs <+: ys := by
  induction xs generalizing ys with
  | nil => exact List.nil_prefix
  | cons x xs ih =>
    cases ys with
    | nil => cases List.prefix_nil.1 h
    | cons y ys =>
      obtain ⟨hkey, hrest⟩ := List.cons_prefix_cons.1 h
      have hxy : x = y := by
        refine Prod.ext hkey (Option.some.inj ?_)
        rw [← hx x List.mem_cons_self, ← hy y List.mem_cons_self, hkey]
      rw [hxy]
      exact List.cons_prefix_cons.2 ⟨rfl, ih (fun z hz => hx z (List.mem_cons_of_mem x hz))
        (fun z hz => hy z (List.mem_cons_of_mem y hz)) hrest⟩

end EdgeSim.Matching
