import Mathlib.Data.List.Basic
import Mathlib.Tactic.SplitIfs

/-!
# Joined lists

Items with a separator between them: what a joined list contains and ends in, and that what it is
split into has no separator.
-/

namespace Joined

variable {α : Type*} [DecidableEq α] {c : α}

theorem notMem_of_mem_splitOn : ∀ {l x : List α}, x ∈ l.splitOn c → c ∉ x
  | [], x, hx => by
    rw [List.splitOn_nil, List.mem_singleton] at hx
    simp [hx]
  | b :: l, x, hx => by
    rw [List.splitOn_cons_eq_if_modifyHead] at hx
    split_ifs at hx with hb
    · rcases List.mem_cons.1 hx with rfl | hx
      · simp
      · exact notMem_of_mem_splitOn hx
    · cases hl : l.splitOn c with
      | nil => exact absurd hl (List.splitOn_ne_nil _ _)
      | cons y ys =>
        rw [hl, List.modifyHead_cons] at hx
        rcases List.mem_cons.1 hx with rfl | hx
        · have hy : c ∉ y := notMem_of_mem_splitOn (hl ▸ List.mem_cons_self)
          rw [List.mem_cons, not_or]
          exact ⟨fun hc => hb (beq_iff_eq.2 hc.symm), hy⟩
        · exact notMem_of_mem_splitOn (hl ▸ List.mem_cons_of_mem _ hx)

omit [DecidableEq α] in
theorem mem_intercalate {b : α} : ∀ {l : List (List α)}, b ∈ [c].intercalate l →
    b = c ∨ ∃ x ∈ l, b ∈ x
  | [], h => by simp at h
  | [x], h => by
    rw [List.intercalate_singleton] at h
    exact .inr ⟨x, List.mem_singleton_self x, h⟩
  | x :: y :: l, h => by
    rw [List.intercalate_cons_cons, List.mem_append, List.mem_append, List.mem_singleton] at h
    rcases h with (h | h) | h
    · exact .inr ⟨x, List.mem_cons_self, h⟩
    · exact .inl h
    · exact (mem_intercalate h).imp_right fun hx =>
        hx.imp fun z hz => ⟨List.mem_cons_of_mem _ hz.1, hz.2⟩

omit [DecidableEq α] in
/-- A joined list ends in its last item, behind a separator if it is not the only one. -/
theorem intercalate_concat (a : List α) : ∀ l : List (List α),
    [c].intercalate (l ++ [a]) = a ∨ ∃ x, [c].intercalate (l ++ [a]) = x ++ c :: a
  | [] => .inl List.intercalate_singleton
  | x :: l => by
    right
    rw [List.cons_append, List.intercalate_cons_of_ne_nil (by simp)]
    rcases intercalate_concat a l with h | ⟨y, h⟩
    · exact ⟨x, by rw [h, List.append_assoc]; rfl⟩
    · exact ⟨x ++ c :: y, by rw [h]; simp⟩

omit [DecidableEq α] in
theorem prefix_of_notMem {sep u v : List α} (h : sep <+: u ++ c :: v) (hc : c ∉ sep) :
    sep <+: u := by
  have hu : u ++ [c] <+: u ++ c :: v := ⟨v, by simp⟩
  rcases List.prefix_or_prefix_of_prefix h hu with hsep | hsep
  · rcases List.prefix_concat_iff.1 hsep with heq | hsep
    · exact absurd (by rw [heq]; simp) hc
    · exact hsep
  · exact absurd (hsep.subset (by simp)) hc

end Joined
