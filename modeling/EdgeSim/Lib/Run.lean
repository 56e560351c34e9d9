import Mathlib.Data.List.Induction
import Mathlib.Logic.Relation
import Mathlib.Tactic.SplitIfs

/-!
# Runs of a partial step function

A system is a partial step function; a run takes steps that all meet a condition on the state
before the step and the action. An invariant, and a relation to the states of another system, is
carried along a run by one step lemma.
-/

namespace Runs

variable {σ α τ : Type*}

section

variable (step : σ → α → Option σ) (ok : σ → α → Prop)

/-- The runs from `s` by the actions `as`, every step meeting `ok`. -/
inductive Run (s : σ) : List α → σ → Prop
  | nil : Run s [] s
  | snoc {as : List α} {t u : σ} {a : α} (h : Run s as t) (hok : ok t a) (hs : step t a = some u) :
      Run s (as ++ [a]) u

/-- Runs a list of actions, checking `ok` before each. -/
def exec [∀ s a, Decidable (ok s a)] : σ → List α → Option σ
  | s, [] => some s
  | s, a :: as => if ok s a then (step s a).bind fun t => exec t as else none

end

variable {step : σ → α → Option σ} {ok ok' : σ → α → Prop} {s t u : σ} {as bs : List α}

theorem Run.append (h : Run step ok s as t) (h' : Run step ok t bs u) :
    Run step ok s (as ++ bs) u := by
  induction h' with
  | nil => simpa using h
  | snoc _ hok hs ih =>
    rw [← List.append_assoc]
    exact ih.snoc hok hs

theorem Run.single {a : α} (hok : ok s a) (hs : step s a = some t) : Run step ok s [a] t :=
  (Run.nil (s := s)).snoc hok hs

theorem Run.mono (hmono : ∀ t a, ok t a → ok' t a) (h : Run step ok s as t) :
    Run step ok' s as t := by
  induction h with
  | nil => exact .nil
  | snoc _ hok hs ih => exact ih.snoc (hmono _ _ hok) hs

theorem Run.concat_inv {a : α} (h : Run step ok s (as ++ [a]) u) :
    ∃ t, Run step ok s as t ∧ ok t a ∧ step t a = some u := by
  generalize hl : as ++ [a] = l at h
  cases h with
  | nil => simp at hl
  | snoc h hok hs =>
    obtain ⟨rfl, hlast⟩ := List.append_inj' hl rfl
    obtain rfl := List.singleton_inj.1 hlast
    exact ⟨_, h, hok, hs⟩

theorem Run.split (h : Run step ok s (as ++ bs) u) :
    ∃ t, Run step ok s as t ∧ Run step ok t bs u := by
  induction bs using List.reverseRecOn generalizing u with
  | nil =>
    rw [List.append_nil] at h
    exact ⟨u, h, .nil⟩
  | append_singleton bs b ih =>
    rw [← List.append_assoc] at h
    obtain ⟨v, hv, hok, hs⟩ := h.concat_inv
    obtain ⟨t, hat, htv⟩ := ih hv
    exact ⟨t, hat, htv.snoc hok hs⟩

/-- The actions determine where a run ends. -/
theorem Run.eq (h : Run step ok s as t) (h' : Run step ok' s as u) : t = u := by
  induction h generalizing u with
  | nil =>
    generalize hl : ([] : List α) = l at h'
    cases h' with
    | nil => rfl
    | snoc => simp at hl
  | snoc _ _ hs ih =>
    obtain ⟨v, hv, -, hs'⟩ := h'.concat_inv
    obtain rfl := ih hv
    rw [hs, Option.some.injEq] at hs'
    exact hs'

/-- The actions of a run are those of its list. -/
theorem Run.mem (h : Run step ok s as t) : Run step (fun t a => ok t a ∧ a ∈ as) s as t := by
  induction h with
  | nil => exact .nil
  | snoc _ hok hs ih =>
    refine (ih.mono fun _ _ hb => ⟨hb.1, List.mem_append_left _ hb.2⟩).snoc ⟨hok, ?_⟩ hs
    exact List.mem_append_right _ (List.mem_singleton_self _)

theorem run_of_exec [∀ s a, Decidable (ok s a)] :
    ∀ (as : List α) {s t : σ}, exec step ok s as = some t → Run step ok s as t
  | [], s, t, h => by
    simp only [exec, Option.some.injEq] at h
    subst h
    exact .nil
  | a :: as, s, t, h => by
    simp only [exec] at h
    split_ifs at h with hok
    obtain ⟨u, hu, h⟩ := Option.bind_eq_some_iff.1 h
    exact (Run.single hok hu).append (run_of_exec as h)

/-- A run found by running it. -/
theorem exists_run [∀ s a, Decidable (ok s a)] (as : List α) (p : σ → Bool)
    (h : (exec step ok s as).any p = true) : ∃ t, Run step ok s as t ∧ p t = true := by
  obtain ⟨t, ht, hp⟩ := (Option.any_eq_true _ _).1 h
  exact ⟨t, run_of_exec as ht, hp⟩

/-- The invariant rule. -/
theorem Run.invariant {I : σ → Prop} (h0 : I s)
    (hI : ∀ t a u, I t → ok t a → step t a = some u → I u) (h : Run step ok s as t) : I t := by
  induction h with
  | nil => exact h0
  | snoc _ hok hs ih => exact hI _ _ _ ih hok hs

/-- A reflexive and transitive relation that every step of a run keeps, at states meeting the
invariant, holds between its ends. -/
theorem Run.related {I : σ → Prop} {R : σ → σ → Prop} (hrefl : ∀ t, R t t)
    (htrans : ∀ t u v, R t u → R u v → R t v) (h0 : I s)
    (hI : ∀ t a u, I t → ok t a → step t a = some u → I u ∧ R t u) (h : Run step ok s as t) :
    R s t := by
  have key : I t ∧ R s t := by
    induction h with
    | nil => exact ⟨h0, hrefl _⟩
    | snoc _ hok hs ih =>
      obtain ⟨hI', hR⟩ := hI _ _ _ ih.1 hok hs
      exact ⟨hI', htrans _ _ _ ih.2 hR⟩
  exact key.2

/-- The simulation rule: a step is matched by finitely many steps of the other system. -/
theorem Run.simulate {next : τ → τ → Prop} {R : σ → τ → Prop} {A : τ} (h0 : R s A)
    (hR : ∀ t a u B, Relation.ReflTransGen next A B → R t B → ok t a → step t a = some u →
      ∃ B', Relation.ReflTransGen next B B' ∧ R u B')
    (h : Run step ok s as t) : ∃ B, Relation.ReflTransGen next A B ∧ R t B := by
  induction h with
  | nil => exact ⟨A, .refl, h0⟩
  | snoc _ hok hs ih =>
    obtain ⟨B, hB, hRB⟩ := ih
    obtain ⟨B', hB', hRB'⟩ := hR _ _ _ B hB hRB hok hs
    exact ⟨B', hB.trans hB', hRB'⟩

end Runs
