import EdgeSim.Raft.Node
import Mathlib.Data.Nat.Find
import Mathlib.Order.MinMax

/-!
# What `appendEntries` leaves in the log

The loop cuts the log at the first entry whose term differs from the one sent, and from then on
appends: the log it compares with has become shorter than the index. So the outcome is decided by
the first conflict with the log the call found.
-/

namespace EdgeSim.Raft.Node

/-- Entry `j` of the request stands against an entry of another term in the log. -/
def ConflictAt (log : List LogEntry) (prevIndex : ℕ) (es : List LogEntry) (j : ℕ) : Prop :=
  ∃ e e', log[prevIndex + j]? = some e ∧ es[j]? = some e' ∧ e.term ≠ e'.term

variable {log : List LogEntry} {index : ℕ} {e : LogEntry} {es : List LogEntry}

theorem ConflictAt.lt_length {j : ℕ} (h : ConflictAt log index es j) :
    index + j < log.length := by
  obtain ⟨_, _, hx, -⟩ := h
  exact (List.getElem?_eq_some_iff.1 hx).1

theorem conflictAt_succ {j : ℕ} :
    ConflictAt log index (e :: es) (j + 1) ↔ ConflictAt log (index + 1) es j := by
  simp only [ConflictAt, List.getElem?_cons_succ, Nat.add_assoc, Nat.add_comm 1 j]

theorem appendEntry_eq_of_agree (h : ¬ ConflictAt log index (e :: es) 0)
    (hi : index < log.length) : appendEntry log index e = log := by
  unfold appendEntry
  rw [List.getElem?_eq_getElem hi]
  dsimp only
  rw [if_neg]
  intro hterm
  exact h ⟨_, e, List.getElem?_eq_getElem hi, rfl, hterm⟩

theorem appendEntry_eq_of_conflict (h : ConflictAt log index (e :: es) 0) :
    appendEntry log index e = log.take index ++ [e] := by
  obtain ⟨x, y, hx, hy, hterm⟩ := h
  simp only [Nat.add_zero] at hx
  simp only [List.getElem?_cons_zero, Option.some.injEq] at hy
  subst hy
  unfold appendEntry
  rw [hx]
  exact if_pos hterm

theorem appendEntry_length : appendEntry log log.length e = log ++ [e] := by
  unfold appendEntry
  rw [List.getElem?_eq_none le_rfl]

/-- At the end of the log every entry is appended. -/
theorem appendFrom_length : ∀ (es log : List LogEntry), appendFrom log log.length es = log ++ es
  | [], log => (List.append_nil log).symm
  | e :: es, log => by
    have hlen : log.length + 1 = (log ++ [e]).length := by simp
    rw [appendFrom, appendEntry_length, hlen, appendFrom_length es, List.append_assoc]
    rfl

theorem appendFrom_of_agree : ∀ {es : List LogEntry} {index : ℕ}, index ≤ log.length →
    (∀ j, ¬ ConflictAt log index es j) →
      appendFrom log index es = log ++ es.drop (log.length - index)
  | [], index, _, _ => by simp [appendFrom]
  | e :: es, index, hi, h => by
    rcases hi.eq_or_lt with rfl | hi
    · rw [appendFrom_length, Nat.sub_self, List.drop_zero]
    · have hdrop : log.length - index = log.length - (index + 1) + 1 := by omega
      rw [appendFrom, appendEntry_eq_of_agree (h 0) hi,
        appendFrom_of_agree hi fun j => conflictAt_succ.not.1 (h (j + 1)), hdrop,
        List.drop_succ_cons]

theorem appendFrom_of_conflict : ∀ {es : List LogEntry} {index j : ℕ},
    ConflictAt log index es j → (∀ i < j, ¬ ConflictAt log index es i) →
      appendFrom log index es = log.take (index + j) ++ es.drop j
  | [], index, j, h, _ => by
    obtain ⟨_, _, -, hes, -⟩ := h
    simp at hes
  | e :: es, index, 0, h, _ => by
    have hi := h.lt_length
    have hlen : index + 1 = (log.take index ++ [e]).length := by
      simp only [List.length_append, List.length_take, List.length_singleton]
      omega
    rw [appendFrom, appendEntry_eq_of_conflict h, hlen, appendFrom_length, List.append_assoc]
    rfl
  | e :: es, index, j + 1, h, hfirst => by
    have hi := h.lt_length
    have hrest : ∀ i < j, ¬ ConflictAt log (index + 1) es i := fun i hij =>
      conflictAt_succ.not.1 (hfirst (i + 1) (by omega))
    rw [appendFrom, appendEntry_eq_of_agree (hfirst 0 (by omega)) (by omega),
      appendFrom_of_conflict (conflictAt_succ.1 h) hrest, List.drop_succ_cons]
    congr 2
    omega

/-- The outcome, by the first conflict if there is one. -/
theorem appendFrom_cases (hi : index ≤ log.length) (es : List LogEntry) :
    (∃ j, ConflictAt log index es j ∧ (∀ i < j, ¬ ConflictAt log index es i)
      ∧ appendFrom log index es = log.take (index + j) ++ es.drop j)
    ∨ (∀ j, ¬ ConflictAt log index es j)
      ∧ appendFrom log index es = log ++ es.drop (log.length - index) := by
  classical
  by_cases h : ∃ j, ConflictAt log index es j
  · refine .inl ⟨Nat.find h, Nat.find_spec h, fun i hi => Nat.find_min h hi, ?_⟩
    exact appendFrom_of_conflict (Nat.find_spec h) fun i hi => Nat.find_min h hi
  · have hnone : ∀ j, ¬ ConflictAt log index es j := fun j hj => h ⟨j, hj⟩
    exact .inr ⟨hnone, appendFrom_of_agree hi hnone⟩

theorem take_appendFrom (hi : index ≤ log.length) (es : List LogEntry) :
    (appendFrom log index es).take index = log.take index := by
  rcases appendFrom_cases hi es with ⟨j, hj, -, hlog⟩ | ⟨-, hlog⟩
  · have hlt := hj.lt_length
    rw [hlog, List.take_append_of_le_length (by rw [List.length_take]; omega), List.take_take,
      min_eq_left (by omega)]
  · rw [hlog, List.take_append_of_le_length hi]

theorem exists_of_not_conflictAt {j : ℕ} (h : ¬ ConflictAt log index es j)
    (hj : index + j < log.length) (he : es[j]? = some e) :
    ∃ x, log[index + j]? = some x ∧ x.term = e.term := by
  refine ⟨log[index + j], List.getElem?_eq_getElem hj, ?_⟩
  by_contra hterm
  exact h ⟨_, e, List.getElem?_eq_getElem hj, he, hterm⟩

/-- Every entry of the request stands in the log afterwards, up to its command. -/
theorem getElem?_appendFrom (hi : index ≤ log.length) {j : ℕ} (he : es[j]? = some e) :
    ∃ x, (appendFrom log index es)[index + j]? = some x ∧ x.term = e.term := by
  rcases appendFrom_cases hi es with ⟨k, hk, hfirst, hlog⟩ | ⟨hnone, hlog⟩
  · have hlt := hk.lt_length
    rw [hlog]
    rcases lt_or_ge j k with hjk | hjk
    · obtain ⟨x, hx, hterm⟩ := exists_of_not_conflictAt (hfirst j hjk) (by omega) he
      refine ⟨x, ?_, hterm⟩
      rw [List.getElem?_append_left (by rw [List.length_take]; omega),
        List.getElem?_take_of_lt (by omega), hx]
    · refine ⟨e, ?_, rfl⟩
      rw [List.getElem?_append_right (by rw [List.length_take]; omega), List.length_take,
        List.getElem?_drop, ← he]
      congr 1
      omega
  · rw [hlog]
    rcases lt_or_ge (index + j) log.length with hjk | hjk
    · obtain ⟨x, hx, hterm⟩ := exists_of_not_conflictAt (hnone j) hjk he
      exact ⟨x, by rw [List.getElem?_append_left hjk, hx], hterm⟩
    · refine ⟨e, ?_, rfl⟩
      rw [List.getElem?_append_right hjk, List.getElem?_drop, ← he]
      congr 1
      omega

theorem appendFrom_appendFrom (hi : index ≤ log.length) (es : List LogEntry) :
    appendFrom (appendFrom log index es) index es = appendFrom log index es := by
  have hagree : ∀ j, ¬ ConflictAt (appendFrom log index es) index es j := by
    rintro j ⟨x, e, hx, he, hterm⟩
    obtain ⟨y, hy, hyterm⟩ := getElem?_appendFrom hi he
    rw [hx, Option.some.injEq] at hy
    exact hterm (hy ▸ hyterm)
  have hle : index ≤ (appendFrom log index es).length := by
    have htake := congrArg List.length (take_appendFrom hi es)
    rw [List.length_take, List.length_take] at htake
    omega
  have hlen : es.length ≤ (appendFrom log index es).length - index := by
    by_contra hlt
    obtain ⟨x, hx, -⟩ := getElem?_appendFrom hi
      (List.getElem?_eq_getElem
        (show (appendFrom log index es).length - index < es.length by omega))
    obtain ⟨hbound, -⟩ := List.getElem?_eq_some_iff.1 hx
    omega
  rw [appendFrom_of_agree hle hagree, List.drop_eq_nil_of_le hlen, List.append_nil]

/-- `appendEntries` against its specification: what comes before `prevIndex` stays, the first
conflict decides where the log is cut, and the same request changes nothing the second time. -/
theorem appendEntries_spec (n : Node) {prevIndex : ℕ} (hprev : prevIndex ≤ n.log.length)
    (es : List LogEntry) :
    (n.appendEntries prevIndex es).log.take prevIndex = n.log.take prevIndex
    ∧ (∀ j, ConflictAt n.log prevIndex es j → (∀ i < j, ¬ ConflictAt n.log prevIndex es i) →
        (n.appendEntries prevIndex es).log = n.log.take (prevIndex + j) ++ es.drop j)
    ∧ ((∀ j, ¬ ConflictAt n.log prevIndex es j) →
        (n.appendEntries prevIndex es).log = n.log ++ es.drop (n.log.length - prevIndex))
    ∧ (n.appendEntries prevIndex es).appendEntries prevIndex es = n.appendEntries prevIndex es
    ∧ ((∀ j, ¬ ConflictAt n.log prevIndex es j) →
        n.log.length ≤ (n.appendEntries prevIndex es).log.length) := by
  refine ⟨take_appendFrom hprev es, fun j hj hfirst => appendFrom_of_conflict hj hfirst,
    fun h => appendFrom_of_agree hprev h, ?_, fun h => ?_⟩
  · simp only [appendEntries, appendFrom_appendFrom hprev es]
  · simp only [appendEntries, appendFrom_of_agree hprev h, List.length_append]
    omega

/-- A follower with entries of terms 1, 1 and 2. -/
def follower112 : Node :=
  { id := "b", peers := ["a", "c"], currentTerm := 3, votedFor := "", leaderID := "a"
    state := .follower, log := [⟨1, "x"⟩, ⟨1, "y"⟩, ⟨2, "z"⟩], commitIndex := 1, lastApplied := 1 }

/-- The second entry sent cuts the log, the third goes behind it. -/
theorem appendEntries_spec_112 :
    (follower112.appendEntries 1 [⟨1, "y"⟩, ⟨3, "u"⟩, ⟨3, "v"⟩]).log
      = [⟨1, "x"⟩, ⟨1, "y"⟩, ⟨3, "u"⟩, ⟨3, "v"⟩] := by
  have hspec := appendEntries_spec follower112 (show 1 ≤ follower112.log.length by decide)
    [⟨1, "y"⟩, ⟨3, "u"⟩, ⟨3, "v"⟩]
  refine hspec.2.1 1 ⟨⟨2, "z"⟩, ⟨3, "u"⟩, rfl, rfl, by decide⟩ ?_
  rintro i hi ⟨x, y, hx, hy, hterm⟩
  obtain rfl : i = 0 := by omega
  cases hx
  cases hy
  exact hterm rfl

end EdgeSim.Raft.Node
