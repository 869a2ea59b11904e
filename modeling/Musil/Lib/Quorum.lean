import Mathlib.Data.Finset.Card
import Mathlib.Data.Finset.Dedup
import Mathlib.Data.List.Sort
import Mathlib.Order.Bounds.Basic

/-!
# Majorities of a list of members

Any two majorities of the same membership share a member. The membership may list a member more
than once: the threshold counts the list, so it is only harder to reach.
-/

variable {N : Type*} [DecidableEq N]

/-- `Q` holds more than half of the places of `members`. -/
def IsMajority (members : List N) (Q : Finset N) : Prop :=
  Q ⊆ members.toFinset ∧ members.length / 2 + 1 ≤ Q.card

lemma IsMajority.mem {members : List N} {Q : Finset N} (h : IsMajority members Q) {v : N}
    (hv : v ∈ Q) : v ∈ members :=
  List.mem_toFinset.mp (h.1 hv)

lemma IsMajority.nonempty {members : List N} {Q : Finset N} (h : IsMajority members Q) :
    Q.Nonempty :=
  Finset.card_pos.mp (Nat.lt_of_lt_of_le (Nat.succ_pos _) h.2)

/-- Two majorities meet. -/
theorem IsMajority.inter {members : List N} {Q Q' : Finset N} (h : IsMajority members Q)
    (h' : IsMajority members Q') : ∃ v, v ∈ Q ∧ v ∈ Q' := by
  by_contra hne
  push Not at hne
  have hdisj : Disjoint Q Q' := Finset.disjoint_left.mpr hne
  have hcard : (Q ∪ Q').card ≤ members.length :=
    (Finset.card_le_card (Finset.union_subset h.1 h'.1)).trans (List.toFinset_card_le members)
  rw [Finset.card_union_of_disjoint hdisj] at hcard
  have h1 := h.2
  have h2 := h'.2
  omega

/-! ### What a majority has reached -/

/-- In a descending list everything up to position `k` is at least as large as what stands there. -/
lemma le_length_filter_of_sorted {l : List ℕ} (h : l.Pairwise (· ≥ ·)) {k : ℕ}
    (hk : k < l.length) : k + 1 ≤ (l.filter (l[k] ≤ ·)).length := by
  have hall : ∀ x ∈ l.take (k + 1), l[k] ≤ x := by
    intro x hx
    obtain ⟨j, hj, rfl⟩ := List.mem_iff_getElem.mp hx
    rw [List.getElem_take]
    rw [List.length_take] at hj
    rcases Nat.lt_or_ge j k with hjk | hjk
    · exact List.pairwise_iff_getElem.mp h j k (by omega) hk hjk
    · obtain rfl : j = k := by omega
      exact le_rfl
  have hsub := (List.take_sublist (k + 1) l).filter (l[k] ≤ ·)
  rw [List.filter_eq_self.mpr (by simpa using hall)] at hsub
  simpa [Nat.min_eq_left (Nat.succ_le_of_lt hk)] using hsub.length_le

/-- The offset at position `k` of the sorted list has been reached by more than `k` of them. -/
lemma le_length_filter_insertionSort (l : List ℕ) {k : ℕ} (hk : k < l.length) :
    k + 1 ≤ (l.filter ((l.insertionSort (· ≥ ·)).getD k 0 ≤ ·)).length := by
  have hk' : k < (l.insertionSort (· ≥ ·)).length := by
    rwa [List.length_insertionSort]
  have h := le_length_filter_of_sorted (List.pairwise_insertionSort (· ≥ ·) l) hk'
  rw [← List.getElem_eq_getD (h := hk') 0]
  exact h.trans_eq ((List.perm_insertionSort _ l).filter _).length_eq

/-- At position `k` of the sorted list stands the largest offset that more than `k` of them have
reached. -/
theorem isGreatest_insertionSort (l : List ℕ) {k : ℕ} (hk : k < l.length) :
    IsGreatest {x | k + 1 ≤ (l.filter (x ≤ ·)).length} ((l.insertionSort (· ≥ ·)).getD k 0) := by
  refine ⟨le_length_filter_insertionSort l hk, fun x hx => ?_⟩
  have hk' : k < (l.insertionSort (· ≥ ·)).length := by
    rwa [List.length_insertionSort]
  have hsorted := List.pairwise_insertionSort (· ≥ ·) l
  rw [← List.getElem_eq_getD (h := hk') 0]
  by_contra hlt
  -- what reaches `x` stands before position `k`
  have hrest : ((l.insertionSort (· ≥ ·)).drop k).filter (x ≤ ·) = [] := by
    rw [List.filter_eq_nil_iff]
    intro y hy
    obtain ⟨j, hj, rfl⟩ := List.mem_iff_getElem.mp hy
    rw [List.length_drop] at hj
    rw [List.getElem_drop, decide_eq_true_eq]
    have hle : (l.insertionSort (· ≥ ·))[k + j] ≤ (l.insertionSort (· ≥ ·))[k] := by
      rcases Nat.eq_zero_or_pos j with rfl | hpos
      · exact le_rfl
      · exact List.pairwise_iff_getElem.mp hsorted k (k + j) hk' (by omega) (by omega)
    omega
  have hcount : (l.filter (x ≤ ·)).length ≤ k := by
    rw [← ((List.perm_insertionSort (· ≥ ·) l).filter _).length_eq,
      ← List.take_append_drop k (l.insertionSort (· ≥ ·)), List.filter_append, hrest,
      List.append_nil]
    exact (List.length_filter_le _ _).trans (List.length_take_le _ _)
  exact absurd hx (by simpa using Nat.lt_succ_of_le hcount)
