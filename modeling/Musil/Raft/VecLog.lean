import Musil.Raft.Basic
import Musil.Lib.EpochLog

/-!
# The reference log by positions

In a contiguous log the entry at position `k` has offset `k`. There every operation of the
reference log is one on positions: taking, dropping, appending.
-/

namespace Musil.Raft

/-- The offsets are `0, 1, 2, …` in order. -/
def Contiguous (X : List LogEntry) : Prop :=
  X.map (·.offset) = List.range X.length

instance (X : List LogEntry) : Decidable (Contiguous X) :=
  inferInstanceAs (Decidable (_ = _))

section Contiguous

variable {X Y : List LogEntry}

lemma contiguous_nil : Contiguous [] := rfl

lemma Contiguous.concat (h : Contiguous X) {a : LogEntry} (ha : a.offset = X.length) :
    Contiguous (X ++ [a]) := by
  unfold Contiguous at h ⊢
  simp [h, ha, List.range_succ]

lemma Contiguous.take (h : Contiguous X) (n : ℕ) : Contiguous (X.take n) := by
  unfold Contiguous at h ⊢
  rw [List.map_take, h, List.take_range, List.length_take]

lemma Contiguous.of_isPrefix (h : Contiguous X) (hY : Y <+: X) : Contiguous Y := by
  rw [List.prefix_iff_eq_take.mp hY]
  exact h.take _

lemma Contiguous.offset_getElem (h : Contiguous X) {k : ℕ} (hk : k < X.length) :
    X[k].offset = k := by
  have hmap : (X.map (·.offset))[k]? = some k := by
    rw [show X.map (·.offset) = List.range X.length from h, List.getElem?_range hk]
  rw [List.getElem?_map, List.getElem?_eq_getElem hk] at hmap
  exact Option.some.inj hmap

lemma Contiguous.offset_lt (h : Contiguous X) {a : LogEntry} (ha : a ∈ X) :
    a.offset < X.length := by
  have : a.offset ∈ X.map (·.offset) := List.mem_map_of_mem ha
  rw [show X.map (·.offset) = List.range X.length from h] at this
  exact List.mem_range.mp this

/-- The entry at an offset is the one at that position. -/
lemma Contiguous.getElem?_offset (h : Contiguous X) {a : LogEntry} (ha : a ∈ X) :
    X[a.offset]? = some a := by
  obtain ⟨k, hk, rfl⟩ := List.mem_iff_getElem.mp ha
  rw [h.offset_getElem hk, List.getElem?_eq_getElem hk]

lemma Contiguous.offset_of_append {a : LogEntry} (h : Contiguous (X ++ a :: Y)) :
    a.offset = X.length := by
  have hk : X.length < (X ++ a :: Y).length := by simp
  simpa using h.offset_getElem hk

/-- Selecting a range of offsets is selecting a range of positions. -/
theorem Contiguous.filter_range (h : Contiguous X) (s t : ℕ) :
    X.filter (fun e => s ≤ e.offset ∧ e.offset < t) = (X.take t).drop s := by
  induction X using List.reverseRecOn with
  | nil => simp
  | append_singleton X a ih =>
    have ha : a.offset = X.length := h.offset_of_append
    rw [List.filter_append, ih (h.of_isPrefix (List.prefix_append X [a]))]
    rcases Nat.lt_or_ge X.length t with ht | ht
    · rw [List.take_of_length_le ht.le, List.take_of_length_le (by simpa using Nat.succ_le_of_lt ht)]
      rcases Nat.lt_or_ge X.length s with hs | hs
      · have hdrop : (X ++ [a]).drop s = [] :=
          List.drop_eq_nil_of_le (by simpa using Nat.succ_le_of_lt hs)
        simp only [hdrop, List.drop_eq_nil_of_le hs.le, List.nil_append]
        simp [ha, Nat.not_le.mpr hs]
      · simp [ha, hs, ht, List.drop_append_of_le_length hs]
    · simp [ha, Nat.not_lt.mpr ht, List.take_append_of_le_length ht]

lemma Contiguous.filter_lt (h : Contiguous X) (t : ℕ) :
    X.filter (fun e => e.offset < t) = X.take t := by
  simpa using h.filter_range 0 t

lemma Contiguous.filter_eq (h : Contiguous X) (o : ℕ) :
    X.filter (fun e => e.offset = o) = X[o]?.toList := by
  have hp : (fun e : LogEntry => decide (e.offset = o))
      = fun e => decide (o ≤ e.offset ∧ e.offset < o + 1) := by
    funext e
    exact decide_eq_decide.mpr (by omega)
  rw [hp, h.filter_range, List.drop_take, Nat.add_sub_cancel_left, ← List.head?_drop,
    List.take_one]

lemma Contiguous.find_offset (h : Contiguous X) (o : ℕ) :
    X.find? (fun e => e.offset = o) = X[o]? := by
  rw [← List.head?_filter, h.filter_eq]
  cases X[o]? <;> rfl

end Contiguous

/-! ### Operations -/

namespace VecLog

variable {l : VecLog}

lemma append_entries (l : VecLog) (a : LogEntry) :
    (RaftLog.append l a).entries = l.entries ++ [a] := rfl

lemma foldl_append_entries (l : VecLog) (es : List LogEntry) :
    (es.foldl RaftLog.append l).entries = l.entries ++ es := by
  induction es generalizing l with
  | nil => simp
  | cons a es ih => rw [List.foldl_cons, ih, append_entries, List.append_assoc, List.singleton_append]

lemma lastEpoch_eq (l : VecLog) :
    RaftLog.lastEpoch l = EpochLog.lastEp LogEntry.epoch l.entries := rfl

lemma logEndOffset_eq (h : Contiguous l.entries) :
    RaftLog.logEndOffset l = l.entries.length := by
  obtain ⟨X⟩ := l
  change (X.getLast?.map fun e => e.offset + 1).getD 0 = X.length
  rcases List.eq_nil_or_concat X with rfl | ⟨Y, a, rfl⟩
  · rfl
  · rw [List.concat_eq_append] at h ⊢
    have ha : a.offset = Y.length := Contiguous.offset_of_append h
    simp [ha]

lemma entries_eq (h : Contiguous l.entries) (s e : ℕ) :
    RaftLog.entries l s e = (l.entries.take e).drop s :=
  h.filter_range s e

lemma truncate_entries (h : Contiguous l.entries) (o : ℕ) :
    (RaftLog.truncate l o).entries = l.entries.take o :=
  h.filter_lt o

lemma epochAt_eq (h : Contiguous l.entries) (o : ℕ) :
    RaftLog.epochAt l o = l.entries[o]?.map (·.epoch) := by
  rw [← h.find_offset]
  rfl

variable {a : LogEntry} {o : ℕ}

lemma mem_of_epochAt {e : ℕ} (h : RaftLog.epochAt l o = some e) :
    ∃ a ∈ l.entries, a.offset = o ∧ a.epoch = e := by
  obtain ⟨a, ha, hep⟩ := Option.map_eq_some_iff.mp h
  exact ⟨a, List.mem_of_find?_eq_some ha, by simpa using List.find?_some ha, hep⟩

/-- An appended entry is found where it says it stands, unless there is one already. -/
lemma epochAt_append : RaftLog.epochAt (RaftLog.append l a) o
    = (RaftLog.epochAt l o).or (if a.offset = o then some a.epoch else none) := by
  simp only [RaftLog.epochAt, RaftLog.append, List.find?_append, Option.map_or]
  congr 1
  by_cases ho : a.offset = o <;> simp [ho]

lemma logEndOffset_append : RaftLog.logEndOffset (RaftLog.append l a) = a.offset + 1 := by
  simp [RaftLog.logEndOffset, RaftLog.append]

end VecLog

end Musil.Raft
