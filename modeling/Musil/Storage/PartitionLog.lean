import Musil.Storage.SegmentWrite
import Musil.Storage.Partition

/-!
# The log of a partition

`Keeps` says that the directory and the writer hold a sequence of batches, all but the last segment
closed; `Shows` that a published state reaches a sequence of batches. Appends extend the sequence,
and whatever a state showed when it was published it shows as long as files only grow. A fetch from
a state that shows some batches returns their records from the fetch offset on.
-/

namespace Musil.Storage

open Bytes Proto

/-! ### Views one behind the other -/

/-- The views start where the one before ends, and reach the batches of their segments. -/
def Laid (d : Disk) : ℕ → List SegmentView → List (List Filled) → Prop
  | _, [], [] => True
  | base, v :: vs, xs :: segs =>
    v.baseOffset = base ∧ Holds (d.file base) v xs ∧ Laid d (endOffset base xs) vs segs
  | _, _, _ => False

section Laid

variable {d d' : Disk} {base o : ℕ} {v : SegmentView} {vs ws : List SegmentView}
  {xs : List Filled} {segs ts : List (List Filled)}

lemma Laid.length_eq (h : Laid d base vs segs) : vs.length = segs.length := by
  induction vs generalizing base segs with
  | nil =>
    cases segs with
    | nil => rfl
    | cons xs segs => exact h.elim
  | cons v vs ih =>
    cases segs with
    | nil => exact h.elim
    | cons xs segs => exact congrArg (· + 1) (ih h.2.2)

lemma laid_append (hl : vs.length = segs.length) : Laid d base (vs ++ ws) (segs ++ ts) ↔
    Laid d base vs segs ∧ Laid d (endOffset base segs.flatten) ws ts := by
  induction vs generalizing base segs with
  | nil =>
    rw [List.eq_nil_of_length_eq_zero hl.symm]
    simp [Laid]
  | cons v vs ih =>
    obtain ⟨xs, segs, rfl⟩ := List.exists_cons_of_length_eq_add_one hl.symm
    simp only [List.cons_append, Laid, ih (Nat.succ.inj hl), List.flatten_cons, endOffset_append,
      and_assoc]

/-- A view is where its segment is, which is no later than the end. -/
lemma Laid.base_le (h : Laid d base vs segs) (hv : v ∈ vs) :
    base ≤ v.baseOffset ∧ v.baseOffset ≤ endOffset base segs.flatten := by
  induction vs generalizing base segs with
  | nil => exact absurd hv List.not_mem_nil
  | cons w vs ih =>
    cases segs with
    | nil => exact h.elim
    | cons xs segs =>
      rw [List.flatten_cons, endOffset_append]
      rcases List.mem_cons.mp hv with rfl | hmem
      · rw [h.1]
        exact ⟨le_rfl, le_endOffset.trans le_endOffset⟩
      · obtain ⟨hlo, hhi⟩ := ih h.2.2 hmem
        exact ⟨le_endOffset.trans hlo, hhi⟩

/-- Files that keep what the views reach keep the row of views. -/
lemma Laid.frame (h : Laid d base vs segs)
    (hf : ∀ v ∈ vs, ∀ xs, Holds (d.file v.baseOffset) v xs → Holds (d'.file v.baseOffset) v xs) :
    Laid d' base vs segs := by
  induction vs generalizing base segs with
  | nil =>
    cases segs with
    | nil => trivial
    | cons xs segs => exact h.elim
  | cons v vs ih =>
    cases segs with
    | nil => exact h.elim
    | cons xs segs =>
      obtain ⟨hbase, hholds, hrest⟩ := h
      rw [List.forall_mem_cons, hbase] at hf
      exact ⟨hbase, hf.1 xs hholds, ih hrest hf.2⟩

/-- The views that begin before an offset up to the end, with as much as is before the next one. -/
lemma Laid.exists_kept {f₁ f₂ : List SegmentView} (h : Laid d base vs segs)
    (hsplit : vs ++ ws = f₁ ++ f₂) (h₁ : ∀ v ∈ f₁, v.baseOffset < o)
    (h₂ : ∀ v ∈ f₂, o ≤ v.baseOffset) (hws : ∀ v ∈ ws, o < v.baseOffset)
    (ho : o ≤ endOffset base segs.flatten) :
    ∃ s₁, Laid d base f₁ s₁ ∧ s₁.flatten <+: segs.flatten ∧ o ≤ endOffset base s₁.flatten := by
  rcases List.append_eq_append_iff.mp hsplit with ⟨us, rfl, rfl⟩ | ⟨us, rfl, rfl⟩
  · obtain rfl : us = [] := by
      refine List.eq_nil_iff_forall_not_mem.mpr fun v hv => ?_
      exact absurd (hws v (List.mem_append_left _ hv))
        (Nat.not_lt.mpr (h₁ v (List.mem_append_right _ hv)).le)
    rw [List.append_nil]
    exact ⟨segs, h, List.prefix_refl _, ho⟩
  · have hlen := h.length_eq
    rw [List.length_append] at hlen
    have htake := List.take_append_drop f₁.length segs
    rw [← htake, laid_append (by rw [List.length_take]; omega)] at h
    refine ⟨_, h.1, ?_, ?_⟩
    · refine ⟨(segs.drop f₁.length).flatten, ?_⟩
      rw [← List.flatten_append, htake]
    · cases us with
      | nil =>
        rwa [List.take_of_length_le (by simpa using hlen.ge)]
      | cons v us =>
        cases hdrop : segs.drop f₁.length with
        | nil =>
          rw [hdrop] at h
          exact h.2.elim
        | cons xs ts =>
          rw [hdrop] at h
          exact h.2.1 ▸ h₂ v List.mem_cons_self

/-- The view that a fetch offset falls into: the last one that starts at or before it. -/
lemma Laid.locate (h : Laid d base vs segs) (hne : vs ≠ []) (hb : base ≤ o) :
    ∃ pre v post spre xs spost, vs = pre ++ v :: post ∧ segs = spre ++ xs :: spost ∧
      v.baseOffset = endOffset base spre.flatten ∧ Holds (d.file v.baseOffset) v xs ∧
      v.baseOffset ≤ o ∧ Laid d (endOffset v.baseOffset xs) post spost ∧
      (post ≠ [] → o < endOffset v.baseOffset xs) ∧
      partitionPoint (fun v => v.baseOffset ≤ o) vs = pre.length + 1 := by
  induction vs generalizing base segs with
  | nil => exact absurd rfl hne
  | cons v vs ih =>
    cases segs with
    | nil => exact h.elim
    | cons xs segs =>
      obtain ⟨rfl, hholds, hrest⟩ := h
      have htake : partitionPoint (fun v => v.baseOffset ≤ o) (v :: vs)
          = partitionPoint (fun v => v.baseOffset ≤ o) vs + 1 := by
        rw [partitionPoint, List.takeWhile_cons_of_pos (by simpa using hb)]
        rfl
      have hhere (hlast : vs ≠ [] → o < endOffset v.baseOffset xs)
          (hpoint : partitionPoint (fun v => v.baseOffset ≤ o) vs = 0) :=
        show ∃ pre w post spre ys spost, v :: vs = pre ++ w :: post ∧
            xs :: segs = spre ++ ys :: spost ∧ w.baseOffset = endOffset v.baseOffset spre.flatten ∧
            Holds (d.file w.baseOffset) w ys ∧ w.baseOffset ≤ o ∧
            Laid d (endOffset w.baseOffset ys) post spost ∧
            (post ≠ [] → o < endOffset w.baseOffset ys) ∧
            partitionPoint (fun v => v.baseOffset ≤ o) (v :: vs) = pre.length + 1 from
          ⟨[], v, vs, [], xs, segs, rfl, rfl, rfl, hholds, hb, hrest, hlast, by
            rw [htake, hpoint]; rfl⟩
      cases vs with
      | nil => exact hhere (fun hne => absurd rfl hne) rfl
      | cons w vs =>
        cases segs with
        | nil => exact hrest.elim
        | cons ys segs =>
          rcases Nat.lt_or_ge o (endOffset v.baseOffset xs) with hlt | hge
          · refine hhere (fun _ => hlt) ?_
            rw [partitionPoint, List.takeWhile_cons_of_neg]
            · rfl
            · simpa [hrest.1] using hlt
          · obtain ⟨pre, u, post, spre, zs, spost, hvs, hsegs, hu, hrow⟩ :=
              ih hrest (List.cons_ne_nil _ _) hge
            refine ⟨v :: pre, u, post, xs :: spre, zs, spost, by rw [hvs]; rfl, by rw [hsegs]; rfl, ?_,
              hrow.1, hrow.2.1, hrow.2.2.1, hrow.2.2.2.1, ?_⟩
            · rw [hu, List.flatten_cons, endOffset_append]
            · rw [htake, hrow.2.2.2.2]
              rfl

end Laid

/-! ### What a published state shows -/

/-- The published state reaches the batches `xs`, and ends with them. -/
structure Shows (d : Disk) (st : PartitionState) (xs : List Filled) : Prop where
  laid : ∃ segs, Laid d 0 st.segments segs ∧ segs.flatten = xs
  segments_ne : st.segments ≠ []
  leo_eq : st.logEndOffset = endOffset 0 xs

/-- The writer works behind what the state reaches. -/
def Behind (active : LogSegment) (st : PartitionState) : Prop :=
  ∀ v ∈ st.segments, v.baseOffset < active.segment.baseOffset ∨
    v.baseOffset = active.segment.baseOffset ∧ v.indexCount ≤ active.indexCount

section Shows

variable {d d' : Disk} {st : PartitionState} {xs : List Filled} {active : LogSegment}

lemma Shows.extends (h : Shows d st xs) (hb : Behind active st)
    (hext : Extends d d' active.segment.baseOffset active.indexCount) : Shows d' st xs := by
  obtain ⟨segs, hlaid, hflat⟩ := h.laid
  refine ⟨⟨segs, hlaid.frame fun v hv ys hholds => ?_, hflat⟩, h.segments_ne, h.leo_eq⟩
  rcases hb v hv with hlt | ⟨hbase, hcount⟩
  · rwa [hext.other _ hlt.ne]
  · rw [hbase] at hholds ⊢
    exact hholds.frame hext.log (hext.index _ hcount) hext.length.ge

/-- Files of other segments do not matter. -/
lemma Shows.of_file_eq (h : Shows d st xs)
    (hf : ∀ v ∈ st.segments, d'.file v.baseOffset = d.file v.baseOffset) :
    Shows d' st xs := by
  obtain ⟨segs, hlaid, hflat⟩ := h.laid
  refine ⟨⟨segs, hlaid.frame fun v hv ys hholds => ?_, hflat⟩, h.segments_ne, h.leo_eq⟩
  rwa [hf v hv]

/-- A fetch at or below the log end returns the records from the fetch offset on, without a gap;
below the log end it returns at least one. -/
theorem Shows.fetch [Crc] (h : Shows d st xs) (hs : ∀ x ∈ xs, x.Searchable) (id : ℕ)
    (req : FetchPartition) (ho : req.fetchOffset.toNat ≤ st.logEndOffset) :
    ∃ ys : List Filled,
      st.fetch d id req = some ⟨id, st.highWatermark, st.logEndOffset, ys.map Filled.batch⟩ ∧
      ys.flatMap Filled.recs <+: (xs.flatMap Filled.recs).drop req.fetchOffset.toNat ∧
      (req.fetchOffset.toNat < st.logEndOffset →
        ∃ y ∈ ys.head?, y.batch.baseOffset = req.fetchOffset) := by
  obtain ⟨segs, hlaid, rfl⟩ := h.laid
  obtain ⟨pre, v, post, spre, zs, spost, hvs, rfl, hbase, hholds, hle, hrest, hpost, hpoint⟩ :=
    hlaid.locate h.segments_ne (Nat.zero_le req.fetchOffset.toNat)
  have hleo : st.logEndOffset = endOffset (endOffset v.baseOffset zs) spost.flatten := by
    rw [h.leo_eq, List.flatten_append, List.flatten_cons, endOffset_append, endOffset_append, hbase]
  have hend : req.fetchOffset.toNat ≤ endOffset v.baseOffset zs := by
    by_cases hnil : post = []
    · subst hnil
      rw [List.eq_nil_of_length_eq_zero hrest.length_eq.symm] at hleo
      exact hleo ▸ ho
    · exact (hpost hnil).le
  obtain ⟨ys, hfetch, hprefix, hfirst⟩ := hholds.fetch
    (fun x hx => hs x (List.mem_flatten.mpr ⟨zs, by simp, hx⟩)) hle hend
  refine ⟨ys, ?_, ?_, fun hlt => hfirst ?_⟩
  · rw [PartitionState.fetch, hpoint]
    simp [hvs, hfetch]
  · have hspre : (spre.flatten.flatMap Filled.recs).length = v.baseOffset := by
      rw [hbase, endOffset, Nat.zero_add]
    have hlen : (zs.flatMap Filled.recs).length = endOffset v.baseOffset zs - v.baseOffset := by
      rw [endOffset, Nat.add_sub_cancel_left]
    rw [List.flatten_append, List.flatten_cons, List.flatMap_append, List.flatMap_append,
      List.drop_append, List.drop_eq_nil_of_le (by omega), List.nil_append, hspre,
      List.drop_append_of_le_length (by omega)]
    exact hprefix.trans (List.prefix_append _ _)
  · by_cases hnil : post = []
    · subst hnil
      rw [List.eq_nil_of_length_eq_zero hrest.length_eq.symm] at hleo
      exact hleo ▸ hlt
    · exact hpost hnil

end Shows

end Musil.Storage
