import Musil.Storage.PartitionStart

/-!
# Segments in order

When no segment is begun twice, the views are those of the segment files, in increasing order, and
the last one is that of the active segment. Appends keep them so. A truncation at the base offset of
a segment removes that segment and the ones behind it.
-/

namespace Musil.Storage

open Bytes Proto

/-! ### Views and files -/

/-- The views are those of the files, each once and in order; the last one is written to. -/
structure Lined (p : Partition) (a : PartitionActor) : Prop where
  sorted : (p.state.segments.map SegmentView.baseOffset).Pairwise (· < ·)
  mem : ∀ k, k ∈ p.disk.files ↔ k ∈ p.state.segments.map SegmentView.baseOffset
  last : p.state.segments.getLast? = some a.active.segment

section Append

variable {config : PartitionActorConfig} {leo : ℕ} {views : List SegmentView}
  {active active' : LogSegment} {d d' : Disk} {b : RecordBatch} {p p' : Partition}
  {a a' : PartitionActor} {xs : List Filled} {x : Filled} {acks : Acks} {done : ℕ}
  {out : List Reply}

/-- A new segment comes with its file and its view. -/
lemma rollOver_cases (config : PartitionActorConfig) (leo : ℕ) (views : List SegmentView)
    (active : LogSegment) (d : Disk) :
    PartitionActor.rollOver config leo views active d = (views, active, d) ∨
      ((PartitionActor.rollOver config leo views active d).1.map SegmentView.baseOffset
          = views.map SegmentView.baseOffset ++ [leo] ∧
        (PartitionActor.rollOver config leo views active d).1.getLast?
          = some (PartitionActor.rollOver config leo views active d).2.1.segment ∧
        ∀ k, k ∈ (PartitionActor.rollOver config leo views active d).2.2.files ↔
          k = leo ∨ k ∈ d.files) := by
  rw [PartitionActor.rollOver]
  split_ifs
  · refine .inr ⟨?_, List.getLast?_concat, fun k => Disk.mem_put _ _ _⟩
    rw [List.map_append]
    rfl
  · exact .inl rfl

lemma appendBatch_segment (h : active.appendBatch d b = (some active', d')) :
    active'.segment = active.segment := by
  rw [LogSegment.appendBatch] at h
  split at h
  · cases h
  · simp only [] at h
    split_ifs at h <;> cases h <;> rfl

lemma write_mem (d : Disk) (base pos : ℕ) (data : List UInt8) (k : ℕ) :
    k ∈ (d.write base pos data).2.files ↔ k = base ∨ k ∈ d.files :=
  Disk.mem_put _ _ _

lemma appendBatch_mem (h : active.appendBatch d b = (some active', d')) {k : ℕ} :
    k ∈ d'.files ↔ k = active.segment.baseOffset ∨ k ∈ d.files := by
  rw [LogSegment.appendBatch] at h
  rcases hwrite : d.write active.segment.baseOffset active.cursor b.encode with ⟨_ | _, d₁⟩
  · simp only [hwrite] at h
    cases h
  · have hmem := write_mem d active.segment.baseOffset active.cursor b.encode k
    rw [hwrite] at hmem
    simp only [hwrite] at h
    split_ifs at h
    · cases h
      rw [Disk.mem_put, hmem, ← or_assoc, or_self]
    · cases h
      exact hmem

/-- Replacing the last view by a newer one of the same segment keeps the base offsets. -/
lemma dropLast_bases (h : views.getLast? = some active.segment)
    (hseg : active'.segment = active.segment) :
    (views.dropLast ++ [active'.publish.1]).map SegmentView.baseOffset
      = views.map SegmentView.baseOffset := by
  obtain ⟨front, rfl⟩ := List.getLast?_eq_some_iff.mp h
  rw [List.dropLast_concat, List.map_append, List.map_append, ← hseg]
  rfl

lemma Running.base_le (h : Running p a xs) {base : ℕ}
    (hb : base ∈ p.state.segments.map SegmentView.baseOffset) : base ≤ p.state.logEndOffset := by
  obtain ⟨v, hv, rfl⟩ := List.mem_map.mp hb
  obtain ⟨segs, hlaid, hflat⟩ := h.shows.laid
  rw [h.leo_eq, ← hflat]
  exact (hlaid.base_le hv).2

/-- An append keeps the views in order. -/
theorem Lined.append (hl : Lined p a) (h : Running p a xs)
    (hp : a.handleAppend p.disk p.state x.batch acks done = (p', out))
    (ha' : p'.actor = some a') : Lined p' a' := by
  rcases happend : a.active.appendBatch p.disk (PartitionActor.rebased p.state x.batch) with
    ⟨_ | active, d'⟩
  · rw [PartitionActor.handleAppend_of_none _ _ happend] at hp
    cases hp
    cases ha'
  · rw [PartitionActor.handleAppend_of_some _ _ happend] at hp
    cases hp
    cases ha'
    have hbases := dropLast_bases hl.last (appendBatch_segment happend)
    have hmem (k : ℕ) : k ∈ d'.files ↔ k ∈ p.state.segments.map SegmentView.baseOffset := by
      rw [appendBatch_mem happend, ← hl.mem]
      refine ⟨fun hk => hk.elim (fun hk => ?_) id, .inr⟩
      rw [hl.mem, hk]
      exact List.mem_map_of_mem (List.mem_of_getLast? hl.last)
    rcases rollOver_cases a.config (p.state.logEndOffset + x.batch.recordsCount.toNat)
      (p.state.segments.dropLast ++ [active.publish.1]) active.publish.2 d' with
      hsame | ⟨hnew, hlast, hfiles⟩
    · constructor
      · simp only [hsame, hbases]
        exact hl.sorted
      · simp only [hsame, hbases]
        exact hmem
      · simp only [hsame]
        exact List.getLast?_concat
    · constructor
      · simp only [hnew, hbases]
        rw [List.pairwise_append]
        refine ⟨hl.sorted, List.pairwise_singleton _ _, fun base hbase o ho => ?_⟩
        have hle := h.base_le hbase
        have hpos := x.length_pos
        rw [List.mem_singleton.mp ho, x.count_eq]
        omega
      · intro k
        simp only [hnew, hbases, hfiles, hmem, List.mem_append, List.mem_singleton]
        exact or_comm
      · exact hlast

end Append

/-! ### Truncation -/

section Truncate

variable {m base : ℕ} {d : Disk} {ks js : List ℕ} {closed : List (List Filled)}
  {xs ys zs : List Filled} {p : Partition} {a : PartitionActor} {o : ℕ}

lemma file_remove_ne (d : Disk) {base k : ℕ} (h : k ≠ base) :
    (d.remove base).file k = d.file k := by
  simp [Disk.remove, Disk.file, AList.lookup_erase_ne h]

lemma mem_remove (d : Disk) {base k : ℕ} :
    k ∈ (d.remove base).files ↔ k ≠ base ∧ k ∈ d.files :=
  AList.mem_erase

/-- The disk without the segments at `ks`. -/
def Disk.removeAll (d : Disk) (ks : List ℕ) : Disk :=
  ks.foldl Disk.remove d

lemma removeAll_cons (k : ℕ) : d.removeAll (k :: ks) = (d.remove k).removeAll ks := rfl

lemma file_removeAll {k : ℕ} (hk : k ∉ ks) : (d.removeAll ks).file k = d.file k := by
  induction ks generalizing d with
  | nil => rfl
  | cons j ks ih =>
    rw [List.mem_cons, not_or] at hk
    rw [removeAll_cons, ih hk.2, file_remove_ne d hk.1]

lemma mem_removeAll {k : ℕ} : k ∈ (d.removeAll ks).files ↔ k ∉ ks ∧ k ∈ d.files := by
  induction ks generalizing d with
  | nil => simp [Disk.removeAll]
  | cons j ks ih =>
    rw [removeAll_cons, ih, mem_remove, List.mem_cons, not_or]
    exact ⟨fun h => ⟨⟨h.2.1, h.1⟩, h.2.2⟩, fun h => ⟨h.1.2, h.1.1, h.2⟩⟩

lemma free_removeAll (h : ks.Nodup) : (d.removeAll ks).free
    = d.free + (ks.map fun k => (d.file k).log.length).sum := by
  induction ks generalizing d with
  | nil => rfl
  | cons k ks ih =>
    rw [List.nodup_cons] at h
    have hfile : ks.map (fun j => ((d.remove k).file j).log.length)
        = ks.map fun j => (d.file j).log.length := by
      apply List.map_congr_left
      intro j hj
      rw [file_remove_ne d (ne_of_mem_of_not_mem hj h.1)]
    rw [removeAll_cons, ih h.2, hfile, List.map_cons, List.sum_cons, ← Nat.add_assoc]
    rfl

/-- What lies below an offset comes first in a sorted list. -/
lemma exists_split_of_sorted {α : Type*} (f : α → ℕ) (o : ℕ) {l : List α}
    (h : (l.map f).Pairwise (· < ·)) :
    ∃ l₁ l₂, l = l₁ ++ l₂ ∧ (∀ x ∈ l₁, f x < o) ∧ ∀ x ∈ l₂, o ≤ f x := by
  induction l with
  | nil => exact ⟨[], [], rfl, by simp, by simp⟩
  | cons x l ih =>
    rw [List.map_cons, List.pairwise_cons] at h
    rcases Nat.lt_or_ge (f x) o with hlt | hge
    · obtain ⟨l₁, l₂, rfl, h₁, h₂⟩ := ih h.2
      exact ⟨x :: l₁, l₂, rfl, List.forall_mem_cons.mpr ⟨hlt, h₁⟩, h₂⟩
    · refine ⟨[], x :: l, rfl, by simp, List.forall_mem_cons.mpr ⟨hge, fun y hy => ?_⟩⟩
      exact hge.trans (h.1 _ (List.mem_map_of_mem hy)).le

/-- The logs of closed segments hold their batches and nothing else. -/
lemma Stacked.sum_logs (h : Stacked m d base ks closed) :
    (ks.map fun k => (d.file k).log.length).sum = (bytes closed.flatten).length := by
  induction ks generalizing base closed with
  | nil =>
    cases closed with
    | nil => rfl
    | cons xs closed => exact h.elim
  | cons k ks ih =>
    cases closed with
    | nil => exact h.elim
    | cons xs closed =>
      obtain ⟨rfl, ⟨n, hstored⟩, -, hrest⟩ := h
      rw [List.map_cons, List.sum_cons, ih hrest, hstored.log, List.flatten_cons, bytes_append,
        List.length_append]

/-- The space of closed segments is free again when they are removed. -/
lemma Stacked.free_removeAll (h : Stacked m d base ks closed) :
    (d.removeAll ks).free = d.free + (bytes closed.flatten).length := by
  rw [Storage.free_removeAll (h.sorted.imp fun hlt => hlt.ne), h.sum_logs]

/-- Two ways to cut the same batches at one offset are the same. -/
lemma prefix_eq_of_endOffset (hy : ys <+: xs) (hz : zs <+: xs)
    (h : endOffset 0 ys = endOffset 0 zs) : ys = zs := by
  have hcut {ys zs : List Filled} (hp : ys <+: zs) (h : endOffset 0 ys = endOffset 0 zs) :
      ys = zs := by
    obtain ⟨ws, rfl⟩ := hp
    by_contra hne
    have hws : ws ≠ [] := fun hnil => hne (by rw [hnil, List.append_nil])
    rw [endOffset_append] at h
    exact absurd h (endOffset_lt hws).ne
  rcases List.prefix_or_prefix_of_prefix hy hz with hp | hp
  · exact hcut hp h
  · exact (hcut hp h.symm).symm

variable {active : LogSegment} {cur : List Filled}

lemma Keeps.sorted (h : Keeps m d active ks closed cur) :
    (ks ++ [active.segment.baseOffset]).Pairwise (· < ·) := by
  rw [List.pairwise_append]
  refine ⟨h.stacked.sorted, List.pairwise_singleton _ _, fun k hk j hj => ?_⟩
  rw [List.mem_singleton.mp hj, h.base_eq]
  exact (h.stacked.base_lt hk).2

lemma Lined.bases_eq (hl : Lined p a) (h : Keeps m p.disk a.active ks closed cur) :
    p.state.segments.map SegmentView.baseOffset = ks ++ [a.active.segment.baseOffset] := by
  refine List.Perm.eq_of_pairwise' (r := (· < ·)) hl.sorted h.sorted ?_
  refine (List.perm_ext_iff_of_nodup (hl.sorted.imp fun hlt => hlt.ne)
    (h.sorted.imp fun hlt => hlt.ne)).mpr fun k => ?_
  rw [← hl.mem, h.mem, List.mem_append, List.mem_singleton]

/-- The segments before the one that begins at `o`, and the closed ones from there on. -/
lemma Keeps.split (h : Keeps m d active ks closed cur)
    (ho : o ∈ ks ++ [active.segment.baseOffset]) : ∃ k₁ k₂ c₁ c₂, ks = k₁ ++ k₂ ∧
      closed = c₁ ++ c₂ ∧ Stacked m d 0 k₁ c₁ ∧ endOffset 0 c₁.flatten = o ∧
      Stacked m d o k₂ c₂ := by
  rcases List.mem_append.mp ho with hmem | hactive
  · obtain ⟨k₁, k₂, rfl⟩ := List.append_of_mem hmem
    have hlen := h.stacked.length_eq
    have hsplit : closed = closed.take k₁.length ++ closed.drop k₁.length :=
      (List.take_append_drop _ _).symm
    have hstacked := h.stacked
    rw [hsplit, stacked_append (by
      rw [List.length_take, ← hlen, List.length_append]
      omega)] at hstacked
    obtain ⟨h₁, h₂⟩ := hstacked
    have hbase : endOffset 0 (closed.take k₁.length).flatten = o := by
      cases hdrop : closed.drop k₁.length with
      | nil =>
        rw [hdrop] at h₂
        exact h₂.elim
      | cons xs c₂ =>
        rw [hdrop] at h₂
        exact h₂.1.symm
    exact ⟨k₁, o :: k₂, _, _, rfl, hsplit, h₁, hbase, hbase ▸ h₂⟩
  · have hbase : endOffset 0 closed.flatten = o := by
      rw [← h.base_eq, List.mem_singleton.mp hactive]
    exact ⟨ks, [], closed, [], by simp, by simp, h.stacked, hbase, trivial⟩

/-- The views of the segments before the one that begins at `o`. -/
lemma Serves.split {views : List SegmentView} (h : Serves m d active views ks closed cur)
    (hb : views.map SegmentView.baseOffset = ks ++ [active.segment.baseOffset])
    {k₁ k₂ : List ℕ} {c₁ c₂ : List (List Filled)} (hks : ks = k₁ ++ k₂) (hc : closed = c₁ ++ c₂)
    (ho : endOffset 0 c₁.flatten = o) (h₂ : Stacked m d o k₂ c₂) :
    ∃ f₁ f₂ s₁, views = f₁ ++ f₂ ∧ f₁.map SegmentView.baseOffset = k₁ ∧
      f₂.map SegmentView.baseOffset = k₂ ++ [active.segment.baseOffset] ∧ Laid d 0 f₁ s₁ ∧
      s₁.flatten = c₁.flatten := by
  obtain ⟨front, segs, rfl, hlaid, hflat⟩ := h.shown
  have hfront : front.map SegmentView.baseOffset = k₁ ++ k₂ := by
    rw [List.map_append, hks] at hb
    exact (List.append_inj' hb rfl).1
  obtain ⟨f₁, f₂, rfl, hf₁, hf₂⟩ := List.map_eq_append_iff.mp hfront
  have hlen := hlaid.length_eq
  have hsplit : segs = segs.take f₁.length ++ segs.drop f₁.length :=
    (List.take_append_drop _ _).symm
  rw [hsplit, laid_append (by
    rw [List.length_take, ← hlen, List.length_append]
    omega)] at hlaid
  obtain ⟨hl₁, hl₂⟩ := hlaid
  refine ⟨f₁, f₂ ++ [active.publish.1], segs.take f₁.length, List.append_assoc _ _ _, hf₁, ?_, hl₁,
    ?_⟩
  · rw [List.map_append, hf₂]
    rfl
  · cases k₂ with
    | nil =>
      obtain rfl : f₂ = [] := List.map_eq_nil_iff.mp hf₂
      cases c₂ with
      | nil =>
        rw [List.append_nil] at hc hlen
        rw [List.take_of_length_le hlen.ge, hflat, hc]
      | cons xs c₂ => exact h₂.elim
    | cons k k₂ =>
      cases c₂ with
      | nil => exact h₂.elim
      | cons xs c₂ =>
        obtain ⟨v, f₂, rfl⟩ : ∃ v f, f₂ = v :: f := by
          cases f₂ with
          | nil => cases hf₂
          | cons v f => exact ⟨v, f, rfl⟩
        have hv : v.baseOffset = o := by
          rw [← h₂.1]
          exact (List.cons.inj hf₂).1
        have hbase : endOffset 0 (segs.take f₁.length).flatten = o := by
          cases hdrop : segs.drop f₁.length with
          | nil =>
            rw [hdrop] at hl₂
            exact hl₂.elim
          | cons ys s₂ =>
            rw [hdrop] at hl₂
            exact hl₂.1.symm.trans hv
        have htaken : (segs.take f₁.length).flatten <+: closed.flatten := by
          refine ⟨(segs.drop f₁.length).flatten, ?_⟩
          rw [← List.flatten_append, List.take_append_drop, hflat]
        have hkept : c₁.flatten <+: closed.flatten := by
          rw [hc, List.flatten_append]
          exact List.prefix_append _ _
        exact prefix_eq_of_endOffset htaken hkept (hbase.trans ho.symm)

/-- Removing the active segment and the closed ones before it frees their bytes. -/
lemma Keeps.free_removeAll (h : Keeps m d active ks closed cur) {k₁ k₂ : List ℕ}
    {c₁ c₂ : List (List Filled)} (hc : closed = c₁ ++ c₂) (h₂ : Stacked m d o k₂ c₂)
    (hsorted : (k₁ ++ k₂ ++ [active.segment.baseOffset]).Pairwise (· < ·)) :
    (bytes (closed.flatten ++ cur)).length + d.free = (bytes c₁.flatten).length +
      (d.removeAll (k₂ ++ [active.segment.baseOffset])).free := by
  have hnot : active.segment.baseOffset ∉ k₂ := by
    intro hmem
    rw [List.append_assoc, List.pairwise_append] at hsorted
    have hlt := (List.pairwise_append.mp hsorted.2.1).2.2 _ hmem _ (List.mem_singleton_self _)
    exact lt_irrefl _ hlt
  have hlast : ((d.removeAll k₂).file active.segment.baseOffset).log = bytes cur := by
    rw [file_removeAll hnot]
    exact h.writes.stored.log
  rw [Disk.removeAll, List.foldl_append, List.foldl_cons, List.foldl_nil, Disk.remove]
  change _ = _ + ((d.removeAll k₂).free + ((d.removeAll k₂).file _).log.length)
  rw [hlast, h₂.free_removeAll, hc, List.flatten_append]
  simp only [bytes_append, List.length_append]
  omega

/-- A truncation below the log end, in terms of the views that it keeps and removes. -/
lemma handleTruncate_of_lt {d : Disk} {st : PartitionState} (ho : o < st.logEndOffset)
    {f₁ f₂ : List SegmentView} (hviews : st.segments = f₁ ++ f₂)
    (h₁ : ∀ v ∈ f₁, v.baseOffset < o) (h₂ : ∀ v ∈ f₂, o ≤ v.baseOffset) :
    a.handleTruncate d st o =
      (let opened := LogSegment.openSegment (a.config.segmentConfig o)
          (d.removeAll (f₂.map SegmentView.baseOffset))
       ⟨opened.2, ⟨f₁ ++ [opened.1.publish.1], o, min st.highWatermark o, st.replicas⟩,
        some { a with active := opened.1.publish.2 }⟩) := by
  have hkept : st.segments.filter (fun v => v.baseOffset < o) = f₁ := by
    rw [hviews, List.filter_append, List.filter_eq_self.mpr (by simpa using h₁),
      List.filter_eq_nil_iff.mpr (by simpa using h₂), List.append_nil]
  have hremoved : st.segments.filter (fun v => o ≤ v.baseOffset) = f₂ := by
    rw [hviews, List.filter_append, List.filter_eq_nil_iff.mpr (by simpa using h₁),
      List.filter_eq_self.mpr (by simpa using h₂), List.nil_append]
  rw [PartitionActor.handleTruncate, if_neg (Nat.not_le.mpr ho)]
  simp only [hkept, hremoved, Disk.removeAll, List.foldl_map]

lemma Lined.notMem_removeAll (hl : Lined p a) {f₁ f₂ : List SegmentView}
    (hviews : p.state.segments = f₁ ++ f₂) (h₁ : ∀ v ∈ f₁, v.baseOffset < o) :
    o ∉ (p.disk.removeAll (f₂.map SegmentView.baseOffset)).files := by
  rw [mem_removeAll, hl.mem, hviews, List.map_append, List.mem_append]
  rintro ⟨hnot, hmem | hmem⟩
  · obtain ⟨v, hv, hbase⟩ := List.mem_map.mp hmem
    exact absurd hbase (h₁ v hv).ne
  · exact hnot hmem

/-- Wherever a truncation cuts, it keeps the views in order. -/
lemma Lined.cut (hl : Lined p a) {f₁ f₂ : List SegmentView}
    (hviews : p.state.segments = f₁ ++ f₂) (h₁ : ∀ v ∈ f₁, v.baseOffset < o)
    (h₂ : ∀ v ∈ f₂, o ≤ v.baseOffset) (ho : o < p.state.logEndOffset) {a' : PartitionActor}
    (ha' : (a.handleTruncate p.disk p.state o).actor = some a') :
    Lined (a.handleTruncate p.disk p.state o) a' := by
  rw [handleTruncate_of_lt ho hviews h₁ h₂] at ha' ⊢
  cases ha'
  have hsorted := hl.sorted
  rw [hviews, List.map_append, List.pairwise_append] at hsorted
  refine ⟨?_, fun k => ?_, List.getLast?_concat⟩
  · rw [List.map_append, List.pairwise_append]
    refine ⟨hsorted.1, List.pairwise_singleton _ _, fun k hk j hj => ?_⟩
    obtain ⟨v, hv, rfl⟩ := List.mem_map.mp hk
    rw [List.mem_singleton.mp hj]
    exact h₁ v hv
  · have hkeep : k ∈ (p.disk.removeAll (f₂.map SegmentView.baseOffset)).files ↔
        k ∈ f₁.map SegmentView.baseOffset := by
      rw [mem_removeAll, hl.mem, hviews, List.map_append, List.mem_append]
      constructor
      · rintro ⟨hnot, hk | hk⟩
        · exact hk
        · exact absurd hk hnot
      · intro hk
        refine ⟨fun hgone => ?_, .inl hk⟩
        exact lt_irrefl _ (hsorted.2.2 k hk k hgone)
    rw [List.map_append, List.mem_append, ← hkeep, or_comm]
    refine (Disk.mem_put _ _ _).trans (or_congr_left ?_)
    exact List.mem_singleton.symm

/-- A truncation at the base offset of a segment keeps the batches before it. -/
theorem Running.truncate (h : Running p a xs) (hl : Lined p a) (ho : o < p.state.logEndOffset)
    (hb : o ∈ p.state.segments.map SegmentView.baseOffset) :
    ∃ ys a', ys <+: xs ∧ endOffset 0 ys = o ∧ Running (a.handleTruncate p.disk p.state o) a' ys ∧
      Lined (a.handleTruncate p.disk p.state o) a' ∧ a'.config = a.config ∧
      AtEnd (a.handleTruncate p.disk p.state o).disk a'.active := by
  obtain ⟨ks, closed, cur, rfl, hserves⟩ := h.serves
  have hkeeps := hserves.keeps
  have hbases := hl.bases_eq hkeeps
  obtain ⟨k₁, k₂, c₁, c₂, hks, hc, hs₁, hend, hs₂⟩ := hkeeps.split (hbases ▸ hb)
  obtain ⟨f₁, f₂, s₁, hviews, hf₁, hf₂, hlaid, hflat⟩ := hserves.split hbases hks hc hend hs₂
  have hbelow : ∀ k ∈ k₁, k < o := fun k hk => hend ▸ (hs₁.base_lt hk).2
  have hactive : o ≤ a.active.segment.baseOffset := by
    rw [hkeeps.base_eq, hc, List.flatten_append, endOffset_append, hend]
    exact le_endOffset
  have habove : ∀ k ∈ k₂ ++ [a.active.segment.baseOffset], o ≤ k := by
    intro k hk
    rcases List.mem_append.mp hk with hmem | hlast
    · exact (hs₂.base_lt hmem).1
    · exact List.mem_singleton.mp hlast ▸ hactive
  have h₁ : ∀ v ∈ f₁, v.baseOffset < o := fun v hv => hbelow _ (hf₁ ▸ List.mem_map_of_mem hv)
  have h₂ : ∀ v ∈ f₂, o ≤ v.baseOffset := fun v hv => habove _ (hf₂ ▸ List.mem_map_of_mem hv)
  have hlined (a' : PartitionActor)
      (ha' : (a.handleTruncate p.disk p.state o).actor = some a') :
      Lined (a.handleTruncate p.disk p.state o) a' := hl.cut hviews h₁ h₂ ho ha'
  rw [handleTruncate_of_lt ho hviews h₁ h₂, hf₂] at hlined ⊢
  replace hlined := hlined _ rfl
  have hkeep : ∀ k ∈ k₁, k ∉ k₂ ++ [a.active.segment.baseOffset] :=
    fun k hk hk' => absurd (habove k hk') (Nat.not_le.mpr (hbelow k hk))
  have hlog : ((p.disk.removeAll (k₂ ++ [a.active.segment.baseOffset])).file
      (a.config.segmentConfig o).baseOffset).log = [] := by
    rw [← hf₂]
    exact congrArg SegmentFile.log (Disk.file_of_notMem (hl.notMem_removeAll hviews h₁))
  obtain ⟨hwrites, hatEnd, hdisk, -⟩ := openSegment_fresh (a.config.segmentConfig o) _ hlog
  have hfile : ∀ k ∈ k₁, (LogSegment.openSegment (a.config.segmentConfig o)
      (p.disk.removeAll (k₂ ++ [a.active.segment.baseOffset]))).2.file k = p.disk.file k := by
    intro k hk
    have hne : k ≠ (a.config.segmentConfig o).baseOffset := (hbelow k hk).ne
    rw [hdisk, Disk.file_put_ne _ _ _ hne, file_removeAll (hkeep k hk)]
  have hfiles : ∀ k, k ∈ (LogSegment.openSegment (a.config.segmentConfig o)
      (p.disk.removeAll (k₂ ++ [a.active.segment.baseOffset]))).2.files ↔ k ∈ k₁ ∨ k = o := by
    intro k
    rw [hlined.mem, List.map_append, hf₁, List.mem_append, List.map_singleton, List.mem_singleton]
    rfl
  have hroom : (bytes (c₁.flatten ++ [])).length + (LogSegment.openSegment
      (a.config.segmentConfig o)
      (p.disk.removeAll (k₂ ++ [a.active.segment.baseOffset]))).2.free < 2 ^ 63 := by
    have hroom := hkeeps.room
    have hfree := hkeeps.free_removeAll hc hs₂ (hks ▸ hkeeps.sorted)
    rw [hdisk, List.append_nil]
    exact hfree ▸ hroom
  refine ⟨c₁.flatten, _, ?_, hend, ⟨rfl, hend.symm, k₁, c₁, [], List.append_nil _, ⟨⟨?_, hend.symm,
    hfiles, hwrites.publish, hroom⟩, ⟨f₁, s₁, rfl, ?_, hflat⟩, ?_⟩⟩, hlined, rfl, hatEnd⟩
  · rw [hc, List.flatten_append, List.append_assoc]
    exact List.prefix_append _ _
  · exact hs₁.frame hfile
  · refine hlaid.frame fun v hv xs hholds => ?_
    rwa [hfile _ (hf₁ ▸ List.mem_map_of_mem hv)]
  · intro v hv
    rcases List.mem_append.mp hv with hold | hnew
    · exact .inl (hbelow _ (hf₁ ▸ List.mem_map_of_mem hold))
    · rw [List.mem_singleton.mp hnew]
      exact .inr ⟨rfl, le_rfl⟩

end Truncate

/-! ### The start -/

/-- On an empty directory there is one segment, which is active. -/
lemma new_empty {config : PartitionActorConfig} {replicas : List ReplicaMetadata} {free : ℕ}
    {p : Partition} (hsize : 0 < config.segmentBytes)
    (h : PartitionActor.new config replicas ⟨free, ∅⟩ = some p) :
    p.state = ⟨[⟨0, 0, 0⟩], 0, 0, replicas⟩ ∧
      ∀ a, p.actor = some a → Lined p a ∧ a.acksPendingReplication = [] := by
  have hkeys : (⟨free, ∅⟩ : Disk).files.keys.insertionSort (· ≤ ·) = [] := rfl
  obtain ⟨hwrites, -⟩ := openSegment_fresh (config.segmentConfig 0) ⟨free, ∅⟩ rfl
  have hcount := hwrites.recordsCount_eq
  have hroom : ¬ config.segmentBytes ≤
      (LogSegment.openSegment (config.segmentConfig 0) ⟨free, ∅⟩).1.publish.2.size :=
    Nat.not_le.mpr hsize
  simp only [PartitionActor.new, PartitionActor.initialState, hkeys, List.getLast?_nil,
    Option.getD_none, hcount, Option.bind_eq_bind, Option.bind_some, List.dropLast_nil,
    PartitionActor.openOlder, PartitionActor.rollOver, if_neg hroom] at h
  cases h
  refine ⟨?_, ?_⟩
  · simp only [List.flatMap_nil, List.length_nil, Nat.add_zero, ite_self, PartitionState.new]
    rfl
  · rintro a ⟨⟩
    refine ⟨⟨List.pairwise_singleton _ _, fun k => ?_, rfl⟩, rfl⟩
    refine (Disk.mem_put ⟨free, ∅⟩ 0 _).trans ?_
    rw [or_iff_left (AList.notMem_empty k)]
    exact List.mem_singleton.symm

end Musil.Storage
