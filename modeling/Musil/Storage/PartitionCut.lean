import Musil.Storage.PartitionOrder

/-!
# Partitions that are cut anywhere

A truncation that is not at the base offset of a segment leaves a segment that reaches beyond the
cut, and the next one begins within it. What lies before the next segment can be read; what lies
behind its beginning is hidden. A batch is found as long as no truncation cuts below its end.
-/

namespace Musil.Storage

open Bytes Proto

/-! ### Reading at an offset -/

/-- The batch that a read at the offset begins with. -/
def PartitionState.batchAt (st : PartitionState) (d : Disk) (offset : ℕ) : Option RecordBatch :=
  match partitionPoint (fun v => v.baseOffset ≤ offset) st.segments with
  | 0 => none
  | idx + 1 => do
    let v ← st.segments[idx]?
    let it ← v.batchIterFrom (d.file v.baseOffset) offset
    it.batches.head?.join

/-- The offset behind the records of a batch. -/
def stopOf (x : Filled) : ℕ :=
  x.batch.baseOffset.toNat + x.recs.length

section Read

variable {d : Disk} {v : SegmentView} {pre post : List SegmentView} {xs : List Filled}
  {x : Filled} {base o : ℕ}

lemma Chained.le_baseOffset (h : Chained base xs) (hx : x ∈ xs) :
    base ≤ x.batch.baseOffset.toNat ∧ stopOf x ≤ endOffset base xs := by
  induction xs generalizing base with
  | nil => exact absurd hx List.not_mem_nil
  | cons y ys ih =>
    rw [endOffset_cons]
    rcases List.mem_cons.mp hx with rfl | hmem
    · rw [stopOf, h.1]
      exact ⟨le_rfl, le_endOffset⟩
    · obtain ⟨hle, hstop⟩ := ih h.2 hmem
      exact ⟨(Nat.le_add_right _ _).trans hle, hstop⟩

/-- The batches from an offset within a batch on begin with that batch. -/
lemma Chained.fromOffset_of_mem (h : Chained base xs) (hx : x ∈ xs)
    (hle : x.batch.baseOffset.toNat ≤ o) (hlt : o < stopOf x) :
    ∃ ys, fromOffset o xs = x :: ys := by
  obtain ⟨ys, zs, rfl⟩ := List.append_of_mem hx
  obtain ⟨hys, hzs⟩ := chained_append.mp h
  rw [fromOffset_append hys (hzs.1 ▸ hle), fromOffset_cons_of_lt rfl hlt]
  exact ⟨zs, rfl⟩

lemma partitionPoint_split (hpre : ∀ w ∈ pre, w.baseOffset ≤ o) (hv : v.baseOffset ≤ o)
    (hpost : ∀ w ∈ post, o < w.baseOffset) :
    partitionPoint (fun v => v.baseOffset ≤ o) (pre ++ v :: post) = pre.length + 1 := by
  rw [partitionPoint, List.takeWhile_append_of_pos (by simpa using hpre),
    List.takeWhile_cons_of_pos (by simpa using hv), List.length_append, List.length_cons]
  cases post with
  | nil => rfl
  | cons w post =>
    rw [List.takeWhile_cons_of_neg (by simpa using hpost w List.mem_cons_self), List.length_nil]

/-- A batch of the last segment that begins at or before the offset is found there. -/
lemma Holds.batchAt {st : PartitionState} (hst : st.segments = pre ++ v :: post)
    (h : Holds (d.file v.baseOffset) v xs) (hx : x ∈ xs)
    (hpre : ∀ w ∈ pre, w.baseOffset ≤ o) (hpost : ∀ w ∈ post, o < w.baseOffset)
    (hle : x.batch.baseOffset.toNat ≤ o) (hlt : o < stopOf x) :
    st.batchAt d o = some x.batch := by
  obtain ⟨hbase, hstop⟩ := h.chained.le_baseOffset hx
  obtain ⟨it, hit, hbatches⟩ := h.batchIterFrom (hlt.le.trans hstop)
  obtain ⟨ys, hys⟩ := h.chained.fromOffset_of_mem hx hle hlt
  rw [PartitionState.batchAt, hst, partitionPoint_split hpre (hbase.trans hle) hpost]
  simp [hit, hbatches, hys]

end Read

/-! ### Rows of segments -/

/-- A view and the batches that fill its file. -/
abbrev Segment := SegmentView × List Filled

/-- The base offset of a segment. -/
abbrev baseOf (r : Segment) : ℕ := r.1.baseOffset

/-- All batches of some segments. -/
def batchesOf (row : List Segment) : List Filled :=
  row.flatMap Prod.snd

/-- Each segment begins no later than the number of bytes before it, counted from `n`. -/
def Covered : ℕ → List Segment → Prop
  | _, [] => True
  | n, r :: row => baseOf r ≤ n ∧ Covered (n + (bytes r.2).length) row

section Covered

variable {n : ℕ} {row row' : List Segment} {r : Segment}

lemma batchesOf_append : batchesOf (row ++ row') = batchesOf row ++ batchesOf row' :=
  List.flatMap_append

lemma covered_append : Covered n (row ++ row') ↔
    Covered n row ∧ Covered (n + (bytes (batchesOf row)).length) row' := by
  induction row generalizing n with
  | nil => simp [Covered, batchesOf]
  | cons r row ih =>
    have hbytes : (bytes (batchesOf (r :: row))).length
        = (bytes r.2).length + (bytes (batchesOf row)).length := by
      rw [show batchesOf (r :: row) = r.2 ++ batchesOf row from rfl, bytes_append,
        List.length_append]
    rw [List.cons_append, Covered, Covered, ih, hbytes, Nat.add_assoc, and_assoc]

end Covered

/-- The row with the segment that is written to. -/
abbrev rowOf (active : LogSegment) (front : List Segment) (cur : List Filled) : List Segment :=
  front ++ [(active.publish.1, cur)]

/-- The segments before the active one are full, each holds what its view reaches, and the next one
begins no later than where it ends. -/
structure Rowed (m : ℕ) (d : Disk) (active : LogSegment) (views : List SegmentView) (leo : ℕ)
    (front : List Segment) (cur : List Filled) : Prop where
  segments : views = (rowOf active front cur).map Prod.fst
  full : ∀ r ∈ front, Holds (d.file (baseOf r)) r.1 r.2 ∧ (d.file (baseOf r)).log = bytes r.2
  writes : Writes m d active cur
  atEnd : AtEnd d active
  sorted : ((rowOf active front cur).map baseOf).Pairwise (· < ·)
  files : ∀ k, k ∈ d.files ↔ k ∈ (rowOf active front cur).map baseOf
  covered : Covered 0 (rowOf active front cur)
  room : (bytes (batchesOf (rowOf active front cur))).length + d.free < 2 ^ 63
  leo_eq : leo = endOffset active.segment.baseOffset cur

/-- A segment of the row holds the batch, and those behind it begin no sooner than it ends. -/
def Placed (row : List Segment) (x : Filled) : Prop :=
  ∃ r ∈ row, x ∈ r.2 ∧ ∀ w ∈ row, baseOf r < baseOf w → stopOf x ≤ baseOf w

section Rowed

variable {m leo o : ℕ} {d d' : Disk} {active active' : LogSegment} {views views' : List SegmentView}
  {front : List Segment} {cur : List Filled} {x y : Filled} {r : Segment}

lemma Rowed.holds (h : Rowed m d active views leo front cur) (hr : r ∈ rowOf active front cur) :
    Holds (d.file (baseOf r)) r.1 r.2 ∧ (d.file (baseOf r)).log = bytes r.2 := by
  rcases List.mem_append.mp hr with hfront | hlast
  · exact h.full r hfront
  · rw [List.mem_singleton.mp hlast]
    exact ⟨h.writes.holds, h.writes.stored.log⟩

/-- A placed batch is found at each of its offsets. -/
theorem Rowed.batchAt {st : PartitionState} (h : Rowed m d active st.segments leo front cur)
    (hx : Placed (rowOf active front cur) x) (hle : x.batch.baseOffset.toNat ≤ o)
    (hlt : o < stopOf x) : st.batchAt d o = some x.batch := by
  obtain ⟨r, hr, hmem, hbehind⟩ := hx
  have hholds := (h.holds hr).1
  obtain ⟨pre, post, hrow⟩ := List.append_of_mem hr
  have hsorted := h.sorted
  rw [hrow, List.map_append, List.map_cons, List.pairwise_append, List.pairwise_cons] at hsorted
  have hviews := h.segments
  rw [hrow, List.map_append, List.map_cons] at hviews
  refine hholds.batchAt hviews hmem ?_ ?_ hle hlt
  · intro w hw
    obtain ⟨q, hq, rfl⟩ := List.mem_map.mp hw
    have hlt := hsorted.2.2 _ (List.mem_map_of_mem hq) _ List.mem_cons_self
    exact (hlt.le.trans (hholds.chained.le_baseOffset hmem).1).trans hle
  · intro w hw
    obtain ⟨q, hq, rfl⟩ := List.mem_map.mp hw
    have hin : q ∈ rowOf active front cur :=
      hrow ▸ List.mem_append_right _ (List.mem_cons_of_mem _ hq)
    have hlater := hsorted.2.1.1 _ (List.mem_map_of_mem hq)
    exact hlt.trans_le (hbehind q hin hlater)

lemma Rowed.base_lt (h : Rowed m d active views leo front cur) (hr : r ∈ front) :
    baseOf r < active.segment.baseOffset := by
  have hsorted := h.sorted
  rw [List.map_append, List.pairwise_append] at hsorted
  exact hsorted.2.2 _ (List.mem_map_of_mem hr) _ (List.mem_singleton_self _)

/-- The log end is no higher than the number of bytes in the files. -/
lemma Rowed.leo_le (h : Rowed m d active views leo front cur) :
    leo ≤ (bytes (batchesOf (rowOf active front cur))).length := by
  have hcovered : active.segment.baseOffset ≤ 0 + (bytes (batchesOf front)).length :=
    (covered_append.mp h.covered).2.1
  rw [Nat.zero_add] at hcovered
  have hcur : (cur.flatMap Filled.recs).length ≤ (bytes cur).length := length_recs_le
  rw [h.leo_eq, batchesOf_append, bytes_append, List.length_append, endOffset]
  rw [show batchesOf [(active.publish.1, cur)] = cur from List.append_nil cur]
  exact Nat.add_le_add hcovered hcur

lemma Rowed.leo_lt (h : Rowed m d active views leo front cur) : leo < 2 ^ 63 := by
  have hroom := h.room
  have hle := h.leo_le
  omega

lemma Rowed.stop_le (h : Rowed m d active views leo front cur)
    (hx : Placed (rowOf active front cur) x) : stopOf x ≤ leo := by
  obtain ⟨r, hr, hmem, hbehind⟩ := hx
  rw [h.leo_eq]
  rcases List.mem_append.mp hr with hfront | hlast
  · have hstop := hbehind (active.publish.1, cur)
      (List.mem_append_right _ (List.mem_singleton_self _)) (h.base_lt hfront)
    exact hstop.trans le_endOffset
  · rw [List.mem_singleton.mp hlast] at hmem
    exact (h.writes.stored.chained.le_baseOffset hmem).2

/-! ### Appending -/

/-- A batch more in the active segment. -/
lemma Rowed.extend (h : Rowed m d active views leo front cur)
    (hw : Writes m d' active' (cur ++ [x]))
    (hend : AtEnd d' active') {n : ℕ} (hext : Extends d d' active.segment.baseOffset n)
    (hfree : d'.free + x.batch.encode.length = d.free) (hseg : active'.segment = active.segment) :
    Rowed m d' active'.publish.2 (views.dropLast ++ [active'.publish.1]) (leo + x.recs.length) front
        (cur ++ [x]) ∧
      (∀ y, Placed (rowOf active front cur) y →
        Placed (rowOf active'.publish.2 front (cur ++ [x])) y) ∧
      Placed (rowOf active'.publish.2 front (cur ++ [x])) x := by
  have hbase : active'.segment.baseOffset = active.segment.baseOffset := congrArg _ hseg
  have hbases : (rowOf active'.publish.2 front (cur ++ [x])).map baseOf
      = (rowOf active front cur).map baseOf := by
    rw [List.map_append, List.map_append]
    exact congrArg (fun k => front.map baseOf ++ [k]) hbase
  have hbytes : bytes (batchesOf (rowOf active'.publish.2 front (cur ++ [x])))
      = bytes (batchesOf (rowOf active front cur)) ++ x.batch.encode := by
    simp [batchesOf, bytes]
  refine ⟨⟨?_, ?_, hw.publish, hend, hbases ▸ h.sorted, ?_, ?_, ?_, ?_⟩, ?_, ?_⟩
  · rw [h.segments, List.map_append, List.map_singleton, List.dropLast_concat, List.map_append]
    rfl
  · intro r hr
    rw [hext.other _ (h.base_lt hr).ne]
    exact h.full r hr
  · intro k
    rw [hext.mem, h.files, hbases]
  · obtain ⟨hfront, hlast⟩ := covered_append.mp h.covered
    refine covered_append.mpr ⟨hfront, ?_, trivial⟩
    exact hbase.trans_le hlast.1
  · have hroom := h.room
    rw [hbytes, List.length_append]
    omega
  · rw [h.leo_eq, endOffset_append, endOffset_cons, endOffset_nil]
    exact congrArg (fun k => endOffset k cur + x.recs.length) hbase.symm
  · rintro y ⟨r, hr, hmem, hbehind⟩
    have hbehind' : ∀ w ∈ rowOf active'.publish.2 front (cur ++ [x]), baseOf r < baseOf w →
        stopOf y ≤ baseOf w := by
      intro w hw hlt
      have hin : baseOf w ∈ (rowOf active front cur).map baseOf :=
        hbases ▸ List.mem_map_of_mem hw
      obtain ⟨w', hw', heq⟩ := List.mem_map.mp hin
      rw [← heq] at hlt ⊢
      exact hbehind w' hw' hlt
    rcases List.mem_append.mp hr with hfront | hlast
    · exact ⟨r, List.mem_append_left _ hfront, hmem, hbehind'⟩
    · rw [List.mem_singleton.mp hlast] at hmem hbehind'
      refine ⟨_, List.mem_append_right _ (List.mem_singleton_self _),
        List.mem_append_left _ hmem, ?_⟩
      intro w hw hlt
      exact hbehind' w hw (hbase.symm.trans_lt hlt)
  · refine ⟨_, List.mem_append_right _ (List.mem_singleton_self _),
      List.mem_append_right _ (List.mem_singleton_self _), ?_⟩
    intro w hw hlt
    rcases List.mem_append.mp hw with hfront | hlast
    · have hbelow := h.base_lt hfront
      rw [← hbase] at hbelow
      exact absurd hlt (Nat.not_lt.mpr hbelow.le)
    · rw [List.mem_singleton.mp hlast] at hlt
      exact absurd hlt (lt_irrefl _)

/-- A new segment that begins within what the row covers. -/
lemma rowed_openSegment (config : PartitionActorConfig) (o : ℕ) {row : List Segment} {d : Disk}
    (hfull : ∀ r ∈ row, Holds (d.file (baseOf r)) r.1 r.2 ∧ (d.file (baseOf r)).log = bytes r.2)
    (hsorted : (row.map baseOf).Pairwise (· < ·)) (hbelow : ∀ r ∈ row, baseOf r < o)
    (hfiles : ∀ k, k ∈ d.files ↔ k ∈ row.map baseOf) (hcovered : Covered 0 row)
    (ho : o ≤ (bytes (batchesOf row)).length)
    (hroom : (bytes (batchesOf row)).length + d.free < 2 ^ 63) :
    Rowed config.maxEntries (LogSegment.openSegment (config.segmentConfig o) d).2
      (LogSegment.openSegment (config.segmentConfig o) d).1.publish.2
      (row.map Prod.fst ++ [(LogSegment.openSegment (config.segmentConfig o) d).1.publish.1]) o
      row [] := by
  have hnot : o ∉ d.files := by
    rw [hfiles]
    intro hmem
    obtain ⟨r, hr, rfl⟩ := List.mem_map.mp hmem
    exact lt_irrefl _ (hbelow r hr)
  have hlog : (d.file (config.segmentConfig o).baseOffset).log = [] :=
    congrArg SegmentFile.log (Disk.file_of_notMem hnot)
  obtain ⟨hwrites, hend, hdisk, -⟩ := openSegment_fresh (config.segmentConfig o) d hlog
  have hlast : batchesOf
      [((LogSegment.openSegment (config.segmentConfig o) d).1.publish.2.publish.1,
        ([] : List Filled))] = [] := rfl
  refine ⟨?_, ?_, hwrites.publish, hend, ?_, ?_, ?_, ?_, rfl⟩
  · rw [List.map_append]
    rfl
  · intro r hr
    have hne : baseOf r ≠ (config.segmentConfig o).baseOffset := (hbelow r hr).ne
    rw [hdisk, Disk.file_put_ne _ _ _ hne]
    exact hfull r hr
  · rw [List.map_append, List.pairwise_append]
    refine ⟨hsorted, List.pairwise_singleton _ _, fun k hk j hj => ?_⟩
    obtain ⟨r, hr, rfl⟩ := List.mem_map.mp hk
    rw [List.mem_singleton.mp hj]
    exact hbelow r hr
  · intro k
    rw [hdisk, Disk.mem_put, hfiles, List.map_append, List.mem_append, or_comm]
    exact or_congr_right List.mem_singleton.symm
  · refine covered_append.mpr ⟨hcovered, ?_, trivial⟩
    exact ho.trans_eq (Nat.zero_add _).symm
  · rw [batchesOf_append, hlast, List.append_nil, hdisk]
    exact hroom

/-- A batch that ends at or before the new segment stays where it is. -/
lemma Placed.concat {row row' : List Segment} (h : Placed (row ++ row') y) (hle : stopOf y ≤ o)
    (hrow' : ∀ r ∈ row', o ≤ baseOf r) (hbase : ∀ r ∈ row', y ∈ r.2 → baseOf r < stopOf y)
    {v : SegmentView} (hv : v.baseOffset = o) : Placed (row ++ [(v, [])]) y := by
  obtain ⟨r, hr, hmem, hbehind⟩ := h
  have hin : r ∈ row := by
    rcases List.mem_append.mp hr with hin | hout
    · exact hin
    · exact absurd (hbase r hout hmem) (Nat.not_lt.mpr (hle.trans (hrow' r hout)))
  refine ⟨r, List.mem_append_left _ hin, hmem, fun w hw hlt => ?_⟩
  rcases List.mem_append.mp hw with hold | hnew
  · exact hbehind w (List.mem_append_left _ hold) hlt
  · rw [List.mem_singleton.mp hnew]
    exact hle.trans_eq hv.symm

/-- A full active segment is closed, and a new one begins at the log end. -/
lemma Rowed.rollOver {config : PartitionActorConfig}
    (h : Rowed config.maxEntries d active views leo front cur) (hne : cur ≠ [])
    (hroll : PartitionActor.rollOver config leo views active d = (views', active', d')) :
    ∃ front' cur', Rowed config.maxEntries d' active' views' leo front' cur' ∧
      ∀ y, Placed (rowOf active front cur) y → Placed (rowOf active' front' cur') y := by
  rw [PartitionActor.rollOver] at hroll
  split_ifs at hroll
  · cases hroll
    have hend : active.segment.baseOffset < leo := h.leo_eq ▸ endOffset_lt hne
    have hbelow : ∀ r ∈ rowOf active front cur, baseOf r < leo := by
      intro r hr
      rcases List.mem_append.mp hr with hfront | hlast
      · exact (h.base_lt hfront).trans hend
      · rw [List.mem_singleton.mp hlast]
        exact hend
    have hopen := rowed_openSegment config leo (fun r hr => h.holds hr) h.sorted hbelow h.files
      h.covered h.leo_le h.room
    rw [← h.segments] at hopen
    refine ⟨_, _, hopen, fun y hy => ?_⟩
    rw [← List.append_nil (rowOf active front cur)] at hy
    exact hy.concat (h.stop_le (List.append_nil (rowOf active front cur) ▸ hy)) (by simp)
      (by simp) rfl
  · cases hroll
    exact ⟨front, cur, h, fun _ hy => hy⟩

/-- An append that is written places its batch and leaves the others where they are. -/
theorem Rowed.append {config : PartitionActorConfig} {st : PartitionState} {seg : LogSegment}
    {d₁ : Disk} (h : Rowed config.maxEntries d active st.segments st.logEndOffset front cur)
    (happend : active.appendBatch d (stored st x).batch = (some seg, d₁))
    (hroll : PartitionActor.rollOver config (st.logEndOffset + x.recs.length)
      (st.segments.dropLast ++ [seg.publish.1]) seg.publish.2 d₁ = (views', active', d')) :
    ∃ front' cur',
      Rowed config.maxEntries d' active' views' (st.logEndOffset + x.recs.length) front' cur' ∧
      (∀ y, Placed (rowOf active front cur) y → Placed (rowOf active' front' cur') y) ∧
      Placed (rowOf active' front' cur') (stored st x) := by
  have hmem : active.segment.baseOffset ∈ d.files :=
    (h.files _).mpr (List.mem_map_of_mem (List.mem_append_right _ (List.mem_singleton_self _)))
  have hplace : (stored st x).batch.baseOffset.toNat
      = endOffset active.segment.baseOffset cur := by
    rw [← h.leo_eq]
    exact UInt64.toNat_ofNat_of_lt' (h.leo_lt.trans (by decide))
  have hsmall : (bytes cur).length < 2 ^ 64 := by
    have hroom := h.room
    rw [batchesOf_append, bytes_append, List.length_append,
      show batchesOf [(active.publish.1, cur)] = cur from List.append_nil cur] at hroom
    omega
  rcases Nat.lt_or_ge d.free (stored st x).batch.encode.length with hfull | hfits
  · obtain ⟨d₂, hnone, -⟩ := h.atEnd.appendBatch_none hmem hfull
    rw [hnone] at happend
    cases happend
  · obtain ⟨seg', d₂, hsome, hwrites, hend, hext, hfree, hseg, -⟩ :=
      h.writes.appendBatch h.atEnd (Nat.succ_pos _) hmem hplace hsmall hfits
    rw [hsome] at happend
    cases happend
    obtain ⟨hrow, hkeep, hnew⟩ := h.extend hwrites hend hext hfree hseg
    obtain ⟨front', cur', hrow', hkeep'⟩ := hrow.rollOver (by simp) hroll
    exact ⟨front', cur', hrow', fun y hy => hkeep' y (hkeep y hy), hkeep' _ hnew⟩

/-! ### Truncation -/

lemma sum_length_log {row : List Segment}
    (h : ∀ r ∈ row, (d.file (baseOf r)).log = bytes r.2) :
    (row.map ((fun k => (d.file k).log.length) ∘ baseOf)).sum = (bytes (batchesOf row)).length := by
  induction row with
  | nil => rfl
  | cons r row ih =>
    rw [List.forall_mem_cons] at h
    rw [List.map_cons, List.sum_cons, ih h.2,
      show batchesOf (r :: row) = r.2 ++ batchesOf row from rfl, bytes_append, List.length_append,
      Function.comp_apply, h.1]

/-- A truncation leaves each batch where it is that ends at or before the cut. -/
theorem Rowed.truncate {a : PartitionActor} {st : PartitionState}
    (h : Rowed a.config.maxEntries d a.active st.segments st.logEndOffset front cur)
    (ho : o < st.logEndOffset) : ∃ a' d' views' front',
      a.handleTruncate d st o
        = ⟨d', ⟨views', o, min st.highWatermark o, st.replicas⟩, some a'⟩ ∧
      a'.config = a.config ∧ a'.acksPendingReplication = a.acksPendingReplication ∧
      Rowed a.config.maxEntries d' a'.active views' o front' [] ∧
      ∀ y, Placed (rowOf a.active front cur) y → stopOf y ≤ o →
        Placed (rowOf a'.active front' []) y := by
  obtain ⟨r₁, r₂, hrow, h₁, h₂⟩ := exists_split_of_sorted baseOf o h.sorted
  have hviews := h.segments
  rw [hrow, List.map_append] at hviews
  rw [handleTruncate_of_lt ho hviews (by simpa using h₁) (by simpa using h₂), List.map_map]
  have hsorted := h.sorted
  have hcovered := h.covered
  have hroom := h.room
  have hfiles := h.files
  rw [hrow, List.map_append, List.pairwise_append] at hsorted
  rw [hrow, covered_append, Nat.zero_add] at hcovered
  rw [hrow, batchesOf_append, bytes_append, List.length_append] at hroom
  rw [hrow, List.map_append] at hfiles
  have hapart : ∀ r ∈ r₁, baseOf r ∉ r₂.map baseOf :=
    fun r hr hmem => lt_irrefl _ (hsorted.2.2 _ (List.mem_map_of_mem hr) _ hmem)
  have hreach : o ≤ (bytes (batchesOf r₁)).length := by
    cases r₂ with
    | nil =>
      rw [List.append_nil] at hrow
      exact hrow ▸ ho.le.trans h.leo_le
    | cons r r₂ => exact (h₂ r List.mem_cons_self).trans hcovered.2.1
  have hfreed : (d.removeAll (r₂.map baseOf)).free = d.free + (bytes (batchesOf r₂)).length := by
    rw [free_removeAll (hsorted.2.1.imp fun hlt => hlt.ne), List.map_map,
      sum_length_log fun r hr => (h.holds (hrow ▸ List.mem_append_right _ hr)).2]
  have hfull : ∀ r ∈ r₁, Holds ((d.removeAll (r₂.map baseOf)).file (baseOf r)) r.1 r.2 ∧
      ((d.removeAll (r₂.map baseOf)).file (baseOf r)).log = bytes r.2 := by
    intro r hr
    rw [file_removeAll (hapart r hr)]
    exact h.holds (hrow ▸ List.mem_append_left _ hr)
  have hleft : ∀ k, k ∈ (d.removeAll (r₂.map baseOf)).files ↔ k ∈ r₁.map baseOf := by
    intro k
    rw [mem_removeAll, hfiles, List.mem_append, and_or_left,
      or_iff_left (fun hand => hand.1 hand.2)]
    refine and_iff_right_of_imp fun hmem => ?_
    obtain ⟨r, hr, rfl⟩ := List.mem_map.mp hmem
    exact hapart r hr
  have hopen := rowed_openSegment a.config o hfull hsorted.1 h₁ hleft hcovered.1 hreach (by
    rw [hfreed]
    omega)
  refine ⟨_, _, _, r₁, rfl, rfl, rfl, hopen, fun y hy hle => ?_⟩
  rw [hrow] at hy
  refine hy.concat hle h₂ (fun r hr hmem => ?_) rfl
  have hholds := (h.holds (hrow ▸ List.mem_append_right _ hr)).1
  have hpos := y.length_pos
  have hbase := (hholds.chained.le_baseOffset hmem).1
  exact hbase.trans_lt (Nat.lt_add_of_pos_right hpos)

/-! ### The start -/

/-- On an empty directory the row is one empty segment. -/
lemma rowed_new {config : PartitionActorConfig} {replicas : List ReplicaMetadata} {free : ℕ}
    {p : Partition} (hsize : 0 < config.segmentBytes) (hfree : free < 2 ^ 63)
    (hp : PartitionActor.new config replicas ⟨free, ∅⟩ = some p) :
    ∃ a, p.actor = some a ∧ a.config = config ∧
      Rowed config.maxEntries p.disk a.active p.state.segments p.state.logEndOffset [] [] := by
  obtain ⟨p', a, hnew, hrunning, hconfig, hend⟩ := Running.new config replicas hfree
  obtain rfl : p' = p := Option.some.inj (hnew.symm.trans hp)
  obtain ⟨hstate, hactor⟩ := new_empty hsize hp
  obtain ⟨hlined, -⟩ := hactor a hrunning.actor
  obtain ⟨ks, closed, cur, hnil, hserves⟩ := hrunning.serves
  obtain ⟨hclosed, rfl⟩ := List.append_eq_nil_iff.mp hnil
  have hkeeps := hserves.keeps
  have hbase : a.active.segment.baseOffset = 0 := by
    rw [hkeeps.base_eq, hclosed]
    rfl
  have hview : p'.state.segments = [a.active.publish.1] := by
    obtain ⟨front, segs, hviews, -⟩ := hserves.shown
    have hlen : front.length = 0 := by
      rw [hstate] at hviews
      have hlength := congrArg List.length hviews
      simpa using hlength
    rw [hviews, List.length_eq_zero_iff.mp hlen, List.nil_append]
  subst hconfig
  refine ⟨a, hrunning.actor, rfl, hview, ?_, hkeeps.writes, hend, List.pairwise_singleton _ _, ?_,
    ?_, ?_, ?_⟩
  · exact fun r hr => absurd hr List.not_mem_nil
  · intro k
    rw [hlined.mem, hview]
    rfl
  · exact ⟨hbase.le, trivial⟩
  · have hroom := hkeeps.room
    rw [hclosed] at hroom
    exact hroom
  · rw [hrunning.leo_eq, hbase]

end Rowed

end Musil.Storage
