import Musil.Storage.SegmentWrite

/-!
# A fetch is a scan

The index of a segment only shortens the way to the first batch. Whatever the index holds, a fetch
is the same as going through all batches from the start of the file.
-/

namespace Musil.Storage

open Bytes Proto

/-! ### The scan -/

/-- The fetch over all batches of a segment, from the first one on. -/
def scan [Crc] (bs : List RecordBatch) (req : FetchPartition) : Option (List RecordBatch) :=
  match bs.dropWhile fun b =>
      b.baseOffset.toNat + b.recordsCount.toNat ≤ req.fetchOffset.toNat with
  | [] => some []
  | batch :: batches => match batch.sliceFromOffset req.fetchOffset with
    | none => none
    | some (.error _) => some []
    | some (.ok first) =>
      (SegmentView.fetchMore req.partitionMaxBytes first.batchLength (batches.map some)).map
        (first :: ·)

section Scan

variable {f : SegmentFile} {v : SegmentView} {xs : List Filled} {target : ℕ}

lemma dropWhile_batch (target : ℕ) (xs : List Filled) :
    (xs.map Filled.batch).dropWhile (fun b => b.baseOffset.toNat + b.recordsCount.toNat ≤ target)
      = (fromOffset target xs).map Filled.batch := by
  rw [List.dropWhile_map, fromOffset]
  congr 2
  funext x
  simp only [Function.comp_apply, x.count_eq]

lemma fromOffset_of_endOffset_le {base : ℕ} (hc : Chained base xs)
    (ht : endOffset base xs ≤ target) : fromOffset target xs = [] := by
  rw [← List.append_nil xs]
  exact fromOffset_append hc ht

/-- The view and the scan go through the same batches. -/
theorem Holds.fetch_eq [Crc] (h : Holds f v xs) (req : FetchPartition) :
    v.fetch f req = scan (xs.map Filled.batch) req := by
  rw [scan, dropWhile_batch, SegmentView.fetch]
  rcases Nat.lt_or_ge (endOffset v.baseOffset xs) req.fetchOffset.toNat with hpast | hle
  · rw [fromOffset_of_endOffset_le h.chained hpast.le]
    rcases h.batchIterFrom_past hpast with hnone | ⟨it, hit, hbatches⟩
    · rw [hnone]
      rfl
    · rw [hit]
      simp only [hbatches]
      rfl
  · obtain ⟨it, hit, hbatches⟩ := h.batchIterFrom hle
    rw [hit]
    simp only [hbatches]
    cases fromOffset req.fetchOffset.toNat xs with
    | nil => rfl
    | cons x post =>
      simp only [List.map_cons, List.map_map]
      rfl

end Scan

/-! ### The longest run of batches -/

def sumLengths (ys : List Filled) : ℕ :=
  (ys.map fun y => y.batch.batchLength.toNat).sum

/-- The batches `ys` are as many from the front of `post` as fit under the limit behind the first
`total` bytes. -/
structure LongestRun (limit total : ℕ) (post ys : List Filled) : Prop where
  isPrefix : ys <+: post
  within : ys ≠ [] → total + sumLengths ys ≤ limit
  longest : ∀ zs, zs <+: post → zs ≠ [] → total + sumLengths zs ≤ limit → zs <+: ys

/-- No sum wraps that is formed while the limit is kept. -/
def SumsFit (limit total : ℕ) (post : List Filled) : Prop :=
  ∀ ys y, ys ++ [y] <+: post → (ys ≠ [] → total + sumLengths ys ≤ limit) →
    total + sumLengths (ys ++ [y]) < 2 ^ 32

section LongestRun

variable {limit total : ℕ} {x : Filled} {xs ys : List Filled}

@[simp] lemma sumLengths_nil : sumLengths [] = 0 := rfl

@[simp] lemma sumLengths_cons :
    sumLengths (x :: xs) = x.batch.batchLength.toNat + sumLengths xs := by
  simp [sumLengths]

lemma longestRun_nil (limit total : ℕ) : LongestRun limit total [] [] where
  isPrefix := List.nil_prefix
  within h := absurd rfl h
  longest _ hzs _ _ := hzs

/-- The next batch does not fit any more. -/
lemma longestRun_stop (h : limit < total + x.batch.batchLength.toNat) :
    LongestRun limit total (x :: xs) [] where
  isPrefix := List.nil_prefix
  within h := absurd rfl h
  longest zs hzs hne hle := by
    obtain ⟨z, zs, rfl⟩ := List.exists_cons_of_ne_nil hne
    obtain ⟨rfl, -⟩ := List.cons_prefix_cons.mp hzs
    rw [sumLengths_cons] at hle
    omega

lemma LongestRun.cons (hx : total + x.batch.batchLength.toNat ≤ limit)
    (h : LongestRun limit (total + x.batch.batchLength.toNat) xs ys) :
    LongestRun limit total (x :: xs) (x :: ys) where
  isPrefix := List.cons_prefix_cons.mpr ⟨rfl, h.isPrefix⟩
  within _ := by
    rw [sumLengths_cons, ← Nat.add_assoc]
    rcases eq_or_ne ys [] with rfl | hne
    · exact hx
    · exact h.within hne
  longest zs hzs hne hle := by
    obtain ⟨z, zs, rfl⟩ := List.exists_cons_of_ne_nil hne
    obtain ⟨rfl, hzs⟩ := List.cons_prefix_cons.mp hzs
    rw [sumLengths_cons, ← Nat.add_assoc] at hle
    refine List.cons_prefix_cons.mpr ⟨rfl, ?_⟩
    rcases eq_or_ne zs [] with rfl | hzne
    · exact List.nil_prefix
    · exact h.longest zs (List.cons_prefix_cons.mp hzs).2 hzne hle

lemma SumsFit.head (h : SumsFit limit total (x :: xs)) :
    total + x.batch.batchLength.toNat < 2 ^ 32 := by
  have hx := h [] x (by simp) (fun hne => absurd rfl hne)
  rwa [List.nil_append, sumLengths_cons, sumLengths_nil, Nat.add_zero] at hx

lemma SumsFit.tail (h : SumsFit limit total (x :: xs))
    (hx : total + x.batch.batchLength.toNat ≤ limit) :
    SumsFit limit (total + x.batch.batchLength.toNat) xs := by
  intro ys y hys hle
  have hcons := h (x :: ys) y (List.cons_prefix_cons.mpr ⟨rfl, hys⟩) fun _ => ?_
  · rwa [List.cons_append, sumLengths_cons, ← Nat.add_assoc] at hcons
  · rw [sumLengths_cons, ← Nat.add_assoc]
    rcases eq_or_ne ys [] with rfl | hne
    · exact hx
    · exact hle hne

/-- The loop behind the first batch takes the longest run. -/
theorem fetchMore_eq (maxBytes : UInt32) {count : UInt32}
    (h : SumsFit maxBytes.toNat count.toNat xs) :
    ∃ ys, LongestRun maxBytes.toNat count.toNat xs ys ∧
      SegmentView.fetchMore maxBytes count ((xs.map Filled.batch).map some)
        = some (ys.map Filled.batch) := by
  induction xs generalizing count with
  | nil => exact ⟨[], longestRun_nil _ _, rfl⟩
  | cons x xs ih =>
    have hsum : (count + x.batch.batchLength).toNat
        = count.toNat + x.batch.batchLength.toNat := by
      rw [UInt32.toNat_add, Nat.mod_eq_of_lt h.head]
    rw [List.map_cons, List.map_cons, SegmentView.fetchMore]
    split_ifs with hstop
    · rw [UInt32.lt_iff_toNat_lt, hsum] at hstop
      exact ⟨[], longestRun_stop hstop, rfl⟩
    · rw [UInt32.lt_iff_toNat_lt, hsum, Nat.not_lt] at hstop
      obtain ⟨ys, hys, heq⟩ := ih (hsum ▸ h.tail hstop)
      rw [hsum] at hys
      exact ⟨x :: ys, hys.cons hstop, by rw [heq]; rfl⟩

end LongestRun

end Musil.Storage

namespace Musil.Proto.Filled

/-- The records have the right lengths, and their places as their deltas. -/
structure WellFormed (x : Filled) : Prop where
  sized : ∀ r ∈ x.recs, r.Sized
  numbered : RecordBatch.Numbered 0 x.recs

lemma WellFormed.searchable {x : Filled} (h : x.WellFormed) : x.Searchable :=
  x.carries.searchable h.sized fun i r hr => by rw [h.numbered i r hr, Nat.zero_add]

/-- The offset is that of a record of the batch. -/
def Contains (x : Filled) (o : ℕ) : Prop :=
  x.batch.baseOffset.toNat ≤ o ∧ o < x.batch.baseOffset.toNat + x.recs.length

end Musil.Proto.Filled

namespace Musil.Storage

open Bytes Proto

/-! ### What a scan returns -/

section Result

variable {base : ℕ} {xs pre post : List Filled} {x : Filled}

lemma Chained.bounds (hc : Chained base xs) {y : Filled} (hy : y ∈ xs) :
    base ≤ y.batch.baseOffset.toNat ∧
      y.batch.baseOffset.toNat + y.recs.length ≤ endOffset base xs := by
  obtain ⟨pre, post, rfl⟩ := List.append_of_mem hy
  obtain ⟨-, hbase, -⟩ := chained_append.mp hc
  rw [hbase, endOffset_append, endOffset_cons]
  exact ⟨le_endOffset, le_endOffset⟩

/-- No other batch contains an offset of this one. -/
lemma Chained.not_contains (hc : Chained base (pre ++ x :: post)) {o : ℕ} (ho : x.Contains o) :
    ∀ y ∈ pre ++ post, ¬ y.Contains o := by
  intro y hy hcontains
  obtain ⟨hpre, hbase, hpost⟩ := chained_append.mp hc
  obtain ⟨hle, hlt⟩ := ho
  rcases List.mem_append.mp hy with hy | hy
  · have hbound := (hpre.bounds hy).2
    have hend := hcontains.2
    omega
  · have hbound := (hpost.bounds hy).1
    have hstart := hcontains.1
    omega

/-- The scan from an offset of a batch: the slice of this batch, and the longest run of the next
ones. -/
lemma scan_of_contains [Crc] {req : FetchPartition} (hc : Chained base (pre ++ x :: post))
    (ho : x.Contains req.fetchOffset.toNat) {first : RecordBatch}
    (hfirst : x.batch.sliceFromOffset req.fetchOffset = some (.ok first))
    (hfit : SumsFit req.partitionMaxBytes.toNat first.batchLength.toNat post) :
    ∃ ys, LongestRun req.partitionMaxBytes.toNat first.batchLength.toNat post ys ∧
      scan ((pre ++ x :: post).map Filled.batch) req = some (first :: ys.map Filled.batch) := by
  obtain ⟨hpre, hbase, -⟩ := chained_append.mp hc
  obtain ⟨hle, hlt⟩ := ho
  obtain ⟨ys, hys, hmore⟩ := fetchMore_eq req.partitionMaxBytes hfit
  have hfrom : fromOffset req.fetchOffset.toNat (pre ++ x :: post) = x :: post := by
    rw [fromOffset_append hpre (hbase ▸ hle), fromOffset_cons_of_lt rfl hlt]
  refine ⟨ys, hys, ?_⟩
  rw [scan, dropWhile_batch, hfrom]
  simp only [List.map_cons, hfirst, hmore]
  rfl

/-- A segment that was opened fresh answers a fetch as the scan of the appended batches does, with
any interval between the entries of its index. -/
theorem fetch_eq_scan [Crc] (opts : SegmentConfig) (d : Disk)
    (hfresh : (d.file opts.baseOffset).log = []) (hfree : d.free < 2 ^ 63) (xs : List Filled)
    (hchained : Chained opts.baseOffset xs) (hwell : ∀ x ∈ xs, x.WellFormed) (seg : LogSegment)
    (d' : Disk) (happend : (LogSegment.openSegment opts d).1.appendAll
      (LogSegment.openSegment opts d).2 (xs.map Filled.batch) = (some seg, d'))
    (req : FetchPartition) :
    seg.publish.1.fetch (d'.file opts.baseOffset) req = scan (xs.map Filled.batch) req ∧
    (opts.baseOffset ≤ req.fetchOffset.toNat →
      req.fetchOffset.toNat < endOffset opts.baseOffset xs →
      ∃ pre x post first, xs = pre ++ x :: post ∧ x.Contains req.fetchOffset.toNat ∧
        (∀ y ∈ pre ++ post, ¬ y.Contains req.fetchOffset.toNat) ∧
        x.batch.sliceFromOffset req.fetchOffset = some (.ok first) ∧
        (SumsFit req.partitionMaxBytes.toNat first.batchLength.toNat post →
          ∃ ys, LongestRun req.partitionMaxBytes.toNat first.batchLength.toNat post ys ∧
            seg.publish.1.fetch (d'.file opts.baseOffset) req
              = some (first :: ys.map Filled.batch))) ∧
    (endOffset opts.baseOffset xs ≤ req.fetchOffset.toNat →
      seg.publish.1.fetch (d'.file opts.baseOffset) req = some []) := by
  obtain ⟨hwrites, hend, hdisk, -⟩ := openSegment_fresh opts d hfresh
  have hbase : (LogSegment.openSegment opts d).1.segment.baseOffset = opts.baseOffset := rfl
  have hmem : opts.baseOffset ∈ (LogSegment.openSegment opts d).2.files := by
    rw [hdisk, Disk.mem_put]
    exact .inl rfl
  have hleft : (LogSegment.openSegment opts d).2.free = d.free := by rw [hdisk, Disk.free_put]
  obtain ⟨hseg, hsegment⟩ := hwrites.appendAll hend (Nat.succ_pos _) hmem
    (by rw [hleft]; simpa using hfree) hchained happend
  rw [List.nil_append] at hseg
  have hholds := hseg.holds
  rw [hsegment, hbase] at hholds
  have hscan := hholds.fetch_eq req
  refine ⟨hscan, fun hle hlt => ?_, fun hpast => ?_⟩
  · obtain ⟨pre, x, post, rfl, -, hstart, hin, hout⟩ := exists_fromOffset hchained hle hlt
    have hcontains : x.Contains req.fetchOffset.toNat := ⟨hstart ▸ hin, hstart ▸ hout⟩
    obtain ⟨y, hslice, -, -⟩ :=
      x.exists_slice (hwell x (by simp)).searchable hcontains.1 hcontains.2
    refine ⟨pre, x, post, y.batch, rfl, hcontains, hchained.not_contains hcontains, hslice,
      fun hfit => ?_⟩
    rw [hscan]
    exact scan_of_contains hchained hcontains hslice hfit
  · rw [hscan, scan, dropWhile_batch, fromOffset_of_endOffset_le hchained hpast]
    rfl

end Result

lemma wellFormed_single [Crc] (value : UInt8) (o : UInt64) :
    ((Filled.single value).rebase o).WellFormed where
  sized r hr := by
    obtain rfl := List.mem_singleton.mp hr
    exact Record.new_sized 0 0 (show 33 + 0 + 1 < 2 ^ 32 by decide)
  numbered i r hr := by
    cases i with
    | zero =>
      cases hr
      rfl
    | succ i => cases hr

/-- Two batches of one record each, and a segment with an index entry for each. -/
def twoBatches [Crc] : List Filled :=
  [(Filled.single 1).rebase 0, (Filled.single 2).rebase 1]

def smallConfig : SegmentConfig := ⟨0, 1000, 1⟩

def emptyDisk : Disk := ⟨1 <<< 20, ∅⟩

def appendTwo [Crc] : Option LogSegment × Disk :=
  (LogSegment.openSegment smallConfig emptyDisk).1.appendAll
    (LogSegment.openSegment smallConfig emptyDisk).2 (twoBatches.map Filled.batch)

lemma chained_twoBatches [Crc] : Chained smallConfig.baseOffset twoBatches :=
  ⟨rfl, rfl, trivial⟩

lemma wellFormed_twoBatches [Crc] : ∀ x ∈ twoBatches, x.WellFormed := by
  intro x hx
  rcases List.mem_pair.mp hx with rfl | rfl
  · exact wellFormed_single 1 0
  · exact wellFormed_single 2 1

lemma isSome_appendTwo : (@appendTwo Crc.castagnoli).1.isSome := by
  decide +kernel

theorem fetch_eq_scan_two : ∃ seg, (@appendTwo Crc.castagnoli).1 = some seg ∧
    @SegmentView.fetch seg.publish.1
        ((@appendTwo Crc.castagnoli).2.file smallConfig.baseOffset) Crc.castagnoli ⟨1, 100⟩
      = @scan Crc.castagnoli ((@twoBatches Crc.castagnoli).map Filled.batch) ⟨1, 100⟩ := by
  let := Crc.castagnoli
  obtain ⟨seg, hseg⟩ := Option.isSome_iff_exists.mp isSome_appendTwo
  have happend : appendTwo = (some seg, appendTwo.2) := by
    rw [← hseg]
  have hscan := fetch_eq_scan smallConfig emptyDisk rfl (by decide) twoBatches
    chained_twoBatches wellFormed_twoBatches seg appendTwo.2 happend ⟨1, 100⟩
  exact ⟨seg, hseg, hscan.1⟩

end Musil.Storage
