import Musil.Storage.Disk

/-!
# Segments

`LogSegment` is the writer of a segment, `SegmentView` what readers see of it: how many index
entries and how many bytes of the log are valid. A reader finds a batch by a binary search in the
index and a linear search from there on.

Sizes, positions and offsets are natural numbers here.
-/

namespace Musil.Storage

open Bytes Proto

structure SegmentConfig where
  baseOffset : ℕ
  segmentBytes : ℕ
  indexIntervalBytes : ℕ
  deriving DecidableEq, Repr

/-! ### Views -/

structure SegmentView where
  baseOffset : ℕ
  indexCount : ℕ
  size : ℕ
  deriving DecidableEq, Repr

structure FetchPartition where
  fetchOffset : UInt64
  partitionMaxBytes : UInt32
  deriving DecidableEq, Repr

namespace SegmentView

variable (v : SegmentView) (f : SegmentFile)

/-- The binary search: the first `lo` slots are known to be at or below the target. -/
def search (target : ℕ) : ℕ → ℕ → ℕ → ℕ
  | 0, lo, _ => lo
  | fuel + 1, lo, hi =>
    if hi < lo then lo
    else
      let mid := lo + (hi - lo) / 2
      if (f.index.getD mid .zero).offset.toNat ≤ target then search target fuel (mid + 1) hi
      else if mid = 0 then lo
      else search target fuel lo (mid - 1)

def findPhysicalPosition (target : ℕ) : Option IndexEntry :=
  if v.indexCount = 0 then none
  else match search f target v.indexCount 0 (v.indexCount - 1) with
    | 0 => none
    | lo + 1 => some (f.index.getD lo .zero)

/-- The position of the batch that holds `target`, from a batch at `offset` and `pos` on; there is
none when the segment ends before. -/
def linearSearch (target : ℕ) : ℕ → ℕ → ℕ → Option ℕ
  | 0, _, _ => none
  | fuel + 1, offset, pos =>
    if target ≤ offset then some pos
    else if v.size ≤ pos then none
    else
      let batchLength := ofBE (readAt f.log (pos + 8) 4)
      let recordsCount := ofBE (readAt f.log (pos + (headerSize - 4)) 4)
      if target < offset + recordsCount then some pos
      else linearSearch target fuel (offset + recordsCount) (pos + batchHeaderPrefix + batchLength)

/-- The iterator from the batch that holds `offset` on; every step of the linear search moves at
least one byte on. -/
def batchIterFrom (offset : ℕ) : Option BatchIter :=
  match v.findPhysicalPosition f offset with
  | some idx => (v.linearSearch f offset (v.size + 1) idx.offset.toNat idx.pos.toNat).map
      fun pos => ⟨f.log, pos, v.size⟩
  | none =>
    if 0 < v.size then (v.linearSearch f offset (v.size + 1) v.baseOffset 0).map
      fun pos => ⟨f.log, pos, v.size⟩
    else some (BatchIter.empty f.log)

def batchesFrom (pos : ℕ) : BatchIter :=
  ⟨f.log, pos, v.size⟩

/-- The batches behind the first one, while the declared lengths stay within the limit. The sum
wraps. -/
def fetchMore (maxBytes : UInt32) : UInt32 → List (Option RecordBatch) → Option (List RecordBatch)
  | _, [] => some []
  | _, none :: _ => none
  | bytes, some batch :: batches =>
    if maxBytes < bytes + batch.batchLength then some []
    else (fetchMore maxBytes (bytes + batch.batchLength) batches).map (batch :: ·)

/-- The batches from the fetch offset on, the first one sliced; no value when a read panics. -/
def fetch [Crc] (req : FetchPartition) : Option (List RecordBatch) :=
  match v.batchIterFrom f req.fetchOffset.toNat with
  | none => some []
  | some it => match it.batches with
    | [] => some []
    | none :: _ => none
    | some batch :: batches => match batch.sliceFromOffset req.fetchOffset with
      | none => none
      | some (.error _) => some []
      | some (.ok first) =>
        (fetchMore req.partitionMaxBytes first.batchLength batches).map (first :: ·)

end SegmentView

/-! ### The writer -/

structure LogSegment where
  segment : SegmentView
  /-- The position of the log file's handle. -/
  cursor : ℕ
  indexWritePos : ℕ
  size : ℕ
  indexCount : ℕ
  bytesSinceLastIndex : ℕ
  indexThresholdBytes : ℕ
  deriving DecidableEq, Repr

namespace LogSegment

/-- The slots in use: all before the first empty one, where the first slot counts in any case. -/
def countEntries : List IndexEntry → ℕ
  | [] => 0
  | _ :: slots => 1 + (slots.takeWhile fun e => e ≠ .zero).length

/-- Open the files of a segment, or create them. The handle stands at the start of the log. -/
def openSegment (opts : SegmentConfig) (d : Disk) : LogSegment × Disk :=
  let existingSize := (d.file opts.baseOffset).log.length
  let fresh := existingSize = 0
  let maxEntries := opts.segmentBytes / opts.indexIntervalBytes + 1
  let log := (d.file opts.baseOffset).log
  let index :=
    if fresh then List.replicate maxEntries .zero
    else ((d.file opts.baseOffset).index.take maxEntries).rightpad maxEntries .zero
  let (indexCount, size, bytesSinceLastIndex) :=
    if fresh then (0, 0, opts.indexIntervalBytes) else (countEntries index, existingSize, 0)
  ({ segment := ⟨opts.baseOffset, 0, 0⟩
     cursor := 0
     indexWritePos := indexCount * indexEntrySize
     size := size
     indexCount := indexCount
     bytesSinceLastIndex := bytesSinceLastIndex
     indexThresholdBytes := opts.indexIntervalBytes },
   d.put opts.baseOffset ⟨log, index⟩)

/-- The records in the log file; no value when a read panics. -/
def recordsCount (seg : LogSegment) (d : Disk) : Option ℕ :=
  let it : BatchIter := ⟨(d.file seg.segment.baseOffset).log, 0, seg.size⟩
  (it.batches.mapM id).map fun batches => (batches.map fun b => b.recordsCount.toNat).sum

/-- The records of a file are counted by what its batches declare. -/
lemma recordsCount_of_batches {seg : LogSegment} {d : Disk} {bs : List RecordBatch}
    (h : BatchIter.batches ⟨(d.file seg.segment.baseOffset).log, 0, seg.size⟩ = bs.map some) :
    seg.recordsCount d = some (bs.map fun b => b.recordsCount.toNat).sum := by
  have hall : (bs.map some).mapM id = some bs := by
    rw [List.mapM_map]
    exact List.mapM_pure.trans (congrArg some (List.map_id bs))
  rw [recordsCount, h, hall, Option.map_some]

/-- Write a batch at the handle's position and note it in the index when enough bytes have come;
no writer is left when the write fails. -/
def appendBatch (seg : LogSegment) (d : Disk) (batch : RecordBatch) : Option LogSegment × Disk :=
  let base := seg.segment.baseOffset
  let logPos := (d.file base).log.length
  match d.write base seg.cursor batch.encode with
  | (false, d) => (none, d)
  | (true, d) =>
    let cursor := seg.cursor + batch.encode.length
    let batchOnDisk := batchHeaderPrefix + batch.batchLength.toNat
    let bytesSince := seg.bytesSinceLastIndex + batchOnDisk
    let f := d.file base
    if seg.indexThresholdBytes ≤ bytesSince ∧
        seg.indexWritePos + indexEntrySize ≤ f.index.length * indexEntrySize then
      let slot := seg.indexWritePos / indexEntrySize
      let index := f.index.set slot ⟨batch.baseOffset, UInt64.ofNat logPos⟩
      (some { seg with
          cursor := cursor
          indexWritePos := seg.indexWritePos + indexEntrySize
          indexCount := seg.indexCount + 1
          bytesSinceLastIndex := 0
          size := seg.size + batchOnDisk },
        d.put base { f with index := index })
    else
      (some { seg with
          cursor := cursor
          bytesSinceLastIndex := bytesSince
          size := seg.size + batchOnDisk },
        d)

def publish (seg : LogSegment) : SegmentView × LogSegment :=
  let new := { seg.segment with indexCount := seg.indexCount, size := seg.size }
  (new, { seg with segment := new })

end LogSegment

end Musil.Storage
