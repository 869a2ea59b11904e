import Musil.Proto.RecordBatch
import Mathlib.Data.List.AList

/-!
# The directory of a partition

A segment is a log file and an index file under one base offset. A file stays readable for those
who have it open, and the storage removes a segment only together with its view, so a base offset
names a segment's files. The time index is written and never read; it is left out.

Only log files take space. A write that finds the disk full stops there and fails.
-/

namespace Musil.Storage

open Bytes

/-- An index entry: an offset and the position of its batch in the log file. -/
structure IndexEntry where
  offset : UInt64
  pos : UInt64
  deriving DecidableEq, Repr

def IndexEntry.zero : IndexEntry := ⟨0, 0⟩

def indexEntrySize : ℕ := 16

/-- The bytes of the log file and the slots of the index file. -/
structure SegmentFile where
  log : List UInt8
  index : List IndexEntry
  deriving DecidableEq, Repr

/-- The segment files of a partition by base offset, and the bytes left on the disk. A position in
a file is a signed 64-bit number, so no more than that is ever left. -/
structure Disk where
  free : ℕ
  files : AList fun _ : ℕ => SegmentFile

namespace Disk

def file (d : Disk) (base : ℕ) : SegmentFile :=
  (d.files.lookup base).getD ⟨[], []⟩

def put (d : Disk) (base : ℕ) (f : SegmentFile) : Disk :=
  { d with files := d.files.insert base f }

/-- Write `data` into a log file at `pos`, as far as there is room: whether all of it was written,
and the disk after it. -/
def write (d : Disk) (base pos : ℕ) (data : List UInt8) : Bool × Disk :=
  let f := d.file base
  let room := f.log.length - pos + d.free
  let log := writeAt f.log pos (data.take room)
  (data.length ≤ room,
    { d.put base { f with log := log } with free := d.free - (log.length - f.log.length) })

/-- Remove the files of a segment; their space is free again. -/
def remove (d : Disk) (base : ℕ) : Disk where
  free := d.free + (d.file base).log.length
  files := d.files.erase base

end Disk

end Musil.Storage
