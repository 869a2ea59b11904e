import Musil.Proto.Record

/-!
# Record batches

A batch is a 61-byte header followed by encoded records. The header declares, redundantly, the
length of the payload and the number of records; decoding takes both as they stand.
-/

namespace Musil.Proto

open Bytes Bytes.Reader

/-- The checksum of the `crc_fast` package. -/
class Crc where
  crc32Iscsi : List UInt8 → UInt32

/-- The remainder after one more bit, and after one more byte. -/
def Crc.shift (crc : UInt32) : UInt32 :=
  if crc &&& 1 = 1 then (crc >>> 1) ^^^ 0x82F63B78 else crc >>> 1

def Crc.update (crc : UInt32) (byte : UInt8) : UInt32 :=
  Nat.iterate Crc.shift 8 (crc ^^^ byte.toUInt32)

/-- The Castagnoli checksum bit by bit, for runs on fixed inputs. -/
@[reducible] def Crc.castagnoli : Crc where
  crc32Iscsi bytes := bytes.foldl Crc.update 0xFFFFFFFF ^^^ 0xFFFFFFFF

example : Crc.castagnoli.crc32Iscsi [49, 50, 51, 52, 53, 54, 55, 56, 57] = 0xE3069283 := by
  decide +kernel

def headerSize : ℕ := 61

/-- Bytes before the payload on disk: the base offset and the batch length. -/
def batchHeaderPrefix : ℕ := 12

/-- Fixed bytes of the payload before the records. -/
def batchPayloadHeader : ℕ := 49

structure RecordBatch where
  baseOffset : UInt64
  batchLength : UInt32
  partitionLeaderEpoch : Int32
  magic : UInt8
  crc : UInt32
  attributes : UInt16
  lastOffsetDelta : Int32
  baseTimestamp : UInt64
  maxTimestamp : UInt64
  producerId : Int64
  producerEpoch : Int16
  baseSequence : Int32
  recordsCount : UInt32
  records : List UInt8
  deriving DecidableEq

inductive ProtoError where
  | crc
  | invalidOffset
  deriving DecidableEq, Repr

namespace RecordBatch

/-! ### Encoding and decoding -/

def encodeHeader (b : RecordBatch) : List UInt8 :=
  toBE 8 b.baseOffset.toNat ++ toBE 4 b.batchLength.toNat
    ++ toBE 4 b.partitionLeaderEpoch.toUInt32.toNat ++ [b.magic] ++ toBE 4 b.crc.toNat
    ++ toBE 2 b.attributes.toNat ++ toBE 4 b.lastOffsetDelta.toUInt32.toNat
    ++ toBE 8 b.baseTimestamp.toNat ++ toBE 8 b.maxTimestamp.toNat
    ++ toBE 8 b.producerId.toUInt64.toNat ++ toBE 2 b.producerEpoch.toUInt16.toNat
    ++ toBE 4 b.baseSequence.toUInt32.toNat ++ toBE 4 b.recordsCount.toNat

/-- The batch on disk and on the wire. -/
def encode (b : RecordBatch) : List UInt8 :=
  b.encodeHeader ++ b.records

def readPrefix : Reader (UInt64 × UInt32) := do
  let baseOffset ← getU64
  let batchLength ← getU32
  pure (baseOffset, batchLength)

/-- The fields after the batch length, and all that is left as the records. -/
def readPayload (baseOffset : UInt64) (batchLength : UInt32) : Reader RecordBatch := do
  let partitionLeaderEpoch ← getI32
  let magic ← getU8
  let crc ← getU32
  let attributes ← getU16
  let lastOffsetDelta ← getI32
  let baseTimestamp ← getU64
  let maxTimestamp ← getU64
  let producerId ← getI64
  let producerEpoch ← getI16
  let baseSequence ← getI32
  let recordsCount ← getU32
  let records ← rest
  pure ⟨baseOffset, batchLength, partitionLeaderEpoch, magic, crc, attributes, lastOffsetDelta,
    baseTimestamp, maxTimestamp, producerId, producerEpoch, baseSequence, recordsCount, records⟩

/-- Decode a batch from the wire; there is no value when the bytes end inside the header. -/
def decode [Crc] (buf : List UInt8) : Option (Except ProtoError RecordBatch) := do
  let ((baseOffset, batchLength), buf) ← readPrefix.run buf
  let (b, _) ← (readPayload baseOffset batchLength).run buf
  if Crc.crc32Iscsi b.records ≠ b.crc then pure (.error .crc) else pure (.ok b)

/-- Decode the batch at `pos` of a file; there is no value when the declared length is shorter
than the fixed fields. -/
def decodeFile (file : List UInt8) (pos : ℕ) : Option RecordBatch := do
  let ((baseOffset, batchLength), _) ← readPrefix.run (readAt file pos batchHeaderPrefix)
  let payload := readAt file (pos + batchHeaderPrefix) batchLength.toNat
  let (b, _) ← (readPayload baseOffset batchLength).run payload
  pure b

/-- The length of the encoding, by the declared length. -/
def getSize (b : RecordBatch) : UInt32 :=
  UInt32.ofNat batchHeaderPrefix + b.batchLength

/-- The header with sensible defaults around the given records. -/
def fromCompact [Crc] (baseOffset : UInt64) (recordsCount : UInt32) (records : List UInt8) :
    RecordBatch where
  baseOffset := baseOffset
  batchLength := 49 + UInt32.ofNat records.length
  partitionLeaderEpoch := -1
  magic := 2
  crc := Crc.crc32Iscsi records
  attributes := 0
  lastOffsetDelta := recordsCount.toInt32 - 1
  baseTimestamp := 0
  maxTimestamp := 0
  producerId := -1
  producerEpoch := -1
  baseSequence := -1
  recordsCount := recordsCount
  records := records

/-- A new batch of the given records. Their offsets count up from zero, and their times from the
earliest. -/
def fromRecords [Crc] (value : List Record) : RecordBatch :=
  let baseTimestamp := value.foldl (fun t r => min t r.timestampDelta) 0xFFFFFFFFFFFFFFFF
  let maxTimestamp := value.foldl (fun t r => max t r.timestampDelta) 0
  let records := value.zipIdx.flatMap fun (r, i) =>
    { r with
      offsetDelta := UInt64.ofNat i
      timestampDelta := r.timestampDelta - baseTimestamp : Record }.encode
  let recordsCount := UInt32.ofNat value.length
  { baseOffset := 0
    batchLength := 49 + UInt32.ofNat records.length
    partitionLeaderEpoch := 0
    magic := 2
    crc := Crc.crc32Iscsi records
    attributes := 0
    lastOffsetDelta := recordsCount.toInt32 - 1
    baseTimestamp := baseTimestamp
    maxTimestamp := maxTimestamp
    producerId := 0
    producerEpoch := 0
    baseSequence := 0
    recordsCount := recordsCount
    records := records }

/-- A batch of one record with a value of one byte. -/
def single [Crc] (value : UInt8) : RecordBatch :=
  fromCompact 0 1 (Record.new 0 0 [] [value]).encode

/-- The records of the batch, decoded one after the other; there is no value when they end early. -/
def intoRecords (b : RecordBatch) : Option (List Record) := do
  let (records, _) ← (times b.recordsCount.toNat Record.decode).run b.records
  pure records

/-! ### Slicing -/

def findRecord (b : RecordBatch) (offsetDelta : UInt64) : Option (Option RecordRef) :=
  (RecordRefIter.new b.records).find offsetDelta (b.records.length + 1)

/-- The batch from a record on; there is no value when the search for the record does not return. -/
def sliceFromOffset [Crc] (b : RecordBatch) (offset : UInt64) :
    Option (Except ProtoError RecordBatch) :=
  if offset = b.baseOffset then some (.ok b)
  else
    let delta := offset - b.baseOffset
    match b.findRecord delta with
    | none => none
    | some none => some (.error .invalidOffset)
    | some (some loc) =>
      let slicedRecords := b.records.drop loc.byteOffset
      some (.ok { b with
        baseOffset := offset
        batchLength := 49 + UInt32.ofNat slicedRecords.length
        crc := Crc.crc32Iscsi slicedRecords
        lastOffsetDelta := b.lastOffsetDelta - delta.toUInt32.toInt32
        recordsCount := b.recordsCount - UInt32.ofNat loc.index
        records := slicedRecords })

end RecordBatch

/-! ### The iterator over the batches of a file -/

/-- An iterator reads the file between `pos` and `stop`. -/
structure BatchIter where
  file : List UInt8
  pos : ℕ
  stop : ℕ

namespace BatchIter

def empty (file : List UInt8) : BatchIter := ⟨file, 0, 0⟩

/-- The next item and the iterator after it; the item has no value when its decoding panics. -/
def next (it : BatchIter) : Option (Option RecordBatch × BatchIter) :=
  if it.stop ≤ it.pos then none
  else
    let header := readAt it.file it.pos batchHeaderPrefix
    let batchLength := ofBE (header.drop 8)
    if it.stop < it.pos + batchHeaderPrefix + batchLength then none
    else some (RecordBatch.decodeFile it.file it.pos,
      { it with pos := it.pos + batchHeaderPrefix + batchLength })

def unroll : ℕ → BatchIter → List (Option RecordBatch)
  | 0, _ => []
  | fuel + 1, it =>
    match it.next with
    | none => []
    | some (batch, it) => batch :: unroll fuel it

/-- All items in order. A step moves on by at least one byte, so there are at most as many. -/
def batches (it : BatchIter) : List (Option RecordBatch) :=
  it.unroll (it.stop - it.pos)

end BatchIter

end Musil.Proto
