import Musil.Network.Codec
import Musil.Proto.Canonical
import Musil.Storage.SegmentWrite

/-!
# Batches from requests in a segment

A produce request carries the bytes of a batch for each partition. Whatever decodes is given an
offset and appended as it stands, and from then on its declared length and count are trusted: by
the writer for the size of the segment, by the iterator for the place of the next batch, and by a
consumer for the number of records. `Appendable` says that they can be trusted, and holds just when
the bytes pass the check that decoding leaves out.
-/

namespace Musil.Storage

open Proto BatchIter

/-! ### Batches one after the other -/

/-- The log holds the batches, and the writer stands behind them and knows its size. -/
structure InStep (seg : LogSegment) (d : Disk) (bs : List RecordBatch) : Prop where
  log : (d.file seg.segment.baseOffset).log = layout bs
  size_eq : seg.size = (layout bs).length
  atEnd : AtEnd d seg

section InStep

variable {seg seg' : LogSegment} {d d' : Disk} {b : RecordBatch} {bs cs : List RecordBatch}

lemma inStep_openSegment (opts : SegmentConfig) (d : Disk) (hlog : (d.file opts.baseOffset).log = []) :
    InStep (LogSegment.openSegment opts d).1 (LogSegment.openSegment opts d).2 [] := by
  obtain ⟨hwrites, hend, -, -⟩ := openSegment_fresh opts d hlog
  exact ⟨hwrites.stored.log, hwrites.size_eq, hend⟩

/-- An append moves the writer on by what it writes, if the batch declares its own length. -/
lemma InStep.appendBatch (h : InStep seg d bs) (hb : b.Sized)
    (happend : seg.appendBatch d b = (some seg', d')) :
    InStep seg' d' (bs ++ [b]) ∧ seg'.segment = seg.segment := by
  have hlayout : layout (bs ++ [b]) = layout bs ++ b.encode := by simp
  have hcursor : seg.cursor = (layout bs).length := h.log ▸ h.atEnd
  have hsize : seg.size + (batchHeaderPrefix + b.batchLength.toNat)
      = (layout (bs ++ [b])).length := by
    rw [hlayout, List.length_append, h.size_eq, hb.length_encode]
  have hend : seg.cursor + b.encode.length = (layout (bs ++ [b])).length := by
    rw [hlayout, List.length_append, hcursor]
  rcases Nat.lt_or_ge d.free b.encode.length with hfull | hfree
  · rw [LogSegment.appendBatch, h.atEnd, Disk.write_end,
      decide_eq_false (Nat.not_le.mpr hfull)] at happend
    cases happend
  · rw [h.atEnd.appendBatch_some hfree] at happend
    simp only [] at happend
    split_ifs at happend
    · cases happend
      refine ⟨⟨?_, hsize, ?_⟩, rfl⟩
      · simp [h.log]
      · simpa [AtEnd, h.log] using hend
    · cases happend
      refine ⟨⟨?_, hsize, ?_⟩, rfl⟩
      · simp [h.log]
      · simpa [AtEnd, h.log] using hend

theorem InStep.appendAll (h : InStep seg d bs) (hcs : ∀ c ∈ cs, c.Sized)
    (happend : seg.appendAll d cs = (some seg', d')) :
    InStep seg' d' (bs ++ cs) ∧ seg'.segment = seg.segment := by
  induction cs generalizing seg d bs with
  | nil =>
    cases happend
    rw [List.append_nil]
    exact ⟨h, rfl⟩
  | cons c cs ih =>
    rw [List.forall_mem_cons] at hcs
    rw [LogSegment.appendAll] at happend
    rcases hc : seg.appendBatch d c with ⟨_ | seg₁, d₁⟩
    · simp only [hc] at happend
      cases happend
    · simp only [hc] at happend
      obtain ⟨h₁, hseg₁⟩ := h.appendBatch hcs.1 hc
      obtain ⟨h', hseg'⟩ := ih h₁ hcs.2 happend
      rw [List.append_assoc, List.singleton_append] at h'
      exact ⟨h', hseg'.trans hseg₁⟩

/-- The iterator over the segment yields the batches. -/
lemma InStep.batches (h : InStep seg d bs) (hbs : ∀ b ∈ bs, b.Sized) :
    batches ⟨(d.file seg.segment.baseOffset).log, 0, seg.size⟩ = bs.map some := by
  have hbatches := batches_layout_front hbs []
  rw [List.append_nil] at hbatches
  rw [h.log, h.size_eq, hbatches]

end InStep

end Musil.Storage

namespace Musil.Network

open Bytes Bytes.Reader Proto Storage

/-! ### What a request hands on -/

/-- Bytes that decode to a batch, as a produce request carries them for a partition. -/
structure AcceptedBatch [Crc] where
  bytes : List UInt8
  batch : RecordBatch
  length_lt : bytes.length < 2 ^ 32
  decoded : RecordBatch.decode bytes = some (.ok batch)

namespace AcceptedBatch

variable [Crc]

/-- The bytes of the batch in a request. -/
def inRequest (x : AcceptedBatch) (index : UInt16) : List UInt8 :=
  toBE 2 index.toNat ++ (toBE 4 x.bytes.length ++ x.bytes)

/-- The batch with the offset that the log gives it. -/
def rebase (x : AcceptedBatch) (baseOffset : UInt64) : RecordBatch :=
  { x.batch with baseOffset := baseOffset }

/-- Every such batch can come with a request. -/
lemma accepts_inRequest (x : AcceptedBatch) (index : UInt16) :
    Accepts RequestDecoder.parseProducePartition (x.inRequest index) ⟨index, x.batch⟩ := by
  refine (reads_getU16 index).accepts.bind ?_
  have hlen : (UInt32.ofNat x.bytes.length).toNat = x.bytes.length :=
    UInt32.toNat_ofNat_of_lt' x.length_lt
  refine (reads_getU32_nat x.length_lt).accepts.bind ?_
  rw [hlen]
  refine (reads_take x.bytes).accepts.bind_nil ?_
  refine (accepts_embed ?_).bind_pure _
  rw [x.decoded]
  rfl

/-- No other batch comes with a request. -/
theorem exists_of_parse {buf tail : List UInt8} {p : ProducePartition}
    (h : RequestDecoder.parseProducePartition.run.run buf = some (.ok p, tail)) :
    ∃ x : AcceptedBatch, x.batch = p.records ∧ buf = x.inRequest p.index ++ tail := by
  obtain ⟨index, buf₁, hindex, h⟩ := Parser.run_bind_eq_ok h
  obtain ⟨batchLen, buf₂, hbatchLen, h⟩ := Parser.run_bind_eq_ok h
  obtain ⟨bytes, buf₃, hbytes, h⟩ := Parser.run_bind_eq_ok h
  obtain ⟨batch, buf₄, hbatch, h⟩ := Parser.run_bind_eq_ok h
  obtain ⟨heq, rfl⟩ := run_pure_eq_some.mp h
  obtain rfl : ⟨index, batch⟩ = p := Except.ok.inj heq
  obtain ⟨hlen, rfl⟩ := take_run_eq_some (Parser.run_liftM_eq_ok hbytes)
  obtain ⟨hmap, rfl⟩ := Parser.run_embed_eq_ok hbatch
  have hdecode : RecordBatch.decode bytes = some (.ok batch) := by
    obtain ⟨r, hr, hok⟩ := Option.map_eq_some_iff.mp hmap
    cases r with
    | error e => cases hok
    | ok b =>
      obtain rfl : b = batch := Except.ok.inj hok
      exact hr
  refine ⟨⟨bytes, batch, hlen ▸ batchLen.toNat_lt, hdecode⟩, rfl, ?_⟩
  rw [canonical_getU16 (Parser.run_liftM_eq_ok hindex),
    canonical_getU32 (Parser.run_liftM_eq_ok hbatchLen)]
  simp only [inRequest, hlen, List.append_assoc]

end AcceptedBatch

/-! ### What the log relies on -/

/-- What is relied on when requests hand on these batches and the log gives them these offsets. -/
structure Appendable [Crc] (xs : List (AcceptedBatch × UInt64)) : Prop where
  wellFormed : ∀ x ∈ xs, x.1.batch.WellFormed
  /-- At any time the size of a segment that began empty is that of its log, and the iterator
  yields what was appended. -/
  inStep : ∀ (opts : SegmentConfig) (d : Disk), (d.file opts.baseOffset).log = [] →
    ∀ ys, ys <+: xs → ∀ seg d', (LogSegment.openSegment opts d).1.appendAll
        (LogSegment.openSegment opts d).2 (ys.map fun y => y.1.rebase y.2) = (some seg, d') →
      seg.size = (d'.file opts.baseOffset).log.length ∧
      BatchIter.batches ⟨(d'.file opts.baseOffset).log, 0, seg.size⟩
        = ys.map fun y => some (y.1.rebase y.2)
  /-- The records are read back, and with them all of their bytes. -/
  converts : ∀ x ∈ xs, ∃ rs, (times (x.1.rebase x.2).recordsCount.toNat Record.decode).run
    (x.1.rebase x.2).records = some (rs, [])

section Appendable

variable [Crc]

/-- The bytes pass the check just when the batch is well formed. -/
lemma AcceptedBatch.consistent_iff (x : AcceptedBatch) :
    RecordBatch.Consistent x.bytes ↔ x.batch.WellFormed := by
  rw [RecordBatch.eq_encode_of_decode x.decoded]
  exact RecordBatch.consistent_encode

/-- Requests hand on batches that can be relied on just when the bytes of each pass the check that
decoding leaves out. -/
theorem appendable_iff (xs : List (AcceptedBatch × UInt64)) :
    Appendable xs ↔ ∀ x ∈ xs, RecordBatch.Consistent x.1.bytes := by
  constructor
  · intro h x hx
    exact x.1.consistent_iff.mpr (h.wellFormed x hx)
  · intro h
    have hwell : ∀ x ∈ xs, x.1.batch.WellFormed := fun x hx => x.1.consistent_iff.mp (h x hx)
    refine ⟨hwell, fun opts d hlog ys hys seg d' happend => ?_, fun x hx => ?_⟩
    · have hsized : ∀ b ∈ ys.map fun y => y.1.rebase y.2, b.Sized := by
        intro b hb
        obtain ⟨y, hy, rfl⟩ := List.mem_map.mp hb
        obtain ⟨rs, hcarries, -⟩ := hwell y (hys.subset hy)
        exact (hcarries.rebase y.2).sized
      obtain ⟨hstep, hseg⟩ := (inStep_openSegment opts d hlog).appendAll hsized happend
      rw [List.nil_append] at hstep
      have hbase : seg.segment.baseOffset = opts.baseOffset := by
        rw [hseg]
        rfl
      have hbatches := hstep.batches hsized
      rw [List.map_map, hbase] at hbatches
      refine ⟨?_, hbatches⟩
      rw [hstep.size_eq, ← hbase, hstep.log]
    · obtain ⟨rs, hcarries, -, hrs⟩ := hwell x hx
      exact ⟨rs, (hcarries.rebase x.2).run_records hrs⟩

end Appendable

/-! ### A batch that declares too little -/

section Examples

local instance castagnoli : Crc := Crc.castagnoli

/-- The declared length counts the header of the payload, and not the record behind it. -/
def short : RecordBatch :=
  { RecordBatch.single 7 with batchLength := 49 }

def acceptedShort : AcceptedBatch :=
  ⟨short.encode, short, by decide +kernel, RecordBatch.decode_of_encode (by decide +kernel)⟩

/-- Its record is written to the log and not counted to the segment. -/
theorem not_appendable_short : ¬ Appendable [(acceptedShort, 0)] := by
  intro h
  have hinStep := h.inStep ⟨0, 100, 100⟩ ⟨1000, ∅⟩ rfl _ (List.prefix_refl _)
  have hsize : ((LogSegment.openSegment ⟨0, 100, 100⟩ ⟨1000, ∅⟩).1.appendAll
        (LogSegment.openSegment ⟨0, 100, 100⟩ ⟨1000, ∅⟩).2
        ([(acceptedShort, 0)].map fun y => y.1.rebase y.2)).1.map LogSegment.size = some 61 ∧
      (((LogSegment.openSegment ⟨0, 100, 100⟩ ⟨1000, ∅⟩).1.appendAll
        (LogSegment.openSegment ⟨0, 100, 100⟩ ⟨1000, ∅⟩).2
        ([(acceptedShort, 0)].map fun y => y.1.rebase y.2)).2.file 0).log.length = 95 := by
    decide +kernel
  rcases hrun : (LogSegment.openSegment ⟨0, 100, 100⟩ ⟨1000, ∅⟩).1.appendAll
    (LogSegment.openSegment ⟨0, 100, 100⟩ ⟨1000, ∅⟩).2
    ([(acceptedShort, 0)].map fun y => y.1.rebase y.2) with ⟨seg, d⟩
  rw [hrun] at hsize
  obtain ⟨seg, rfl, hseg⟩ := Option.map_eq_some_iff.mp hsize.1
  have heq := (hinStep seg d hrun).1
  rw [hseg, hsize.2] at heq
  exact absurd heq (by decide)

example : RecordBatch.Consistent (RecordBatch.single 7).encode := by decide +kernel

end Examples

end Musil.Network
