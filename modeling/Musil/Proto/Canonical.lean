import Musil.Lib.Layout
import Musil.Proto.WellFormed

/-!
# What decoding accepts

Decoding a record or a batch accepts encodings only: what was decoded encodes to the bytes it was
decoded from. Beyond its checksum a batch is taken as it stands, so whether its header agrees with
its records is a question to the bytes.
-/

namespace Musil.Proto

open Bytes Bytes.Reader

/-! ### Records -/

lemma RecordHeader.canonical_decode : Canonical decode encode := by
  intro bs h tail hrun
  obtain ⟨keyLen, bs₁, hkeyLen, hrun⟩ := run_bind_eq_some.mp hrun
  obtain ⟨key, bs₂, hkey, hrun⟩ := run_bind_eq_some.mp hrun
  obtain ⟨valueLen, bs₃, hvalueLen, hrun⟩ := run_bind_eq_some.mp hrun
  obtain ⟨value, bs₄, hvalue, hrun⟩ := run_bind_eq_some.mp hrun
  obtain ⟨rfl, rfl⟩ := run_pure_eq_some.mp hrun
  obtain ⟨hkeyLength, rfl⟩ := take_run_eq_some hkey
  obtain ⟨hvalueLength, rfl⟩ := take_run_eq_some hvalue
  rw [canonical_getU32 hkeyLen, canonical_getU32 hvalueLen]
  simp only [encode, hkeyLength, hvalueLength, List.append_assoc]

/-- The bytes of a record are the encoding of what they are decoded as. -/
theorem Record.canonical_decode : Canonical decode encode := by
  intro bs r tail hrun
  obtain ⟨length, bs₁, hlength, hrun⟩ := run_bind_eq_some.mp hrun
  obtain ⟨attributes, bs₂, hattributes, hrun⟩ := run_bind_eq_some.mp hrun
  obtain ⟨timestampDelta, bs₃, htimestampDelta, hrun⟩ := run_bind_eq_some.mp hrun
  obtain ⟨offsetDelta, bs₄, hoffsetDelta, hrun⟩ := run_bind_eq_some.mp hrun
  obtain ⟨keyLen, bs₅, hkeyLen, hrun⟩ := run_bind_eq_some.mp hrun
  obtain ⟨key, bs₆, hkey, hrun⟩ := run_bind_eq_some.mp hrun
  obtain ⟨valueLen, bs₇, hvalueLen, hrun⟩ := run_bind_eq_some.mp hrun
  obtain ⟨value, bs₈, hvalue, hrun⟩ := run_bind_eq_some.mp hrun
  obtain ⟨headersSize, bs₉, hheadersSize, hrun⟩ := run_bind_eq_some.mp hrun
  obtain ⟨headers, bs₁₀, hheaders, hrun⟩ := run_bind_eq_some.mp hrun
  obtain ⟨rfl, rfl⟩ := run_pure_eq_some.mp hrun
  obtain ⟨hkeyLength, rfl⟩ := take_run_eq_some hkey
  obtain ⟨hvalueLength, rfl⟩ := take_run_eq_some hvalue
  obtain ⟨hcount, rfl⟩ := RecordHeader.canonical_decode.times hheaders
  rw [canonical_getU32 hlength, canonical_getU8 hattributes, canonical_getU64 htimestampDelta,
    canonical_getU64 hoffsetDelta, canonical_getU32 hkeyLen, canonical_getU32 hvalueLen,
    canonical_getU32 hheadersSize]
  simp only [encode, hkeyLength, hvalueLength, hcount, List.append_assoc]

/-! ### Batches -/

namespace RecordBatch

lemma canonical_readPrefix :
    Canonical readPrefix fun p => toBE 8 p.1.toNat ++ toBE 4 p.2.toNat := by
  intro bs p tail hrun
  obtain ⟨baseOffset, bs₁, hbaseOffset, hrun⟩ := run_bind_eq_some.mp hrun
  obtain ⟨batchLength, bs₂, hbatchLength, hrun⟩ := run_bind_eq_some.mp hrun
  obtain ⟨rfl, rfl⟩ := run_pure_eq_some.mp hrun
  rw [canonical_getU64 hbaseOffset, canonical_getU32 hbatchLength]
  exact (List.append_assoc _ _ _).symm

/-- Nothing is left behind the records. -/
lemma readPayload_run_eq_some {baseOffset : UInt64} {batchLength : UInt32} {b : RecordBatch}
    {bs tail : List UInt8} (hrun : (readPayload baseOffset batchLength).run bs = some (b, tail)) :
    bs = b.encodePayload ∧ b.baseOffset = baseOffset ∧ b.batchLength = batchLength := by
  obtain ⟨partitionLeaderEpoch, bs₁, hpartitionLeaderEpoch, hrun⟩ := run_bind_eq_some.mp hrun
  obtain ⟨magic, bs₂, hmagic, hrun⟩ := run_bind_eq_some.mp hrun
  obtain ⟨crc, bs₃, hcrc, hrun⟩ := run_bind_eq_some.mp hrun
  obtain ⟨attributes, bs₄, hattributes, hrun⟩ := run_bind_eq_some.mp hrun
  obtain ⟨lastOffsetDelta, bs₅, hlastOffsetDelta, hrun⟩ := run_bind_eq_some.mp hrun
  obtain ⟨baseTimestamp, bs₆, hbaseTimestamp, hrun⟩ := run_bind_eq_some.mp hrun
  obtain ⟨maxTimestamp, bs₇, hmaxTimestamp, hrun⟩ := run_bind_eq_some.mp hrun
  obtain ⟨producerId, bs₈, hproducerId, hrun⟩ := run_bind_eq_some.mp hrun
  obtain ⟨producerEpoch, bs₉, hproducerEpoch, hrun⟩ := run_bind_eq_some.mp hrun
  obtain ⟨baseSequence, bs₁₀, hbaseSequence, hrun⟩ := run_bind_eq_some.mp hrun
  obtain ⟨recordsCount, bs₁₁, hrecordsCount, hrun⟩ := run_bind_eq_some.mp hrun
  obtain ⟨records, bs₁₂, hrecords, hrun⟩ := run_bind_eq_some.mp hrun
  obtain ⟨rfl, rfl⟩ := run_pure_eq_some.mp hrun
  rw [reads_rest_run] at hrecords
  obtain ⟨rfl, rfl⟩ := Prod.mk.inj (Option.some.inj hrecords)
  refine ⟨?_, rfl, rfl⟩
  rw [canonical_getI32 hpartitionLeaderEpoch, canonical_getU8 hmagic, canonical_getU32 hcrc,
    canonical_getU16 hattributes, canonical_getI32 hlastOffsetDelta,
    canonical_getU64 hbaseTimestamp, canonical_getU64 hmaxTimestamp, canonical_getI64 hproducerId,
    canonical_getI16 hproducerEpoch, canonical_getI32 hbaseSequence, canonical_getU32 hrecordsCount]
  rfl

/-- The bytes of a batch are the encoding of what they are decoded as. -/
theorem eq_encode_of_decode [Crc] {buf : List UInt8} {b : RecordBatch}
    (h : decode buf = some (.ok b)) : buf = b.encode := by
  obtain ⟨⟨⟨baseOffset, batchLength⟩, rest⟩, hprefix, h⟩ := Option.bind_eq_some_iff.mp h
  obtain ⟨⟨b', tail⟩, hpayload, h⟩ := Option.bind_eq_some_iff.mp h
  obtain rfl : b' = b := by
    simp only [] at h
    split_ifs at h <;> cases h
    rfl
  obtain ⟨hrest, hbase, hlength⟩ := readPayload_run_eq_some hpayload
  rw [canonical_readPrefix hprefix, encode_eq, encodePrefix, hbase, hlength, hrest]

/-! ### What is not decoded -/

lemma needs_readPayload (baseOffset : UInt64) (batchLength : UInt32) :
    Needs (readPayload baseOffset batchLength) batchPayloadHeader := by
  refine Needs.bind (m := 45) follows_getI32 fun _ => ?_
  refine Needs.bind (m := 44) follows_getU8 fun _ => ?_
  refine Needs.bind (m := 40) follows_getU32 fun _ => ?_
  refine Needs.bind (m := 38) follows_getU16 fun _ => ?_
  refine Needs.bind (m := 34) follows_getI32 fun _ => ?_
  refine Needs.bind (m := 26) follows_getU64 fun _ => ?_
  refine Needs.bind (m := 18) follows_getU64 fun _ => ?_
  refine Needs.bind (m := 10) follows_getI64 fun _ => ?_
  refine Needs.bind (m := 8) follows_getI16 fun _ => ?_
  refine Needs.bind (m := 4) follows_getI32 fun _ => ?_
  refine Needs.bind (m := 0) follows_getU32 fun _ => ?_
  exact needs_zero fun bs => Option.some_ne_none _

lemma needs_readPrefix_bind :
    Needs (readPrefix >>= fun r => readPayload r.1 r.2) headerSize := by
  rw [readPrefix, bind_assoc]
  refine Needs.bind (m := 53) follows_getU64 fun baseOffset => ?_
  rw [bind_assoc]
  refine Needs.bind (m := 49) follows_getU32 fun batchLength => ?_
  rw [pure_bind]
  exact needs_readPayload baseOffset batchLength

/-- Bytes that reach behind the header are the encoding of some batch. -/
lemma exists_eq_encode {buf : List UInt8} (h : headerSize ≤ buf.length) :
    ∃ b : RecordBatch, buf = b.encode := by
  obtain ⟨⟨b, tail⟩, hrun⟩ := Option.ne_none_iff_exists'.mp ((needs_readPrefix_bind buf).mpr h)
  obtain ⟨r, rest, hprefix, hpayload⟩ := run_bind_eq_some.mp hrun
  obtain ⟨hrest, hbase, hlength⟩ := readPayload_run_eq_some hpayload
  exact ⟨b, by rw [canonical_readPrefix hprefix, encode_eq, encodePrefix, hbase, hlength, hrest]⟩

/-- There is no value when the bytes end inside the header. -/
lemma decode_eq_none [Crc] {buf : List UInt8} (h : buf.length < headerSize) :
    decode buf = none := by
  by_contra hne
  obtain ⟨r, hr⟩ := Option.ne_none_iff_exists'.mp hne
  obtain ⟨⟨⟨baseOffset, batchLength⟩, rest⟩, hprefix, hr⟩ := Option.bind_eq_some_iff.mp hr
  obtain ⟨⟨b, tail⟩, hpayload, -⟩ := Option.bind_eq_some_iff.mp hr
  refine absurd ((needs_readPrefix_bind buf).mp ?_) (Nat.not_le.mpr h)
  rw [run_bind_eq_some.mpr ⟨_, _, hprefix, hpayload⟩]
  exact Option.some_ne_none _

/-! ### The check on the bytes -/

/-- The header agrees with the records: there are as many as it declares, at least one, each as
long as it declares itself. -/
def WellFormed (b : RecordBatch) : Prop :=
  ∃ rs, b.Carries rs ∧ rs ≠ [] ∧ ∀ r ∈ rs, r.Sized

/-- What decoding does not check: the declared length ends where the bytes end, and behind the
header there are as many records as declared, at least one, each as long as it declares itself. -/
def Consistent (buf : List UInt8) : Prop :=
  buf.length = batchHeaderPrefix + ofBE (readAt buf 8 4) ∧
    0 < ofBE (readAt buf (headerSize - 4) 4) ∧
    ∃ out ∈ (times (ofBE (readAt buf (headerSize - 4) 4)) Record.decode).run (buf.drop headerSize),
      (∀ r ∈ out.1, r.Sized) ∧ out.2 = []

instance (buf : List UInt8) : Decidable (Consistent buf) :=
  inferInstanceAs (Decidable (_ ∧ _ ∧ ∃ out ∈ (_ : Option _), _ ∧ _))

section Consistent

variable {b : RecordBatch}

lemma sized_iff : b.encode.length = batchHeaderPrefix + b.batchLength.toNat ↔ b.Sized := by
  rw [length_encode, Sized]
  simp only [headerSize, batchHeaderPrefix, batchPayloadHeader]
  omega

/-- The bytes pass the check just when the batch is well formed. -/
theorem consistent_encode : Consistent b.encode ↔ b.WellFormed := by
  have hlength := readAt_batchLength b [] []
  have hcount := readAt_recordsCount b [] []
  rw [List.append_nil, List.nil_append, List.length_nil, Nat.zero_add] at hlength hcount
  have hdrop : b.encode.drop headerSize = b.records :=
    List.drop_left' b.length_encodeHeader
  rw [Consistent, hlength, hcount, hdrop, sized_iff]
  constructor
  · rintro ⟨hsized, hpos, ⟨rs, tail⟩, hrun, hrs, rfl⟩
    obtain ⟨hlen, hrecords⟩ := Record.canonical_decode.times hrun
    rw [List.append_nil] at hrecords
    refine ⟨rs, ⟨hsized, hrecords, hlen.symm⟩, ?_, hrs⟩
    rw [← List.length_pos_iff, hlen]
    exact hpos
  · rintro ⟨rs, hcarries, hne, hrs⟩
    refine ⟨hcarries.sized, ?_, ⟨rs, []⟩, hcarries.run_records hrs, hrs, rfl⟩
    rw [hcarries.count_eq]
    exact List.length_pos_iff.mpr hne

end Consistent

end RecordBatch

end Musil.Proto
