import Musil.Proto.RecordBatch

/-!
# Well-formed batches

`Sized` says that a batch declares its own length, `Carries b rs` that its records are the
encodings of `rs`. Such a batch is read back from a file, an iterator yields exactly the batches
laid out behind each other, and a slice carries the records from its offset on.
-/

namespace Musil.Proto

open Bytes Bytes.Reader

namespace RecordBatch

/-- The declared length is the length of what follows it. -/
def Sized (b : RecordBatch) : Prop :=
  b.batchLength.toNat = batchPayloadHeader + b.records.length

instance (b : RecordBatch) : Decidable b.Sized :=
  inferInstanceAs (Decidable (_ = _))

/-- The records of the batch are the encodings of `rs`, and its header says so. -/
structure Carries (b : RecordBatch) (rs : List Record) : Prop where
  sized : b.Sized
  records_eq : b.records = rs.flatMap Record.encode
  count_eq : b.recordsCount.toNat = rs.length

instance (b : RecordBatch) (rs : List Record) : Decidable (b.Carries rs) :=
  decidable_of_iff (b.Sized ∧ b.records = rs.flatMap Record.encode ∧
      b.recordsCount.toNat = rs.length)
    ⟨fun h => ⟨h.1, h.2.1, h.2.2⟩, fun h => ⟨h.1, h.2, h.3⟩⟩

/-- The search finds the record at each place but the first under that place as its delta. -/
def Searchable (b : RecordBatch) (rs : List Record) : Prop :=
  ∀ i < rs.length, 0 < i →
    (b.findRecord (UInt64.ofNat i)).map (Option.map fun r => (r.byteOffset, r.index))
      = some (some (((rs.take i).flatMap Record.encode).length, i))

instance (b : RecordBatch) (rs : List Record) : Decidable (b.Searchable rs) :=
  inferInstanceAs (Decidable (∀ i < rs.length, 0 < i → _ = _))

/-! ### Encoding and decoding -/

section Encode

variable {b : RecordBatch}

lemma length_encodeHeader (b : RecordBatch) : b.encodeHeader.length = headerSize := by
  simp [encodeHeader, headerSize]

lemma length_encode (b : RecordBatch) : b.encode.length = headerSize + b.records.length := by
  rw [encode, List.length_append, length_encodeHeader]

lemma Sized.length_encode (h : b.Sized) :
    b.encode.length = batchHeaderPrefix + b.batchLength.toNat := by
  rw [RecordBatch.length_encode, h]
  simp only [headerSize, batchHeaderPrefix, batchPayloadHeader]
  omega

/-- The bytes of the batch length and the base offset, and those of the payload. -/
def encodePrefix (b : RecordBatch) : List UInt8 :=
  toBE 8 b.baseOffset.toNat ++ toBE 4 b.batchLength.toNat

def encodePayload (b : RecordBatch) : List UInt8 :=
  toBE 4 b.partitionLeaderEpoch.toUInt32.toNat ++ ([b.magic] ++ (toBE 4 b.crc.toNat
    ++ (toBE 2 b.attributes.toNat ++ (toBE 4 b.lastOffsetDelta.toUInt32.toNat
    ++ (toBE 8 b.baseTimestamp.toNat ++ (toBE 8 b.maxTimestamp.toNat
    ++ (toBE 8 b.producerId.toUInt64.toNat ++ (toBE 2 b.producerEpoch.toUInt16.toNat
    ++ (toBE 4 b.baseSequence.toUInt32.toNat ++ (toBE 4 b.recordsCount.toNat
    ++ b.records))))))))))

lemma encode_eq (b : RecordBatch) : b.encode = b.encodePrefix ++ b.encodePayload := by
  simp only [encode, encodeHeader, encodePrefix, encodePayload, List.append_assoc]

lemma length_encodePrefix (b : RecordBatch) : b.encodePrefix.length = batchHeaderPrefix := by
  simp [encodePrefix, batchHeaderPrefix]

lemma length_encodePayload (b : RecordBatch) :
    b.encodePayload.length = batchPayloadHeader + b.records.length := by
  simp only [encodePayload, List.length_append, length_toBE, List.length_singleton,
    batchPayloadHeader]
  omega

lemma reads_readPrefix (b : RecordBatch) :
    Reads readPrefix b.encodePrefix (b.baseOffset, b.batchLength) :=
  (reads_getU64 b.baseOffset).bind ((reads_getU32 b.batchLength).bind_pure _)

lemma readPayload_run (b : RecordBatch) :
    (readPayload b.baseOffset b.batchLength).run b.encodePayload = some (b, []) := by
  rw [readPayload, encodePayload, (reads_getI32 b.partitionLeaderEpoch).run_bind,
    (reads_getU8 b.magic).run_bind, (reads_getU32 b.crc).run_bind,
    (reads_getU16 b.attributes).run_bind, (reads_getI32 b.lastOffsetDelta).run_bind,
    (reads_getU64 b.baseTimestamp).run_bind, (reads_getU64 b.maxTimestamp).run_bind,
    (reads_getI64 b.producerId).run_bind, (reads_getI16 b.producerEpoch).run_bind,
    (reads_getI32 b.baseSequence).run_bind, (reads_getU32 b.recordsCount).run_bind]
  rfl

/-- Decoding the encoding gives the batch, or finds its checksum wrong. -/
lemma decode_encode_eq [Crc] (b : RecordBatch) :
    decode b.encode = some (if Crc.crc32Iscsi b.records ≠ b.crc then .error .crc else .ok b) := by
  rw [decode, encode_eq, reads_readPrefix b]
  simp only [Option.bind_eq_bind, Option.bind_some, readPayload_run]
  split_ifs <;> rfl

theorem decode_of_encode [Crc] (h : Crc.crc32Iscsi b.records = b.crc) :
    decode b.encode = some (.ok b) := by
  rw [decode_encode_eq, if_neg (not_not_intro h)]

lemma readAt_encodePrefix (b : RecordBatch) (pre post : List UInt8) :
    readAt (pre ++ b.encode ++ post) pre.length batchHeaderPrefix = b.encodePrefix := by
  rw [← b.length_encodePrefix, encode_eq, ← List.append_assoc, List.append_assoc _ _ post]
  exact readAt_append _ _ _

/-- A batch that declares its own length is read back from any file that holds it. -/
theorem decodeFile_encode (h : b.Sized) (pre post : List UInt8) :
    decodeFile (pre ++ b.encode ++ post) pre.length = some b := by
  have hpayload : readAt (pre ++ b.encode ++ post) (pre.length + batchHeaderPrefix)
      b.batchLength.toNat = b.encodePayload := by
    rw [h, ← b.length_encodePayload, ← b.length_encodePrefix, encode_eq, ← List.append_assoc,
      ← List.length_append]
    exact readAt_append _ _ _
  rw [decodeFile, readAt_encodePrefix, (reads_readPrefix b).run_eq]
  simp only [Option.bind_eq_bind, Option.bind_some, hpayload, readPayload_run]
  rfl

lemma encodePrefix_drop (b : RecordBatch) :
    b.encodePrefix.drop 8 = toBE 4 b.batchLength.toNat := by
  rw [encodePrefix]
  exact List.drop_left' (length_toBE _ _)

/-- The batch length stands behind the base offset. -/
lemma readAt_batchLength (b : RecordBatch) (pre post : List UInt8) :
    ofBE (readAt (pre ++ b.encode ++ post) (pre.length + 8) 4) = b.batchLength.toNat := by
  have hsplit : pre ++ b.encode ++ post
      = pre ++ toBE 8 b.baseOffset.toNat ++ toBE 4 b.batchLength.toNat
        ++ (b.encodePayload ++ post) := by
    simp only [encode_eq, encodePrefix, List.append_assoc]
  have hread := readAt_append (pre ++ toBE 8 b.baseOffset.toNat) (toBE 4 b.batchLength.toNat)
    (b.encodePayload ++ post)
  rw [List.length_append, length_toBE, length_toBE] at hread
  rw [hsplit, hread]
  exact ofBE_toBE_of_lt b.batchLength.toNat_lt

/-- The number of records stands in the last bytes of the header. -/
lemma readAt_recordsCount (b : RecordBatch) (pre post : List UInt8) :
    ofBE (readAt (pre ++ b.encode ++ post) (pre.length + (headerSize - 4)) 4)
      = b.recordsCount.toNat := by
  obtain ⟨front, hfront, hheader⟩ : ∃ front : List UInt8, front.length = headerSize - 4 ∧
      b.encodeHeader = front ++ toBE 4 b.recordsCount.toNat :=
    ⟨_, by simp [headerSize], rfl⟩
  have hread := readAt_append (pre ++ front) (toBE 4 b.recordsCount.toNat) (b.records ++ post)
  rw [List.length_append, length_toBE, hfront] at hread
  have hsplit : pre ++ b.encode ++ post
      = pre ++ front ++ toBE 4 b.recordsCount.toNat ++ (b.records ++ post) := by
    simp only [encode, hheader, List.append_assoc]
  rw [hsplit, hread]
  exact ofBE_toBE_of_lt b.recordsCount.toNat_lt

end Encode

/-! ### Records of a batch -/

section Carries

variable {b : RecordBatch} {rs : List Record}

lemma Carries.length_lt (h : b.Carries rs) : b.records.length + 49 < 2 ^ 32 := by
  have hlt := b.batchLength.toNat_lt
  have hsized : b.batchLength.toNat = 49 + b.records.length := h.sized
  omega

/-- The records are decoded without running past the end, and none of their bytes is left. -/
theorem Carries.run_records (h : b.Carries rs) (hrs : ∀ r ∈ rs, r.Sized) :
    (times b.recordsCount.toNat Record.decode).run b.records = some (rs, []) := by
  rw [h.count_eq, h.records_eq]
  exact (Reads.times fun r hr => Record.reads_decode (hrs r hr)).run_eq

lemma Carries.intoRecords_eq (h : b.Carries rs) (hrs : ∀ r ∈ rs, r.Sized) :
    b.intoRecords = some rs := by
  rw [intoRecords, h.run_records hrs]
  rfl

/-- The deltas of the records count up from `s`. -/
def Numbered (s : ℕ) (rs : List Record) : Prop :=
  ∀ (i : ℕ) (r : Record), rs[i]? = some r → r.offsetDelta.toNat = s + i

lemma Numbered.drop {s : ℕ} (h : Numbered s rs) (k : ℕ) : Numbered (s + k) (rs.drop k) := by
  intro i r hr
  rw [List.getElem?_drop] at hr
  rw [h _ r hr, Nat.add_assoc]

/-- Records with the right lengths that are numbered are found under their numbers. -/
lemma findRecord_of_numbered (hrecords : b.records = rs.flatMap Record.encode)
    (hrs : ∀ r ∈ rs, r.Sized) {s k : ℕ} (hnum : Numbered s rs) (hk : k < rs.length) {d : UInt64}
    (hd : d.toNat = s + k) : ∃ loc, b.findRecord d = some (some loc) ∧
      loc.byteOffset = ((rs.take k).flatMap Record.encode).length ∧ loc.index = k := by
  obtain ⟨pre, r, post, rfl, rfl⟩ : ∃ pre r post, rs = pre ++ r :: post ∧ pre.length = k :=
    ⟨rs.take k, rs[k], rs.drop (k + 1), by simp, by simp [hk.le]⟩
  have hr : r.offsetDelta = d := by
    rw [← UInt64.toNat_inj, hd]
    exact hnum pre.length r (by simp)
  have hpre : ∀ x ∈ pre, x.Sized ∧ x.offsetDelta ≠ d := by
    intro x hx
    refine ⟨hrs x (List.mem_append_left _ hx), fun heq => ?_⟩
    obtain ⟨j, hj, rfl⟩ := List.mem_iff_getElem.mp hx
    have hnat := hnum j pre[j] (by rw [List.getElem?_append_left hj, List.getElem?_eq_getElem hj])
    rw [heq, hd] at hnat
    omega
  have hlen : pre.length < b.records.length + 1 := by
    have hle := Record.length_le_encode (pre ++ r :: post)
    rw [← hrecords, List.length_append] at hle
    omega
  rw [findRecord, RecordRefIter.find_encode hpre (hrs r (by simp)) hr hlen hrecords
    (by simp [RecordRefIter.new])]
  exact ⟨_, rfl, by simp [RecordRefIter.new], by simp [RecordRefIter.new]⟩

/-- Records with the right lengths whose deltas are their places are found. -/
lemma Carries.searchable (h : b.Carries rs) (hrs : ∀ r ∈ rs, r.Sized)
    (hdelta : ∀ (i : ℕ) (r : Record), rs[i]? = some r → r.offsetDelta.toNat = i) : b.Searchable rs := by
  intro i hi _
  have hlt : i < 2 ^ 64 := by
    have hcount := h.count_eq ▸ b.recordsCount.toNat_lt
    omega
  have hnum : Numbered 0 rs := fun j r hr => by rw [hdelta j r hr, Nat.zero_add]
  obtain ⟨loc, hfind, hbyte, hindex⟩ := findRecord_of_numbered h.records_eq hrs hnum hi
    (show (UInt64.ofNat i).toNat = 0 + i by rw [UInt64.toNat_ofNat_of_lt' hlt, Nat.zero_add])
  rw [hfind, ← hbyte, ← hindex]
  rfl

/-- A slice carries the records from its offset on. -/
theorem Carries.slice [Crc] (h : b.Carries rs) (hs : b.Searchable rs) {i : ℕ} (hi : i < rs.length)
    (hbase : b.baseOffset.toNat + i < 2 ^ 64) :
    ∃ b', b.sliceFromOffset (UInt64.ofNat (b.baseOffset.toNat + i)) = some (.ok b') ∧
      b'.baseOffset.toNat = b.baseOffset.toNat + i ∧ b'.Carries (rs.drop i) := by
  have hoffset : (UInt64.ofNat (b.baseOffset.toNat + i)).toNat = b.baseOffset.toNat + i :=
    UInt64.toNat_ofNat_of_lt' hbase
  rcases Nat.eq_zero_or_pos i with rfl | hpos
  · refine ⟨b, ?_, rfl, by simpa using h⟩
    rw [sliceFromOffset, if_pos (by simp)]
  · have hne : UInt64.ofNat (b.baseOffset.toNat + i) ≠ b.baseOffset := by
      intro heq
      rw [heq] at hoffset
      omega
    have hdelta : UInt64.ofNat (b.baseOffset.toNat + i) - b.baseOffset = UInt64.ofNat i := by
      rw [UInt64.ofNat_add, UInt64.ofNat_toNat, UInt64.add_comm, UInt64.add_sub_cancel]
    obtain ⟨loc, hfind, hloc⟩ : ∃ loc, b.findRecord (UInt64.ofNat i) = some (some loc) ∧
        (loc.byteOffset, loc.index) = (((rs.take i).flatMap Record.encode).length, i) := by
      have hfound := hs i hi hpos
      simp only [Option.map_eq_some_iff] at hfound
      obtain ⟨_, hfind, loc, rfl, hloc⟩ := hfound
      exact ⟨loc, hfind, hloc⟩
    obtain ⟨hbyte, hindex⟩ := Prod.mk.inj hloc
    have hdrop : b.records.drop loc.byteOffset = (rs.drop i).flatMap Record.encode := by
      rw [hbyte, h.records_eq, ← List.take_append_drop i rs, List.flatMap_append,
        List.take_append_drop]
      exact List.drop_left
    have hcount : rs.length < 2 ^ 32 := h.count_eq ▸ b.recordsCount.toNat_lt
    have hi32 : (UInt32.ofNat i).toNat = i := UInt32.toNat_ofNat_of_lt' (hi.trans hcount)
    rw [sliceFromOffset, if_neg hne, hdelta]
    simp only [hfind]
    refine ⟨_, rfl, hoffset, ?_, hdrop, ?_⟩
    · have hle : (b.records.drop loc.byteOffset).length ≤ b.records.length :=
        List.length_drop ▸ Nat.sub_le _ _
      have hlt := h.length_lt
      simp only [Sized, batchPayloadHeader, UInt32.toNat_add, UInt32.toNat_ofNat',
        UInt32.toNat_ofNat]
      omega
    · have hsub : UInt32.ofNat i ≤ b.recordsCount := by
        rw [UInt32.le_iff_toNat_le, hi32, h.count_eq]
        exact hi.le
      simp only [hindex, UInt32.toNat_sub_of_le _ _ hsub, hi32, h.count_eq, List.length_drop]

/-- A batch built around encoded records carries them. -/
lemma carries_fromCompact [Crc] (o : UInt64) (rs : List Record)
    (h : batchPayloadHeader + (rs.flatMap Record.encode).length < 2 ^ 32) :
    (fromCompact o (UInt32.ofNat rs.length) (rs.flatMap Record.encode)).Carries rs := by
  have hle := Record.length_le_encode rs
  refine ⟨?_, rfl, ?_⟩
  · rw [batchPayloadHeader] at h
    simp only [Sized, fromCompact, batchPayloadHeader, UInt32.toNat_add, UInt32.toNat_ofNat',
      UInt32.toNat_ofNat]
    omega
  · exact UInt32.toNat_ofNat_of_lt' (hle.trans_lt ((Nat.le_add_left _ _).trans_lt h))

lemma Carries.rebase (h : b.Carries rs) (o : UInt64) : ({ b with baseOffset := o }).Carries rs :=
  ⟨h.sized, h.records_eq, h.count_eq⟩

end Carries

end RecordBatch

/-! ### Batches with their records -/

/-- A batch together with the records it carries, at least one. -/
structure Filled where
  batch : RecordBatch
  recs : List Record
  carries : batch.Carries recs
  recs_ne : recs ≠ []

namespace Filled

def Searchable (x : Filled) : Prop :=
  x.batch.Searchable x.recs

instance (x : Filled) : Decidable x.Searchable :=
  inferInstanceAs (Decidable (x.batch.Searchable x.recs))

/-- A batch of one record with a value of one byte. -/
def single [Crc] (value : UInt8) : Filled where
  batch := RecordBatch.fromCompact 0 1 ([Record.new 0 0 [] [value]].flatMap Record.encode)
  recs := [Record.new 0 0 [] [value]]
  carries := RecordBatch.carries_fromCompact 0 [Record.new 0 0 [] [value]] (by
    rw [List.flatMap_singleton, Record.length_encode]
    exact (by decide : batchPayloadHeader + (33 + 0 + 1 + 0) < 2 ^ 32))
  recs_ne := List.cons_ne_nil _ _

/-- The same batch at another offset. -/
def rebase (x : Filled) (o : UInt64) : Filled :=
  ⟨{ x.batch with baseOffset := o }, x.recs, x.carries.rebase o, x.recs_ne⟩

lemma count_eq (x : Filled) : x.batch.recordsCount.toNat = x.recs.length :=
  x.carries.count_eq

lemma length_pos (x : Filled) : 0 < x.recs.length :=
  List.length_pos_iff.mpr x.recs_ne

lemma length_le (x : Filled) : x.recs.length ≤ x.batch.encode.length := by
  have hle := Record.length_le_encode x.recs
  rw [← x.carries.records_eq] at hle
  rw [RecordBatch.length_encode]
  exact hle.trans (Nat.le_add_left _ _)

/-- The slice of a batch from one of its records on. -/
theorem exists_slice [Crc] (x : Filled) (hs : x.Searchable) {o : UInt64}
    (hbase : x.batch.baseOffset.toNat ≤ o.toNat)
    (hend : o.toNat < x.batch.baseOffset.toNat + x.recs.length) :
    ∃ y : Filled, x.batch.sliceFromOffset o = some (.ok y.batch) ∧ y.batch.baseOffset = o ∧
      y.recs = x.recs.drop (o.toNat - x.batch.baseOffset.toNat) := by
  have hi : o.toNat - x.batch.baseOffset.toNat < x.recs.length := by omega
  have hsum : x.batch.baseOffset.toNat + (o.toNat - x.batch.baseOffset.toNat) = o.toNat := by omega
  have hslice := x.carries.slice hs hi (by rw [hsum]; exact o.toNat_lt)
  rw [hsum, UInt64.ofNat_toNat] at hslice
  obtain ⟨b, hb, hoffset, hcarries⟩ := hslice
  exact ⟨⟨b, _, hcarries, List.drop_eq_nil_iff.not.mpr (Nat.not_le.mpr hi)⟩, hb,
    UInt64.toNat_inj.mp hoffset, rfl⟩

end Filled

/-! ### Batches of a file -/

namespace BatchIter

open RecordBatch

/-- The batches one behind the other, as a segment file holds them. -/
def layout (bs : List RecordBatch) : List UInt8 :=
  bs.flatMap RecordBatch.encode

@[simp] lemma layout_nil : layout [] = [] := rfl

@[simp] lemma layout_append (bs cs : List RecordBatch) :
    layout (bs ++ cs) = layout bs ++ layout cs :=
  List.flatMap_append

@[simp] lemma layout_cons (b : RecordBatch) (bs : List RecordBatch) :
    layout (b :: bs) = b.encode ++ layout bs := List.flatMap_cons

lemma length_le_layout (bs : List RecordBatch) : bs.length ≤ (layout bs).length := by
  induction bs with
  | nil => exact le_rfl
  | cons b bs ih =>
    rw [layout_cons, List.length_append, RecordBatch.length_encode, List.length_cons, headerSize]
    omega

lemma next_layout {b : RecordBatch} (h : b.Sized) {pre post : List UInt8} {stop : ℕ}
    (hstop : pre.length + b.encode.length ≤ stop) :
    next ⟨pre ++ b.encode ++ post, pre.length, stop⟩
      = some (some b, ⟨pre ++ b.encode ++ post, pre.length + b.encode.length, stop⟩) := by
  have hlen := h.length_encode
  have hpos : ¬ stop ≤ pre.length := by
    simp only [batchHeaderPrefix] at hlen
    omega
  have hend : ¬ stop < pre.length + batchHeaderPrefix + b.batchLength.toNat := by omega
  rw [next, if_neg hpos]
  have hlength : ofBE (toBE 4 b.batchLength.toNat) = b.batchLength.toNat :=
    ofBE_toBE_of_lt b.batchLength.toNat_lt
  simp only [readAt_encodePrefix, encodePrefix_drop, hlength]
  rw [if_neg hend, decodeFile_encode h, Nat.add_assoc, ← hlen]

/-- The iterator yields exactly the batches laid out up to its end. -/
theorem unroll_layout {bs : List RecordBatch} (h : ∀ b ∈ bs, b.Sized) (pre post : List UInt8)
    {fuel : ℕ} (hfuel : bs.length ≤ fuel) :
    unroll fuel ⟨pre ++ layout bs ++ post, pre.length, pre.length + (layout bs).length⟩
      = bs.map some := by
  induction bs generalizing pre fuel with
  | nil =>
    cases fuel with
    | zero => rfl
    | succ fuel => simp [unroll, next]
  | cons b bs ih =>
    obtain ⟨fuel, rfl⟩ := Nat.exists_eq_add_of_le' (Nat.lt_of_lt_of_le (Nat.succ_pos _) hfuel)
    rw [List.forall_mem_cons] at h
    have hsplit : pre ++ layout (b :: bs) ++ post = pre ++ b.encode ++ (layout bs ++ post) := by
      simp only [layout_cons, List.append_assoc]
    have hrest := ih h.2 (pre ++ b.encode) (Nat.le_of_succ_le_succ hfuel)
    rw [List.append_assoc (pre ++ b.encode), List.length_append] at hrest
    rw [unroll, hsplit, next_layout h.1 (by simp)]
    simp only [layout_cons, List.length_append, List.map_cons, ← Nat.add_assoc, hrest]

theorem batches_layout {bs : List RecordBatch} (h : ∀ b ∈ bs, b.Sized) (pre post : List UInt8) :
    batches ⟨pre ++ layout bs ++ post, pre.length, pre.length + (layout bs).length⟩
      = bs.map some :=
  unroll_layout h pre post (by simpa using length_le_layout bs)

/-- The layout of the batches at the front of a file. -/
theorem batches_layout_front {bs : List RecordBatch} (h : ∀ b ∈ bs, b.Sized) (post : List UInt8) :
    batches ⟨layout bs ++ post, 0, (layout bs).length⟩ = bs.map some := by
  have hbatches := batches_layout h [] post
  rwa [List.nil_append, List.length_nil, Nat.zero_add] at hbatches

end BatchIter

end Musil.Proto
