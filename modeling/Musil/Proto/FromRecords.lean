import Musil.Proto.RecordIter
import Musil.Proto.RecordBatch

/-!
# Building a batch

A batch is built from records with absolute times. The times are rebased on the earliest one and
the deltas count up from zero; decoding the batch gives the records back in this form.
-/

namespace Musil.Proto

open Bytes Bytes.Reader

/-- The record as a batch that starts at time `base` holds it at place `i`. -/
def Record.placed (r : Record) (base : UInt64) (i : ℕ) : Record :=
  { r with offsetDelta := UInt64.ofNat i, timestampDelta := r.timestampDelta - base }

namespace RecordBatch

def checksum [Crc] (b : RecordBatch) : Bool :=
  Crc.crc32Iscsi b.records = b.crc

/-- What a batch built from the records `rs` has to be. -/
structure BuiltFrom [Crc] (b : RecordBatch) (rs : List Record) : Prop where
  checksum_eq : b.checksum = true
  batchLength_eq : b.batchLength.toNat = 49 + (rs.flatMap Record.encode).length
  recordsCount_eq : b.recordsCount.toNat = rs.length
  lastOffsetDelta_eq : b.lastOffsetDelta.toInt = rs.length - 1
  /-- Decoding gives back the records, with places and rebased times. -/
  intoRecords_eq : ∃ out, b.intoRecords = some out ∧ out.length = rs.length ∧
    ∀ (i : ℕ) (r : Record), rs[i]? = some r → out[i]? = some (r.placed b.baseTimestamp i)
  /-- No place is cut off, and no time falls below the base. -/
  place_eq : ∀ i < rs.length, (UInt64.ofNat i).toNat = i
  timestamp_eq : ∀ r ∈ rs, b.baseTimestamp ≤ r.timestampDelta ∧
    b.baseTimestamp + (r.timestampDelta - b.baseTimestamp) = r.timestampDelta
  baseTimestamp_mem : rs ≠ [] → ∃ r ∈ rs, r.timestampDelta = b.baseTimestamp
  maxTimestamp_mem : rs ≠ [] → ∃ r ∈ rs, r.timestampDelta = b.maxTimestamp
  le_maxTimestamp : ∀ r ∈ rs, r.timestampDelta ≤ b.maxTimestamp

/-! ### The earliest and the latest time -/

instance : Std.LawfulOrderMax UInt64 := by
  refine .of_max_le_iff (fun a b c => ?_) fun a b => ?_
  · change (if a ≤ b then b else a) ≤ c ↔ _
    grind
  · change (if a ≤ b then b else a) = a ∨ (if a ≤ b then b else a) = b
    grind

section Timestamps

variable [Crc] {rs : List Record}

lemma baseTimestamp_fromRecords (rs : List Record) : some (fromRecords rs).baseTimestamp
    = (0xFFFFFFFFFFFFFFFF :: rs.map Record.timestampDelta).min? := by
  rw [List.min?_cons', List.foldl_map]
  rfl

lemma maxTimestamp_fromRecords (rs : List Record) : some (fromRecords rs).maxTimestamp
    = (0 :: rs.map Record.timestampDelta).max? := by
  rw [List.max?_cons', List.foldl_map]
  rfl

lemma baseTimestamp_le {r : Record} (hr : r ∈ rs) :
    (fromRecords rs).baseTimestamp ≤ r.timestampDelta :=
  (List.min?_eq_some_iff.mp (baseTimestamp_fromRecords rs).symm).2 _
    (List.mem_cons_of_mem _ (List.mem_map_of_mem hr))

lemma le_maxTimestamp {r : Record} (hr : r ∈ rs) :
    r.timestampDelta ≤ (fromRecords rs).maxTimestamp :=
  (List.max?_eq_some_iff.mp (maxTimestamp_fromRecords rs).symm).2 _
    (List.mem_cons_of_mem _ (List.mem_map_of_mem hr))

/-- The initial value of the minimum is the largest of all times, so the minimum is a time. -/
lemma exists_baseTimestamp (h : rs ≠ []) :
    ∃ r ∈ rs, r.timestampDelta = (fromRecords rs).baseTimestamp := by
  have hmem := (List.min?_eq_some_iff.mp (baseTimestamp_fromRecords rs).symm).1
  rcases List.mem_cons.mp hmem with hmax | hmem
  · obtain ⟨r, hr⟩ := List.exists_mem_of_ne_nil rs h
    refine ⟨r, hr, ?_⟩
    have hle := UInt64.le_iff_toNat_le.mp (baseTimestamp_le hr)
    have hlt := r.timestampDelta.toNat_lt
    rw [hmax] at hle
    rw [hmax, ← UInt64.toNat_inj]
    exact le_antisymm (Nat.le_of_lt_succ hlt) hle
  · exact List.mem_map.mp hmem

lemma exists_maxTimestamp (h : rs ≠ []) :
    ∃ r ∈ rs, r.timestampDelta = (fromRecords rs).maxTimestamp := by
  have hmem := (List.max?_eq_some_iff.mp (maxTimestamp_fromRecords rs).symm).1
  rcases List.mem_cons.mp hmem with hmin | hmem
  · obtain ⟨r, hr⟩ := List.exists_mem_of_ne_nil rs h
    refine ⟨r, hr, ?_⟩
    have hle := UInt64.le_iff_toNat_le.mp (le_maxTimestamp hr)
    rw [hmin] at hle
    rw [hmin, ← UInt64.toNat_inj]
    exact Nat.le_zero.mp hle
  · exact List.mem_map.mp hmem

end Timestamps

/-! ### The records -/

section Records

variable {rs : List Record}

/-- The records in the form in which they are written. -/
def placedRecords (base : UInt64) (rs : List Record) : List Record :=
  rs.zipIdx.map fun p => p.1.placed base p.2

lemma records_fromRecords [Crc] (rs : List Record) : (fromRecords rs).records
    = (placedRecords (fromRecords rs).baseTimestamp rs).flatMap Record.encode := by
  rw [placedRecords, List.flatMap_map]
  rfl

lemma getElem?_placedRecords (base : UInt64) {i : ℕ} {r : Record} (h : rs[i]? = some r) :
    (placedRecords base rs)[i]? = some (r.placed base i) := by
  rw [placedRecords, List.getElem?_map, List.getElem?_zipIdx, h, Nat.zero_add]
  rfl

lemma length_encode_placed (r : Record) (base : UInt64) (i : ℕ) :
    (r.placed base i).encode.length = r.encode.length := by
  rw [Record.length_encode, Record.length_encode]
  rfl

/-- Places and times have the same number of bytes whatever they are. -/
lemma length_placedRecords (base : UInt64) (rs : List Record) :
    ((placedRecords base rs).flatMap Record.encode).length
      = (rs.flatMap Record.encode).length := by
  rw [placedRecords, List.length_flatMap, List.length_flatMap, List.map_map]
  conv_rhs => rw [← List.zipIdx_map_fst 0 rs, List.map_map]
  exact congrArg List.sum (List.map_congr_left fun p _ => length_encode_placed p.1 base p.2)

/-- The declared lengths leave room for far fewer records than `2 ^ 31`. -/
lemma length_lt_of_total (h : 49 + (rs.flatMap Record.encode).length < 2 ^ 32) :
    rs.length < 2 ^ 31 := by
  have hle : rs.length * 33 ≤ (rs.flatMap Record.encode).length := by
    clear h
    induction rs with
    | nil => exact le_rfl
    | cons r rs ih =>
      rw [List.flatMap_cons, List.length_append, Record.length_encode, List.length_cons]
      omega
  omega

lemma reads_placedRecords (base : UInt64) (h : (rs.flatMap Record.encode).length < 2 ^ 32) :
    Reads (times rs.length Record.decode) ((placedRecords base rs).flatMap Record.encode)
      (placedRecords base rs) := by
  have hlen : (placedRecords base rs).length = rs.length := by
    rw [placedRecords, List.length_map, List.length_zipIdx]
  rw [← hlen]
  refine Reads.times fun r hr => Record.reads_decode_of_lt ?_
  exact (Record.length_encode_le hr).trans_lt (length_placedRecords base rs ▸ h)

variable [Crc]

/-- Decoding a batch gives back the records it was built from, in their new form. -/
theorem intoRecords_fromRecords (h : 49 + (rs.flatMap Record.encode).length < 2 ^ 32) :
    (fromRecords rs).intoRecords
      = some (placedRecords (fromRecords rs).baseTimestamp rs) := by
  have hcount : (fromRecords rs).recordsCount.toNat = rs.length :=
    UInt32.toNat_ofNat_of_lt' ((length_lt_of_total h).trans (by decide))
  rw [intoRecords, hcount, records_fromRecords,
    (reads_placedRecords _ ((Nat.le_add_left _ _).trans_lt h)).run_eq]
  rfl

lemma lastOffsetDelta_fromRecords (h : rs.length < 2 ^ 31) :
    (fromRecords rs).lastOffsetDelta.toInt = rs.length - 1 := by
  change ((UInt32.ofNat rs.length).toInt32 - 1).toInt = _
  rw [UInt32.toInt32_ofNat', Int32.toInt_sub, Int32.toInt_ofNat_of_lt h]
  change Int.bmod (rs.length - 1) (2 ^ 32) = _
  rw [Int.bmod_eq_of_le]
  · omega
  · omega

/-- A batch built from records loses nothing of them. -/
theorem fromRecords_builtFrom (rs : List Record)
    (h : 49 + (rs.flatMap Record.encode).length < 2 ^ 32) : (fromRecords rs).BuiltFrom rs where
  checksum_eq := decide_eq_true rfl
  batchLength_eq := by
    rw [← length_placedRecords (fromRecords rs).baseTimestamp] at h ⊢
    rw [← records_fromRecords] at h ⊢
    change (49 + UInt32.ofNat (fromRecords rs).records.length).toNat = _
    rw [UInt32.toNat_add, UInt32.toNat_ofNat_of_lt' ((Nat.le_add_left _ _).trans_lt h)]
    exact Nat.mod_eq_of_lt h
  recordsCount_eq := UInt32.toNat_ofNat_of_lt' ((length_lt_of_total h).trans (by decide))
  lastOffsetDelta_eq := lastOffsetDelta_fromRecords (length_lt_of_total h)
  intoRecords_eq := by
    refine ⟨_, intoRecords_fromRecords h, ?_, fun i r hr => getElem?_placedRecords _ hr⟩
    rw [placedRecords, List.length_map, List.length_zipIdx]
  place_eq i hi := UInt64.toNat_ofNat_of_lt' ((hi.trans (length_lt_of_total h)).trans (by decide))
  timestamp_eq r hr := ⟨baseTimestamp_le hr, by rw [UInt64.add_comm, UInt64.sub_add_cancel]⟩
  baseTimestamp_mem := exists_baseTimestamp
  maxTimestamp_mem := exists_maxTimestamp
  le_maxTimestamp _ hr := le_maxTimestamp hr

end Records

/-- Two records with times 9 and 7. -/
theorem fromRecords_builtFrom_two :
    letI := Crc.castagnoli
    (fromRecords [.new 9 0 [] [1], .new 7 0 [] [2]]).BuiltFrom
      [.new 9 0 [] [1], .new 7 0 [] [2]] :=
  letI := Crc.castagnoli
  fromRecords_builtFrom [.new 9 0 [] [1], .new 7 0 [] [2]] (by decide)

end RecordBatch

end Musil.Proto
