import Musil.Proto.WellFormed

/-!
# Slices of a batch

A slice takes over the bytes of the records as they stand. Its base offset moves on, but the deltas
of its records still count from the base offset of the batch it was cut from.
-/

namespace Musil.Proto

open Bytes Bytes.Reader

/-- The record but for its place in the batch. -/
def Record.unplaced (r : Record) : Record :=
  { r with offsetDelta := 0 }

/-- The search for a delta that no record has comes to nothing. -/
lemma RecordRefIter.find_encode_none {d : UInt64} {rs : List Record}
    (h : ∀ r ∈ rs, r.Sized ∧ r.offsetDelta ≠ d) {it : RecordRefIter} {fuel : ℕ}
    (hfuel : rs.length < fuel) (hbuf : it.buf = rs.flatMap Record.encode) :
    it.find d fuel = some none := by
  obtain ⟨fuel, rfl⟩ := Nat.exists_eq_succ_of_ne_zero (Nat.ne_of_gt (Nat.zero_lt_of_lt hfuel))
  induction rs generalizing it fuel with
  | nil => rw [find, next, if_pos (hbuf.trans List.flatMap_nil)]
  | cons r rs ih =>
    rw [List.forall_mem_cons] at h
    rw [List.flatMap_cons] at hbuf
    rw [find, next_encode h.1.1 hbuf]
    simp only [h.1.2, if_false]
    obtain ⟨fuel, rfl⟩ := Nat.exists_eq_succ_of_ne_zero
      (Nat.ne_of_gt (Nat.zero_lt_of_lt (Nat.lt_of_succ_lt_succ hfuel)))
    exact ih h.2 rfl fuel (Nat.lt_of_succ_lt_succ hfuel)

namespace RecordBatch

/-! ### Batches and their slices -/

/-- The records of the batch are the encodings of `rs`, each as long as it declares itself and with
its place as its delta. -/
structure Indexed (b : RecordBatch) (rs : List Record) : Prop where
  records_eq : b.records = rs.flatMap Record.encode
  count_eq : b.recordsCount.toNat = rs.length
  sized : ∀ r ∈ rs, r.Sized
  numbered : Numbered 0 rs

/-- The header of the batch agrees with the records `rs`. -/
structure HeaderAgrees [Crc] (b : RecordBatch) (rs : List Record) : Prop where
  count_eq : b.recordsCount.toNat = rs.length
  sized : b.Sized
  lastOffsetDelta_eq : b.lastOffsetDelta.toInt = rs.length - 1
  crc_eq : b.crc = Crc.crc32Iscsi b.records

/-- The batch `b'` is what a slice of `b` from offset `o` on has to be, with the records `rs'`. -/
structure IsSlice [Crc] (b : RecordBatch) (rs : List Record) (o : UInt64) (b' : RecordBatch)
    (rs' : List Record) : Prop where
  baseOffset_eq : b'.baseOffset = o
  records_eq : b'.records = rs'.flatMap Record.encode
  intoRecords_eq : b'.intoRecords = some rs'
  contents_eq : rs'.map Record.unplaced
    = (rs.drop (o.toNat - b.baseOffset.toNat)).map Record.unplaced
  header : b'.HeaderAgrees rs'
  /-- The `i`-th record of the slice has offset `o + i` in the batch. -/
  offset_eq : ∀ (i : ℕ) (r : Record), rs'[i]? = some r →
    b'.baseOffset.toNat + r.offsetDelta.toNat = o.toNat + i

/-- The offset is that of a record of the batch. -/
def Covers (b : RecordBatch) (o : UInt64) : Prop :=
  b.baseOffset.toNat ≤ o.toNat ∧ o.toNat < b.baseOffset.toNat + b.recordsCount.toNat

instance (b : RecordBatch) (o : UInt64) : Decidable (b.Covers o) :=
  inferInstanceAs (Decidable (_ ∧ _))

/-- A slice of the slice. -/
def sliceTwice [Crc] (b : RecordBatch) (o₁ o₂ : UInt64) : Option (Except ProtoError RecordBatch) :=
  match b.sliceFromOffset o₁ with
  | some (.ok b') => b'.sliceFromOffset o₂
  | r => r

/-- The batch cut before its record number `k`, with base offset `o`. -/
def cut [Crc] (b : RecordBatch) (rs : List Record) (k : ℕ) (o : UInt64) : RecordBatch :=
  { b with
    baseOffset := o
    batchLength := 49 + UInt32.ofNat ((rs.drop k).flatMap Record.encode).length
    crc := Crc.crc32Iscsi ((rs.drop k).flatMap Record.encode)
    lastOffsetDelta := b.lastOffsetDelta - (o - b.baseOffset).toUInt32.toInt32
    recordsCount := b.recordsCount - UInt32.ofNat k
    records := (rs.drop k).flatMap Record.encode }

section Slice

variable [Crc] {b : RecordBatch} {rs : List Record}

lemma sliceFromOffset_baseOffset : b.sliceFromOffset b.baseOffset = some (.ok b) :=
  if_pos rfl

/-- The slice at a number that one of the records has. -/
lemma sliceFromOffset_eq_cut (hrecords : b.records = rs.flatMap Record.encode)
    (hrs : ∀ r ∈ rs, r.Sized) {s k : ℕ} (hnum : Numbered s rs) (hk : k < rs.length) {o : UInt64}
    (hne : o ≠ b.baseOffset) (ho : (o - b.baseOffset).toNat = s + k) :
    b.sliceFromOffset o = some (.ok (b.cut rs k o)) := by
  obtain ⟨loc, hfind, hbyte, hindex⟩ := findRecord_of_numbered hrecords hrs hnum hk ho
  have hdrop : b.records.drop loc.byteOffset = (rs.drop k).flatMap Record.encode := by
    rw [hbyte, hrecords, ← List.take_append_drop k rs, List.flatMap_append,
      List.take_append_drop]
    exact List.drop_left
  rw [sliceFromOffset, if_neg hne]
  simp only [hfind, hdrop, hindex, cut]

/-- There is no slice below the numbers of the records. -/
lemma sliceFromOffset_eq_error (hrecords : b.records = rs.flatMap Record.encode)
    (hrs : ∀ r ∈ rs, r.Sized) {s : ℕ} (hnum : Numbered s rs) {o : UInt64}
    (hne : o ≠ b.baseOffset) (ho : (o - b.baseOffset).toNat < s) :
    b.sliceFromOffset o = some (.error .invalidOffset) := by
  have hnot : ∀ r ∈ rs, r.Sized ∧ r.offsetDelta ≠ o - b.baseOffset := by
    intro r hr
    obtain ⟨i, hi, rfl⟩ := List.mem_iff_getElem.mp hr
    refine ⟨hrs _ hr, fun heq => ?_⟩
    have hnat := hnum i rs[i] (List.getElem?_eq_getElem hi)
    rw [heq] at hnat
    omega
  have hlen : rs.length < b.records.length + 1 := by
    rw [hrecords]
    exact Nat.lt_succ_of_le (Record.length_le_encode rs)
  have hfind : b.findRecord (o - b.baseOffset) = some none :=
    RecordRefIter.find_encode_none hnot hlen hrecords
  rw [sliceFromOffset, if_neg hne]
  simp only [hfind]

end Slice

section Indexed

variable {b : RecordBatch} {rs : List Record} {o : UInt64}

lemma toNat_sub_baseOffset (ho : b.baseOffset.toNat ≤ o.toNat) :
    (o - b.baseOffset).toNat = o.toNat - b.baseOffset.toNat :=
  UInt64.toNat_sub_of_le _ _ (UInt64.le_iff_toNat_le.mpr ho)

lemma Indexed.intoRecords_eq (h : b.Indexed rs) : b.intoRecords = some rs := by
  rw [intoRecords, h.count_eq, h.records_eq,
    (Reads.times fun r hr => Record.reads_decode (h.sized r hr)).run_eq]
  rfl

variable [Crc]

/-- The slice at every offset of the batch but the first. -/
lemma Indexed.slice_eq (h : b.Indexed rs) (ho : b.Covers o) (hne : o ≠ b.baseOffset) :
    b.sliceFromOffset o = some (.ok (b.cut rs (o.toNat - b.baseOffset.toNat) o)) := by
  obtain ⟨hbase, hend⟩ := ho
  rw [h.count_eq] at hend
  refine sliceFromOffset_eq_cut h.records_eq h.sized h.numbered (by omega) hne ?_
  rw [toNat_sub_baseOffset hbase, Nat.zero_add]

lemma count_cut (h : b.recordsCount.toNat = rs.length) {k : ℕ} (hk : k ≤ rs.length) :
    (b.cut rs k o).recordsCount.toNat = (rs.drop k).length := by
  have hlt := b.recordsCount.toNat_lt
  have hk32 : (UInt32.ofNat k).toNat = k :=
    UInt32.toNat_ofNat_of_lt' (hk.trans_lt (h ▸ hlt))
  have hle : UInt32.ofNat k ≤ b.recordsCount := by
    rw [UInt32.le_iff_toNat_le, hk32, h]
    exact hk
  rw [cut, UInt32.toNat_sub_of_le _ _ hle, hk32, h, List.length_drop]

/-- What is decoded from a slice are the records of the batch, with their deltas in the batch. -/
lemma Indexed.intoRecords_cut (h : b.Indexed rs) {k : ℕ} (hk : k ≤ rs.length) :
    (b.cut rs k o).intoRecords = some (rs.drop k) := by
  have hread := Reads.times fun r (hr : r ∈ rs.drop k) =>
    Record.reads_decode (h.sized r (List.mem_of_mem_drop hr))
  rw [intoRecords, count_cut h.count_eq hk]
  change ((times _ Record.decode).run ((rs.drop k).flatMap Record.encode)).bind _ = _
  rw [hread.run_eq]
  rfl

/-- The whole batch is its own slice, if its header is right. -/
lemma Indexed.isSlice_self (h : b.Indexed rs) (hheader : b.HeaderAgrees rs) :
    b.IsSlice rs b.baseOffset b rs where
  baseOffset_eq := rfl
  records_eq := h.records_eq
  intoRecords_eq := h.intoRecords_eq
  contents_eq := by rw [Nat.sub_self, List.drop_zero]
  header := hheader
  offset_eq i r hr := by rw [h.numbered i r hr, Nat.zero_add]

/-- No other slice has the right offsets: the first record keeps its delta. -/
lemma Indexed.not_isSlice_cut (h : b.Indexed rs) (ho : b.Covers o) (hne : o ≠ b.baseOffset)
    (rs' : List Record) :
    ¬ b.IsSlice rs o (b.cut rs (o.toNat - b.baseOffset.toNat) o) rs' := by
  intro hslice
  obtain ⟨hbase, hend⟩ := ho
  rw [h.count_eq] at hend
  have hk : o.toNat - b.baseOffset.toNat < rs.length := by omega
  have hrs' := hslice.intoRecords_eq
  rw [h.intoRecords_cut hk.le] at hrs'
  obtain rfl := Option.some.inj hrs'
  have hdrop := h.numbered.drop (o.toNat - b.baseOffset.toNat)
  have hfirst := List.getElem?_eq_getElem (List.length_drop ▸ Nat.sub_pos_of_lt hk)
  have hoffset := hslice.offset_eq 0 _ hfirst
  rw [hslice.baseOffset_eq, hdrop 0 _ hfirst] at hoffset
  exact hne (UInt64.toNat_inj.mp (by omega))

lemma Indexed.isSlice_iff (h : b.Indexed rs) (ho : b.Covers o) :
    (∃ b' rs', b.sliceFromOffset o = some (.ok b') ∧ b.IsSlice rs o b' rs') ↔
      o = b.baseOffset ∧ b.HeaderAgrees rs := by
  constructor
  · rintro ⟨b', rs', hb', hslice⟩
    by_cases hne : o = b.baseOffset
    · refine ⟨hne, ?_⟩
      rw [sliceFromOffset, if_pos hne] at hb'
      obtain rfl := Except.ok.inj (Option.some.inj hb')
      have hrs' := hslice.intoRecords_eq
      rw [h.intoRecords_eq] at hrs'
      obtain rfl := Option.some.inj hrs'
      exact hslice.header
    · rw [h.slice_eq ho hne] at hb'
      obtain rfl := Except.ok.inj (Option.some.inj hb')
      exact absurd hslice (h.not_isSlice_cut ho hne rs')
  · rintro ⟨rfl, hheader⟩
    exact ⟨b, rs, sliceFromOffset_baseOffset, h.isSlice_self hheader⟩

/-- The slice of a slice starts at another record, or at none. -/
lemma Indexed.sliceTwice_ne (h : b.Indexed rs) {o₁ o₂ : UInt64} (ho₁ : b.Covers o₁)
    (ho₂ : b.Covers o₂) (hlt : o₁.toNat < o₂.toNat) (hne : o₁ ≠ b.baseOffset) :
    b.sliceTwice o₁ o₂ ≠ b.sliceFromOffset o₂ := by
  have hbase : b.baseOffset.toNat < o₁.toNat :=
    lt_of_le_of_ne ho₁.1 fun heq => hne (UInt64.toNat_inj.mp heq.symm)
  have hne₂ : o₂ ≠ b.baseOffset := by
    rintro rfl
    omega
  have hne₁₂ : o₂ ≠ o₁ := by
    rintro rfl
    omega
  have hend : o₂.toNat < b.baseOffset.toNat + rs.length := h.count_eq ▸ ho₂.2
  set k := o₁.toNat - b.baseOffset.toNat with hk
  have hnum : Numbered (0 + k) (rs.drop k) := h.numbered.drop k
  have hsized : ∀ r ∈ rs.drop k, r.Sized := fun r hr => h.sized r (List.mem_of_mem_drop hr)
  have hdelta : (o₂ - o₁).toNat = o₂.toNat - o₁.toNat :=
    UInt64.toNat_sub_of_le _ _ (UInt64.le_iff_toNat_le.mpr hlt.le)
  rw [sliceTwice, h.slice_eq ho₁ hne, h.slice_eq ho₂ hne₂]
  simp only [← hk]
  by_cases hfound : k ≤ o₂.toNat - o₁.toNat
  · -- the delta from `o₁` is that of a record before the one at `o₂`
    have hslice : (b.cut rs k o₁).sliceFromOffset o₂
        = some (.ok ((b.cut rs k o₁).cut (rs.drop k) (o₂.toNat - o₁.toNat - k) o₂)) := by
      refine sliceFromOffset_eq_cut rfl hsized hnum ?_ hne₁₂ (hdelta.trans ?_)
      · rw [List.length_drop]
        omega
      · omega
    rw [hslice]
    intro heq
    have hcount := congrArg (fun b => b.recordsCount.toNat) (Except.ok.inj (Option.some.inj heq))
    have hk₁ : k ≤ rs.length := by omega
    have hk₂ : o₂.toNat - o₁.toNat - k ≤ (rs.drop k).length := by
      rw [List.length_drop]
      omega
    simp only [count_cut (count_cut h.count_eq hk₁) hk₂, List.length_drop] at hcount
    rw [count_cut h.count_eq (by omega), List.length_drop] at hcount
    omega
  · have hslice : (b.cut rs k o₁).sliceFromOffset o₂ = some (.error .invalidOffset) :=
      sliceFromOffset_eq_error rfl hsized hnum hne₁₂ (hdelta.trans_lt (by omega))
    rw [hslice]
    intro heq
    cases Option.some.inj heq

lemma Indexed.sliceTwice_eq_iff (h : b.Indexed rs) {o₁ o₂ : UInt64} (ho₁ : b.Covers o₁)
    (ho₂ : b.Covers o₂) (hle : o₁.toNat ≤ o₂.toNat) :
    b.sliceTwice o₁ o₂ = b.sliceFromOffset o₂ ↔ o₁ = b.baseOffset ∨ o₁ = o₂ := by
  constructor
  · intro heq
    by_contra! hne
    have hlt : o₁.toNat < o₂.toNat :=
      lt_of_le_of_ne hle fun hnat => hne.2 (UInt64.toNat_inj.mp hnat)
    exact h.sliceTwice_ne ho₁ ho₂ hlt hne.1 heq
  · rintro (rfl | rfl)
    · rw [sliceTwice, sliceFromOffset_baseOffset]
    · by_cases hne : o₁ = b.baseOffset
      · rw [sliceTwice, hne, sliceFromOffset_baseOffset]
        exact sliceFromOffset_baseOffset
      · rw [sliceTwice, h.slice_eq ho₁ hne]
        exact if_pos rfl

/-- A slice has the right offsets only where it is the whole batch, and only there can it be sliced
again. -/
theorem slices_iff (b : RecordBatch) (rs : List Record) (h : b.Indexed rs) :
    (∀ o, b.Covers o → ((∃ b' rs', b.sliceFromOffset o = some (.ok b') ∧ b.IsSlice rs o b' rs') ↔
      o = b.baseOffset ∧ b.HeaderAgrees rs)) ∧
    (∀ o₁ o₂, b.Covers o₁ → b.Covers o₂ → o₁.toNat ≤ o₂.toNat →
      (b.sliceTwice o₁ o₂ = b.sliceFromOffset o₂ ↔ o₁ = b.baseOffset ∨ o₁ = o₂)) :=
  ⟨fun _ ho => h.isSlice_iff ho, fun _ _ ho₁ ho₂ hle => h.sliceTwice_eq_iff ho₁ ho₂ hle⟩

/-- Three records with their places as their deltas, and a batch of them at offset 10. -/
def threeRecords : List Record :=
  [.new 0 0 [] [1], .new 0 1 [] [2], .new 0 2 [] [3]]

def ofThree : RecordBatch :=
  fromCompact 10 3 (threeRecords.flatMap Record.encode)

lemma indexed_ofThree : ofThree.Indexed threeRecords where
  records_eq := rfl
  count_eq := rfl
  sized := by decide
  numbered i r hr := by
    rcases i with _ | _ | _ | i
    · cases hr
      rfl
    · cases hr
      rfl
    · cases hr
      rfl
    · cases hr

end Indexed

section Examples

local instance castagnoli : Crc := Crc.castagnoli

theorem slices_iff_ofThree :
    (∀ o, ofThree.Covers o → ((∃ b' rs', ofThree.sliceFromOffset o = some (.ok b') ∧
      ofThree.IsSlice threeRecords o b' rs') ↔
        o = ofThree.baseOffset ∧ ofThree.HeaderAgrees threeRecords)) ∧
    (∀ o₁ o₂, ofThree.Covers o₁ → ofThree.Covers o₂ → o₁.toNat ≤ o₂.toNat →
      (ofThree.sliceTwice o₁ o₂ = ofThree.sliceFromOffset o₂ ↔
        o₁ = ofThree.baseOffset ∨ o₁ = o₂)) :=
  slices_iff ofThree threeRecords indexed_ofThree

/-- Cut before its second record, the batch starts with offset 11 and delta 1; cutting once more
finds the second record in place of the third. -/
theorem not_isSlice_ofThree :
    ofThree.Indexed threeRecords ∧ ofThree.HeaderAgrees threeRecords ∧
      (ofThree.Covers 11 ∧ ofThree.Covers 12) ∧
      ofThree.sliceFromOffset 11 = some (.ok (ofThree.cut threeRecords 1 11)) ∧
      (ofThree.cut threeRecords 1 11).intoRecords
        = some [.new 0 1 [] [2], .new 0 2 [] [3]] ∧
      (¬ ∃ b' rs', ofThree.sliceFromOffset 11 = some (.ok b') ∧
        ofThree.IsSlice threeRecords 11 b' rs') ∧
      ofThree.sliceTwice 11 12 ≠ ofThree.sliceFromOffset 12 := by
  have hcovers : ofThree.Covers 11 ∧ ofThree.Covers 12 := by decide
  refine ⟨indexed_ofThree, ⟨rfl, by decide, by decide, rfl⟩, hcovers,
    indexed_ofThree.slice_eq hcovers.1 (by decide), indexed_ofThree.intoRecords_cut (by decide),
    fun hslice => ?_, fun heq => ?_⟩
  · exact absurd ((indexed_ofThree.isSlice_iff hcovers.1).mp hslice).1 (by decide)
  · exact absurd ((indexed_ofThree.sliceTwice_eq_iff hcovers.1 hcovers.2 (by decide)).mp heq)
      (by decide)

end Examples

end RecordBatch

end Musil.Proto
