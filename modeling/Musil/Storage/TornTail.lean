import Musil.Lib.Iter
import Musil.Proto.WellFormed
import Musil.Storage.Segment

/-!
# Logs with a torn tail

A log that was cut off holds some whole batches and a part of the next one. The iterator over it
yields the whole batches and stops, wherever the cut is and whatever follows it in the file.
-/

namespace Musil.Proto.BatchIter

open Bytes RecordBatch Iter

/-- One step of the iterator, where an item that cannot be decoded is a panic. -/
def advance (it : BatchIter) : Step BatchIter RecordBatch :=
  match it.next with
  | none => .done
  | some (some batch, it) => .item batch it
  | some (none, _) => .panic

/-- The batches that lie completely before `stop` when they are laid out. -/
def before (stop : ℕ) : List RecordBatch → List RecordBatch
  | [] => []
  | b :: bs => if b.encode.length ≤ stop then b :: before (stop - b.encode.length) bs else []

/-! ### Steps -/

section Steps

variable {it it' : BatchIter} {b : RecordBatch} {bs cs : List RecordBatch}
  {pre post file : List UInt8} {stop : ℕ}

lemma advance_of_none (h : it.next = none) : it.advance = .done := by
  rw [advance, h]

/-- A step moves on, and not beyond the end. -/
lemma lt_of_advance (h : it.advance = .item b it') :
    it.pos < it'.pos ∧ it'.pos ≤ it.stop ∧ it'.stop = it.stop := by
  unfold advance at h
  split at h
  · cases h
  · next batch next hnext =>
    obtain ⟨rfl, rfl⟩ := Step.item.inj h
    unfold BatchIter.next at hnext
    dsimp only at hnext
    split_ifs at hnext with hpos hstop
    obtain ⟨-, rfl⟩ := Prod.mk.inj (Option.some.inj hnext)
    have hprefix : 0 < batchHeaderPrefix := by decide
    exact ⟨by dsimp only; omega, Nat.not_lt.mp hstop, rfl⟩
  · cases h

lemma length_le_of_yields (h : Yields advance it bs) : bs.length ≤ it.stop - it.pos := by
  induction h with
  | done => exact Nat.zero_le _
  | item hstep _ ih =>
    obtain ⟨hpos, hle, hstop⟩ := lt_of_advance hstep
    rw [hstop] at ih
    rw [List.length_cons]
    omega

/-- What the iterator yields is what it collects. -/
theorem batches_of_yields (h : Yields advance it bs) : it.batches = bs.map some := by
  have key (fuel : ℕ) (hfuel : bs.length ≤ fuel) : unroll fuel it = bs.map some := by
    induction h generalizing fuel with
    | done hdone =>
      cases fuel with
      | zero => rfl
      | succ fuel =>
        unfold advance at hdone
        split at hdone
        · next hnext => rw [unroll, hnext, List.map_nil]
        · cases hdone
        · cases hdone
    | item hstep _ ih =>
      obtain ⟨fuel, rfl⟩ := Nat.exists_eq_add_of_le' (Nat.lt_of_lt_of_le (Nat.succ_pos _) hfuel)
      unfold advance at hstep
      split at hstep
      · cases hstep
      · next hnext =>
        obtain ⟨rfl, rfl⟩ := Step.item.inj hstep
        rw [unroll, hnext, List.map_cons]
        exact congrArg _ (ih fuel (Nat.le_of_succ_le_succ hfuel))
      · cases hstep
  exact key _ (length_le_of_yields h)

lemma advance_layout (h : b.Sized) (hstop : pre.length + b.encode.length ≤ stop) :
    advance ⟨pre ++ b.encode ++ post, pre.length, stop⟩
      = .item b ⟨pre ++ b.encode ++ post, pre.length + b.encode.length, stop⟩ := by
  rw [advance, next_layout h hstop]

/-- A batch that the end cuts is not yielded: either its length lies before the end and says so, or
the end is too close for any length. -/
lemma advance_cut (h : b.Sized) (hcut : stop < pre.length + b.encode.length)
    (hfile : b.encode.take (stop - pre.length) <+: post) :
    advance ⟨pre ++ post, pre.length, stop⟩ = .done := by
  apply advance_of_none
  rw [next]
  split_ifs with hpos
  · rfl
  dsimp only
  apply if_pos
  rcases Nat.lt_or_ge (stop - pre.length) batchHeaderPrefix with hshort | hlong
  · omega
  · -- the prefix of the batch is all there
    obtain ⟨rest, rfl⟩ := hfile
    have htake : b.encode.take (stop - pre.length)
        = b.encodePrefix ++ b.encodePayload.take (stop - pre.length - batchHeaderPrefix) := by
      rw [encode_eq, List.take_append, length_encodePrefix,
        List.take_of_length_le (by rw [length_encodePrefix]; exact hlong)]
    have hread : readAt (pre ++ (b.encode.take (stop - pre.length) ++ rest)) pre.length
        batchHeaderPrefix = b.encodePrefix := by
      rw [htake, List.append_assoc, ← List.append_assoc, ← length_encodePrefix b]
      exact readAt_append pre b.encodePrefix _
    have hlength : ofBE (toBE 4 b.batchLength.toNat) = b.batchLength.toNat :=
      ofBE_toBE_of_lt b.batchLength.toNat_lt
    rw [hread, encodePrefix_drop, hlength, Nat.add_assoc, ← h.length_encode]
    exact hcut

/-- No batch begins so close to the end. -/
lemma advance_short (hstop : it.stop < it.pos + batchHeaderPrefix) : it.advance = .done := by
  apply advance_of_none
  rw [next]
  split_ifs with hpos
  · rfl
  · exact if_pos (by omega)

end Steps

/-! ### Scans -/

section Scans

variable {bs cs : List RecordBatch} {pre post file : List UInt8} {stop : ℕ}

/-- The iterator goes through the batches that lie before the end. -/
lemma yields_append (h : ∀ b ∈ bs, b.Sized) (hstop : pre.length + (layout bs).length ≤ stop)
    (hcs : Yields advance ⟨pre ++ layout bs ++ post, pre.length + (layout bs).length, stop⟩ cs) :
    Yields advance ⟨pre ++ layout bs ++ post, pre.length, stop⟩ (bs ++ cs) := by
  induction bs generalizing pre with
  | nil => simpa using hcs
  | cons b bs ih =>
    rw [List.forall_mem_cons] at h
    have hsplit : pre ++ layout (b :: bs) ++ post = pre ++ b.encode ++ layout bs ++ post := by
      rw [layout_cons, ← List.append_assoc]
    have hlength : pre.length + (layout (b :: bs)).length
        = (pre ++ b.encode).length + (layout bs).length := by
      rw [layout_cons, List.length_append, List.length_append, Nat.add_assoc]
    rw [hsplit, hlength] at hcs
    rw [hlength] at hstop
    have hrest := ih h.2 hstop hcs
    rw [hsplit, List.append_assoc (pre ++ b.encode)]
    rw [List.append_assoc (pre ++ b.encode), List.length_append] at hrest
    exact .item (advance_layout h.1 (by rw [List.length_append] at hstop; omega)) hrest

/-- The batches before the end are those at the front, as many as fit. -/
lemma exists_cut (stop : ℕ) (bs : List RecordBatch) : ∃ cut, bs = before stop bs ++ cut ∧
    (layout (before stop bs)).length ≤ stop ∧
    ∀ b ∈ cut.head?, stop < (layout (before stop bs)).length + b.encode.length := by
  induction bs generalizing stop with
  | nil => exact ⟨[], rfl, Nat.zero_le _, fun b hb => by cases hb⟩
  | cons b bs ih =>
    rw [before]
    split_ifs with hfits
    · obtain ⟨cut, hsplit, hle, hcut⟩ := ih (stop - b.encode.length)
      refine ⟨cut, congrArg (b :: ·) hsplit, ?_, fun c hc => ?_⟩
      · rw [layout_cons, List.length_append]
        omega
      · have hlt := hcut c hc
        rw [layout_cons, List.length_append]
        omega
    · refine ⟨b :: bs, rfl, Nat.zero_le _, fun c hc => ?_⟩
      obtain rfl : b = c := Option.some.inj hc
      rw [layout_nil, List.length_nil, Nat.zero_add]
      exact Nat.not_le.mp hfits

/-- A file that holds the batches up to the end begins with the whole ones. -/
lemma exists_file_eq {cut : List RecordBatch} (hstop : (layout bs).length ≤ stop)
    (hfile : (layout (bs ++ cut)).take stop <+: file) :
    ∃ post, file = layout bs ++ post ∧ (layout cut).take (stop - (layout bs).length) <+: post := by
  rw [layout_append, List.take_append, List.take_of_length_le hstop] at hfile
  obtain ⟨rest, rfl⟩ := hfile
  exact ⟨_, List.append_assoc _ _ _, List.prefix_append _ _⟩

/-- The scan of a torn log yields the batches before the end, and then stops. -/
theorem yields_before (h : ∀ b ∈ bs, b.Sized) (hfile : (layout bs).take stop <+: file)
    (hstop : stop < (layout bs).length + batchHeaderPrefix) :
    Yields advance ⟨file, 0, stop⟩ (before stop bs) := by
  obtain ⟨cut, hsplit, hle, hcut⟩ := exists_cut stop bs
  rw [hsplit] at h hfile hstop
  obtain ⟨post, rfl, hpost⟩ := exists_file_eq hle hfile
  have hstops : Yields advance ⟨[] ++ layout (before stop bs) ++ post,
      ([] : List UInt8).length + (layout (before stop bs)).length, stop⟩ [] := by
    rw [List.nil_append, List.length_nil, Nat.zero_add]
    cases cut with
    | nil =>
      rw [List.append_nil] at hstop
      exact .done (advance_short hstop)
    | cons b cut =>
      have hb : b.Sized := h b (List.mem_append_right _ List.mem_cons_self)
      have hlt := hcut b rfl
      rw [layout_cons, List.take_append_of_le_length (by omega)] at hpost
      exact .done (advance_cut hb hlt hpost)
  have hyields := yields_append (fun b hb => h b (List.mem_append_left cut hb))
    (by rwa [List.length_nil, Nat.zero_add]) hstops
  rwa [List.append_nil] at hyields

/-- Where the end lies behind all batches, the scan goes on with what follows them. -/
theorem yields_past {more : List RecordBatch} (h : ∀ b ∈ bs, b.Sized)
    (hfile : (layout bs).take stop <+: file) (hstop : (layout bs).length ≤ stop)
    (hmore : Yields advance ⟨file, (layout bs).length, stop⟩ more) :
    Yields advance ⟨file, 0, stop⟩ (bs ++ more) := by
  have hfront : (layout (bs ++ [])).take stop <+: file := by rwa [List.append_nil]
  obtain ⟨post, rfl, -⟩ := exists_file_eq hstop hfront
  have hrest : Yields advance ⟨[] ++ layout bs ++ post, ([] : List UInt8).length +
      (layout bs).length, stop⟩ more := by
    rwa [List.nil_append, List.length_nil, Nat.zero_add]
  exact yields_append h (by rwa [List.length_nil, Nat.zero_add]) hrest

end Scans

end Musil.Proto.BatchIter

namespace Musil.Storage

open Proto BatchIter

/-! ### Recovery -/

/-- A batch without records. -/
def emptyBatch (baseOffset : UInt64) : RecordBatch :=
  @RecordBatch.fromCompact Crc.castagnoli baseOffset 0 []

/-- The records of what a scan of the segment's file yields are counted. -/
lemma LogSegment.recordsCount_of_yields {seg : LogSegment} {d : Disk} {bs : List RecordBatch}
    (h : Iter.Yields advance ⟨(d.file seg.segment.baseOffset).log, 0, seg.size⟩ bs) :
    seg.recordsCount d = some (bs.map fun b => b.recordsCount.toNat).sum :=
  recordsCount_of_batches (batches_of_yields h)

/-- Wherever a log is cut, its scan yields exactly the batches before the cut and stops, and the
segment counts their records. An end behind all batches leaves them in front of whatever follows. -/
theorem scan_torn (bs : List RecordBatch) (hbs : ∀ b ∈ bs, b.Sized) (file : List UInt8) (stop : ℕ)
    (hfile : (layout bs).take stop <+: file) :
    (stop < (layout bs).length + batchHeaderPrefix →
      Iter.Yields advance ⟨file, 0, stop⟩ (before stop bs) ∧
      ∀ (seg : LogSegment) (d : Disk), (d.file seg.segment.baseOffset).log = file →
        seg.size = stop → seg.recordsCount d
          = some ((before stop bs).map fun b => b.recordsCount.toNat).sum) ∧
    ((layout bs).length ≤ stop → ∀ more,
      Iter.Yields advance ⟨file, (layout bs).length, stop⟩ more →
        Iter.Yields advance ⟨file, 0, stop⟩ (bs ++ more)) := by
  refine ⟨fun hstop => ?_, fun hstop more => yields_past hbs hfile hstop⟩
  have hyields := yields_before hbs hfile hstop
  refine ⟨hyields, fun seg d hlog hsize => ?_⟩
  subst hlog hsize
  exact LogSegment.recordsCount_of_yields hyields

/-- Of two batches, the second is cut in its header; and a third may follow them. -/
theorem scan_torn_two :
    Iter.Yields advance ⟨(layout [emptyBatch 0, emptyBatch 1]).take 100, 0, 100⟩ [emptyBatch 0] ∧
    Iter.Yields advance ⟨layout [emptyBatch 0, emptyBatch 1, emptyBatch 2], 0, 183⟩
      [emptyBatch 0, emptyBatch 1, emptyBatch 2] := by
  have hsized : ∀ b ∈ [emptyBatch 0, emptyBatch 1], b.Sized := by decide +kernel
  constructor
  · exact ((scan_torn [emptyBatch 0, emptyBatch 1] hsized _ 100 (List.prefix_refl _)).1
      (by decide +kernel)).1
  · apply (scan_torn [emptyBatch 0, emptyBatch 1] hsized _ 183 (by decide +kernel)).2
      (by decide +kernel) [emptyBatch 2]
    have hthird : advance ⟨layout [emptyBatch 0, emptyBatch 1] ++ (emptyBatch 2).encode ++ [],
        (layout [emptyBatch 0, emptyBatch 1]).length, 183⟩ = .item (emptyBatch 2) _ :=
      advance_layout (by decide +kernel) (by decide +kernel)
    exact .item hthird (.done (advance_short (by decide +kernel)))

/-- A batch that lies behind the listed ones but before the end is yielded as well. -/
theorem scan_torn_not_exact :
    ¬ ∀ (bs : List RecordBatch), (∀ b ∈ bs, b.Sized) → ∀ (file : List UInt8) (stop : ℕ),
      layout bs <+: file → Iter.Yields advance ⟨file, 0, stop⟩ (before stop bs) := by
  intro h
  have hsized : ∀ b ∈ [emptyBatch 0, emptyBatch 1], b.Sized := by decide +kernel
  have hone := h [emptyBatch 0] (by decide +kernel) (layout [emptyBatch 0, emptyBatch 1]) 122
    (by decide +kernel)
  have htwo := h [emptyBatch 0, emptyBatch 1] hsized _ 122 (List.prefix_refl _)
  exact absurd (hone.unique htwo) (by decide +kernel)

end Musil.Storage
