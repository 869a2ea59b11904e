import Musil.Lib.Iter
import Musil.Proto.Record

/-!
# The decoding iterator and the skipping one

`RecordIter` decodes every record of a buffer, `RecordRefIter` only reads the fields it needs and
trusts the length field for the rest. On the encodings of records they go through the same places.
The length field counts its own four bytes, and the references count these bytes once more.
-/

namespace Musil.Proto

open Bytes Bytes.Reader

structure RecordIter where
  buf : List UInt8
  pos : ℕ
  totalLen : ℕ
  deriving DecidableEq, Repr

namespace RecordIter

def new (buf : List UInt8) : RecordIter := ⟨buf, 0, buf.length⟩

/-- Decoding a record panics on too few bytes, and reports no other error. -/
def next (it : RecordIter) : Iter.Step RecordIter (ℕ × Record) :=
  if it.buf = [] then .done
  else match Record.decode.run it.buf with
    | none => .panic
    | some (record, buf) => .item (it.pos, record) ⟨buf, it.totalLen - buf.length, it.totalLen⟩

end RecordIter

/-- The step of the skipping iterator, with no value for an item that is an error. -/
def RecordRefIter.pull (it : RecordRefIter) : Iter.Step RecordRefIter (Option RecordRef) :=
  match it.next with
  | .done => .done
  | .item r it => .item (some r) it
  | .error it => .item none it
  | .panic => .panic

/-! ### The size of a record -/

namespace RecordHeader

lemma toNat_getSize (h : RecordHeader) : h.getSize.toNat = h.encode.length % 2 ^ 32 := by
  rw [length_encode]
  simp only [getSize, UInt32.toNat_add, UInt32.toNat_ofNat', UInt32.toNat_ofNat]
  omega

lemma toNat_sum_getSize (hs : List RecordHeader) :
    (hs.map getSize).sum.toNat = (hs.flatMap encode).length % 2 ^ 32 := by
  induction hs with
  | nil => rfl
  | cons h hs ih =>
    rw [List.map_cons, List.sum_cons, List.flatMap_cons, List.length_append, UInt32.toNat_add, ih,
      toNat_getSize]
    exact (Nat.add_mod _ _ _).symm

end RecordHeader

namespace Record

/-- The size is the length of the encoding, as far as it fits. -/
lemma toNat_getSize (r : Record) : r.getSize.toNat = r.encode.length % 2 ^ 32 := by
  rw [length_encode]
  simp only [getSize, UInt32.toNat_add, UInt32.toNat_ofNat', UInt32.toNat_ofNat,
    RecordHeader.toNat_sum_getSize]
  omega

lemma sized_of_getSize {r : Record} (h : r.length = r.getSize) (hlen : r.encode.length < 2 ^ 32) :
    r.Sized := by
  rw [Sized, h, toNat_getSize, Nat.mod_eq_of_lt hlen]

lemma length_encode_le {rs : List Record} {r : Record} (h : r ∈ rs) :
    r.encode.length ≤ (rs.flatMap encode).length := by
  obtain ⟨pre, post, rfl⟩ := List.append_of_mem h
  simp only [List.flatMap_append, List.flatMap_cons, List.length_append]
  omega

end Record

/-! ### What the iterators yield -/

/-- The records with the positions where they start. -/
def places (pos : ℕ) : List Record → List (ℕ × Record)
  | [] => []
  | r :: rs => (pos, r) :: places (pos + r.encode.length) rs

/-- The references to the records that start at `pos`, counted from `index`. -/
def references (pos index : ℕ) : List Record → List RecordRef
  | [] => []
  | r :: rs => ⟨r.offsetDelta, pos, 4 + r.length.toNat, index⟩
      :: references (pos + r.encode.length) (index + 1) rs

section Yields

variable {rs : List Record}

lemma RecordIter.next_encode {r : Record} (h : r.Sized) {it : RecordIter} {tail : List UInt8}
    (hbuf : it.buf = r.encode ++ tail) :
    it.next = .item (it.pos, r) ⟨tail, it.totalLen - tail.length, it.totalLen⟩ := by
  have hne : it.buf ≠ [] := by simp [hbuf, r.encode_ne_nil]
  rw [next, if_neg hne, hbuf, Record.reads_decode h tail]

theorem RecordIter.yields_encode (h : ∀ r ∈ rs, r.Sized) {it : RecordIter}
    (hbuf : it.buf = rs.flatMap Record.encode) (hpos : it.pos + it.buf.length = it.totalLen) :
    Iter.Yields next it (places it.pos rs) := by
  induction rs generalizing it with
  | nil =>
    refine .done ?_
    rw [next, if_pos (hbuf.trans List.flatMap_nil)]
  | cons r rs ih =>
    rw [List.forall_mem_cons] at h
    rw [List.flatMap_cons] at hbuf
    have hnext : it.totalLen - (rs.flatMap Record.encode).length = it.pos + r.encode.length := by
      rw [← hpos, hbuf, List.length_append]
      omega
    refine .item (next_encode h.1 hbuf) ?_
    rw [hnext]
    refine ih h.2 rfl ?_
    simp only [← hpos, hbuf, List.length_append]
    omega

theorem RecordRefIter.yields_encode (h : ∀ r ∈ rs, r.Sized) {it : RecordRefIter}
    (hbuf : it.buf = rs.flatMap Record.encode) (hpos : it.pos + it.buf.length = it.totalLen) :
    Iter.Yields pull it ((references it.pos it.index rs).map some) := by
  induction rs generalizing it with
  | nil =>
    refine .done ?_
    rw [pull, next, if_pos (hbuf.trans List.flatMap_nil)]
  | cons r rs ih =>
    rw [List.forall_mem_cons] at h
    rw [List.flatMap_cons] at hbuf
    have hnext : it.totalLen - (rs.flatMap Record.encode).length = it.pos + r.encode.length := by
      rw [← hpos, hbuf, List.length_append]
      omega
    refine .item (by rw [pull, RecordRefIter.next_encode h.1 hbuf]) ?_
    rw [hnext]
    refine ih h.2 rfl ?_
    simp only [← hpos, hbuf, List.length_append]
    omega

end Yields

/-! ### Agreement -/

/-- The references point at the decoded records, one for one. -/
structure Agrees (refs : List RecordRef) (items : List (ℕ × Record)) : Prop where
  length_eq : refs.length = items.length
  fields_eq : ∀ (i : ℕ) (ref : RecordRef) (item : ℕ × Record), refs[i]? = some ref →
    items[i]? = some item →
      ref.index = i ∧ ref.byteOffset = item.1 ∧ ref.offsetDelta = item.2.offsetDelta

/-- The range of each reference is the encoding of its record, and each byte of the buffer lies in
exactly one of the ranges. -/
structure ExactRanges (buf : List UInt8) (refs : List RecordRef) (items : List (ℕ × Record)) :
    Prop where
  exact : ∀ (i : ℕ) (ref : RecordRef) (item : ℕ × Record), refs[i]? = some ref →
    items[i]? = some item →
      ref.byteOffset + ref.byteLen ≤ buf.length ∧
        (buf.drop ref.byteOffset).take ref.byteLen = item.2.encode
  cover : ∀ k < buf.length, ∃! ref, ref ∈ refs ∧
    ref.byteOffset ≤ k ∧ k < ref.byteOffset + ref.byteLen

section Agrees

variable {rs : List Record}

lemma map_snd_places (pos : ℕ) (rs : List Record) : (places pos rs).map Prod.snd = rs := by
  induction rs generalizing pos with
  | nil => rfl
  | cons r rs ih => rw [places, List.map_cons, ih]

lemma agrees_places (pos index : ℕ) (rs : List Record) :
    (references pos index rs).length = (places pos rs).length ∧
    ∀ (i : ℕ) (ref : RecordRef) (item : ℕ × Record), (references pos index rs)[i]? = some ref →
      (places pos rs)[i]? = some item →
        ref.index = index + i ∧ ref.byteOffset = item.1 ∧ ref.offsetDelta = item.2.offsetDelta := by
  induction rs generalizing pos index with
  | nil => exact ⟨rfl, fun i ref item h => by cases h⟩
  | cons r rs ih =>
    obtain ⟨hlen, hfields⟩ := ih (pos + r.encode.length) (index + 1)
    refine ⟨congrArg Nat.succ hlen, fun i ref item href hitem => ?_⟩
    cases i with
    | zero =>
      cases href
      cases hitem
      exact ⟨rfl, rfl, rfl⟩
    | succ i =>
      obtain ⟨hindex, hrest⟩ := hfields i ref item href hitem
      exact ⟨by omega, hrest⟩

/-- The range of a reference is four bytes longer than the record, so already the first is wrong. -/
lemma not_exactRanges {r : Record} (h : r.Sized) (buf : List UInt8) (pos index : ℕ) :
    ¬ ExactRanges buf (references pos index (r :: rs)) (places pos (r :: rs)) := by
  intro hexact
  obtain ⟨hle, heq⟩ := hexact.exact 0 _ _ rfl rfl
  have hlen := congrArg List.length heq
  rw [List.length_take, List.length_drop] at hlen
  simp only [show r.length.toNat = r.encode.length from h] at hle hlen
  omega

/-- The two iterators go through the same records, and both come to an end. The ranges of the
references are right only where there are none. -/
theorem exactRanges_iff (rs : List Record) (hsize : ∀ r ∈ rs, r.length = r.getSize)
    (htotal : (rs.flatMap Record.encode).length < 2 ^ 32) :
    ∃ refs items,
      Iter.Yields RecordRefIter.pull (.new (rs.flatMap Record.encode)) (refs.map some) ∧
      Iter.Yields RecordIter.next (.new (rs.flatMap Record.encode)) items ∧
      items.map Prod.snd = rs ∧ Agrees refs items ∧
      (ExactRanges (rs.flatMap Record.encode) refs items ↔ rs = []) := by
  have hsized : ∀ r ∈ rs, r.Sized := fun r hr =>
    Record.sized_of_getSize (hsize r hr) ((Record.length_encode_le hr).trans_lt htotal)
  refine ⟨references 0 0 rs, places 0 rs, RecordRefIter.yields_encode hsized rfl (Nat.zero_add _),
    RecordIter.yields_encode hsized rfl (Nat.zero_add _), map_snd_places 0 rs, ?_, ?_⟩
  · obtain ⟨hlen, hfields⟩ := agrees_places 0 0 rs
    refine ⟨hlen, fun i ref item href hitem => ?_⟩
    rw [← Nat.zero_add i]
    exact hfields _ ref item href hitem
  · constructor
    · intro hexact
      cases rs with
      | nil => rfl
      | cons r rs => exact absurd hexact (not_exactRanges (hsized r (by simp)) _ 0 0)
    · rintro rfl
      refine ⟨fun i ref item h => ?_, fun k hk => absurd hk (Nat.not_lt_zero k)⟩
      cases h

/-- Both iterators over the encoding of one record yield one item. -/
theorem exactRanges_iff_single :
    let rs := [Record.new 0 0 [97] [49]]
    ∃ refs items,
      Iter.Yields RecordRefIter.pull (.new (rs.flatMap Record.encode)) (refs.map some) ∧
      Iter.Yields RecordIter.next (.new (rs.flatMap Record.encode)) items ∧
      items.map Prod.snd = rs ∧ Agrees refs items ∧
      (ExactRanges (rs.flatMap Record.encode) refs items ↔ rs = []) :=
  exactRanges_iff [Record.new 0 0 [97] [49]] (by decide) (by decide)

/-- The range of a lone record reaches four bytes past the end of the buffer. -/
theorem not_exactRanges_single :
    ∃ rs : List Record, rs = [Record.new 0 0 [97] [49]] ∧
      (∀ r ∈ rs, r.length = r.getSize) ∧ (rs.flatMap Record.encode).length = 35 ∧
      ¬ ∃ refs items,
        Iter.Yields RecordRefIter.pull (.new (rs.flatMap Record.encode)) (refs.map some) ∧
        Iter.Yields RecordIter.next (.new (rs.flatMap Record.encode)) items ∧
        ExactRanges (rs.flatMap Record.encode) refs items := by
  refine ⟨_, rfl, by decide, by decide, ?_⟩
  rintro ⟨refs, items, hrefs, hitems, hexact⟩
  have hsized : ∀ r ∈ [Record.new 0 0 [97] [49]], r.Sized := by decide
  have hrefs' := hrefs.unique (RecordRefIter.yields_encode hsized rfl rfl)
  have hitems' := hitems.unique (RecordIter.yields_encode hsized rfl rfl)
  rw [List.map_injective_iff.mpr (Option.some_injective _) hrefs', hitems'] at hexact
  exact not_exactRanges (hsized _ (List.mem_singleton_self _)) _ 0 0 hexact

end Agrees

end Musil.Proto
