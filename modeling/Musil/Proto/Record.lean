import Musil.Lib.Bytes
import Mathlib.Data.UInt

/-!
# Records

The encoding of a record, the decoder, and the iterator that walks over encoded records by their
length fields. Arithmetic on the fixed-width types wraps, as in a release build; a read past the
end of a buffer panics, and a computation that panics has no value.
-/

namespace Musil.Proto

open Bytes Bytes.Reader

/-! ### Encoding and decoding -/

structure RecordHeader where
  key : List UInt8
  value : List UInt8
  deriving DecidableEq, Repr

namespace RecordHeader

def decode : Reader RecordHeader := do
  let keyLen ← getU32
  let key ← take keyLen.toNat
  let valueLen ← getU32
  let value ← take valueLen.toNat
  pure ⟨key, value⟩

def encode (h : RecordHeader) : List UInt8 :=
  toBE 4 h.key.length ++ h.key ++ toBE 4 h.value.length ++ h.value

def getSize (h : RecordHeader) : UInt32 :=
  4 + UInt32.ofNat h.key.length + 4 + UInt32.ofNat h.value.length

end RecordHeader

structure Record where
  length : UInt32
  attributes : UInt8
  timestampDelta : UInt64
  offsetDelta : UInt64
  key : List UInt8
  value : List UInt8
  headers : List RecordHeader
  deriving DecidableEq, Repr

namespace Record

def getSize (r : Record) : UInt32 :=
  4 + 1 + 8 + 8 + 4 + UInt32.ofNat r.key.length + 4 + UInt32.ofNat r.value.length + 4
    + (r.headers.map RecordHeader.getSize).sum

/-- A new record; `now` is the clock's reading in milliseconds. -/
def new (now offsetDelta : UInt64) (key value : List UInt8) : Record :=
  let record : Record := ⟨0, 0, now, offsetDelta, key, value, []⟩
  { record with length := record.getSize }

def decode : Reader Record := do
  let length ← getU32
  let attributes ← getU8
  let timestampDelta ← getU64
  let offsetDelta ← getU64
  let keyLength ← getU32
  let key ← take keyLength.toNat
  let valueLength ← getU32
  let value ← take valueLength.toNat
  let headersSize ← getU32
  let headers ← times headersSize.toNat RecordHeader.decode
  pure ⟨length, attributes, timestampDelta, offsetDelta, key, value, headers⟩

def encode (r : Record) : List UInt8 :=
  toBE 4 r.length.toNat ++ [r.attributes] ++ toBE 8 r.timestampDelta.toNat
    ++ toBE 8 r.offsetDelta.toNat ++ toBE 4 r.key.length ++ r.key
    ++ toBE 4 r.value.length ++ r.value
    ++ toBE 4 r.headers.length ++ r.headers.flatMap RecordHeader.encode

end Record

/-! ### The iterator over encoded records -/

structure RecordRef where
  offsetDelta : UInt64
  byteOffset : ℕ
  byteLen : ℕ
  index : ℕ
  deriving DecidableEq, Repr

structure RecordRefIter where
  buf : List UInt8
  pos : ℕ
  totalLen : ℕ
  index : ℕ
  deriving DecidableEq, Repr

/-- What one step of the iterator comes to. -/
inductive RecordRefIter.Step where
  | done
  | item (r : RecordRef) (it : RecordRefIter)
  | error (it : RecordRefIter)
  | panic
  deriving DecidableEq, Repr

namespace RecordRefIter

def new (buf : List UInt8) : RecordRefIter := ⟨buf, 0, buf.length, 0⟩

/-- The fields a reference is built from, after the length. -/
def readFields : Reader UInt64 := do
  let _attributes ← getU8
  let _timestampDelta ← getU64
  getU64

def next (it : RecordRefIter) : Step :=
  if it.buf = [] then .done
  else match getU32.run it.buf with
    | none => .error it
    | some (length, buf) =>
      let dataLen := length.toUInt64 - 4
      if buf.length < dataLen.toNat then .error { it with buf := buf }
      else match readFields.run buf with
        | none => .panic
        | some (offsetDelta, buf) =>
          let skip := dataLen - (1 + 8 + 8)
          if buf.length < skip.toNat then .panic
          else
            let buf := buf.drop skip.toNat
            .item ⟨offsetDelta, it.pos, 4 + length.toNat, it.index⟩
              ⟨buf, it.totalLen - buf.length, it.totalLen, it.index + 1⟩

/-- The search over the items that are no errors. It does not return when a step panics, or when
the steps do not end: an error on fewer than four bytes is met again at every later step. -/
def find (offsetDelta : UInt64) : ℕ → RecordRefIter → Option (Option RecordRef)
  | 0, _ => none
  | fuel + 1, it =>
    match it.next with
    | .done => some none
    | .item r it => if r.offsetDelta = offsetDelta then some (some r) else find offsetDelta fuel it
    | .error it => find offsetDelta fuel it
    | .panic => none

end RecordRefIter

/-! ### Well-formed records -/

lemma RecordHeader.length_encode (h : RecordHeader) :
    h.encode.length = 8 + h.key.length + h.value.length := by
  simp only [RecordHeader.encode, List.length_append, length_toBE]
  omega

lemma RecordHeader.reads_decode {h : RecordHeader} (hlen : h.encode.length < 2 ^ 32) :
    Reads RecordHeader.decode h.encode h := by
  rw [length_encode] at hlen
  have hkey : (UInt32.ofNat h.key.length).toNat = h.key.length :=
    UInt32.toNat_ofNat_of_lt' (by change _ < 2 ^ 32; omega)
  have hvalue : (UInt32.ofNat h.value.length).toNat = h.value.length :=
    UInt32.toNat_ofNat_of_lt' (by change _ < 2 ^ 32; omega)
  have hreadKey := reads_getU32 (UInt32.ofNat h.key.length)
  have hreadValue := reads_getU32 (UInt32.ofNat h.value.length)
  rw [hkey] at hreadKey
  rw [hvalue] at hreadValue
  simp only [RecordHeader.encode, List.append_assoc]
  refine hreadKey.bind ?_
  rw [hkey]
  refine (reads_take h.key).bind ?_
  refine hreadValue.bind ?_
  rw [hvalue]
  exact (reads_take h.value).bind_pure _

namespace Record

/-- The length field is the length of the encoding. -/
def Sized (r : Record) : Prop :=
  r.length.toNat = r.encode.length

instance (r : Record) : Decidable r.Sized :=
  inferInstanceAs (Decidable (_ = _))

lemma length_encode (r : Record) :
    r.encode.length = 33 + r.key.length + r.value.length
      + (r.headers.flatMap RecordHeader.encode).length := by
  simp only [encode, List.length_append, length_toBE, List.length_singleton]
  omega

lemma Sized.length_lt {r : Record} (h : r.Sized) : r.encode.length < 2 ^ 32 :=
  h ▸ r.length.toNat_lt

lemma length_headers_le (hs : List RecordHeader) :
    hs.length ≤ (hs.flatMap RecordHeader.encode).length := by
  induction hs with
  | nil => exact le_rfl
  | cons h hs ih =>
    rw [List.flatMap_cons, List.length_append, RecordHeader.length_encode, List.length_cons]
    omega

lemma header_length_le {hs : List RecordHeader} {h : RecordHeader} (hh : h ∈ hs) :
    h.encode.length ≤ (hs.flatMap RecordHeader.encode).length := by
  obtain ⟨pre, post, rfl⟩ := List.append_of_mem hh
  simp only [List.flatMap_append, List.flatMap_cons, List.length_append]
  omega

lemma new_sized (now offsetDelta : UInt64) {key value : List UInt8}
    (h : 33 + key.length + value.length < 2 ^ 32) : (new now offsetDelta key value).Sized := by
  rw [Sized, length_encode]
  simp only [new, getSize, List.map_nil, List.sum_nil, List.flatMap_nil, List.length_nil,
    UInt32.toNat_add, UInt32.toNat_ofNat', UInt32.toNat_ofNat]
  omega

/-- Decoding reads exactly the encoding, whatever the length field says. -/
theorem reads_decode_of_lt {r : Record} (hlen : r.encode.length < 2 ^ 32) :
    Reads decode r.encode r := by
  rw [length_encode] at hlen
  have hcount := length_headers_le r.headers
  have toNat_eq {n : ℕ} (hn : n < 2 ^ 32) : (UInt32.ofNat n).toNat = n :=
    UInt32.toNat_ofNat_of_lt' hn
  have hkey := toNat_eq (show r.key.length < 2 ^ 32 by omega)
  have hvalue := toNat_eq (show r.value.length < 2 ^ 32 by omega)
  have hheaders := toNat_eq (show r.headers.length < 2 ^ 32 by omega)
  have hreadKey := reads_getU32 (UInt32.ofNat r.key.length)
  have hreadValue := reads_getU32 (UInt32.ofNat r.value.length)
  have hreadHeaders := reads_getU32 (UInt32.ofNat r.headers.length)
  rw [hkey] at hreadKey
  rw [hvalue] at hreadValue
  rw [hheaders] at hreadHeaders
  simp only [encode, List.append_assoc]
  refine (reads_getU32 r.length).bind ?_
  refine (reads_getU8 r.attributes).bind ?_
  refine (reads_getU64 r.timestampDelta).bind ?_
  refine (reads_getU64 r.offsetDelta).bind ?_
  refine hreadKey.bind ?_
  rw [hkey]
  refine (reads_take r.key).bind ?_
  refine hreadValue.bind ?_
  rw [hvalue]
  refine (reads_take r.value).bind ?_
  refine hreadHeaders.bind ?_
  rw [hheaders]
  refine Reads.bind_pure (Reads.times fun x hx => ?_) _
  exact RecordHeader.reads_decode (lt_of_le_of_lt (header_length_le hx) (by omega))

lemma reads_decode {r : Record} (h : r.Sized) : Reads decode r.encode r :=
  reads_decode_of_lt h.length_lt

/-- What follows the fields that the iterator reads. -/
def payload (r : Record) : List UInt8 :=
  toBE 4 r.key.length ++ r.key ++ toBE 4 r.value.length ++ r.value
    ++ toBE 4 r.headers.length ++ r.headers.flatMap RecordHeader.encode

lemma encode_eq (r : Record) :
    r.encode = toBE 4 r.length.toNat
      ++ ([r.attributes] ++ (toBE 8 r.timestampDelta.toNat ++ toBE 8 r.offsetDelta.toNat)
        ++ r.payload) := by
  simp only [encode, payload, List.append_assoc]

lemma length_payload (r : Record) : r.payload.length + 21 = r.encode.length := by
  simp only [encode_eq, List.length_append, length_toBE, List.length_singleton]
  omega

lemma encode_ne_nil (r : Record) : r.encode ≠ [] := by
  rw [← List.length_pos_iff, length_encode]
  omega

lemma length_le_encode (rs : List Record) : rs.length ≤ (rs.flatMap encode).length := by
  induction rs with
  | nil => exact le_rfl
  | cons r rs ih =>
    rw [List.flatMap_cons, List.length_append, length_encode, List.length_cons]
    omega

end Record

/-! ### The iterator on well-formed records -/

namespace RecordRefIter

open Record

lemma reads_readFields (attributes : UInt8) (timestampDelta offsetDelta : UInt64) :
    Reads readFields ([attributes] ++ (toBE 8 timestampDelta.toNat ++ toBE 8 offsetDelta.toNat))
      offsetDelta :=
  (reads_getU8 attributes).bind ((reads_getU64 timestampDelta).bind (reads_getU64 offsetDelta))

/-- The iterator steps over a frame that is as long as its first bytes say. -/
lemma next_frame {length : UInt32} {attributes : UInt8} {timestampDelta offsetDelta : UInt64}
    {payload tail : List UInt8} (hlength : length.toNat = payload.length + 21) {it : RecordRefIter}
    (hbuf : it.buf = toBE 4 length.toNat
      ++ ([attributes] ++ (toBE 8 timestampDelta.toNat ++ toBE 8 offsetDelta.toNat) ++ payload)
      ++ tail) :
    it.next = .item ⟨offsetDelta, it.pos, 4 + length.toNat, it.index⟩
      ⟨tail, it.totalLen - tail.length, it.totalLen, it.index + 1⟩ := by
  have hdata : (length.toUInt64 - 4).toNat = payload.length + 17 := by
    rw [UInt64.toNat_sub_of_le _ _ (UInt64.le_iff_toNat_le.mpr _), UInt32.toNat_toUInt64]
    · simp [hlength]
    · simp [hlength]
  have hskip : (length.toUInt64 - 4 - (1 + 8 + 8)).toNat = payload.length := by
    rw [UInt64.toNat_sub_of_le _ _ (UInt64.le_iff_toNat_le.mpr _), hdata]
    · rfl
    · simp [hdata]
  have hne : it.buf ≠ [] := by simp [hbuf]
  rw [next, if_neg hne, hbuf, List.append_assoc, reads_getU32 length]
  simp only []
  rw [if_neg, List.append_assoc, reads_readFields attributes timestampDelta offsetDelta]
  · simp only []
    rw [if_neg, hskip, List.drop_left]
    rw [hskip, List.length_append]
    omega
  · simp only [hdata, List.length_append, List.length_singleton, length_toBE]
    omega

/-- The iterator steps over a whole record. -/
lemma next_encode {r : Record} (h : r.Sized) {it : RecordRefIter} {tail : List UInt8}
    (hbuf : it.buf = r.encode ++ tail) :
    it.next = .item ⟨r.offsetDelta, it.pos, 4 + r.length.toNat, it.index⟩
      ⟨tail, it.totalLen - tail.length, it.totalLen, it.index + 1⟩ :=
  next_frame (h.trans r.length_payload.symm) (by rw [hbuf, encode_eq])

/-- The search among well-formed records finds the first one with the wanted delta. -/
theorem find_encode {d : UInt64} {pre post : List Record} {r : Record}
    (hpre : ∀ x ∈ pre, x.Sized ∧ x.offsetDelta ≠ d) (hr : r.Sized) (hd : r.offsetDelta = d)
    {it : RecordRefIter} {fuel : ℕ} (hfuel : pre.length < fuel)
    (hbuf : it.buf = (pre ++ r :: post).flatMap encode)
    (hpos : it.pos + it.buf.length = it.totalLen) :
    it.find d fuel = some (some ⟨d, it.pos + (pre.flatMap encode).length, 4 + r.length.toNat,
      it.index + pre.length⟩) := by
  induction pre generalizing it fuel with
  | nil =>
    obtain ⟨fuel, rfl⟩ := Nat.exists_eq_succ_of_ne_zero (Nat.ne_of_gt hfuel)
    rw [find, next_encode hr hbuf]
    simp [hd]
  | cons x pre ih =>
    obtain ⟨fuel, rfl⟩ := Nat.exists_eq_succ_of_ne_zero (Nat.ne_of_gt (Nat.zero_lt_of_lt hfuel))
    rw [List.forall_mem_cons] at hpre
    rw [List.cons_append, List.flatMap_cons] at hbuf
    have hlen : it.buf.length = x.encode.length + ((pre ++ r :: post).flatMap encode).length := by
      rw [hbuf, List.length_append]
    rw [find, next_encode hpre.1.1 hbuf]
    simp only [hpre.1.2, if_false]
    rw [ih hpre.2 (Nat.lt_of_succ_lt_succ hfuel) rfl (by simp only; omega)]
    simp only [List.flatMap_cons, List.length_append, List.length_cons, Option.some.injEq,
      RecordRef.mk.injEq, true_and]
    omega

end RecordRefIter

end Musil.Proto
