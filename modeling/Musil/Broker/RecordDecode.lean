import Musil.Broker.MetadataActor
import Musil.Lib.Layout

/-!
# What metadata records are decoded from

A record is decoded from bytes that hold what its kind and its lengths announce, and there is no
value on others, so cutting an encoded record short is not noticed as such. Encoding keeps two bytes
of the length of a name and of a partition id.
-/

namespace Musil.Broker

open Bytes Bytes.Reader Network Utf8

namespace MetadataRecord

/-! ### The bytes of a record -/

/-- A name behind its length; it has to be a string. -/
def nameLayout : Layout :=
  .number 2 fun n => .block n fun b => if (fromUtf8 b).isSome then 1 else .reject

def layout : Layout :=
  .number 1 fun kind =>
    if kind = 0 then nameLayout
    else if kind = 1 then
      nameLayout * .fixed 2 * .number 2 fun replicas => .fixed 4 ^ replicas * .fixed 4
    else .reject

lemma follows_parseName : Follows parseName nameLayout := by
  apply Follows.number
  intro n hn
  rw [UInt16.toNat_ofNat_of_lt' hn]
  apply Follows.block
  intro b _
  cases fromUtf8 b with
  | some name => exact Follows.pure name
  | none => exact Follows.throw ()

lemma follows_parse : Follows parse layout := by
  apply Follows.number
  intro n hn
  have hkind (m : ℕ) (hm : m < 256) : UInt8.ofNat n = UInt8.ofNat m ↔ n = m := by
    rw [← UInt8.toNat_inj, UInt8.toNat_ofNat_of_lt' hn, UInt8.toNat_ofNat_of_lt' hm]
  have h0 : UInt8.ofNat n = 0 ↔ n = 0 := hkind 0 (by decide)
  have h1 : UInt8.ofNat n = 1 ↔ n = 1 := hkind 1 (by decide)
  simp only [h0, h1]
  split_ifs
  · exact follows_parseName.bind_pure _
  · simp only [mul_assoc]
    apply follows_parseName.bind
    intro topicId
    apply follows_getU16.bind
    intro partitionId
    apply Follows.number
    intro k hk
    rw [UInt16.toNat_ofNat_of_lt' hk]
    apply (follows_getI32.lift_times k).bind
    intro replicas
    exact follows_getI32.bind_pure _
  · exact Follows.throw ()

/-- Decoding returns on bytes that hold what they announce, and on none. -/
lemma decode_returns_iff {buf : List UInt8} :
    decode buf ≠ none ↔ buf = [] ∨ layout.Enough buf := by
  rw [decode]
  split_ifs with hbuf
  · exact iff_of_true (Option.some_ne_none _) (Or.inl hbuf)
  · rw [← follows_parse.run_ne_none_iff, or_iff_right hbuf, ne_eq, Option.map_eq_none_iff]

/-! ### Records that are cut short -/

def name : MetadataRecord → String
  | topic t => t.name
  | partition p => p.topicId

def kind : MetadataRecord → UInt8
  | topic _ => 0
  | partition _ => 1

/-- What is behind the name. -/
def details : MetadataRecord → List UInt8
  | topic _ => []
  | partition p => toBE 2 p.partitionId.toNat ++
      (toBE 2 p.replicas.length ++ p.replicas.flatMap fun r => toBE 4 r.toUInt32.toNat) ++
      toBE 4 p.leader.toUInt32.toNat

lemma encode_eq (r : MetadataRecord) : r.encode = r.kind :: (putName r.name ++ r.details) := by
  cases r with
  | topic t => rw [details, List.append_nil]; rfl
  | partition p => simp only [encode, kind, name, details, List.append_assoc]; rfl

lemma decode_eq_some_none_iff {buf : List UInt8} :
    decode buf = some none ↔ buf = [] ∨ ∃ tail, parse.run.run buf = some (.error (), tail) := by
  rw [decode]
  split_ifs with hbuf
  · exact iff_of_true rfl (Or.inl hbuf)
  · rw [or_iff_right hbuf, Option.map_eq_some_iff]
    constructor
    · rintro ⟨⟨_ | r, tail⟩, hrun, h⟩
      · exact ⟨tail, hrun⟩
      · cases h
    · rintro ⟨tail, hrun⟩
      exact ⟨_, hrun, rfl⟩

/-- Behind the kind only the name can be rejected. -/
lemma parse_eq_error_iff (r : MetadataRecord) {bs tail : List UInt8} :
    parse.run.run (r.kind :: bs) = some (.error (), tail) ↔
      parseName.run.run bs = some (.error (), tail) := by
  rw [parse, show r.kind :: bs = [r.kind] ++ bs from rfl,
    Parser.run_bind_ok ((reads_getU8 r.kind).accepts bs)]
  cases r with
  | topic t =>
    refine Parser.run_bind_eq_error.trans (or_iff_left ?_)
    rintro ⟨name, mid, -, h⟩
    cases h
  | partition p =>
    refine Parser.run_bind_eq_error.trans (or_iff_left ?_)
    rintro ⟨topicId, mid, -, h⟩
    obtain ⟨_, mid, h⟩ := Parser.lift_bind_eq_error h
    obtain ⟨_, mid, h⟩ := Parser.lift_bind_eq_error h
    obtain ⟨_, mid, h⟩ := Parser.lift_bind_eq_error h
    obtain ⟨_, mid, h⟩ := Parser.lift_bind_eq_error h
    cases h

lemma parseName_eq_error_iff {bs : List UInt8} :
    (∃ tail, parseName.run.run bs = some (.error (), tail)) ↔
      2 ≤ bs.length ∧ ofBE (bs.take 2) ≤ (bs.drop 2).length ∧
        fromUtf8 ((bs.drop 2).take (ofBE (bs.take 2))) = none := by
  have herror := follows_parseName.error_iff bs
  rw [Unique.exists_iff] at herror
  refine herror.trans ?_
  simp only [nameLayout, Layout.number, Layout.block, Layout.exists_mem_behind_append_eq,
    exists_and_left, and_congr_right_iff]
  intro _ _
  cases fromUtf8 ((bs.drop 2).take (ofBE (bs.take 2))) with
  | some name =>
    refine iff_of_false ?_ (Option.some_ne_none name)
    rintro ⟨tail, w, hw, -⟩
    exact absurd hw (Language.notMem_zero w)
  | none => exact iff_of_true ⟨_, [], rfl, rfl⟩ rfl

/-- The length that is written for the name ends inside one of its characters. -/
def Splits (name : String) : Prop :=
  fromUtf8 ((asBytes name).take ((asBytes name).length % 2 ^ 16)) = none

/-- A name that is cut short is rejected once all that its length announces is there. -/
lemma parseName_take_eq_error_iff {name : String} {rest : List UInt8} {m : ℕ} :
    (∃ tail, parseName.run.run ((putName name ++ rest).take m) = some (.error (), tail)) ↔
      2 + (asBytes name).length % 2 ^ 16 ≤ m ∧ Splits name := by
  rw [parseName_eq_error_iff]
  rcases Nat.lt_or_ge m 2 with h | h
  · refine iff_of_false (fun hname => ?_) fun hname => ?_
    · exact absurd (hname.1.trans (List.length_take_le _ _)) (Nat.not_le.mpr h)
    · exact absurd ((Nat.le_add_right 2 _).trans hname.1) (Nat.not_le.mpr h)
  · obtain ⟨k, rfl⟩ := Nat.exists_eq_add_of_le h
    have hlen := length_toBE 2 (asBytes name).length
    have hbytes : (putName name ++ rest).take (2 + k) =
        toBE 2 (asBytes name).length ++ (asBytes name ++ rest).take k := by
      rw [putName, List.append_assoc, ← hlen]
      exact List.take_length_add_append k
    have hread : ofBE (toBE 2 (asBytes name).length) = (asBytes name).length % 2 ^ 16 :=
      ofBE_toBE 2 _
    have hle := Nat.mod_le (asBytes name).length (2 ^ 16)
    have hroom : (asBytes name).length % 2 ^ 16 ≤ ((asBytes name ++ rest).take k).length ↔
        2 + (asBytes name).length % 2 ^ 16 ≤ 2 + k := by
      rw [List.length_take, List.length_append]
      omega
    rw [hbytes, List.take_left' hlen, List.drop_left' hlen, hread, hroom]
    rw [and_iff_right (by rw [List.length_append, hlen]; exact Nat.le_add_right 2 _)]
    apply and_congr_right
    intro hk
    rw [List.take_take, min_eq_left (Nat.le_of_add_le_add_left hk),
      List.take_append_of_le_length hle, Splits]

/-- Of the records that are cut short, only those with a whole name that is split are skipped. -/
lemma decode_take_eq_some_none_iff (r : MetadataRecord) (n : ℕ) :
    decode (r.encode.take n) = some none ↔
      n = 0 ∨ 3 + (asBytes r.name).length % 2 ^ 16 ≤ n ∧ Splits r.name := by
  cases n with
  | zero => exact iff_of_true rfl (Or.inl rfl)
  | succ m =>
    rw [encode_eq, List.take_succ_cons, decode_eq_some_none_iff, or_iff_right (List.cons_ne_nil _ _),
      or_iff_right (Nat.succ_ne_zero m)]
    simp only [parse_eq_error_iff]
    rw [parseName_take_eq_error_iff]
    apply and_congr_left
    intro _
    omega

/-! ### Records of a topic -/

lemma length_lt_of_parseName {bs tail : List UInt8} {name : String}
    (h : parseName.run.run bs = some (.ok name, tail)) : (asBytes name).length < 2 ^ 16 := by
  obtain ⟨len, mid, -, h⟩ := Parser.run_bind_eq_ok h
  obtain ⟨bytes, mid, hbytes, h⟩ := Parser.run_bind_eq_ok h
  obtain ⟨hlen, -⟩ := take_run_eq_some (Parser.run_liftM_eq_ok hbytes)
  cases hutf8 : fromUtf8 bytes with
  | none =>
    rw [hutf8] at h
    cases h
  | some s =>
    rw [hutf8] at h
    cases h
    rw [asBytes_of_fromUtf8 hutf8, hlen]
    exact len.toNat_lt

lemma length_name_lt_of_decode {buf : List UInt8} {r : MetadataRecord}
    (h : decode buf = some (some r)) : (asBytes r.name).length < 2 ^ 16 := by
  rw [decode] at h
  split_ifs at h
  · cases h
  obtain ⟨⟨_ | r', tail⟩, hrun, hr⟩ := Option.map_eq_some_iff.mp h
  · cases hr
  · cases hr
    obtain ⟨kind, mid, -, h⟩ := Parser.run_bind_eq_ok hrun
    split_ifs at h
    · obtain ⟨name, mid, hname, h⟩ := Parser.run_bind_eq_ok h
      cases h
      exact length_lt_of_parseName hname
    · obtain ⟨topicId, mid, hname, h⟩ := Parser.run_bind_eq_ok h
      obtain ⟨partitionId, mid, -, h⟩ := Parser.run_bind_eq_ok h
      obtain ⟨len, mid, -, h⟩ := Parser.run_bind_eq_ok h
      obtain ⟨replicas, mid, -, h⟩ := Parser.run_bind_eq_ok h
      obtain ⟨leader, mid, -, h⟩ := Parser.run_bind_eq_ok h
      cases h
      exact length_lt_of_parseName hname
    · cases h

end MetadataRecord

open MetadataRecord

namespace MetadataActor

/-- The records of a topic are decoded as they are if the length of its name is not cut off. -/
lemma decode_record_iff {t : TopicRequest} {r : MetadataRecord} (hr : r ∈ records t) :
    decode r.encode = some (some r) ↔ (asBytes t.name).length < 2 ^ 16 := by
  have hname : r.name = t.name ∧ ((asBytes t.name).length < 2 ^ 16 → r.Fits) := by
    rcases List.mem_cons.mp hr with rfl | hpartition
    · exact ⟨rfl, id⟩
    · obtain ⟨p, hp, rfl⟩ := List.mem_map.mp hpartition
      obtain ⟨i, -, rfl⟩ := List.mem_map.mp hp
      exact ⟨rfl, fun h => ⟨h, Nat.two_pow_pos 16⟩⟩
  constructor
  · intro h
    rw [← hname.1]
    exact length_name_lt_of_decode h
  · intro h
    exact decode_of_encode (hname.2 h)

/-- The ids are those of the partitions if none is cut off. -/
lemma partitionIds_iff (t : TopicRequest) :
    (partitionRecords t).map (fun p => p.partitionId.toNat) = List.range t.numPartitions.toInt.toNat
      ↔ t.numPartitions.toInt ≤ 2 ^ 16 := by
  rw [partitionRecords, List.map_map]
  conv_lhs => rhs; rw [← List.map_id (List.range _)]
  rw [List.map_inj_left]
  simp only [List.mem_range, Function.comp_apply, id_eq]
  constructor
  · intro h
    by_contra hlarge
    rw [Int.not_le] at hlarge
    exact absurd (h (2 ^ 16) (by omega)) (Nat.ne_of_lt (UInt16.toNat_lt _))
  · intro h i hi
    exact UInt16.toNat_ofNat_of_lt' (by simp only [UInt16.size]; omega)

end MetadataActor

/-! ### Metadata records -/

/-- When decoding returns, what it makes of a record that is cut short, which records of a topic are
decoded as they are, and when the ids in them are those of the partitions. -/
theorem metadata_decode_iff (buf : List UInt8) (r : MetadataRecord) (n : ℕ) (t : TopicRequest) :
    (decode buf ≠ none ↔ buf = [] ∨ layout.Enough buf) ∧
    (decode (r.encode.take n) = some none ↔
      n = 0 ∨ 3 + (asBytes r.name).length % 2 ^ 16 ≤ n ∧ Splits r.name) ∧
    (∀ record ∈ MetadataActor.records t,
      (decode record.encode = some (some record) ↔ (asBytes t.name).length < 2 ^ 16)) ∧
    ((MetadataActor.partitionRecords t).map (fun p => p.partitionId.toNat) =
      List.range t.numPartitions.toInt.toNat ↔ t.numPartitions.toInt ≤ 2 ^ 16) := by
  refine ⟨decode_returns_iff, decode_take_eq_some_none_iff r n, ?_, ?_⟩
  · intro record hrecord
    exact MetadataActor.decode_record_iff hrecord
  · exact MetadataActor.partitionIds_iff t

/-- The kind of a record alone, a record without the last byte, and a topic with one partition more
than there are ids. -/
theorem metadata_decode_short :
    decode [0] = none ∧ decode ((topic ⟨"t"⟩).encode.take 3) = none ∧
      (MetadataActor.partitionRecords ⟨"t", 65537, 1, []⟩).map (fun p => p.partitionId.toNat) ≠
        List.range 65537 := by
  refine ⟨rfl, rfl, ?_⟩
  intro h
  exact absurd ((MetadataActor.partitionIds_iff ⟨"t", 65537, 1, []⟩).mp h) (by decide)

end Musil.Broker
