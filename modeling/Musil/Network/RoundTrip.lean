import Musil.Network.Codec
import Musil.Proto.WellFormed

/-!
# Encoded frames are decoded

A frame whose lengths and counts fit the fields that they are written to is read back by the
decoder for its kind, to the last byte. A timeout and the length of a produced batch are cut off
to their fields without a check.
-/

namespace Musil.Network

open Bytes Bytes.Reader Proto Utf8
open Storage (Acks)

/-! ### What fits -/

/-- The checksum and the length of the batch are those of its records. -/
def Intact [Crc] (b : RecordBatch) : Prop :=
  Crc.crc32Iscsi b.records = b.crc ∧ b.batchLength.toNat = 49 + b.records.length

/-- The string fits a length of 16 bits without a sign. -/
def FitsU16 (s : String) : Prop :=
  (asBytes s).length < 2 ^ 16

/-- The string fits a length of 16 bits with a sign. -/
def FitsI16 (s : String) : Prop :=
  (asBytes s).length < 2 ^ 15

instance (s : String) : Decidable (FitsU16 s) :=
  inferInstanceAs (Decidable (_ < _))

instance (s : String) : Decidable (FitsI16 s) :=
  inferInstanceAs (Decidable (_ < _))

def ProduceTopic.Fits [Crc] (t : ProduceTopic) : Prop :=
  FitsU16 t.topic ∧ t.partitions.length < 2 ^ 32 ∧ ∀ p ∈ t.partitions, Intact p.records

def ProduceRequest.Fits [Crc] (req : ProduceRequest) : Prop :=
  req.timeout.nanos % 1000000 = 0 ∧ req.topics.length < 2 ^ 16 ∧ ∀ t ∈ req.topics, t.Fits

def FetchTopic.Fits (t : FetchTopic) : Prop :=
  FitsU16 t.topic ∧ t.partitions.length < 2 ^ 32

def FetchRequest.Fits (req : FetchRequest) : Prop :=
  req.topics.length < 2 ^ 32 ∧ ∀ t ∈ req.topics, t.Fits

def PartitionResponse.Fits [Crc] (p : PartitionResponse) : Prop :=
  p.records.length < 2 ^ 32 ∧ ∀ b ∈ p.records, Intact b

def TopicResponse.Fits [Crc] (t : TopicResponse) : Prop :=
  FitsU16 t.topic ∧ t.partitions.length < 2 ^ 32 ∧ ∀ p ∈ t.partitions, p.Fits

def FetchResponse.Fits [Crc] (resp : FetchResponse) : Prop :=
  resp.responses.length < 2 ^ 32 ∧ ∀ t ∈ resp.responses, t.Fits

def ProduceTopicResponse.Fits (t : ProduceTopicResponse) : Prop :=
  FitsU16 t.topic ∧ t.partitionResponses.length < 2 ^ 32 ∧
    ∀ p ∈ t.partitionResponses, FitsI16 p.errorMessage

def ProduceResponse.Fits (resp : ProduceResponse) : Prop :=
  resp.responses.length < 2 ^ 32 ∧ ∀ t ∈ resp.responses, t.Fits

def MetadataRequest.Fits (req : MetadataRequest) : Prop :=
  req.topics.length < 2 ^ 32 ∧ ∀ t ∈ req.topics, FitsI16 t

def TopicRequest.Fits (t : TopicRequest) : Prop :=
  FitsU16 t.name ∧ t.assignments.length < 2 ^ 16

def CreateTopicRequest.Fits (req : CreateTopicRequest) : Prop :=
  req.topics.length < 2 ^ 16 ∧ ∀ t ∈ req.topics, t.Fits

def CreateTopicTopicResponse.Fits (t : CreateTopicTopicResponse) : Prop :=
  FitsU16 t.name ∧ FitsU16 t.errorMessage

def CreateTopicResponse.Fits (resp : CreateTopicResponse) : Prop :=
  resp.topics.length < 2 ^ 16 ∧ ∀ t ∈ resp.topics, t.Fits

def TopicMetadata.Fits (t : TopicMetadata) : Prop :=
  FitsU16 t.name ∧ t.partitions.length < 2 ^ 32

def MetadataResponse.Fits (res : MetadataResponse) : Prop :=
  res.brokers.length < 2 ^ 32 ∧ (∀ b ∈ res.brokers, FitsU16 b.host) ∧
    res.topics.length < 2 ^ 32 ∧ ∀ t ∈ res.topics, t.Fits

namespace FrameBody

def Fits [Crc] : FrameBody → Prop
  | .produce req => req.Fits
  | .produceResponse resp => resp.Fits
  | .fetch req => req.Fits
  | .fetchResponse resp => resp.Fits
  | .metadata req => req.Fits
  | .metadataResponse res => res.Fits
  | .topic req => req.Fits
  | .topicResponse resp => resp.Fits

/-- A timeout and the length of a batch in a produce request are below the bounds of their
fields. -/
def Bounded : FrameBody → Prop
  | .produce req => req.timeout.asMillis < 2 ^ 64 ∧
      ∀ t ∈ req.topics, ∀ p ∈ t.partitions, p.records.encode.length < 2 ^ 32
  | _ => True

def apiKey : FrameBody → ApiKey
  | .produce _ | .produceResponse _ => .produce
  | .fetch _ | .fetchResponse _ => .fetch
  | .metadata _ | .metadataResponse _ => .metadata
  | .topic _ | .topicResponse _ => .createTopics

def isRequest : FrameBody → Bool
  | .produce _ | .fetch _ | .metadata _ | .topic _ => true
  | .produceResponse _ | .fetchResponse _ | .metadataResponse _ | .topicResponse _ => false

end FrameBody

structure Frame.Fits [Crc] (f : Frame) : Prop where
  clientId : ∀ c ∈ f.header.clientId, FitsI16 c
  apiKey : f.header.apiKey = f.body.apiKey
  body : f.body.Fits

/-- Behind its size, the frame is what its decoder reads, and no byte is left over. -/
def Frame.RoundTrips [Crc] (f : Frame) : Prop :=
  ∀ size, (if f.body.isRequest then Frame.decode else Frame.decodeResponse) (f.encode.drop 4) size
    = some (.ok { f with size := size }, [])

/-! ### Parts -/

section Parts

variable {α : Type} {put : α → List UInt8} {as : List α}

lemma reads_getChars (s : String) : Reads (getChars (asBytes s).length) (asBytes s) s := by
  have h := (reads_take (asBytes s)).map fromUtf8Lossy
  rwa [fromUtf8Lossy_asBytes] at h

lemma reads_getI16_nat {n : ℕ} (h : n < 2 ^ 15) : Reads getI16 (toBE 2 n) (Int16.ofNat n) :=
  (reads_getU16_nat (h.trans (by decide))).map UInt16.toInt16

lemma asUsize_ofNat {n : ℕ} (h : n < 2 ^ 15) : asUsize (Int16.ofNat n) = n := by
  rw [asUsize, Int16.toInt_ofNat_of_lt h]
  omega

lemma reads_getString {s : String} (h : FitsU16 s) : Reads getString (putString s) s := by
  refine (reads_getU16_nat h).bind ?_
  rw [UInt16.toNat_ofNat_of_lt' h]
  exact reads_getChars s

lemma reads_getBool (b : Bool) : Reads getBool (putBool b) b := by
  have h := (reads_getU8 b.toUInt8).bind_pure fun n => n != 0
  cases b <;> exact h

lemma reads_getErrorCode (e : ErrorCode) : Reads getErrorCode (putErrorCode e) e := by
  have h := (reads_getI16 e.toI16).bind_pure ErrorCode.ofI16OrUnknown
  rwa [ErrorCode.ofI16OrUnknown_toI16] at h

lemma reads_getList16 {p : Reader α} (hn : as.length < 2 ^ 16)
    (h : ∀ a ∈ as, Reads p (put a) a) : Reads (getList16 p) (putList 2 put as) as := by
  refine (reads_getU16_nat hn).bind ?_
  rw [UInt16.toNat_ofNat_of_lt' hn]
  exact Reads.times h

lemma reads_getList32 {p : Reader α} (hn : as.length < 2 ^ 32)
    (h : ∀ a ∈ as, Reads p (put a) a) : Reads (getList32 p) (putList 4 put as) as := by
  refine (reads_getU32_nat hn).bind ?_
  rw [UInt32.toNat_ofNat_of_lt' hn]
  exact Reads.times h

/-- A list behind its number of elements, when the elements may be rejected. -/
lemma accepts_list32 {ε β : Type} {p : Parser ε α} (hn : as.length < 2 ^ 32)
    (h : ∀ a ∈ as, Accepts p (put a) a) (g : List α → β) :
    Accepts (do let n ← getU32; let as ← Parser.times n.toNat p; pure (g as))
      (putList 4 put as) (g as) := by
  refine (reads_getU32_nat hn).accepts.bind ?_
  rw [UInt32.toNat_ofNat_of_lt' hn]
  exact (Accepts.times h).bind_pure g

end Parts

/-! ### Header -/

section Header

lemma accepts_parseClientId {c : Option String} (h : ∀ s ∈ c, FitsI16 s) :
    Accepts parseClientId (putClientId c) c := by
  cases c with
  | none =>
    refine (reads_getI16 (-1)).accepts.bind_nil ?_
    exact Accepts.pure none
  | some s =>
    have hs : FitsI16 s := h s rfl
    refine (reads_getI16_nat hs).accepts.bind ?_
    have hpos : 0 ≤ Int16.ofNat (asBytes s).length := by
      rw [Int16.le_iff_toInt_le, Int16.toInt_ofNat_of_lt hs]
      exact Int.natCast_nonneg _
    rw [if_pos hpos, asUsize_ofNat hs]
    refine (reads_take (asBytes s)).accepts.bind_nil ?_
    rw [fromUtf8_asBytes]
    exact Accepts.pure (some s)

lemma accepts_parseHeader {h : RequestHeader} (hc : ∀ s ∈ h.clientId, FitsI16 s) :
    Accepts parseHeader h.encode h := by
  obtain ⟨apiKey, apiVersion, correlationId, clientId⟩ := h
  simp only [RequestHeader.encode, List.append_assoc]
  refine (reads_getU32 _).accepts.bind ?_
  refine (reads_getU32 _).accepts.bind ?_
  refine (reads_getU32 _).accepts.bind ?_
  refine (accepts_parseClientId hc).bind_nil ?_
  rw [ApiKey.ofU32_toU32]
  exact Accepts.pure _

end Header

/-! ### Requests -/

section Requests

lemma accepts_parseAcks (a : Acks) :
    Accepts RequestDecoder.parseAcks (toBE 4 (acksToU32 a).toNat) a := by
  refine (reads_getU32 _).accepts.bind_nil ?_
  rw [acksOfU32_toU32]
  exact Accepts.pure a

lemma accepts_parseBatch [Crc] {b : RecordBatch} (h : Crc.crc32Iscsi b.records = b.crc) :
    Accepts (parseBatch b.encode) [] b := by
  refine accepts_embed ?_
  rw [RecordBatch.decode_of_encode h]
  rfl

lemma accepts_parseProducePartition [Crc] {p : ProducePartition} (h : Intact p.records)
    (hb : p.records.encode.length < 2 ^ 32) :
    Accepts RequestDecoder.parseProducePartition p.encode p := by
  simp only [ProducePartition.encode, List.append_assoc]
  refine (reads_getU16 _).accepts.bind ?_
  refine (reads_getU32_nat hb).accepts.bind ?_
  rw [UInt32.toNat_ofNat_of_lt' hb]
  refine (reads_take p.records.encode).accepts.bind_nil ?_
  exact (accepts_parseBatch h.1).bind_pure _

lemma accepts_parseProduceTopic [Crc] {t : ProduceTopic} (h : t.Fits)
    (hb : ∀ p ∈ t.partitions, p.records.encode.length < 2 ^ 32) :
    Accepts RequestDecoder.parseProduceTopic t.encode t := by
  obtain ⟨htopic, hcount, hintact⟩ := h
  refine (reads_getString htopic).accepts.bind ?_
  exact accepts_list32 hcount
    (fun p hp => accepts_parseProducePartition (hintact p hp) (hb p hp)) _

/-- A timeout of whole milliseconds is the one that its number of milliseconds stands for. -/
lemma Duration.fromMillis_asMillis {d : Duration} (h : d.nanos % 1000000 = 0)
    (hb : d.asMillis < 2 ^ 64) : Duration.fromMillis (UInt64.ofNat d.asMillis) = d := by
  obtain ⟨secs, nanos, hlt⟩ := d
  simp only [Duration.asMillis] at h hb
  have hsplit := Nat.div_add_mod nanos 1000000
  rw [Duration.fromMillis, Duration.mk.injEq, Duration.asMillis, UInt64.toNat_ofNat_of_lt' hb]
  constructor
  · apply UInt64.toNat_inj.mp
    rw [UInt64.toNat_div, UInt64.toNat_ofNat_of_lt' hb, show (1000 : UInt64).toNat = 1000 from rfl]
    omega
  · omega

lemma accepts_parseProduce [Crc] {req : ProduceRequest} (h : req.Fits)
    (hb : (FrameBody.produce req).Bounded) :
    Accepts RequestDecoder.parseProduce req.encode req := by
  obtain ⟨hmillis, hcount, htopics⟩ := h
  simp only [ProduceRequest.encode, List.append_assoc]
  refine (reads_getU64 _).accepts.bind ?_
  refine (accepts_parseAcks _).bind ?_
  have htimeout := (reads_number (k := 8) hb.1).map UInt64.ofNat
  refine Accepts.bind htimeout.accepts ?_
  refine (reads_getU16_nat hcount).accepts.bind ?_
  rw [UInt16.toNat_ofNat_of_lt' hcount, Duration.fromMillis_asMillis hmillis hb.1]
  have htimes := Accepts.times (p := RequestDecoder.parseProduceTopic)
    fun t ht => accepts_parseProduceTopic (htopics t ht) (hb.2 t ht)
  exact htimes.bind_pure _

lemma reads_parseFetchPartition (p : FetchPartition) :
    Reads RequestDecoder.parseFetchPartition p.encode p := by
  simp only [FetchPartition.encode, List.append_assoc]
  refine (reads_getU32 _).bind ?_
  refine (reads_getU64 _).bind ?_
  refine (reads_getU32 _).bind ?_
  exact (reads_getU64 _).bind_pure _

lemma reads_parseFetchTopic {t : FetchTopic} (h : t.Fits) :
    Reads RequestDecoder.parseFetchTopic t.encode t := by
  refine (reads_getString h.1).bind ?_
  exact (reads_getList32 h.2 fun p _ => reads_parseFetchPartition p).bind_pure _

lemma reads_parseFetch {req : FetchRequest} (h : req.Fits) :
    Reads RequestDecoder.parseFetch req.encode req := by
  simp only [FetchRequest.encode, List.append_assoc]
  refine (reads_getI32 _).bind ?_
  refine (reads_getU32 _).bind ?_
  exact (reads_getList32 h.1 fun t ht => reads_parseFetchTopic (h.2 t ht)).bind_pure _

lemma reads_parseTopicName {s : String} (h : FitsI16 s) :
    Reads RequestDecoder.parseTopicName (putString s) s := by
  refine (reads_getI16_nat h).bind ?_
  rw [asUsize_ofNat h]
  exact reads_getChars s

lemma reads_parseMetadata {req : MetadataRequest} (h : req.Fits) :
    Reads RequestDecoder.parseMetadata req.encode req := by
  refine (reads_getList32 h.1 fun t ht => reads_parseTopicName (h.2 t ht)).bind ?_
  exact (reads_getBool _).bind_pure _

lemma reads_parseAssignment (a : TopicPartitonAssignment) :
    Reads RequestDecoder.parseAssignment a.encode a := by
  refine (reads_getI32 _).bind ?_
  exact (reads_getI32 _).bind_pure _

lemma reads_parseTopicRequest {t : TopicRequest} (h : t.Fits) :
    Reads RequestDecoder.parseTopicRequest t.encode t := by
  simp only [TopicRequest.encode, List.append_assoc]
  refine (reads_getString h.1).bind ?_
  refine (reads_getI32 _).bind ?_
  refine (reads_getU16 _).bind ?_
  exact (reads_getList16 h.2 fun a _ => reads_parseAssignment a).bind_pure _

lemma reads_parseCreateTopics {req : CreateTopicRequest} (h : req.Fits) :
    Reads RequestDecoder.parseCreateTopics req.encode req := by
  simp only [CreateTopicRequest.encode, List.append_assoc]
  refine (reads_getList16 h.1 fun t ht => reads_parseTopicRequest (h.2 t ht)).bind ?_
  refine (reads_getU32 _).bind ?_
  exact (reads_getBool _).bind_pure _

end Requests

/-! ### Responses -/

section Responses

lemma reads_parseBroker {b : BrokerMetadata} (h : FitsU16 b.host) :
    Reads ResponseDecoder.parseBroker b.encode b := by
  simp only [BrokerMetadata.encode, List.append_assoc]
  refine (reads_getI32 _).bind ?_
  refine (reads_getString h).bind ?_
  exact (reads_getI32 _).bind_pure _

lemma reads_parsePartitionMetadata (p : PartitionMetadata) :
    Reads ResponseDecoder.parsePartitionMetadata p.encode p := by
  simp only [PartitionMetadata.encode, List.append_assoc]
  refine (reads_getErrorCode _).bind ?_
  refine (reads_getI32 _).bind ?_
  refine (reads_getI32 _).bind ?_
  refine (reads_getU32 _).bind ?_
  refine (reads_getU32 _).bind ?_
  exact (reads_getU32 _).bind_pure _

lemma reads_parseTopicMetadata {t : TopicMetadata} (h : t.Fits) :
    Reads ResponseDecoder.parseTopicMetadata t.encode t := by
  simp only [TopicMetadata.encode, List.append_assoc]
  refine (reads_getErrorCode _).bind ?_
  refine (reads_getString h.1).bind ?_
  exact (reads_getList32 h.2 fun p _ => reads_parsePartitionMetadata p).bind_pure _

lemma reads_parseMetadataResponse {res : MetadataResponse} (h : res.Fits) :
    Reads ResponseDecoder.parseMetadataResponse res.encode res := by
  obtain ⟨hbrokers, hhosts, htopics, hfits⟩ := h
  simp only [MetadataResponse.encode, List.append_assoc]
  refine (reads_getU32 _).bind ?_
  refine (reads_getList32 hbrokers fun b hb => reads_parseBroker (hhosts b hb)).bind ?_
  refine (reads_getI32 _).bind ?_
  refine (reads_getList32 htopics fun t ht => reads_parseTopicMetadata (hfits t ht)).bind ?_
  exact (reads_getErrorCode _).bind_pure _

lemma reads_parseErrorMessage {s : String} (h : FitsI16 s) :
    Reads ResponseDecoder.parseErrorMessage (putString s) s := by
  refine (reads_getI16_nat h).bind ?_
  rw [asUsize_ofNat h]
  have hlt : 0 < Int16.ofNat (asBytes s).length ↔ 0 < (asBytes s).length := by
    rw [Int16.lt_iff_toInt_lt, Int16.toInt_ofNat_of_lt h]
    exact Int.natCast_pos
  by_cases hpos : 0 < (asBytes s).length
  · rw [if_pos (hlt.mpr hpos)]
    exact reads_getChars s
  · rw [if_neg (hlt.not.mpr hpos)]
    have hnil : asBytes s = [] := List.length_eq_zero_iff.mp (Nat.eq_zero_of_not_pos hpos)
    have hempty := fromUtf8Lossy_asBytes s
    rw [hnil] at hempty ⊢
    rw [← hempty]
    exact Reads.pure _

lemma reads_parseCurrentLeader (c : Option CurrentLeader) :
    Reads ResponseDecoder.parseCurrentLeader (putCurrentLeader c) c := by
  cases c with
  | none => exact (reads_getBool false).bind (Reads.pure none)
  | some leader =>
    simp only [putCurrentLeader, List.append_assoc]
    refine (reads_getBool true).bind ?_
    refine (reads_getI32 _).bind ?_
    exact (reads_getU32 _).bind_pure _

lemma reads_parseProducePartition {p : ProducePartitionResponse} (h : FitsI16 p.errorMessage) :
    Reads ResponseDecoder.parseProducePartition p.encode p := by
  simp only [ProducePartitionResponse.encode, List.append_assoc]
  refine (reads_getU32 _).bind ?_
  refine (reads_getErrorCode _).bind ?_
  refine (reads_getU64 _).bind ?_
  refine (reads_getU64 _).bind ?_
  refine (reads_getU64 _).bind ?_
  refine (reads_parseErrorMessage h).bind ?_
  exact (reads_parseCurrentLeader _).bind_pure _

lemma reads_parseProduceTopic {t : ProduceTopicResponse} (h : t.Fits) :
    Reads ResponseDecoder.parseProduceTopic t.encode t := by
  obtain ⟨htopic, hcount, hmessages⟩ := h
  refine (reads_getString htopic).bind ?_
  exact (reads_getList32 hcount fun p hp =>
    reads_parseProducePartition (hmessages p hp)).bind_pure _

lemma reads_parseProduceResponse {resp : ProduceResponse} (h : resp.Fits) :
    Reads ResponseDecoder.parseProduceResponse resp.encode resp := by
  refine (reads_getU32 _).bind ?_
  exact (reads_getList32 h.1 fun t ht => reads_parseProduceTopic (h.2 t ht)).bind_pure _

/-- A batch has no length in front: its own one says where it ends. -/
lemma accepts_parseRecords [Crc] {b : RecordBatch} (h : Intact b) :
    Accepts ResponseDecoder.parseRecords b.encode b := by
  have hlength : b.encodePayload.length = b.batchLength.toNat :=
    b.length_encodePayload.trans h.2.symm
  have henc : b.encode
      = toBE 8 b.baseOffset.toNat ++ (toBE 4 b.batchLength.toNat ++ b.encodePayload) := by
    rw [RecordBatch.encode_eq, RecordBatch.encodePrefix, List.append_assoc]
  rw [henc]
  refine (reads_getU64 _).accepts.bind ?_
  refine (reads_getU32 _).accepts.bind ?_
  rw [← hlength]
  refine (reads_take b.encodePayload).accepts.bind_nil ?_
  rw [List.append_assoc, hlength, ← henc]
  exact accepts_parseBatch h.1

lemma accepts_parseFetchPartition [Crc] {p : PartitionResponse} (h : p.Fits) :
    Accepts ResponseDecoder.parseFetchPartition p.encode p := by
  simp only [PartitionResponse.encode, List.append_assoc]
  refine (reads_getU32 _).accepts.bind ?_
  refine (reads_getErrorCode _).accepts.bind ?_
  refine (reads_getU64 _).accepts.bind ?_
  refine (reads_getU64 _).accepts.bind ?_
  exact accepts_list32 h.1 (fun b hb => accepts_parseRecords (h.2 b hb)) _

lemma accepts_parseFetchTopic [Crc] {t : TopicResponse} (h : t.Fits) :
    Accepts ResponseDecoder.parseFetchTopic t.encode t := by
  obtain ⟨htopic, hcount, hfits⟩ := h
  refine (reads_getString htopic).accepts.bind ?_
  exact accepts_list32 hcount (fun p hp => accepts_parseFetchPartition (hfits p hp)) _

lemma accepts_parseFetchResponse [Crc] {resp : FetchResponse} (h : resp.Fits) :
    Accepts ResponseDecoder.parseFetchResponse resp.encode resp := by
  refine (reads_getU32 _).accepts.bind ?_
  exact accepts_list32 h.1 (fun t ht => accepts_parseFetchTopic (h.2 t ht)) _

lemma reads_parseTopicResponse {t : CreateTopicTopicResponse} (h : t.Fits) :
    Reads ResponseDecoder.parseTopicResponse t.encode t := by
  simp only [CreateTopicTopicResponse.encode, List.append_assoc]
  refine (reads_getString h.1).bind ?_
  refine (reads_getErrorCode _).bind ?_
  refine (reads_getString h.2).bind ?_
  refine (reads_getI32 _).bind ?_
  exact (reads_getU16 _).bind_pure _

lemma reads_parseCreateTopicsResponse {resp : CreateTopicResponse} (h : resp.Fits) :
    Reads ResponseDecoder.parseCreateTopicsResponse resp.encode resp := by
  refine (reads_getU32 _).bind ?_
  exact (reads_getList16 h.1 fun t ht => reads_parseTopicResponse (h.2 t ht)).bind_pure _

end Responses

/-! ### Frames -/

section Frames

lemma Frame.encode_drop (f : Frame) : f.encode.drop 4 = f.header.encode ++ f.body.encode := by
  rw [Frame.encode, List.drop_left' (length_toBE 4 _)]

variable [Crc]

lemma accepts_requestBody {b : FrameBody} (h : b.Fits) (hb : b.Bounded)
    (hreq : b.isRequest = true) : Accepts (RequestDecoder.parseBody b.apiKey) b.encode b := by
  cases b with
  | produce req => exact (accepts_parseProduce h hb).bind_pure FrameBody.produce
  | fetch req => exact (reads_parseFetch h).accepts.bind_pure FrameBody.fetch
  | metadata req => exact (reads_parseMetadata h).accepts.bind_pure FrameBody.metadata
  | topic req => exact (reads_parseCreateTopics h).accepts.bind_pure FrameBody.topic
  | produceResponse | fetchResponse | metadataResponse | topicResponse => cases hreq

lemma accepts_responseBody {b : FrameBody} (h : b.Fits) (hreq : b.isRequest = false) :
    Accepts (ResponseDecoder.parseBody b.apiKey) b.encode b := by
  cases b with
  | produceResponse resp =>
    exact (reads_parseProduceResponse h).accepts.bind_pure FrameBody.produceResponse
  | fetchResponse resp =>
    exact (accepts_parseFetchResponse h).bind_pure FrameBody.fetchResponse
  | metadataResponse res =>
    exact (reads_parseMetadataResponse h).accepts.bind_pure FrameBody.metadataResponse
  | topicResponse resp =>
    exact (reads_parseCreateTopicsResponse h).accepts.bind_pure FrameBody.topicResponse
  | produce | fetch | metadata | topic => cases hreq

/-- A frame is decoded from what it is encoded to if its lengths and counts fit their fields. -/
theorem Frame.decode_encode (f : Frame) (h : f.Fits) (hb : f.body.Bounded) : f.RoundTrips := by
  intro size
  rw [f.encode_drop]
  have hheader := accepts_parseHeader h.clientId
  cases hreq : f.body.isRequest with
  | true =>
    have hbody := accepts_requestBody h.body hb hreq
    rw [← h.apiKey] at hbody
    exact (hheader.bind (hbody.bind_pure fun body => (⟨size, f.header, body⟩ : Frame))).run_eq
  | false =>
    have hbody := accepts_responseBody h.body hreq
    rw [← h.apiKey] at hbody
    exact (hheader.bind (hbody.bind_pure fun body => (⟨size, f.header, body⟩ : Frame))).run_eq

end Frames

/-! ### Three frames -/

section Examples

local instance : Crc := Crc.castagnoli

/-- A produce request with the given batches for partition zero of one topic. -/
def produceFrame (clientId : Option String) (timeout : Duration) (batches : List RecordBatch) :
    Frame :=
  ⟨0, ⟨.produce, 0, 0, clientId⟩,
    .produce ⟨0, .leader, timeout, [⟨"t", batches.map fun b => ⟨0, b⟩⟩]⟩⟩

lemma fits_produceFrame {clientId : Option String} {timeout : Duration} {batches : List RecordBatch}
    (hclientId : ∀ c ∈ clientId, FitsI16 c) (htimeout : timeout.nanos % 1000000 = 0)
    (hcount : batches.length < 2 ^ 32) (h : ∀ b ∈ batches, Intact b) :
    (produceFrame clientId timeout batches).Fits := by
  have htopic : FitsU16 "t" := by decide
  refine ⟨hclientId, rfl, htimeout, Nat.one_lt_two_pow (by decide), ?_⟩
  rw [List.forall_mem_singleton]
  refine ⟨htopic, by rwa [List.length_map], ?_⟩
  rwa [List.forall_mem_map]

theorem decode_encode_single :
    (produceFrame (some "c") (.fromMillis 10000) [.single 7]).RoundTrips := by
  have hintact : Intact (RecordBatch.single 7) := ⟨by decide +kernel, by decide +kernel⟩
  refine Frame.decode_encode _ (fits_produceFrame ?_ (by decide) (by decide) ?_) ⟨by decide, ?_⟩
  · rintro c ⟨rfl⟩
    decide
  · rwa [List.forall_mem_singleton]
  · rw [List.forall_mem_singleton, List.map_singleton, List.forall_mem_singleton]
    decide +kernel

/-- With `2 ^ 32 - 61` bytes of records the length of the batch is cut off to zero. -/
lemma not_roundTrips_long_batch {b : RecordBatch} (hb : b.records.length = 2 ^ 32 - 61) :
    ¬ (produceFrame none (.fromMillis 0) [b]).RoundTrips := by
  have hlength : b.encode.length = 2 ^ 32 := by
    rw [b.length_encode, hb]
    rfl
  have hbatch : Fails (parseBatch []) b.encode := rfl
  have hpartition : Fails RequestDecoder.parseProducePartition (ProducePartition.encode ⟨0, b⟩) := by
    simp only [ProducePartition.encode, List.append_assoc, hlength]
    refine (reads_getU16 0).accepts.bind_fails ?_
    refine (reads_getU32 0).accepts.bind_fails ?_
    exact (reads_take []).accepts.bind_fails (hbatch.bind _)
  have htopic : Fails RequestDecoder.parseProduceTopic (ProduceTopic.encode ⟨"t", [⟨0, b⟩]⟩) := by
    refine (reads_getString (s := "t") (by decide)).accepts.bind_fails ?_
    refine (reads_getU32 1).accepts.bind_fails ?_
    rw [List.flatMap_singleton]
    exact (hpartition.times 0).bind _
  have hbody : Fails (RequestDecoder.parseBody .produce)
      (produceFrame none (.fromMillis 0) [b]).body.encode := by
    simp only [produceFrame, FrameBody.encode, ProduceRequest.encode, List.append_assoc]
    refine Fails.bind ?_ _
    refine (reads_getU64 0).accepts.bind_fails ?_
    refine (accepts_parseAcks .leader).bind_fails ?_
    refine (reads_getU64 0).accepts.bind_fails ?_
    refine (reads_getU16 1).accepts.bind_fails ?_
    rw [List.map_singleton, List.flatMap_singleton]
    exact (htopic.times 0).bind _
  have hheader := accepts_parseHeader (h := (produceFrame none (.fromMillis 0) [b]).header)
    (by rintro _ ⟨⟩)
  have hframe : Frame.decode ((produceFrame none (.fromMillis 0) [b]).encode.drop 4) 0 = none := by
    rw [Frame.encode_drop]
    exact hheader.bind_fails (hbody.bind _)
  intro h
  exact Option.some_ne_none _ ((h 0).symm.trans hframe)

/-- A timeout from `2 ^ 64` milliseconds on is cut off, and the length of a batch whose records
leave no room for the header in `2 ^ 32` bytes. -/
theorem decode_encode_not_all :
    ((produceFrame none ⟨18446744073709552, 0, by decide⟩ []).Fits ∧
      ¬ (produceFrame none ⟨18446744073709552, 0, by decide⟩ []).RoundTrips) ∧
    ∃ b : RecordBatch, b.records.length = 2 ^ 32 - 61 ∧
      (produceFrame none (.fromMillis 0) [b]).Fits ∧
      ¬ (produceFrame none (.fromMillis 0) [b]).RoundTrips := by
  refine ⟨⟨fits_produceFrame (by rintro _ ⟨⟩) (by decide) (by decide) (by rintro _ ⟨⟩), ?_⟩, ?_⟩
  · intro h
    exact absurd (h 0) (by decide)
  · obtain ⟨records, hrecords⟩ : ∃ records : List UInt8, records.length = 2 ^ 32 - 61 :=
      ⟨List.replicate _ 0, List.length_replicate⟩
    refine ⟨{ RecordBatch.single 0 with
      batchLength := 4294967284, crc := Crc.crc32Iscsi records, records := records }, hrecords, ?_,
      not_roundTrips_long_batch hrecords⟩
    refine fits_produceFrame (by rintro _ ⟨⟩) (by decide) (Nat.one_lt_two_pow (by decide)) ?_
    rw [List.forall_mem_singleton]
    refine ⟨rfl, ?_⟩
    rw [hrecords]
    rfl

end Examples

end Musil.Network
