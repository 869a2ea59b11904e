import Musil.Network.Frame
import Musil.Proto.WellFormed

/-!
# Sizes of messages

Every message computes its size in 32 bits without being encoded. As far as 32 bits go, the size
is the length of the encoding, where the record batches declare their own lengths.
-/

namespace Musil.Network

open Bytes Proto Utf8

/-! ### Sizes -/

/-- The number of bytes of a string, in 32 bits. -/
def len (s : String) : UInt32 :=
  UInt32.ofNat (asBytes s).length

def RequestHeader.getSize (h : RequestHeader) : UInt32 :=
  let clientIdSize := match h.clientId with
    | some c => len c
    | none => 0
  4 + 4 + 4 + 2 + clientIdSize

def ProducePartitionResponse.getSize (p : ProducePartitionResponse) : UInt32 :=
  let currentLeaderSize := if p.currentLeader.isSome then 1 + 8 else 1
  let msgLen := len p.errorMessage
  4 + 2 + 8 + 8 + 8 + 2 + msgLen + currentLeaderSize

def ProduceTopicResponse.getSize (t : ProduceTopicResponse) : UInt32 :=
  2 + len t.topic + 4 + (t.partitionResponses.map ProducePartitionResponse.getSize).sum

def ProduceResponse.getSize (resp : ProduceResponse) : UInt32 :=
  4 + 4 + (resp.responses.map ProduceTopicResponse.getSize).sum

def PartitionResponse.getSize (p : PartitionResponse) : UInt32 :=
  4 + 2 + 8 + 8 + 4 + (p.records.map RecordBatch.getSize).sum

def TopicResponse.getSize (t : TopicResponse) : UInt32 :=
  2 + len t.topic + 4 + (t.partitions.map PartitionResponse.getSize).sum

def FetchResponse.getSize (resp : FetchResponse) : UInt32 :=
  4 + 4 + (resp.responses.map TopicResponse.getSize).sum

def MetadataRequest.getSize (req : MetadataRequest) : UInt32 :=
  4 + (req.topics.map fun t => 2 + len t).sum + 1

def BrokerMetadata.getSize (b : BrokerMetadata) : UInt32 :=
  4 + 4 + 2 + len b.host

def PartitionMetadata.getSize (_ : PartitionMetadata) : UInt32 :=
  2 + 4 + 4 + 4 + 4 + 4

def TopicMetadata.getSize (t : TopicMetadata) : UInt32 :=
  2 + 2 + len t.name + 4 + (t.partitions.map PartitionMetadata.getSize).sum

def MetadataResponse.getSize (res : MetadataResponse) : UInt32 :=
  4 + 4 + 2 + 4 + 4 + (res.brokers.map BrokerMetadata.getSize).sum +
    (res.topics.map TopicMetadata.getSize).sum

def TopicPartitonAssignment.getSize (_ : TopicPartitonAssignment) : UInt32 :=
  4 + 4

def TopicRequest.getSize (t : TopicRequest) : UInt32 :=
  2 + len t.name + 4 + 2 + 2 + (t.assignments.map TopicPartitonAssignment.getSize).sum

def CreateTopicRequest.getSize (req : CreateTopicRequest) : UInt32 :=
  2 + (req.topics.map TopicRequest.getSize).sum + 4 + 1

def CreateTopicTopicResponse.getSize (t : CreateTopicTopicResponse) : UInt32 :=
  2 + len t.name + 2 + 2 + len t.errorMessage + 4 + 2

def CreateTopicResponse.getSize (resp : CreateTopicResponse) : UInt32 :=
  4 + 2 + (resp.topics.map CreateTopicTopicResponse.getSize).sum

namespace FrameBody

def getSize : FrameBody → UInt32
  | .produce req =>
    let topicsSize := (req.topics.map fun t =>
      2 + len t.topic + 4 + (t.partitions.map fun p => 2 + 4 + p.records.getSize).sum).sum
    8 + 4 + 8 + 2 + topicsSize
  | .produceResponse resp => resp.getSize
  | .fetch req =>
    let topicsSize := (req.topics.map fun t =>
      2 + len t.topic + 4 + UInt32.ofNat t.partitions.length * 24).sum
    4 + 4 + 4 + topicsSize
  | .fetchResponse resp => resp.getSize
  | .metadata req => req.getSize
  | .metadataResponse res => res.getSize
  | .topic req => req.getSize
  | .topicResponse resp => resp.getSize

/-- The record batches of a message. -/
def batches : FrameBody → List RecordBatch
  | .produce req => req.topics.flatMap fun t => t.partitions.map ProducePartition.records
  | .fetchResponse resp => resp.responses.flatMap fun t => t.partitions.flatMap (·.records)
  | _ => []

end FrameBody

/-- A frame with the given correlation id, which the code draws at random. -/
def Frame.new (correlationId : UInt32) (apiKey : ApiKey) (body : FrameBody) : Frame :=
  let header : RequestHeader := ⟨apiKey, 0, correlationId, none⟩
  let size := header.getSize + body.getSize
  ⟨size, header, body⟩

/-! ### Lengths of parts -/

section Parts

variable {α : Type} {as : List α} {put : α → List UInt8} {size : α → UInt32}

lemma ofNat_length_putString (s : String) : UInt32.ofNat (putString s).length = 2 + len s := by
  rw [putString, List.length_append, length_toBE, UInt32.ofNat_add]
  rfl

@[simp] lemma length_putErrorCode (e : ErrorCode) : (putErrorCode e).length = 2 :=
  length_toBE _ _

@[simp] lemma length_putBool (b : Bool) : (putBool b).length = 1 := rfl

lemma sum_getSize (h : ∀ a ∈ as, size a = UInt32.ofNat (put a).length) :
    (as.map size).sum = UInt32.ofNat (as.flatMap put).length := by
  induction as with
  | nil => rfl
  | cons a as ih =>
    rw [List.forall_mem_cons] at h
    rw [List.map_cons, List.sum_cons, List.flatMap_cons, List.length_append, UInt32.ofNat_add,
      h.1, ih h.2]

/-- The elements of a list behind their number. -/
lemma ofNat_length_putList (k : ℕ) (h : ∀ a ∈ as, size a = UInt32.ofNat (put a).length) :
    UInt32.ofNat (putList k put as).length = UInt32.ofNat k + (as.map size).sum := by
  rw [putList, List.length_append, length_toBE, UInt32.ofNat_add, sum_getSize h]

end Parts

lemma getSize_of_sized {b : RecordBatch} (h : b.Sized) :
    b.getSize = UInt32.ofNat b.encode.length := by
  rw [RecordBatch.getSize, h.length_encode, UInt32.ofNat_add, UInt32.ofNat_toNat]

/-! ### Lengths of messages -/

lemma FetchPartition.length_encode (p : FetchPartition) : p.encode.length = 24 := by
  simp only [encode, List.length_append, length_toBE]

lemma RequestHeader.getSize_eq (h : RequestHeader) :
    h.getSize = UInt32.ofNat h.encode.length := by
  have hclientId : UInt32.ofNat (putClientId h.clientId).length
      = 2 + match h.clientId with | some c => len c | none => 0 := by
    cases h.clientId with
    | some c => exact ofNat_length_putString c
    | none => rfl
  simp only [encode, List.length_append, length_toBE, UInt32.ofNat_add, hclientId]
  rw [getSize]
  grind

namespace ProducePartitionResponse

lemma getSize_eq (p : ProducePartitionResponse) : p.getSize = UInt32.ofNat p.encode.length := by
  have hleader : UInt32.ofNat (putCurrentLeader p.currentLeader).length
      = if p.currentLeader.isSome then 1 + 8 else 1 := by
    cases p.currentLeader <;> rfl
  simp only [encode, List.length_append, length_toBE, length_putErrorCode, UInt32.ofNat_add,
    ofNat_length_putString, hleader]
  rw [getSize]
  grind

end ProducePartitionResponse

lemma ProduceTopicResponse.getSize_eq (t : ProduceTopicResponse) :
    t.getSize = UInt32.ofNat t.encode.length := by
  rw [encode, List.length_append, UInt32.ofNat_add, ofNat_length_putString,
    ofNat_length_putList 4 fun p _ => p.getSize_eq]
  exact UInt32.add_assoc _ _ _

lemma ProduceResponse.getSize_eq (resp : ProduceResponse) :
    resp.getSize = UInt32.ofNat resp.encode.length := by
  rw [encode, List.length_append, length_toBE, UInt32.ofNat_add,
    ofNat_length_putList 4 fun t _ => t.getSize_eq]
  exact UInt32.add_assoc _ _ _

lemma PartitionResponse.getSize_eq {p : PartitionResponse} (h : ∀ b ∈ p.records, b.Sized) :
    p.getSize = UInt32.ofNat p.encode.length := by
  simp only [encode, List.length_append, length_toBE, length_putErrorCode, UInt32.ofNat_add,
    ofNat_length_putList 4 fun b hb => getSize_of_sized (h b hb)]
  exact UInt32.add_assoc _ _ _

lemma TopicResponse.getSize_eq {t : TopicResponse}
    (h : ∀ p ∈ t.partitions, ∀ b ∈ p.records, b.Sized) :
    t.getSize = UInt32.ofNat t.encode.length := by
  rw [encode, List.length_append, UInt32.ofNat_add, ofNat_length_putString,
    ofNat_length_putList 4 fun p hp => PartitionResponse.getSize_eq (h p hp)]
  exact UInt32.add_assoc _ _ _

lemma FetchResponse.getSize_eq {resp : FetchResponse}
    (h : ∀ t ∈ resp.responses, ∀ p ∈ t.partitions, ∀ b ∈ p.records, b.Sized) :
    resp.getSize = UInt32.ofNat resp.encode.length := by
  rw [encode, List.length_append, length_toBE, UInt32.ofNat_add,
    ofNat_length_putList 4 fun t ht => TopicResponse.getSize_eq (h t ht)]
  exact UInt32.add_assoc _ _ _

lemma MetadataRequest.getSize_eq (req : MetadataRequest) :
    req.getSize = UInt32.ofNat req.encode.length := by
  rw [encode, List.length_append, length_putBool, UInt32.ofNat_add,
    ofNat_length_putList 4 fun t _ => (ofNat_length_putString t).symm]
  rfl

lemma BrokerMetadata.getSize_eq (b : BrokerMetadata) :
    b.getSize = UInt32.ofNat b.encode.length := by
  simp only [encode, List.length_append, length_toBE, UInt32.ofNat_add, ofNat_length_putString]
  rw [getSize]
  grind

lemma PartitionMetadata.getSize_eq (p : PartitionMetadata) :
    p.getSize = UInt32.ofNat p.encode.length := by
  simp only [encode, List.length_append, length_putErrorCode, length_toBE]
  rfl

lemma TopicMetadata.getSize_eq (t : TopicMetadata) : t.getSize = UInt32.ofNat t.encode.length := by
  simp only [encode, List.length_append, length_putErrorCode, UInt32.ofNat_add,
    ofNat_length_putString, ofNat_length_putList 4 fun p _ => PartitionMetadata.getSize_eq p]
  rw [getSize]
  grind

lemma MetadataResponse.getSize_eq (res : MetadataResponse) :
    res.getSize = UInt32.ofNat res.encode.length := by
  simp only [encode, List.length_append, length_putErrorCode, length_toBE, UInt32.ofNat_add,
    ofNat_length_putList 4 fun b _ => BrokerMetadata.getSize_eq b,
    ofNat_length_putList 4 fun t _ => TopicMetadata.getSize_eq t]
  rw [getSize]
  grind

lemma TopicPartitonAssignment.getSize_eq (a : TopicPartitonAssignment) :
    a.getSize = UInt32.ofNat a.encode.length := by
  rw [encode, List.length_append, length_toBE, length_toBE]
  rfl

lemma TopicRequest.getSize_eq (t : TopicRequest) : t.getSize = UInt32.ofNat t.encode.length := by
  simp only [encode, List.length_append, length_toBE, UInt32.ofNat_add, ofNat_length_putString,
    ofNat_length_putList 2 fun a _ => TopicPartitonAssignment.getSize_eq a]
  rw [getSize]
  grind

lemma CreateTopicRequest.getSize_eq (req : CreateTopicRequest) :
    req.getSize = UInt32.ofNat req.encode.length := by
  simp only [encode, List.length_append, length_toBE, length_putBool, UInt32.ofNat_add,
    ofNat_length_putList 2 fun t _ => TopicRequest.getSize_eq t]
  rfl

lemma CreateTopicTopicResponse.getSize_eq (t : CreateTopicTopicResponse) :
    t.getSize = UInt32.ofNat t.encode.length := by
  simp only [encode, List.length_append, length_toBE, length_putErrorCode, UInt32.ofNat_add,
    ofNat_length_putString]
  rw [getSize]
  grind

lemma CreateTopicResponse.getSize_eq (resp : CreateTopicResponse) :
    resp.getSize = UInt32.ofNat resp.encode.length := by
  rw [encode, List.length_append, length_toBE, UInt32.ofNat_add,
    ofNat_length_putList 2 fun t _ => CreateTopicTopicResponse.getSize_eq t]
  exact UInt32.add_assoc _ _ _

namespace FrameBody

/-- As far as 32 bits go, the size of a message is the length of its encoding. -/
theorem getSize_eq {body : FrameBody} (h : ∀ b ∈ body.batches, b.Sized) :
    body.getSize = UInt32.ofNat body.encode.length := by
  cases body with
  | produce req =>
    have hpartition : ∀ t ∈ req.topics, ∀ p ∈ t.partitions,
        2 + 4 + p.records.getSize = UInt32.ofNat p.encode.length := by
      intro t ht p hp
      have hb : p.records ∈ (produce req).batches :=
        List.mem_flatMap.mpr ⟨t, ht, List.mem_map_of_mem hp⟩
      rw [getSize_of_sized (h _ hb), ProducePartition.encode, List.length_append, List.length_append,
        length_toBE, length_toBE, UInt32.ofNat_add]
      rfl
    have htopic : ∀ t ∈ req.topics,
        2 + len t.topic + 4 + (t.partitions.map fun p => 2 + 4 + p.records.getSize).sum
          = UInt32.ofNat t.encode.length := by
      intro t ht
      rw [ProduceTopic.encode, List.length_append, UInt32.ofNat_add, ofNat_length_putString,
        ofNat_length_putList 4 (hpartition t ht)]
      exact UInt32.add_assoc _ _ _
    rw [encode, ProduceRequest.encode, List.length_append, UInt32.ofNat_add,
      ofNat_length_putList 2 htopic]
    simp only [List.length_append, length_toBE]
    exact UInt32.add_assoc (8 + 4 + 8) 2 _
  | produceResponse resp => exact resp.getSize_eq
  | fetch req =>
    have htopic : ∀ t ∈ req.topics, 2 + len t.topic + 4 + UInt32.ofNat t.partitions.length * 24
        = UInt32.ofNat t.encode.length := by
      intro t _
      have hpartitions : (t.partitions.flatMap FetchPartition.encode).length
          = t.partitions.length * 24 := by
        rw [List.length_flatMap, List.map_congr_left fun p _ => FetchPartition.length_encode p,
          List.map_const', List.sum_replicate_nat]
      rw [FetchTopic.encode, putList, List.length_append, List.length_append, UInt32.ofNat_add,
        ofNat_length_putString, length_toBE, hpartitions, UInt32.ofNat_add, UInt32.ofNat_mul]
      exact UInt32.add_assoc _ _ _
    rw [encode, FetchRequest.encode, List.length_append, UInt32.ofNat_add,
      ofNat_length_putList 4 htopic]
    simp only [List.length_append, length_toBE]
    exact UInt32.add_assoc (4 + 4) 4 _
  | fetchResponse resp =>
    refine FetchResponse.getSize_eq fun t ht p hp b hb => h b ?_
    exact List.mem_flatMap.mpr ⟨t, ht, List.mem_flatMap.mpr ⟨p, hp, hb⟩⟩
  | metadata req => exact req.getSize_eq
  | metadataResponse res => exact res.getSize_eq
  | topic req => exact req.getSize_eq
  | topicResponse resp => exact resp.getSize_eq

end FrameBody

end Musil.Network

namespace Musil.Broker

open Bytes Network Proto

/-! ### Answers -/

/-- What the handler of fetch requests returns for a response that it has put together. -/
def fetchFrame (header : RequestHeader) (fetchResponse : FetchResponse) : Frame :=
  let size := fetchResponse.getSize + header.getSize
  ⟨size, header, .fetchResponse fetchResponse⟩

def produceFrame (header : RequestHeader) (produceResponse : ProduceResponse) : Frame :=
  let size := produceResponse.getSize + header.getSize
  ⟨size, header, .produceResponse produceResponse⟩

def metadataFrame (header : RequestHeader) (res : MetadataResponse) : Frame :=
  let size := header.getSize + res.getSize
  ⟨size, header, .metadataResponse res⟩

def createTopicsFrame (header : RequestHeader) (res : CreateTopicResponse) : Frame :=
  let size := header.getSize + res.getSize
  ⟨size, header, .topicResponse res⟩

/-- The frames that the code builds: those of requests, and those that the handlers answer with. -/
inductive Built : Frame → Prop where
  | request (correlationId : UInt32) (apiKey : ApiKey) (body : FrameBody) :
      Built (Frame.new correlationId apiKey body)
  | fetch (header : RequestHeader) (resp : FetchResponse) : Built (fetchFrame header resp)
  | produce (header : RequestHeader) (resp : ProduceResponse) : Built (produceFrame header resp)
  | metadata (header : RequestHeader) (res : MetadataResponse) : Built (metadataFrame header res)
  | createTopics (header : RequestHeader) (res : CreateTopicResponse) :
      Built (createTopicsFrame header res)

lemma Built.size_eq {f : Frame} (h : Built f) : f.size = f.header.getSize + f.body.getSize := by
  cases h with
  | request => rfl
  | fetch header resp => exact UInt32.add_comm _ _
  | produce header resp => exact UInt32.add_comm _ _
  | metadata => rfl
  | createTopics => rfl

/-- Below 32 bits, the sizes of header and body add up to the number of bytes behind the first
four, which is what these four say; and so does the size in every frame that the code builds. -/
theorem size_eq_wire (f : Frame) (hsized : ∀ b ∈ f.body.batches, b.Sized)
    (hlen : (f.header.encode ++ f.body.encode).length < 2 ^ 32) :
    (f.header.getSize + f.body.getSize).toNat = f.encode.length - 4 ∧
    ofBE (f.encode.take 4) = f.encode.length - 4 ∧
    (Built f → f.size.toNat = f.encode.length - 4) := by
  have hwire : f.encode.length - 4 = (f.header.encode ++ f.body.encode).length := by
    rw [Frame.encode, List.length_append, length_toBE, Nat.add_sub_cancel_left]
  have hsize : (f.header.getSize + f.body.getSize).toNat = f.encode.length - 4 := by
    rw [hwire, f.header.getSize_eq, FrameBody.getSize_eq hsized, ← UInt32.ofNat_add,
      ← List.length_append, UInt32.toNat_ofNat_of_lt' hlen]
  refine ⟨hsize, ?_, fun hbuilt => hbuilt.size_eq ▸ hsize⟩
  have hfront : f.encode.take 4 = toBE 4 (f.header.encode ++ f.body.encode).length := by
    rw [Frame.encode]
    exact List.take_left' (length_toBE _ _)
  rw [hfront, hwire]
  exact ofBE_toBE_of_lt hlen

/-- A request with one batch of one record. -/
theorem size_eq_wire_single :
    let f := Frame.new 7 .produce (.produce ⟨0, .leader, .fromMillis 10000,
      [⟨"t", [⟨0, @RecordBatch.single .castagnoli 7⟩]⟩]⟩)
    f.size.toNat = f.encode.length - 4 ∧ f.size = 144 :=
  ⟨(size_eq_wire _ (by decide +kernel) (by decide +kernel)).2.2 (.request _ _ _), by
    decide +kernel⟩

end Musil.Broker
