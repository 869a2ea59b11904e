import Musil.Lib.Utf8
import Musil.Proto.ErrorCode
import Musil.Proto.RecordBatch
import Musil.Storage.Partition

/-!
# Frames

The messages between clients and brokers, and how they are written: a header, and one of eight
bodies, behind the number of bytes that they take.
-/

namespace Musil.Network

open Bytes Proto Utf8
open Storage (Acks)

/-! ### Header -/

inductive ApiKey where
  | produce
  | fetch
  | metadata
  | createTopics
  deriving DecidableEq, Repr

namespace ApiKey

def toU32 : ApiKey → UInt32
  | produce => 0
  | fetch => 1
  | metadata => 3
  | createTopics => 19

def ofU32 (value : UInt32) : Option ApiKey :=
  if value = 0 then some produce
  else if value = 1 then some fetch
  else if value = 3 then some metadata
  else if value = 19 then some createTopics
  else none

lemma ofU32_toU32 (k : ApiKey) : ofU32 k.toU32 = some k := by
  cases k <;> rfl

end ApiKey

structure RequestHeader where
  apiKey : ApiKey
  apiVersion : UInt32
  correlationId : UInt32
  clientId : Option String
  deriving DecidableEq

/-! ### Produce -/

/-- A span of time in seconds and nanoseconds. -/
structure Duration where
  secs : UInt64
  nanos : ℕ
  nanos_lt : nanos < 1000000000
  deriving DecidableEq

namespace Duration

def asMillis (d : Duration) : ℕ :=
  d.secs.toNat * 1000 + d.nanos / 1000000

def fromMillis (millis : UInt64) : Duration where
  secs := millis / 1000
  nanos := millis.toNat % 1000 * 1000000
  nanos_lt := by omega

end Duration

def acksToU32 : Acks → UInt32
  | .none => 0
  | .leader => 1
  | .all => 2

def acksOfU32 (value : UInt32) : Option Acks :=
  if value = 0 then some .none
  else if value = 1 then some .leader
  else if value = 2 then some .all
  else none

lemma acksOfU32_toU32 (a : Acks) : acksOfU32 (acksToU32 a) = some a := by
  cases a <;> rfl

structure ProducePartition where
  index : UInt16
  records : RecordBatch
  deriving DecidableEq

structure ProduceTopic where
  topic : String
  partitions : List ProducePartition
  deriving DecidableEq

structure ProduceRequest where
  transactionalId : UInt64
  acks : Acks
  timeout : Duration
  topics : List ProduceTopic
  deriving DecidableEq

structure CurrentLeader where
  leaderId : Int32
  leaderEpoch : UInt32
  deriving DecidableEq

structure ProducePartitionResponse where
  index : UInt32
  errorCode : ErrorCode
  baseOffset : UInt64
  logAppendTimeMs : UInt64
  logStartOffset : UInt64
  errorMessage : String
  currentLeader : Option CurrentLeader
  deriving DecidableEq

structure ProduceTopicResponse where
  topic : String
  partitionResponses : List ProducePartitionResponse
  deriving DecidableEq

structure ProduceResponse where
  throttleTimeMs : UInt32
  responses : List ProduceTopicResponse
  deriving DecidableEq

/-! ### Fetch -/

structure FetchPartition where
  partition : UInt32
  fetchOffset : UInt64
  partitionMaxBytes : UInt32
  highWatermark : UInt64
  deriving DecidableEq

structure FetchTopic where
  topic : String
  partitions : List FetchPartition
  deriving DecidableEq

structure FetchRequest where
  replicaId : Int32
  maxBytes : UInt32
  topics : List FetchTopic
  deriving DecidableEq

structure PartitionResponse where
  partitionIndex : UInt32
  errorCode : ErrorCode
  highWatermark : UInt64
  logStartOffset : UInt64
  records : List RecordBatch
  deriving DecidableEq

structure TopicResponse where
  topic : String
  partitions : List PartitionResponse
  deriving DecidableEq

structure FetchResponse where
  throttleTimeMs : UInt32
  responses : List TopicResponse
  deriving DecidableEq

/-! ### Metadata -/

structure MetadataRequest where
  topics : List String
  allowAutoTopicCreation : Bool
  deriving DecidableEq

structure BrokerMetadata where
  nodeId : Int32
  host : String
  port : Int32
  deriving DecidableEq

structure PartitionMetadata where
  errorCode : ErrorCode
  partitionIndex : Int32
  leaderId : Int32
  replicaNodes : UInt32
  isrNodes : UInt32
  offlineReplicas : UInt32
  deriving DecidableEq

structure TopicMetadata where
  errorCode : ErrorCode
  name : String
  partitions : List PartitionMetadata
  deriving DecidableEq

structure MetadataResponse where
  throttleTimeMs : UInt32
  brokers : List BrokerMetadata
  controllerId : Int32
  topics : List TopicMetadata
  errorCode : ErrorCode
  deriving DecidableEq

/-! ### Topic creation -/

structure TopicPartitonAssignment where
  partitionIndex : Int32
  brokerIds : Int32
  deriving DecidableEq

structure TopicRequest where
  name : String
  numPartitions : Int32
  replicationFactor : UInt16
  assignments : List TopicPartitonAssignment
  deriving DecidableEq

structure CreateTopicRequest where
  topics : List TopicRequest
  timeoutMs : UInt32
  validateOnly : Bool
  deriving DecidableEq

/-- The answer for one topic of a creation. -/
structure CreateTopicTopicResponse where
  name : String
  errorCode : ErrorCode
  errorMessage : String
  numPartitions : Int32
  replicationFactor : UInt16
  deriving DecidableEq

structure CreateTopicResponse where
  throttleTimeMs : UInt32
  topics : List CreateTopicTopicResponse
  deriving DecidableEq

/-! ### Frames -/

inductive FrameBody where
  | produce (req : ProduceRequest)
  | produceResponse (resp : ProduceResponse)
  | fetch (req : FetchRequest)
  | fetchResponse (resp : FetchResponse)
  | metadata (req : MetadataRequest)
  | metadataResponse (res : MetadataResponse)
  | topic (req : CreateTopicRequest)
  | topicResponse (resp : CreateTopicResponse)
  deriving DecidableEq

structure Frame where
  size : UInt32
  header : RequestHeader
  body : FrameBody
  deriving DecidableEq

/-! ### Encoding -/

/-- A string behind its length in two bytes. -/
def putString (s : String) : List UInt8 :=
  toBE 2 (asBytes s).length ++ asBytes s

def putBool (b : Bool) : List UInt8 :=
  [b.toUInt8]

def putErrorCode (e : ErrorCode) : List UInt8 :=
  toBE 2 e.toI16.toUInt16.toNat

/-- The elements of a list behind their number in `k` bytes. -/
def putList {α : Type} (k : ℕ) (put : α → List UInt8) (as : List α) : List UInt8 :=
  toBE k as.length ++ as.flatMap put

def putClientId : Option String → List UInt8
  | some clientId => putString clientId
  | none => toBE 2 (-1 : Int16).toUInt16.toNat

def RequestHeader.encode (h : RequestHeader) : List UInt8 :=
  toBE 4 h.apiKey.toU32.toNat ++ toBE 4 h.apiVersion.toNat ++ toBE 4 h.correlationId.toNat ++
    putClientId h.clientId

def ProducePartition.encode (p : ProducePartition) : List UInt8 :=
  toBE 2 p.index.toNat ++ toBE 4 p.records.encode.length ++ p.records.encode

def ProduceTopic.encode (t : ProduceTopic) : List UInt8 :=
  putString t.topic ++ putList 4 ProducePartition.encode t.partitions

def ProduceRequest.encode (req : ProduceRequest) : List UInt8 :=
  toBE 8 req.transactionalId.toNat ++ toBE 4 (acksToU32 req.acks).toNat ++
    toBE 8 req.timeout.asMillis ++ putList 2 ProduceTopic.encode req.topics

def FetchPartition.encode (p : FetchPartition) : List UInt8 :=
  toBE 4 p.partition.toNat ++ toBE 8 p.fetchOffset.toNat ++ toBE 4 p.partitionMaxBytes.toNat ++
    toBE 8 p.highWatermark.toNat

def FetchTopic.encode (t : FetchTopic) : List UInt8 :=
  putString t.topic ++ putList 4 FetchPartition.encode t.partitions

def FetchRequest.encode (req : FetchRequest) : List UInt8 :=
  toBE 4 req.replicaId.toUInt32.toNat ++ toBE 4 req.maxBytes.toNat ++
    putList 4 FetchTopic.encode req.topics

def PartitionResponse.encode (p : PartitionResponse) : List UInt8 :=
  toBE 4 p.partitionIndex.toNat ++ putErrorCode p.errorCode ++ toBE 8 p.highWatermark.toNat ++
    toBE 8 p.logStartOffset.toNat ++ putList 4 RecordBatch.encode p.records

def TopicResponse.encode (t : TopicResponse) : List UInt8 :=
  putString t.topic ++ putList 4 PartitionResponse.encode t.partitions

def FetchResponse.encode (resp : FetchResponse) : List UInt8 :=
  toBE 4 resp.throttleTimeMs.toNat ++ putList 4 TopicResponse.encode resp.responses

def putCurrentLeader : Option CurrentLeader → List UInt8
  | some leader => [1] ++ toBE 4 leader.leaderId.toUInt32.toNat ++ toBE 4 leader.leaderEpoch.toNat
  | none => [0]

def ProducePartitionResponse.encode (p : ProducePartitionResponse) : List UInt8 :=
  toBE 4 p.index.toNat ++ putErrorCode p.errorCode ++ toBE 8 p.baseOffset.toNat ++
    toBE 8 p.logAppendTimeMs.toNat ++ toBE 8 p.logStartOffset.toNat ++ putString p.errorMessage ++
    putCurrentLeader p.currentLeader

def ProduceTopicResponse.encode (t : ProduceTopicResponse) : List UInt8 :=
  putString t.topic ++ putList 4 ProducePartitionResponse.encode t.partitionResponses

def ProduceResponse.encode (resp : ProduceResponse) : List UInt8 :=
  toBE 4 resp.throttleTimeMs.toNat ++ putList 4 ProduceTopicResponse.encode resp.responses

def MetadataRequest.encode (req : MetadataRequest) : List UInt8 :=
  putList 4 putString req.topics ++ putBool req.allowAutoTopicCreation

def TopicPartitonAssignment.encode (a : TopicPartitonAssignment) : List UInt8 :=
  toBE 4 a.partitionIndex.toUInt32.toNat ++ toBE 4 a.brokerIds.toUInt32.toNat

def TopicRequest.encode (t : TopicRequest) : List UInt8 :=
  putString t.name ++ toBE 4 t.numPartitions.toUInt32.toNat ++ toBE 2 t.replicationFactor.toNat ++
    putList 2 TopicPartitonAssignment.encode t.assignments

def CreateTopicRequest.encode (req : CreateTopicRequest) : List UInt8 :=
  putList 2 TopicRequest.encode req.topics ++ toBE 4 req.timeoutMs.toNat ++
    putBool req.validateOnly

def CreateTopicTopicResponse.encode (t : CreateTopicTopicResponse) : List UInt8 :=
  putString t.name ++ putErrorCode t.errorCode ++ putString t.errorMessage ++
    toBE 4 t.numPartitions.toUInt32.toNat ++ toBE 2 t.replicationFactor.toNat

def CreateTopicResponse.encode (resp : CreateTopicResponse) : List UInt8 :=
  toBE 4 resp.throttleTimeMs.toNat ++ putList 2 CreateTopicTopicResponse.encode resp.topics

def BrokerMetadata.encode (b : BrokerMetadata) : List UInt8 :=
  toBE 4 b.nodeId.toUInt32.toNat ++ putString b.host ++ toBE 4 b.port.toUInt32.toNat

def PartitionMetadata.encode (p : PartitionMetadata) : List UInt8 :=
  putErrorCode p.errorCode ++ toBE 4 p.partitionIndex.toUInt32.toNat ++
    toBE 4 p.leaderId.toUInt32.toNat ++ toBE 4 p.replicaNodes.toNat ++ toBE 4 p.isrNodes.toNat ++
    toBE 4 p.offlineReplicas.toNat

def TopicMetadata.encode (t : TopicMetadata) : List UInt8 :=
  putErrorCode t.errorCode ++ putString t.name ++ putList 4 PartitionMetadata.encode t.partitions

def MetadataResponse.encode (res : MetadataResponse) : List UInt8 :=
  toBE 4 res.throttleTimeMs.toNat ++ putList 4 BrokerMetadata.encode res.brokers ++
    toBE 4 res.controllerId.toUInt32.toNat ++ putList 4 TopicMetadata.encode res.topics ++
    putErrorCode res.errorCode

def FrameBody.encode : FrameBody → List UInt8
  | .produce req => req.encode
  | .produceResponse resp => resp.encode
  | .fetch req => req.encode
  | .fetchResponse resp => resp.encode
  | .metadata req => req.encode
  | .metadataResponse res => res.encode
  | .topic req => req.encode
  | .topicResponse resp => resp.encode

/-- The header and the body behind their size. -/
def Frame.encode (f : Frame) : List UInt8 :=
  let bytes := f.header.encode ++ f.body.encode
  toBE 4 bytes.length ++ bytes

end Musil.Network
