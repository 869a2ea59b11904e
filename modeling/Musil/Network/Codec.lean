import Musil.Lib.Parser
import Musil.Network.Frame

/-!
# Decoding frames

One decoder for requests and one for responses. A buffer that ends inside a frame makes a decoder
panic, so there is no value; a header or a batch that is not valid makes it answer with an error.
-/

namespace Musil.Network

open Bytes Bytes.Reader Proto Utf8
open Storage (Acks)

inductive ParseError where
  | invalidApiKey
  | invalidAck
  | invalidClientId
  | invalidBatch (e : ProtoError)
  deriving DecidableEq, Repr

/-! ### Parts that both decoders read -/

/-- The characters of the next `n` bytes. -/
def getChars (n : ℕ) : Reader String :=
  fromUtf8Lossy <$> take n

/-- A string behind its length in two bytes. -/
def getString : Reader String := do
  let len ← getU16
  getChars len.toNat

/-- A negative length becomes a huge one. -/
def asUsize (n : Int16) : ℕ :=
  (n.toInt % 2 ^ 64).toNat

def getBool : Reader Bool := do
  let b ← getU8
  pure (b != 0)

def getErrorCode : Reader ErrorCode := do
  let value ← getI16
  pure (ErrorCode.ofI16OrUnknown value)

def getList16 {α : Type} (p : Reader α) : Reader (List α) := do
  let n ← getU16
  times n.toNat p

def getList32 {α : Type} (p : Reader α) : Reader (List α) := do
  let n ← getU32
  times n.toNat p

def parseClientId : Parser ParseError (Option String) := do
  let clientIdLen ← getI16
  if 0 ≤ clientIdLen then
    let bytes ← take (asUsize clientIdLen)
    match fromUtf8 bytes with
    | some clientId => pure (some clientId)
    | none => throw .invalidClientId
  else pure none

def parseHeader : Parser ParseError RequestHeader := do
  let apiKey ← getU32
  let apiVersion ← getU32
  let correlationId ← getU32
  let clientId ← parseClientId
  match ApiKey.ofU32 apiKey with
  | some apiKey => pure ⟨apiKey, apiVersion, correlationId, clientId⟩
  | none => throw .invalidApiKey

/-- The batch that the given bytes encode. -/
def parseBatch [Crc] (bytes : List UInt8) : Parser ParseError RecordBatch :=
  Parser.embed ((RecordBatch.decode bytes).map (Except.mapError .invalidBatch))

/-! ### Requests -/

namespace RequestDecoder

def parseAcks : Parser ParseError Acks := do
  let value ← getU32
  match acksOfU32 value with
  | some acks => pure acks
  | none => throw .invalidAck

def parseProducePartition [Crc] : Parser ParseError ProducePartition := do
  let partitionId ← getU16
  let batchLen ← getU32
  let batchBytes ← take batchLen.toNat
  let recordBatch ← parseBatch batchBytes
  pure ⟨partitionId, recordBatch⟩

def parseProduceTopic [Crc] : Parser ParseError ProduceTopic := do
  let topic ← getString
  let partitionLength ← getU32
  let partitions ← Parser.times partitionLength.toNat parseProducePartition
  pure ⟨topic, partitions⟩

def parseProduce [Crc] : Parser ParseError ProduceRequest := do
  let transactionalId ← getU64
  let acks ← parseAcks
  let timeout ← getU64
  let topicSize ← getU16
  let topics ← Parser.times topicSize.toNat parseProduceTopic
  pure ⟨transactionalId, acks, Duration.fromMillis timeout, topics⟩

def parseFetchPartition : Reader FetchPartition := do
  let partition ← getU32
  let fetchOffset ← getU64
  let partitionMaxBytes ← getU32
  let highWatermark ← getU64
  pure ⟨partition, fetchOffset, partitionMaxBytes, highWatermark⟩

def parseFetchTopic : Reader FetchTopic := do
  let topic ← getString
  let partitions ← getList32 parseFetchPartition
  pure ⟨topic, partitions⟩

def parseFetch : Reader FetchRequest := do
  let replicaId ← getI32
  let maxBytes ← getU32
  let topics ← getList32 parseFetchTopic
  pure ⟨replicaId, maxBytes, topics⟩

def parseTopicName : Reader String := do
  let topicNameLen ← getI16
  getChars (asUsize topicNameLen)

def parseMetadata : Reader MetadataRequest := do
  let topics ← getList32 parseTopicName
  let allowAutoTopicCreation ← getBool
  pure ⟨topics, allowAutoTopicCreation⟩

def parseAssignment : Reader TopicPartitonAssignment := do
  let partitionIndex ← getI32
  let brokerIds ← getI32
  pure ⟨partitionIndex, brokerIds⟩

def parseTopicRequest : Reader TopicRequest := do
  let name ← getString
  let numPartitions ← getI32
  let replicationFactor ← getU16
  let assignments ← getList16 parseAssignment
  pure ⟨name, numPartitions, replicationFactor, assignments⟩

def parseCreateTopics : Reader CreateTopicRequest := do
  let topics ← getList16 parseTopicRequest
  let timeoutMs ← getU32
  let validateOnly ← getBool
  pure ⟨topics, timeoutMs, validateOnly⟩

def parseBody [Crc] : ApiKey → Parser ParseError FrameBody
  | .produce => do
    let req ← parseProduce
    pure (.produce req)
  | .fetch => do
    let req ← liftM parseFetch
    pure (.fetch req)
  | .metadata => do
    let req ← liftM parseMetadata
    pure (.metadata req)
  | .createTopics => do
    let req ← liftM parseCreateTopics
    pure (.topic req)

def parse [Crc] (size : UInt32) : Parser ParseError Frame := do
  let header ← parseHeader
  let body ← parseBody header.apiKey
  pure ⟨size, header, body⟩

end RequestDecoder

/-! ### Responses -/

namespace ResponseDecoder

def parseBroker : Reader BrokerMetadata := do
  let nodeId ← getI32
  let host ← getString
  let port ← getI32
  pure ⟨nodeId, host, port⟩

def parsePartitionMetadata : Reader PartitionMetadata := do
  let errorCode ← getErrorCode
  let partitionIndex ← getI32
  let leaderId ← getI32
  let replicaNodes ← getU32
  let isrNodes ← getU32
  let offlineReplicas ← getU32
  pure ⟨errorCode, partitionIndex, leaderId, replicaNodes, isrNodes, offlineReplicas⟩

def parseTopicMetadata : Reader TopicMetadata := do
  let errorCode ← getErrorCode
  let name ← getString
  let partitions ← getList32 parsePartitionMetadata
  pure ⟨errorCode, name, partitions⟩

def parseMetadataResponse : Reader MetadataResponse := do
  let throttleTimeMs ← getU32
  let brokers ← getList32 parseBroker
  let controllerId ← getI32
  let topics ← getList32 parseTopicMetadata
  let errorCode ← getErrorCode
  pure ⟨throttleTimeMs, brokers, controllerId, topics, errorCode⟩

/-- A message without bytes is not read. -/
def parseErrorMessage : Reader String := do
  let errorMessageLen ← getI16
  if 0 < errorMessageLen then getChars (asUsize errorMessageLen) else pure ""

def parseCurrentLeader : Reader (Option CurrentLeader) := do
  let hasLeader ← getBool
  if hasLeader then
    let leaderId ← getI32
    let leaderEpoch ← getU32
    pure (some ⟨leaderId, leaderEpoch⟩)
  else pure none

def parseProducePartition : Reader ProducePartitionResponse := do
  let index ← getU32
  let errorCode ← getErrorCode
  let baseOffset ← getU64
  let logAppendTimeMs ← getU64
  let logStartOffset ← getU64
  let errorMessage ← parseErrorMessage
  let currentLeader ← parseCurrentLeader
  pure ⟨index, errorCode, baseOffset, logAppendTimeMs, logStartOffset, errorMessage, currentLeader⟩

def parseProduceTopic : Reader ProduceTopicResponse := do
  let topic ← getString
  let partitionResponses ← getList32 parseProducePartition
  pure ⟨topic, partitionResponses⟩

def parseProduceResponse : Reader ProduceResponse := do
  let throttleTimeMs ← getU32
  let responses ← getList32 parseProduceTopic
  pure ⟨throttleTimeMs, responses⟩

/-- The declared length says where the batch ends; the batch is put together again to decode it. -/
def parseRecords [Crc] : Parser ParseError RecordBatch := do
  let baseOffset ← getU64
  let batchLength ← getU32
  let payload ← take batchLength.toNat
  parseBatch (toBE 8 baseOffset.toNat ++ toBE 4 batchLength.toNat ++ payload)

def parseFetchPartition [Crc] : Parser ParseError PartitionResponse := do
  let partitionIndex ← getU32
  let errorCode ← getErrorCode
  let highWatermark ← getU64
  let logStartOffset ← getU64
  let recordsCount ← getU32
  let records ← Parser.times recordsCount.toNat parseRecords
  pure ⟨partitionIndex, errorCode, highWatermark, logStartOffset, records⟩

def parseFetchTopic [Crc] : Parser ParseError TopicResponse := do
  let topic ← getString
  let partitionsCount ← getU32
  let partitions ← Parser.times partitionsCount.toNat parseFetchPartition
  pure ⟨topic, partitions⟩

def parseFetchResponse [Crc] : Parser ParseError FetchResponse := do
  let throttleTimeMs ← getU32
  let responsesCount ← getU32
  let responses ← Parser.times responsesCount.toNat parseFetchTopic
  pure ⟨throttleTimeMs, responses⟩

def parseTopicResponse : Reader CreateTopicTopicResponse := do
  let name ← getString
  let errorCode ← getErrorCode
  let errorMessage ← getString
  let numPartitions ← getI32
  let replicationFactor ← getU16
  pure ⟨name, errorCode, errorMessage, numPartitions, replicationFactor⟩

def parseCreateTopicsResponse : Reader CreateTopicResponse := do
  let throttleTimeMs ← getU32
  let topics ← getList16 parseTopicResponse
  pure ⟨throttleTimeMs, topics⟩

def parseBody [Crc] : ApiKey → Parser ParseError FrameBody
  | .metadata => do
    let res ← liftM parseMetadataResponse
    pure (.metadataResponse res)
  | .produce => do
    let resp ← liftM parseProduceResponse
    pure (.produceResponse resp)
  | .fetch => do
    let resp ← parseFetchResponse
    pure (.fetchResponse resp)
  | .createTopics => do
    let resp ← liftM parseCreateTopicsResponse
    pure (.topicResponse resp)

def parse [Crc] (size : UInt32) : Parser ParseError Frame := do
  let header ← parseHeader
  let body ← parseBody header.apiKey
  pure ⟨size, header, body⟩

end ResponseDecoder

/-- Decode a request; the bytes that are left over are dropped by the callers. -/
def Frame.decode [Crc] (buf : List UInt8) (size : UInt32) :
    Option (Except ParseError Frame × List UInt8) :=
  (RequestDecoder.parse size).run.run buf

/-- Decode a response; the bytes that are left over are dropped by the callers. -/
def Frame.decodeResponse [Crc] (buf : List UInt8) (size : UInt32) :
    Option (Except ParseError Frame × List UInt8) :=
  (ResponseDecoder.parse size).run.run buf

end Musil.Network
