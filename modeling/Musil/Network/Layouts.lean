import Musil.Network.Codec
import Musil.Proto.Canonical

/-!
# What the decoders need of a frame

Both decoders take what they want off the bytes of a frame and never ask how many are left. The
layouts say how many bytes a frame announces, by the lengths and counts in it, and where a decoder
leaves it with an error. A decoder returns just on the frames that hold what they announce.
-/

namespace Musil.Network

open Bytes Bytes.Reader Proto Utf8

/-! ### Parts -/

/-- A string behind its length. -/
def stringLayout : Layout := .number 2 .fixed

/-- A client id without a length is left out, and has to be a string otherwise. -/
def clientIdLayout : Layout :=
  .number 2 fun n =>
    if n < 2 ^ 15 then .block n fun b => if (fromUtf8 b).isSome then 1 else .reject else 1

/-- The checksum in the header of a batch is that of its records. -/
def ChecksumHolds [Crc] (batch : List UInt8) : Prop :=
  (Crc.crc32Iscsi (batch.drop headerSize)).toNat = ofBE (readAt batch 17 4)

instance [Crc] (batch : List UInt8) : Decidable (ChecksumHolds batch) :=
  inferInstanceAs (Decidable (_ = _))

/-- A batch needs its header whatever its length is. -/
def batchLayout [Crc] (batch : List UInt8) : Layout :=
  if batch.length < headerSize then 0 else if ChecksumHolds batch then 1 else .reject

/-! ### Requests -/

def acksLayout : Layout :=
  .number 4 fun n => if (acksOfU32 (UInt32.ofNat n)).isSome then 1 else .reject

def ProducePartition.layout [Crc] : Layout :=
  .fixed 2 * .number 4 fun n => .block n batchLayout

def ProduceTopic.layout [Crc] : Layout := stringLayout * .list 4 ProducePartition.layout

def ProduceRequest.layout [Crc] : Layout :=
  .fixed 8 * acksLayout * .fixed 8 * .list 2 ProduceTopic.layout

def FetchPartition.layout : Layout := .fixed 4 * .fixed 8 * .fixed 4 * .fixed 8

def FetchTopic.layout : Layout := stringLayout * .list 4 FetchPartition.layout

def FetchRequest.layout : Layout := .fixed 4 * .fixed 4 * .list 4 FetchTopic.layout

/-- The length of a requested topic's name is signed; a negative one asks for nearly `2 ^ 64`
bytes. -/
def topicNameLayout : Layout :=
  .number 2 fun n => .fixed (if n < 2 ^ 15 then n else n + (2 ^ 64 - 2 ^ 16))

def MetadataRequest.layout : Layout := .list 4 topicNameLayout * .fixed 1

def TopicPartitonAssignment.layout : Layout := .fixed 4 * .fixed 4

def TopicRequest.layout : Layout :=
  stringLayout * .fixed 4 * .fixed 2 * .list 2 TopicPartitonAssignment.layout

def CreateTopicRequest.layout : Layout := .list 2 TopicRequest.layout * .fixed 4 * .fixed 1

def requestLayout [Crc] : ApiKey → Layout
  | .produce => ProduceRequest.layout
  | .fetch => FetchRequest.layout
  | .metadata => MetadataRequest.layout
  | .createTopics => CreateTopicRequest.layout

/-! ### Responses -/

def BrokerMetadata.layout : Layout := .fixed 4 * stringLayout * .fixed 4

def PartitionMetadata.layout : Layout :=
  .fixed 2 * .fixed 4 * .fixed 4 * .fixed 4 * .fixed 4 * .fixed 4

def TopicMetadata.layout : Layout := .fixed 2 * stringLayout * .list 4 PartitionMetadata.layout

def MetadataResponse.layout : Layout :=
  .fixed 4 * .list 4 BrokerMetadata.layout * .fixed 4 * .list 4 TopicMetadata.layout * .fixed 2

/-- A message of a negative length is left out. -/
def errorMessageLayout : Layout :=
  .number 2 fun n => if 0 < n ∧ n < 2 ^ 15 then .fixed n else 1

def currentLeaderLayout : Layout := .number 1 fun n => if n = 0 then 1 else .fixed 4 * .fixed 4

def ProducePartitionResponse.layout : Layout :=
  .fixed 4 * .fixed 2 * .fixed 8 * .fixed 8 * .fixed 8 * errorMessageLayout * currentLeaderLayout

def ProduceTopicResponse.layout : Layout :=
  stringLayout * .list 4 ProducePartitionResponse.layout

def ProduceResponse.layout : Layout := .fixed 4 * .list 4 ProduceTopicResponse.layout

/-- A batch in a response, behind its base offset and its declared length. -/
def recordsLayout [Crc] : Layout :=
  .number 8 fun baseOffset => .number 4 fun batchLength => .block batchLength fun payload =>
    batchLayout (toBE 8 baseOffset ++ toBE 4 batchLength ++ payload)

def PartitionResponse.layout [Crc] : Layout :=
  .fixed 4 * .fixed 2 * .fixed 8 * .fixed 8 * .list 4 recordsLayout

def TopicResponse.layout [Crc] : Layout := stringLayout * .list 4 PartitionResponse.layout

def FetchResponse.layout [Crc] : Layout := .fixed 4 * .list 4 TopicResponse.layout

def CreateTopicTopicResponse.layout : Layout :=
  stringLayout * .fixed 2 * stringLayout * .fixed 4 * .fixed 2

def CreateTopicResponse.layout : Layout := .fixed 4 * .list 2 CreateTopicTopicResponse.layout

def responseLayout [Crc] : ApiKey → Layout
  | .metadata => MetadataResponse.layout
  | .produce => ProduceResponse.layout
  | .fetch => FetchResponse.layout
  | .createTopics => CreateTopicResponse.layout

/-- A header and the body for its api key. An unknown key is noticed behind the client id. -/
def frameLayout (body : ApiKey → Layout) : Layout :=
  .number 4 fun n => .fixed 4 * .fixed 4 * clientIdLayout *
    match ApiKey.ofU32 (UInt32.ofNat n) with
    | some apiKey => body apiKey
    | none => .reject

/-! ### The parsers follow the layouts -/

section Parts

variable {ε α β : Type}

lemma follows_getChars (n : ℕ) : Follows (liftM (getChars n) : Parser ε _) (.fixed n) :=
  (follows_take n).lift_map fromUtf8Lossy

lemma follows_getString : Follows (liftM getString : Parser ε _) stringLayout := by
  apply Follows.lift_number
  intro n hn
  rw [UInt16.toNat_ofNat_of_lt' hn]
  exact follows_getChars n

lemma follows_getBool : Follows (liftM getBool : Parser ε _) (.fixed 1) :=
  follows_getU8.lift_bind_pure _

lemma follows_getErrorCode : Follows (liftM getErrorCode : Parser ε _) (.fixed 2) :=
  follows_getI16.lift_bind_pure _

variable {p : Reader α} {q : Parser ε α} {f : List α → β} {L : Layout}

lemma follows_getList16 (hp : Follows (liftM p : Parser ε α) L) :
    Follows (liftM (getList16 p) : Parser ε _) (.list 2 L) := by
  apply Follows.lift_number
  intro n hn
  rw [UInt16.toNat_ofNat_of_lt' hn]
  exact hp.lift_times n

lemma follows_getList32 (hp : Follows (liftM p : Parser ε α) L) :
    Follows (liftM (getList32 p) : Parser ε _) (.list 4 L) := by
  apply Follows.lift_number
  intro n hn
  rw [UInt32.toNat_ofNat_of_lt' hn]
  exact hp.lift_times n

lemma follows_list16 (hq : Follows q L) :
    Follows (do
      let n ← getU16
      let as ← Parser.times n.toNat q
      pure (f as)) (.list 2 L) := by
  apply Follows.number
  intro n hn
  rw [UInt16.toNat_ofNat_of_lt' hn]
  exact (hq.times n).bind_pure f

lemma follows_list32 (hq : Follows q L) :
    Follows (do
      let n ← getU32
      let as ← Parser.times n.toNat q
      pure (f as)) (.list 4 L) := by
  apply Follows.number
  intro n hn
  rw [UInt32.toNat_ofNat_of_lt' hn]
  exact (hq.times n).bind_pure f

end Parts

section Signed

variable {n : ℕ}

lemma toInt_ofNat_of_ge (h : 2 ^ 15 ≤ n) (hn : n < 2 ^ 16) :
    (Int16.ofNat n).toInt = n - 2 ^ 16 := by
  rw [Int16.toInt_ofNat', Int.bmod_def, if_neg (by simp only [Int16.size]; omega)]
  simp only [Int16.size]
  omega

/-- The sign of a length is its highest bit. -/
lemma zero_le_ofNat_iff (hn : n < 2 ^ 16) : 0 ≤ Int16.ofNat n ↔ n < 2 ^ 15 := by
  rw [Int16.le_iff_toInt_le]
  rcases Nat.lt_or_ge n (2 ^ 15) with h | h
  · rw [Int16.toInt_ofNat_of_lt h]
    exact iff_of_true (Int.natCast_nonneg n) h
  · rw [toInt_ofNat_of_ge h hn]
    exact iff_of_false (by simp; omega) (Nat.not_lt.mpr h)

lemma zero_lt_ofNat_iff (hn : n < 2 ^ 16) : 0 < Int16.ofNat n ↔ 0 < n ∧ n < 2 ^ 15 := by
  rw [Int16.lt_iff_toInt_lt]
  rcases Nat.lt_or_ge n (2 ^ 15) with h | h
  · rw [Int16.toInt_ofNat_of_lt h, and_iff_left h]
    exact Int.natCast_pos
  · rw [toInt_ofNat_of_ge h hn]
    exact iff_of_false (by simp; omega) fun hlt => Nat.not_lt.mpr h hlt.2

lemma asUsize_ofNat_eq (hn : n < 2 ^ 16) :
    asUsize (Int16.ofNat n) = if n < 2 ^ 15 then n else n + (2 ^ 64 - 2 ^ 16) := by
  rw [asUsize]
  split_ifs with h
  · rw [Int16.toInt_ofNat_of_lt h]
    omega
  · rw [toInt_ofNat_of_ge (Nat.not_lt.mp h) hn]
    omega

end Signed

section Header

lemma follows_parseClientId : Follows parseClientId clientIdLayout := by
  apply Follows.getI16
  intro n hn
  simp only [zero_le_ofNat_iff hn]
  split_ifs with h
  · rw [asUsize_ofNat_eq hn, if_pos h]
    apply Follows.block
    intro b _
    cases fromUtf8 b with
    | some clientId => exact Follows.pure _
    | none => exact Follows.throw _
  · exact Follows.pure none

variable {body : ApiKey → Parser ParseError FrameBody} {L : ApiKey → Layout}

/-- Behind a header the body for its api key is parsed. -/
lemma follows_frame (size : UInt32) (hbody : ∀ k, Follows (body k) (L k)) :
    Follows (do
      let header ← parseHeader
      let b ← body header.apiKey
      pure (⟨size, header, b⟩ : Frame)) (frameLayout L) := by
  simp only [parseHeader, bind_assoc]
  apply Follows.number
  intro n _
  simp only [mul_assoc]
  apply follows_getU32.bind
  intro apiVersion
  apply follows_getU32.bind
  intro correlationId
  apply follows_parseClientId.bind
  intro clientId
  cases ApiKey.ofU32 (UInt32.ofNat n) with
  | some apiKey =>
    simp only [pure_bind]
    exact (hbody apiKey).bind_pure _
  | none =>
    exact Follows.throw_bind _ _

end Header

/-! ### Requests -/

section Requests

lemma follows_parseAcks : Follows RequestDecoder.parseAcks acksLayout := by
  apply Follows.number
  intro n _
  cases acksOfU32 (UInt32.ofNat n) with
  | some acks => exact Follows.pure acks
  | none => exact Follows.throw _

lemma checksumHolds_encode [Crc] (b : RecordBatch) :
    ChecksumHolds b.encode ↔ Crc.crc32Iscsi b.records = b.crc := by
  have hrecords : b.encode.drop headerSize = b.records := List.drop_left' b.length_encodeHeader
  let front := toBE 8 b.baseOffset.toNat ++ toBE 4 b.batchLength.toNat
    ++ toBE 4 b.partitionLeaderEpoch.toUInt32.toNat ++ [b.magic]
  obtain ⟨back, hback⟩ : ∃ back, b.encode = front ++ toBE 4 b.crc.toNat ++ back := by
    simp only [RecordBatch.encode, RecordBatch.encodeHeader, front, List.append_assoc,
      List.append_cancel_left_eq, exists_eq']
  have hcrc : readAt b.encode 17 4 = toBE 4 b.crc.toNat := by
    have hread := readAt_append front (toBE 4 b.crc.toNat) back
    simp only [front, List.length_append, length_toBE, List.length_singleton] at hread
    rw [hback]
    exact hread
  rw [ChecksumHolds, hrecords, hcrc, ofBE_toBE_of_lt b.crc.toNat_lt, UInt32.toNat_inj]

/-- A batch is decoded from its header on, and rejected for its checksum. -/
lemma follows_parseBatch [Crc] (bytes : List UInt8) :
    Follows (parseBatch bytes) (batchLayout bytes) := by
  rw [batchLayout, parseBatch]
  rcases Nat.lt_or_ge bytes.length headerSize with hlt | hge
  · rw [if_pos hlt, RecordBatch.decode_eq_none hlt]
    exact Follows.embed (fun _ => rfl) (by rintro a ⟨⟩) (by rintro e ⟨⟩)
  · obtain ⟨b, rfl⟩ := RecordBatch.exists_eq_encode hge
    rw [if_neg (Nat.not_lt.mpr hge), RecordBatch.decode_encode_eq]
    simp only [checksumHolds_encode, ne_eq, ite_not]
    split_ifs
    · exact Follows.pure b
    · exact Follows.throw _

lemma follows_parseProducePartition [Crc] :
    Follows RequestDecoder.parseProducePartition ProducePartition.layout := by
  apply follows_getU16.bind
  intro partitionId
  apply Follows.number
  intro n hn
  rw [UInt32.toNat_ofNat_of_lt' hn]
  apply Follows.block
  intro batchBytes _
  exact (follows_parseBatch batchBytes).bind_pure _

lemma follows_parseProduceTopic [Crc] :
    Follows RequestDecoder.parseProduceTopic ProduceTopic.layout :=
  follows_getString.bind fun _ => follows_list32 follows_parseProducePartition

lemma follows_parseProduce [Crc] :
    Follows RequestDecoder.parseProduce ProduceRequest.layout := by
  simp only [ProduceRequest.layout, mul_assoc]
  apply follows_getU64.bind
  intro transactionalId
  apply follows_parseAcks.bind
  intro acks
  apply follows_getU64.bind
  intro timeout
  exact follows_list16 follows_parseProduceTopic

variable {ε : Type}

lemma follows_parseFetchPartition :
    Follows (liftM RequestDecoder.parseFetchPartition : Parser ε _) FetchPartition.layout := by
  simp only [FetchPartition.layout, mul_assoc]
  apply follows_getU32.lift_bind
  intro partition
  apply follows_getU64.lift_bind
  intro fetchOffset
  apply follows_getU32.lift_bind
  intro partitionMaxBytes
  exact follows_getU64.lift_bind_pure _

lemma follows_parseFetchTopic :
    Follows (liftM RequestDecoder.parseFetchTopic : Parser ε _) FetchTopic.layout := by
  apply follows_getString.lift_bind
  intro topic
  exact (follows_getList32 follows_parseFetchPartition).lift_bind_pure _

lemma follows_parseFetch :
    Follows (liftM RequestDecoder.parseFetch : Parser ε _) FetchRequest.layout := by
  simp only [FetchRequest.layout, mul_assoc]
  apply follows_getI32.lift_bind
  intro replicaId
  apply follows_getU32.lift_bind
  intro maxBytes
  exact (follows_getList32 follows_parseFetchTopic).lift_bind_pure _

lemma follows_parseTopicName :
    Follows (liftM RequestDecoder.parseTopicName : Parser ε _) topicNameLayout := by
  apply Follows.lift_getI16
  intro n hn
  rw [asUsize_ofNat_eq hn]
  exact follows_getChars _

lemma follows_parseMetadata :
    Follows (liftM RequestDecoder.parseMetadata : Parser ε _) MetadataRequest.layout := by
  apply (follows_getList32 follows_parseTopicName).lift_bind
  intro topics
  exact follows_getBool.lift_bind_pure _

lemma follows_parseAssignment :
    Follows (liftM RequestDecoder.parseAssignment : Parser ε _) TopicPartitonAssignment.layout := by
  apply follows_getI32.lift_bind
  intro partitionIndex
  exact follows_getI32.lift_bind_pure _

lemma follows_parseTopicRequest :
    Follows (liftM RequestDecoder.parseTopicRequest : Parser ε _) TopicRequest.layout := by
  simp only [TopicRequest.layout, mul_assoc]
  apply follows_getString.lift_bind
  intro name
  apply follows_getI32.lift_bind
  intro numPartitions
  apply follows_getU16.lift_bind
  intro replicationFactor
  exact (follows_getList16 follows_parseAssignment).lift_bind_pure _

lemma follows_parseCreateTopics :
    Follows (liftM RequestDecoder.parseCreateTopics : Parser ε _) CreateTopicRequest.layout := by
  simp only [CreateTopicRequest.layout, mul_assoc]
  apply (follows_getList16 follows_parseTopicRequest).lift_bind
  intro topics
  apply follows_getU32.lift_bind
  intro timeoutMs
  exact follows_getBool.lift_bind_pure _

lemma follows_requestBody [Crc] (k : ApiKey) :
    Follows (RequestDecoder.parseBody k) (requestLayout k) := by
  cases k with
  | produce => exact follows_parseProduce.bind_pure _
  | fetch => exact follows_parseFetch.bind_pure _
  | metadata => exact follows_parseMetadata.bind_pure _
  | createTopics => exact follows_parseCreateTopics.bind_pure _

end Requests

/-! ### Responses -/

section Responses

variable {ε : Type}

lemma follows_parseBroker :
    Follows (liftM ResponseDecoder.parseBroker : Parser ε _) BrokerMetadata.layout := by
  simp only [BrokerMetadata.layout, mul_assoc]
  apply follows_getI32.lift_bind
  intro nodeId
  apply follows_getString.lift_bind
  intro host
  exact follows_getI32.lift_bind_pure _

lemma follows_parsePartitionMetadata :
    Follows (liftM ResponseDecoder.parsePartitionMetadata : Parser ε _)
      PartitionMetadata.layout := by
  simp only [PartitionMetadata.layout, mul_assoc]
  apply follows_getErrorCode.lift_bind
  intro errorCode
  apply follows_getI32.lift_bind
  intro partitionIndex
  apply follows_getI32.lift_bind
  intro leaderId
  apply follows_getU32.lift_bind
  intro replicaNodes
  apply follows_getU32.lift_bind
  intro isrNodes
  exact follows_getU32.lift_bind_pure _

lemma follows_parseTopicMetadata :
    Follows (liftM ResponseDecoder.parseTopicMetadata : Parser ε _) TopicMetadata.layout := by
  simp only [TopicMetadata.layout, mul_assoc]
  apply follows_getErrorCode.lift_bind
  intro errorCode
  apply follows_getString.lift_bind
  intro name
  exact (follows_getList32 follows_parsePartitionMetadata).lift_bind_pure _

lemma follows_parseMetadataResponse :
    Follows (liftM ResponseDecoder.parseMetadataResponse : Parser ε _) MetadataResponse.layout := by
  simp only [MetadataResponse.layout, mul_assoc]
  apply follows_getU32.lift_bind
  intro throttleTimeMs
  apply (follows_getList32 follows_parseBroker).lift_bind
  intro brokers
  apply follows_getI32.lift_bind
  intro controllerId
  apply (follows_getList32 follows_parseTopicMetadata).lift_bind
  intro topics
  exact follows_getErrorCode.lift_bind_pure _

lemma follows_parseErrorMessage :
    Follows (liftM ResponseDecoder.parseErrorMessage : Parser ε _) errorMessageLayout := by
  apply Follows.lift_getI16
  intro n hn
  simp only [zero_lt_ofNat_iff hn]
  split_ifs with h
  · rw [asUsize_ofNat_eq hn, if_pos h.2]
    exact follows_getChars n
  · exact Follows.pure ""

lemma follows_parseCurrentLeader :
    Follows (liftM ResponseDecoder.parseCurrentLeader : Parser ε _) currentLeaderLayout := by
  rw [ResponseDecoder.parseCurrentLeader, getBool, bind_assoc]
  apply Follows.lift_number
  intro n hn
  have hbyte : UInt8.ofNat n = 0 ↔ n = 0 := by
    rw [← UInt8.toNat_inj, UInt8.toNat_ofNat_of_lt' hn]
    rfl
  simp only [pure_bind, bne_iff_ne, ne_eq, hbyte, ite_not]
  split_ifs
  · exact Follows.pure none
  · refine follows_getI32.lift_bind fun leaderId => ?_
    exact follows_getU32.lift_bind_pure _

lemma follows_parseProducePartitionResponse :
    Follows (liftM ResponseDecoder.parseProducePartition : Parser ε _)
      ProducePartitionResponse.layout := by
  simp only [ProducePartitionResponse.layout, mul_assoc]
  apply follows_getU32.lift_bind
  intro index
  apply follows_getErrorCode.lift_bind
  intro errorCode
  apply follows_getU64.lift_bind
  intro baseOffset
  apply follows_getU64.lift_bind
  intro logAppendTimeMs
  apply follows_getU64.lift_bind
  intro logStartOffset
  apply follows_parseErrorMessage.lift_bind
  intro errorMessage
  exact follows_parseCurrentLeader.lift_bind_pure _

lemma follows_parseProduceTopicResponse :
    Follows (liftM ResponseDecoder.parseProduceTopic : Parser ε _) ProduceTopicResponse.layout := by
  apply follows_getString.lift_bind
  intro topic
  exact (follows_getList32 follows_parseProducePartitionResponse).lift_bind_pure _

lemma follows_parseProduceResponse :
    Follows (liftM ResponseDecoder.parseProduceResponse : Parser ε _) ProduceResponse.layout := by
  apply follows_getU32.lift_bind
  intro throttleTimeMs
  exact (follows_getList32 follows_parseProduceTopicResponse).lift_bind_pure _

lemma follows_parseRecords [Crc] : Follows ResponseDecoder.parseRecords recordsLayout := by
  apply Follows.number
  intro baseOffset hbase
  apply Follows.number
  intro batchLength hlength
  rw [UInt64.toNat_ofNat_of_lt' hbase, UInt32.toNat_ofNat_of_lt' hlength]
  exact Follows.block fun payload _ => follows_parseBatch _

lemma follows_parseFetchPartitionResponse [Crc] :
    Follows ResponseDecoder.parseFetchPartition PartitionResponse.layout := by
  simp only [PartitionResponse.layout, mul_assoc]
  apply follows_getU32.bind
  intro partitionIndex
  apply follows_getErrorCode.bind
  intro errorCode
  apply follows_getU64.bind
  intro highWatermark
  apply follows_getU64.bind
  intro logStartOffset
  exact follows_list32 follows_parseRecords

lemma follows_parseFetchTopicResponse [Crc] :
    Follows ResponseDecoder.parseFetchTopic TopicResponse.layout :=
  follows_getString.bind fun _ => follows_list32 follows_parseFetchPartitionResponse

lemma follows_parseFetchResponse [Crc] :
    Follows ResponseDecoder.parseFetchResponse FetchResponse.layout :=
  follows_getU32.bind fun _ => follows_list32 follows_parseFetchTopicResponse

lemma follows_parseTopicResponse :
    Follows (liftM ResponseDecoder.parseTopicResponse : Parser ε _)
      CreateTopicTopicResponse.layout := by
  simp only [CreateTopicTopicResponse.layout, mul_assoc]
  apply follows_getString.lift_bind
  intro name
  apply follows_getErrorCode.lift_bind
  intro errorCode
  apply follows_getString.lift_bind
  intro errorMessage
  apply follows_getI32.lift_bind
  intro numPartitions
  exact follows_getU16.lift_bind_pure _

lemma follows_parseCreateTopicsResponse :
    Follows (liftM ResponseDecoder.parseCreateTopicsResponse : Parser ε _)
      CreateTopicResponse.layout := by
  apply follows_getU32.lift_bind
  intro throttleTimeMs
  exact (follows_getList16 follows_parseTopicResponse).lift_bind_pure _

lemma follows_responseBody [Crc] (k : ApiKey) :
    Follows (ResponseDecoder.parseBody k) (responseLayout k) := by
  cases k with
  | produce => exact follows_parseProduceResponse.bind_pure _
  | fetch => exact follows_parseFetchResponse.bind_pure _
  | metadata => exact follows_parseMetadataResponse.bind_pure _
  | createTopics => exact follows_parseCreateTopicsResponse.bind_pure _

end Responses

/-! ### Frames -/

/-- The decoders return a frame or an error just on the byte strings that hold what the frame in
them announces. -/
theorem decode_ne_none_iff [Crc] (buf : List UInt8) (size : UInt32) :
    (Frame.decode buf size ≠ none ↔ (frameLayout requestLayout).Enough buf) ∧
      (Frame.decodeResponse buf size ≠ none ↔ (frameLayout responseLayout).Enough buf) :=
  ⟨(follows_frame size follows_requestBody).run_ne_none_iff buf,
    (follows_frame size follows_responseBody).run_ne_none_iff buf⟩

section Examples

local instance shortCrc : Crc := Crc.castagnoli

/-- A frame without bytes, and a metadata request for one topic with a name of length `-1`. -/
theorem decode_short : Frame.decode [] 0 = none ∧ Frame.decodeResponse [] 0 = none ∧
    Frame.decode [0, 0, 0, 3, 0, 0, 0, 0, 0, 0, 0, 0, 255, 255, 0, 0, 0, 1, 255, 255, 116, 1] 22
      = none :=
  ⟨rfl, rfl, rfl⟩

end Examples

end Musil.Network
