import Musil.Broker.Answers
import Musil.Broker.MetadataRecord

/-!
# The metadata actor

The metadata actor creates topics. It writes a record for every topic and partition to a log of its
own, starts the new partitions, and publishes the image that has them. When it is started, it reads
the records back from the first segment of its log.
-/

namespace Musil.Broker

open Network Proto Threaded
open Storage (Partition SegmentFile SegmentView)

/-! ### The image -/

namespace MetadataImage

def insert (image : MetadataImage) (key : TopicPartition) (handle : PartitionHandle) :
    MetadataImage :=
  ⟨image.partitions.insert key handle⟩

def keys (image : MetadataImage) : List TopicPartition :=
  image.partitions.keys

/-- The numbers of the actors that the image has handles of. -/
def actors (image : MetadataImage) : List ℕ :=
  image.partitions.entries.map fun e => e.2.actor

/-- The configuration of a topic's partition. -/
def config (path : String) (topic : TopicRecord) (p : PartitionRecord) : PartitionConfig where
  baseDir := path
  partitionId := p.partitionId
  brokerId := p.leader.toUInt32.toUInt16
  topicId := topic.name

def createTopic (path : String) (topic : TopicRecord) :
    List PartitionRecord → MetadataImage → HostM MetadataImage
  | [], image => pure image
  | p :: ps, image => do
    let handle ← PartitionHandle.spawn p.partitionId.toUInt32 (config path topic p)
    createTopic path topic ps (image.insert ⟨topic.name, p.partitionId⟩ handle)

def createTopics (path : String) :
    List (TopicRecord × List PartitionRecord) → MetadataImage → HostM MetadataImage
  | [], image => pure image
  | (topic, ps) :: ts, image => do
    let image ← image.createTopic path topic ps
    createTopics path ts image

end MetadataImage

/-- The actors without a handle end. -/
def Host.release (w : Host) (kept : List ℕ) : Host :=
  { w with cells := w.cells.mapIdx fun n c => if n ∈ kept then c else { c with actor := none } }

/-! ### Starting -/

/-- The actor with the handle of its log. -/
structure MetadataActor where
  path : String
  handle : PartitionHandle
  deriving DecidableEq, Repr

/-- An order in which the hash map of the topics that were read back is gone through. -/
structure TopicOrder where
  topics : List (TopicRecord × List PartitionRecord) → List (TopicRecord × List PartitionRecord)
  topics_perm : ∀ ts, (topics ts).Perm ts

/-- The order of their first records. -/
def TopicOrder.asKept : TopicOrder where
  topics := id
  topics_perm _ := .refl _

/-- All batches of a segment; no value when one cannot be decoded. -/
def fetchAll (v : SegmentView) (f : SegmentFile) : Option (List RecordBatch) :=
  (v.batchesFrom f 0).batches.mapM id

namespace MetadataActor

def config (path : String) : PartitionConfig where
  baseDir := path
  partitionId := 0
  brokerId := 0
  topicId := "__cluster-metadata"

/-- The batches of the first segment. -/
def segmentBatches (p : Partition) : Option (List RecordBatch) :=
  match p.state.segments.head? with
  | none => some []
  | some v => fetchAll v (p.disk.file v.baseOffset)

/-- The metadata record in the first record of a batch, if it is one. -/
def metadataRecord (batch : RecordBatch) : Option (Option MetadataRecord) := do
  let (record, _) ← Record.decode.run batch.records
  MetadataRecord.decode record.value

/-- Note a record: a topic once, and a partition with its topic. -/
def note (topics : List (TopicRecord × List PartitionRecord)) :
    MetadataRecord → List (TopicRecord × List PartitionRecord)
  | .topic t => if topics.any fun e => e.1.name = t.name then topics else topics ++ [(t, [])]
  | .partition p => topics.map fun e => if e.1.name = p.topicId then (e.1, e.2 ++ [p]) else e

/-- Start the actor. -/
def new (path : String) (order : TopicOrder) : HostM (MetadataActor × MetadataImage) := do
  let handle ← PartitionHandle.spawn 0 (config path)
  let p ← orPanic ((← get).partition handle.actor)
  let batches ← orPanic (segmentBatches p)
  let records ← orPanic (batches.mapM metadataRecord)
  let topics := order.topics ((records.filterMap id).foldl note [])
  let snapshot ← MetadataImage.createTopics path topics .empty
  modify fun w => w.release (handle.actor :: snapshot.actors)
  pure (⟨path, handle⟩, snapshot)

/-! ### Creating topics -/

def metadataBatch [Crc] (now : UInt64) (record : MetadataRecord) (epoch : Int32) : RecordBatch :=
  { RecordBatch.fromRecords [Record.new now 0 [] record.encode] with partitionLeaderEpoch := epoch }

def initialEpoch : Int32 := 0

/-- The partitions that a request asks for; their ids are cut to 16 bits. -/
def partitionRecords (t : TopicRequest) : List PartitionRecord :=
  (List.range t.numPartitions.toInt.toNat).map fun p => ⟨t.name, UInt16.ofNat p, [], 0⟩

/-- The records of a topic, in the order in which they are written. -/
def records (t : TopicRequest) : List MetadataRecord :=
  .topic ⟨t.name⟩ :: (partitionRecords t).map .partition

def response (t : TopicRequest) : CreateTopicTopicResponse :=
  ⟨t.name, .none, "", t.numPartitions, t.replicationFactor⟩

section Create

variable [Crc] (actor : MetadataActor) (clock : Host → UInt64)

/-- Append one record to the metadata log, with the time on the clock. -/
def append (record : MetadataRecord) : HostM Unit := do
  let now := clock (← get)
  let _ ← actor.handle.append (metadataBatch now record initialEpoch) .none 0 []

/-- Write the records of the topics one after the other. -/
def persist : List MetadataRecord → HostM Unit
  | [] => pure ()
  | r :: rs => do
    append actor clock r
    persist rs

/-- The topics of a request with their partitions. -/
def topicRecords (req : CreateTopicRequest) : List (TopicRecord × List PartitionRecord) :=
  req.topics.map fun t => (⟨t.name⟩, partitionRecords t)

/-- Handle a request. Once the new image is published, nothing refers to the old one. -/
def create (image : MetadataImage) (elapsed : UInt32) (req : CreateTopicRequest) :
    HostM (MetadataImage × CreateTopicResponse) := do
  persist actor clock (req.topics.flatMap records)
  let next ← MetadataImage.createTopics actor.path (topicRecords req) image
  modify fun w => w.release (actor.handle.actor :: next.actors)
  pure (next, ⟨elapsed, req.topics.map response⟩)

end Create

end MetadataActor

end Musil.Broker
