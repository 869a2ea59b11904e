import Musil.Lib.Groups
import Musil.Lib.Run
import Musil.Network.Size

/-!
# The producer's batcher

The producer collects the records of asynchronous commands by topic and partition, and publishes
them when they take too many bytes, when the first of them has waited too long, or at shutdown. A
synchronous command is published at once in a request of its own.

The broker is assumed to answer every request successfully.
-/

namespace Musil.Producer

open Proto Network Utf8

/-- The hash of the `murmur2` package, of bytes under a seed. -/
class Murmur2 where
  murmur2 : List UInt8 → UInt32 → UInt32

def murmur2Seed : UInt32 := 0x9747b28c

structure ProducerConfig where
  msWait : UInt64
  maxBytes : UInt32
  deriving DecidableEq, Repr

structure PublishPayload where
  topic : String
  key : Option String
  value : String
  deriving DecidableEq, Repr

/-- The record of a payload; `clock` is the system time in milliseconds. -/
def PublishPayload.toRecord (clock : UInt64) (value : PublishPayload) : Record :=
  let key := asBytes (value.key.getD "")
  let val := asBytes value.value
  Record.new clock 0 key val

inductive ProducerCommand where
  | sync (payload : PublishPayload)
  | async (payload : PublishPayload)
  | shutdown
  deriving DecidableEq, Repr

/-! ### Requests -/

/-- The records that wait, by topic and partition. -/
abbrev Batch := Groups String UInt16 Record

/-- An order in which hash maps are gone through. -/
structure IterOrder where
  topics : List ProduceTopic → List ProduceTopic
  partitions : List ProducePartition → List ProducePartition
  topics_perm : ∀ ts, (topics ts).Perm ts
  partitions_perm : ∀ ps, (partitions ps).Perm ps

/-- The order in which the maps are kept. -/
def IterOrder.asKept : IterOrder where
  topics := id
  partitions := id
  topics_perm _ := .refl _
  partitions_perm _ := .refl _

section Requests

variable [Crc]

/-- A request with the given topics; its other fields are fixed. -/
def requestFor (topics : List ProduceTopic) : ProduceRequest where
  transactionalId := 0
  acks := .leader
  timeout := ⟨10, 0, by decide⟩
  topics := topics

/-- One record batch for each topic and partition. -/
def produceRequest (order : IterOrder) (value : Batch) : ProduceRequest :=
  requestFor (order.topics (value.entries.entries.map fun t =>
    ⟨t.1, order.partitions (t.2.entries.map fun p => ⟨p.1, .fromRecords p.2⟩)⟩))

end Requests

/-! ### The actor -/

structure ProducerActor where
  metadataImage : MetadataResponse
  config : ProducerConfig

/-- What a turn of the loop takes from its surroundings: the time on a steady clock and on the
system's, both in milliseconds, and what is drawn at random. -/
structure Turn where
  now : ℕ
  clock : UInt64
  partition : ℕ
  correlationId : UInt32
  order : IterOrder

/-- One of the two branches of the loop: a command is received, or the timer fires. -/
inductive Event where
  | recv (item : ProducerCommand) (turn : Turn)
  | timer (turn : Turn)

/-- Why a request was published. -/
inductive Cause where
  | sync
  | batch
  deriving DecidableEq, Repr

/-- The variables of the loop, with the requests published so far. -/
structure Batcher where
  batch : Batch
  timer : ℕ
  timerActive : Bool
  published : List (Cause × ProduceRequest)
  returned : Bool

namespace Batcher

/-- No timer runs at first; it is set to a day after the start. -/
def start (now : ℕ) : Batcher :=
  ⟨.empty, now + 86400000, false, [], false⟩

def publishRaw (s : Batcher) (cause : Cause) (request : ProduceRequest) : Batcher :=
  { s with published := s.published ++ [(cause, request)] }

def publish [Crc] (s : Batcher) (cause : Cause) (order : IterOrder) (records : Batch) : Batcher :=
  s.publishRaw cause (produceRequest order records)

/-- Publish what is left, and return. -/
def shutdown [Crc] (s : Batcher) (order : IterOrder) : Batcher :=
  let flushed :=
    if s.batch.isEmpty then s
    else { s.publish .batch order s.batch with batch := .empty }
  { flushed with returned := true }

/-- Start the timer, unless it runs. -/
def arm (s : Batcher) (config : ProducerConfig) (now : ℕ) : Batcher :=
  if s.timerActive then s
  else { s with timer := now + config.msWait.toNat, timerActive := true }

end Batcher

namespace ProducerActor

variable [Crc] [Murmur2] (actor : ProducerActor)

omit [Crc] in
/-- The partition of a payload: by the hash of its key, or drawn at random. There is no value for
an unknown topic, which is an error that the loop unwraps, and for a topic without partitions,
where the code panics. -/
def calculateIndex (payload : PublishPayload) (drawn : ℕ) : Option UInt16 := do
  let topicMetadata ← actor.metadataImage.topics.find? fun t => t.name = payload.topic
  if topicMetadata.partitions.length = 0 then none
  else match payload.key with
    | some key =>
      some (UInt16.ofNat ((Murmur2.murmur2 (asBytes key) murmur2Seed).toNat
        % topicMetadata.partitions.length))
    | none => some (UInt16.ofNat (drawn % topicMetadata.partitions.length))

def publishOnce (s : Batcher) (payload : PublishPayload) (turn : Turn) : Option Batcher := do
  let idx ← actor.calculateIndex payload turn.partition
  pure (s.publish .sync turn.order
    (Groups.empty.push payload.topic idx (payload.toRecord turn.clock)))

/-- Add a record to the batch, and publish the batch when its frame has become too large. -/
def enqueue (s : Batcher) (payload : PublishPayload) (turn : Turn) : Option Batcher := do
  let idx ← actor.calculateIndex payload turn.partition
  let batch := s.batch.push payload.topic idx (payload.toRecord turn.clock)
  let s := { s with batch := batch }.arm actor.config turn.now
  let request := produceRequest turn.order s.batch
  let frame := Frame.new turn.correlationId .produce (.produce request)
  if actor.config.maxBytes ≤ frame.size then
    pure { s.publishRaw .batch request with timerActive := false, batch := .empty }
  else pure s

/-- One turn of the loop, or a panic. The branch of the timer is taken only while it is enabled
and after its time; once the loop has returned, nothing happens. -/
def step (s : Batcher) : Event → Option Batcher
  | .recv item turn =>
    if s.returned then some s
    else match item with
      | .sync payload => actor.publishOnce s payload turn
      | .async payload => actor.enqueue s payload turn
      | .shutdown => some (s.shutdown turn.order)
  | .timer turn =>
    if s.returned = false ∧ (s.timerActive && !s.batch.isEmpty) ∧ s.timer ≤ turn.now then
      some { s.publish .batch turn.order s.batch with batch := .empty, timerActive := false }
    else some s

/-- The state after a sequence of turns, unless one of them panics. -/
def batcher (now : ℕ) (es : List Event) : Option Batcher :=
  Run.run (fun s e => s.bind fun s => actor.step s e) (some (Batcher.start now)) es

end ProducerActor

end Musil.Producer
