import Musil.Lib.Threaded
import Musil.Broker.Directory
import Musil.Network.Frame
import Musil.Storage.Partition

/-!
# Partitions on a broker's host

A broker runs many partition actors over one file system. Each one works in the directory whose
name its topic and its partition id give, and is reached through handles.

The code panics on a directory that cannot be opened and on a command for an actor that has ended.
-/

namespace Musil.Broker

open Network Proto Threaded
open Storage (Disk Partition PartitionActor PartitionActorConfig PartitionCommand PartitionState
  ReplicaMetadata Reply Acks)

/-- The fields of a partition's configuration that its actor uses. -/
structure PartitionConfig where
  segmentBytes : ℕ := 1 <<< 20
  replicas : List ReplicaMetadata := []
  partitionId : UInt16
  brokerId : UInt16
  baseDir : String
  topicId : String

namespace PartitionConfig

def directory (cfg : PartitionConfig) : Directory :=
  TopicPartition.directory cfg.baseDir ⟨cfg.topicId, cfg.partitionId⟩

def actorConfig (cfg : PartitionConfig) : PartitionActorConfig :=
  ⟨cfg.segmentBytes, cfg.brokerId.toNat, cfg.partitionId.toNat⟩

end PartitionConfig

/-! ### The host -/

/-- An actor with the directory it works in and the state it publishes. -/
structure Cell where
  dir : Directory
  state : PartitionState
  actor : Option PartitionActor

/-- The files of all directories, which of the openings of a partition succeed, and the actors that
were started so far, one by each opening. -/
structure Host where
  dirs : Directory → Disk
  opens : ℕ → Bool
  cells : List Cell

/-- A handle knows its id and the number of its actor. -/
structure PartitionHandle where
  id : UInt32
  actor : ℕ
  deriving DecidableEq, Repr

abbrev HostM := Panics Host

namespace Host

def partition (w : Host) (n : ℕ) : Option Partition :=
  w.cells[n]?.map fun c => ⟨w.dirs c.dir, c.state, c.actor⟩

/-- Actor `n` has left its partition as `p`. -/
def put (w : Host) (n : ℕ) (p : Partition) : Host :=
  match w.cells[n]? with
  | none => w
  | some c =>
    { w with
      dirs := Function.update w.dirs c.dir p.disk
      cells := w.cells.set n { c with state := p.state, actor := p.actor } }

end Host

namespace PartitionHandle

/-- What the actor of a new partition starts with, if its files can be opened. -/
def start (config : PartitionConfig) (w : Host) : Option Partition :=
  if w.opens w.cells.length then
    PartitionActor.new config.actorConfig config.replicas (w.dirs config.directory)
  else none

def spawn (id : UInt32) (config : PartitionConfig) : HostM PartitionHandle := do
  let w ← get
  let p ← orPanic (start config w)
  set ({ w with
    dirs := Function.update w.dirs config.directory p.disk
    cells := w.cells ++ [⟨config.directory, p.state, p.actor⟩] } : Host)
  pure ⟨id, w.cells.length⟩

/-- The actor receives the command and handles it. -/
def send (h : PartitionHandle) (c : PartitionCommand) : HostM (List Reply) := do
  let w ← get
  let p ← orPanic (w.partition h.actor)
  let _ ← orPanic p.actor
  let (p, replies) := p.handle c
  set (w.put h.actor p)
  pure replies

/-- The response to the caller `done`. -/
def answerTo (done : ℕ) (replies : List Reply) : Option Storage.ProducePartitionResponse :=
  replies.findSome? fun reply => match reply with
    | .appended d response => if d = done then some response else none
    | .truncated _ => none

def produceResponse (response : Storage.ProducePartitionResponse) : ProducePartitionResponse :=
  ⟨UInt32.ofNat response.index, .none, UInt64.ofNat response.baseOffset, 0, 0, "",
    some ⟨Int32.ofNat response.leaderId, 0⟩⟩

/-- Append a batch. While the caller waits, the actor handles the commands of others. -/
def append (h : PartitionHandle) (record : RecordBatch) (acks : Acks) (done : ℕ)
    (others : List PartitionCommand) : HostM ProducePartitionResponse := do
  let replies ← h.send (.append record acks done)
  let later ← others.mapM h.send
  let response ← orPanic (answerTo done (replies ++ later.flatten))
  pure (produceResponse response)

def fetchResponse (res : Storage.PartitionResponse) : PartitionResponse :=
  ⟨UInt32.ofNat res.partitionIndex, .none, UInt64.ofNat res.highWatermark,
    UInt64.ofNat res.logStartOffset, res.records⟩

/-- A fetch reads the published state; a replica's fetch is also reported to the actor. -/
def fetch [Crc] (h : PartitionHandle) (req : FetchPartition) (replicaId : Int32) :
    HostM PartitionResponse := do
  let p ← orPanic ((← get).partition h.actor)
  let res ← orPanic (p.state.fetch p.disk h.id.toNat ⟨req.fetchOffset, req.partitionMaxBytes⟩)
  if 0 ≤ replicaId then
    let _ ← h.send (.updateReplicaLeo replicaId.toInt.toNat res.logStartOffset)
  pure (fetchResponse res)

end PartitionHandle

end Musil.Broker
