import Musil.Lib.Paused
import Musil.Broker.Dispatch

/-!
# Handlers among other tasks

The connections share one broker, and every connection has a task of its own. A handler is carried
out in pieces: between two of them other handlers and the actors of the partitions go on. A command
for a partition waits in the mail until its actor gets to it, and the handler of an append waits for
the answer to that append. The metadata actor handles one request at a time.

What a handler returns answers its request, whatever the others do in between.
-/

namespace Musil.Broker

open Network Proto Threaded
open Storage (Partition PartitionCommand PartitionState Reply)

/-- The broker, the commands that have not been handled yet with the numbers of their actors, the
number of commands so far, the answers of all actors, and whether the metadata actor is at work. -/
structure Shared where
  broker : BrokerState
  mail : List (ℕ × PartitionCommand)
  issued : ℕ
  replies : List Reply
  busy : Bool

abbrev Handler := Paused Shared

namespace Shared

/-- A broker that has no request to handle. -/
def idle (b : BrokerState) : Shared := ⟨b, [], 0, [], false⟩

def runs (s : Shared) (n : ℕ) : Bool :=
  ((s.broker.host.partition n).bind Partition.actor).isSome

/-- Actor `n` handles the next command in its mail. An actor that has ended takes no notice. -/
def work (s : Shared) (n : ℕ) : Shared :=
  match s.mail.find? fun m => m.1 = n with
  | none => s
  | some (_, c) =>
    let (replies, host) := ((⟨0, n⟩ : PartitionHandle).send c).exec s.broker.host
    { s with
      broker := { s.broker with host := host }
      mail := s.mail.eraseP fun m => m.1 = n
      replies := s.replies ++ replies.getD [] }

/-- The metadata actor has panicked. -/
def endMetadata (s : Shared) : Shared :=
  { s with broker := { s.broker with metadata := none }, busy := false }

end Shared

namespace Handler

/-- A computation on the host. -/
def onHost {α : Type} (x : HostM α) : Panics Shared α := do
  let s ← get
  let (a, host) := x.exec s.broker.host
  set ({ s with broker := { s.broker with host := host } } : Shared)
  orPanic a

/-- The handle of a partition in the current image. -/
def partition (topic : String) (index : UInt16) : Handler (Option PartitionHandle) :=
  .once do
    let s ← get
    pure (s.broker.image.partition topic index)

/-! ### Partitions -/

/-- Send a command, which is known by its number. It is a panic that the actor has ended. -/
def send (h : PartitionHandle) (c : ℕ → PartitionCommand) : Handler ℕ :=
  .once do
    let s ← get
    orPanic (if s.runs h.actor then some () else none)
    set { s with mail := s.mail ++ [(h.actor, c s.issued)], issued := s.issued + 1 }
    pure s.issued

/-- Wait for the answer to command `done`. It is a panic that the actor ends without one. -/
def answered (h : PartitionHandle) (done : ℕ) : Handler Storage.ProducePartitionResponse :=
  .upon (fun s => (PartitionHandle.answerTo done s.replies).isSome || !s.runs h.actor) do
    let s ← get
    orPanic (PartitionHandle.answerTo done s.replies)

def append (h : PartitionHandle) (record : RecordBatch) (acks : Storage.Acks) :
    Handler ProducePartitionResponse := do
  let done ← send h (.append record acks)
  let response ← answered h done
  pure (PartitionHandle.produceResponse response)

/-- The state is loaded, and then the files behind it are read, to which an actor may have written
more by then. -/
def fetch [Crc] (h : PartitionHandle) (req : FetchPartition) (replicaId : Int32) :
    Handler PartitionResponse := do
  let state ← .once do
    let s ← get
    orPanic ((s.broker.host.partition h.actor).map Partition.state)
  let res ← .once do
    let s ← get
    orPanic ((s.broker.host.partition h.actor).bind fun p =>
      state.fetch p.disk h.id.toNat ⟨req.fetchOffset, req.partitionMaxBytes⟩)
  if 0 ≤ replicaId then
    let _ ← send h fun _ => .updateReplicaLeo replicaId.toInt.toNat res.logStartOffset
  pure (PartitionHandle.fetchResponse res)

/-! ### The handlers -/

section Handlers

variable [Crc]

def fetchPartition (replicaId : Int32) (topic : String) (p : FetchPartition) :
    Handler PartitionResponse := do
  match ← partition topic p.partition.toUInt16 with
  | some h => fetch h p replicaId
  | none => pure (errorFetchResponse p.partition .unknownTopicOrPartition)

def fetchTopic (replicaId : Int32) (t : FetchTopic) : Handler TopicResponse := do
  let partResponses ← t.partitions.mapM (fetchPartition replicaId t.topic)
  pure ⟨t.topic, partResponses⟩

def handleFetch (elapsed : UInt32) (body : FetchRequest) : Handler FetchResponse := do
  let topicResponses ← body.topics.mapM (fetchTopic body.replicaId)
  pure ⟨elapsed, topicResponses⟩

omit [Crc]

def producePartition (acks : Storage.Acks) (topic : String) (p : ProducePartition) :
    Handler ProducePartitionResponse := do
  match ← partition topic p.index with
  | some h => append h p.records acks
  | none => pure (errorProduceResponse p.index.toUInt32 .unknownTopicOrPartition)

def produceTopic (acks : Storage.Acks) (t : ProduceTopic) : Handler ProduceTopicResponse := do
  let partResponses ← t.partitions.mapM (producePartition acks t.topic)
  pure ⟨t.topic, partResponses⟩

def handleProduce (elapsed : UInt32) (body : ProduceRequest) : Handler ProduceResponse := do
  let topicResponses ← body.topics.mapM (produceTopic body.acks)
  pure ⟨elapsed, topicResponses⟩

/-- The image is loaded once, and then the state of one partition after the other. -/
def handleMetadata (order : MetadataOrder) (brokers : List BrokerConfig) (elapsed : UInt32) :
    Handler MetadataResponse := do
  let image ← .once do
    let s ← get
    pure s.broker.image
  let topics ← (order.partitions image.partitions.entries).foldlM
    (fun topics e => .once (onHost (notePartition topics e))) ∅
  pure (metadataResponse order brokers elapsed topics)

end Handlers

/-! ### The metadata actor -/

section Create

variable [Crc] (actor : MetadataActor) (clock : Host → UInt64)

/-- Write one record after the other, each with the time on the clock. -/
def persist : List MetadataRecord → Handler Unit
  | [] => pure ()
  | r :: rs => do
    let now ← .once do
      let s ← get
      pure (clock s.broker.host)
    let _ ← append actor.handle
      (MetadataActor.metadataBatch now r MetadataActor.initialEpoch) .none
    persist rs

/-- Start the new partitions and publish the image that has them. An actor that no image and no
handler has a handle of any more gets no commands: whether it has ended makes no difference. -/
def publish (req : CreateTopicRequest) : Handler Unit :=
  .once do
    let s ← get
    let next ← onHost (MetadataImage.createTopics actor.path (MetadataActor.topicRecords req)
      s.broker.image)
    modify fun s => { s with broker := { s.broker with image := next }, busy := false }

def create (elapsed : UInt32) (req : CreateTopicRequest) : Handler CreateTopicResponse := do
  persist actor clock (req.topics.flatMap MetadataActor.records)
  publish actor req
  pure ⟨elapsed, req.topics.map MetadataActor.response⟩

omit actor

/-- Wait until the metadata actor takes the request on, unless it has ended. -/
def acquire : Handler (Option MetadataActor) :=
  .upon (fun s => s.broker.metadata.isNone || !s.busy) do
    let s ← get
    set { s with busy := s.broker.metadata.isSome }
    pure s.broker.metadata

def handleCreateTopics (elapsed : UInt32) (req : CreateTopicRequest) :
    Handler (Except IoError CreateTopicResponse) := do
  match ← acquire with
  | none => pure (.error .brokenPipe)
  | some actor =>
    match ← (create actor clock elapsed req).attempt Shared.endMetadata with
    | none => pure (.error .brokenPipe)
    | some response => pure (.ok response)

end Create

/-- Hand a request to its handler. -/
def handle [Crc] (brokers : List BrokerConfig) (env : Readings) (req : Frame) :
    Handler (Except HandleError Frame) :=
  match req.body with
  | .fetch body => do
    let res ← handleFetch env.elapsed body
    pure (.ok (fetchFrame req.header res))
  | .produce body => do
    let res ← handleProduce env.elapsed body
    pure (.ok (produceFrame req.header res))
  | .metadata _ => do
    let res ← handleMetadata env.order brokers env.elapsed
    pure (.ok (metadataFrame req.header res))
  | .topic body => do
    match ← handleCreateTopics env.clock env.elapsed body with
    | .ok res => pure (.ok (createTopicsFrame req.header res))
    | .error e => pure (.error (.io e))
  | _ => pure (.error .unsupportedFrameType)

/-! ### The handlers answer -/

section Answers

variable [Crc] {elapsed : UInt32}

lemma mirrors_fetch {req : FetchRequest} {resp : FetchResponse}
    (h : (handleFetch elapsed req).Gives resp) : Mirrors (.fetch req) (.fetchResponse resp) := by
  obtain ⟨responses, hresponses, h⟩ := Paused.gives_bind.mp h
  obtain rfl := Paused.gives_pure.mp h
  refine hresponses.forall₂.imp fun t r hr => ?_
  obtain ⟨parts, hparts, hr⟩ := Paused.gives_bind.mp hr
  obtain rfl := Paused.gives_pure.mp hr
  exact ⟨rfl, hparts.forall₂.length_eq⟩

omit [Crc] in
lemma errorMessage_append {h : PartitionHandle} {record : RecordBatch} {acks : Storage.Acks}
    {res : ProducePartitionResponse} (hres : (append h record acks).Gives res) :
    res.errorMessage = "" := by
  obtain ⟨done, -, hres⟩ := Paused.gives_bind.mp hres
  obtain ⟨response, -, hres⟩ := Paused.gives_bind.mp hres
  obtain rfl := Paused.gives_pure.mp hres
  rfl

omit [Crc] in
lemma mirrors_produce {req : ProduceRequest} {resp : ProduceResponse}
    (h : (handleProduce elapsed req).Gives resp) :
    Mirrors (.produce req) (.produceResponse resp) := by
  obtain ⟨responses, hresponses, h⟩ := Paused.gives_bind.mp h
  obtain rfl := Paused.gives_pure.mp h
  refine hresponses.forall₂.imp fun t r hr => ?_
  obtain ⟨parts, hparts, hr⟩ := Paused.gives_bind.mp hr
  obtain rfl := Paused.gives_pure.mp hr
  refine ⟨rfl, hparts.forall₂.imp fun p res hres => ?_⟩
  obtain ⟨found, -, hres⟩ := Paused.gives_bind.mp hres
  cases found with
  | none =>
    obtain rfl := Paused.gives_pure.mp hres
    rfl
  | some handle => exact errorMessage_append hres

lemma mirrors_create {clock : Host → UInt64} {req : CreateTopicRequest}
    {resp : CreateTopicResponse} (h : (handleCreateTopics clock elapsed req).Gives (.ok resp)) :
    Mirrors (.topic req) (.topicResponse resp) := by
  obtain ⟨found, -, h⟩ := Paused.gives_bind.mp h
  cases found with
  | none => cases Paused.gives_pure.mp h
  | some actor =>
    obtain ⟨outcome, houtcome, h⟩ := Paused.gives_bind.mp h
    cases outcome with
    | none => cases Paused.gives_pure.mp h
    | some response =>
      cases Paused.gives_pure.mp h
      obtain ⟨-, -, hcreate⟩ := Paused.gives_bind.mp houtcome.of_attempt
      obtain ⟨-, -, hcreate⟩ := Paused.gives_bind.mp hcreate
      obtain rfl := Paused.gives_pure.mp hcreate
      rfl

/-- What a handler returns without an error answers the request, whatever others do meanwhile. -/
lemma handle_answers {brokers : List BrokerConfig} {env : Readings} {req res : Frame}
    (h : (handle brokers env req).Gives (.ok res)) : Answers req res := by
  obtain ⟨size, header, body⟩ := req
  cases body with
  | fetch body =>
    obtain ⟨resp, hresp, h⟩ := Paused.gives_bind.mp h
    cases Paused.gives_pure.mp h
    exact ⟨rfl, mirrors_fetch hresp, .fetch header resp⟩
  | produce body =>
    obtain ⟨resp, hresp, h⟩ := Paused.gives_bind.mp h
    cases Paused.gives_pure.mp h
    exact ⟨rfl, mirrors_produce hresp, .produce header resp⟩
  | metadata body =>
    obtain ⟨resp, -, h⟩ := Paused.gives_bind.mp h
    cases Paused.gives_pure.mp h
    exact ⟨rfl, trivial, .metadata header resp⟩
  | topic body =>
    obtain ⟨outcome, houtcome, h⟩ := Paused.gives_bind.mp h
    cases outcome with
    | error e => cases Paused.gives_pure.mp h
    | ok response =>
      cases Paused.gives_pure.mp h
      exact ⟨rfl, mirrors_create houtcome, .createTopics header response⟩
  | produceResponse | fetchResponse | metadataResponse | topicResponse =>
    cases Paused.gives_pure.mp h

end Answers

end Handler

end Musil.Broker
