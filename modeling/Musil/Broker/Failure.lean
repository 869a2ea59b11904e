import Musil.Broker.MetadataActor

/-!
# Failures while topics are created

When the files of a new partition cannot be opened, the metadata actor panics: it has written the
records of the topics by then, it never handles another command, and the connection that waits for
its answer panics as well.
-/

namespace Musil.Broker

open Network Proto Threaded

/-- The broker's image and host, and the metadata actor while its task runs. -/
structure BrokerState where
  image : MetadataImage
  metadata : Option MetadataActor
  host : Host

/-- The error of a channel whose other end is gone. -/
inductive IoError where
  | brokenPipe
  deriving DecidableEq, Repr

namespace BrokerState

/-- Hand a request to the metadata actor and wait for its answer. When the actor panics, it takes
the handles of its log and of the new partitions with it. -/
def handleCreateTopics [Crc] (b : BrokerState) (clock : Host → UInt64) (elapsed : UInt32)
    (req : CreateTopicRequest) : Except IoError CreateTopicResponse × BrokerState :=
  match b.metadata with
  | none => (.error .brokenPipe, b)
  | some actor =>
    match (actor.create clock b.image elapsed req).exec b.host with
    | (some (image, response), host) => (.ok response, ⟨image, some actor, host⟩)
    | (none, host) => (.error .brokenPipe, ⟨b.image, none, host.release b.image.actors⟩)

/-- The metadata log as its files have it. -/
def metadataLog (b : BrokerState) (path : String) : AList fun _ : ℕ => Storage.SegmentFile :=
  (b.host.dirs (MetadataActor.config path).directory).files

end BrokerState

/-- A connection writes the response; an error from the broker is a panic. -/
def Connection.respond {α : Type} : Except IoError α → Option α
  | .ok response => some response
  | .error _ => none

/-! ### All or nothing -/

/-- A request from broker state `b` to `b'` leaves the log and the image as they were and the actor
serving, and its connection writes a response with an error code. -/
structure AllOrNothing (path : String) (b b' : BrokerState) (response : Option CreateTopicResponse) :
    Prop where
  log : b'.metadataLog path = b.metadataLog path
  image : b'.image = b.image
  serving : b'.metadata.isSome
  answered : ∃ r ∈ response, ∃ t ∈ r.topics, t.errorCode ≠ .none

/-- One of the openings that the request needs fails. -/
def FailsToOpen (b : BrokerState) (req : CreateTopicRequest) : Prop :=
  ∃ k < ((MetadataActor.topicRecords req).flatMap Prod.snd).length,
    b.host.opens (b.host.cells.length + k) = false

section Panics

variable {w w' : Host} {h : PartitionHandle} {path : String} {image image' : MetadataImage}

/-- The openings from the current one on succeed, one for each of `n` partitions. -/
def Opened (w w' : Host) (n : ℕ) : Prop :=
  (∀ k < n, w.opens (w.cells.length + k) = true) ∧ w'.opens = w.opens ∧
    w'.cells.length = w.cells.length + n

lemma Opened.refl (w : Host) : Opened w w 0 :=
  ⟨fun _ hk => absurd hk (Nat.not_lt_zero _), rfl, rfl⟩

lemma Opened.trans {w'' : Host} {m n : ℕ} (h : Opened w w' m) (h' : Opened w' w'' n) :
    Opened w w'' (m + n) := by
  obtain ⟨hopen, hopens, hlength⟩ := h
  obtain ⟨hopen', hopens', hlength'⟩ := h'
  refine ⟨fun k hk => ?_, hopens'.trans hopens, by rw [hlength', hlength, Nat.add_assoc]⟩
  rcases Nat.lt_or_ge k m with hlt | hge
  · exact hopen k hlt
  · have hlater := hopen' (k - m) (by omega)
    rwa [hopens, hlength, Nat.add_assoc, Nat.add_sub_cancel' hge] at hlater

lemma spawn_opened {id : UInt32} {config : PartitionConfig}
    (hrun : (PartitionHandle.spawn id config).exec w = (some h, w')) : Opened w w' 1 := by
  simp only [PartitionHandle.spawn, exec_get_bind, exec_orPanic_bind_eq_some] at hrun
  obtain ⟨p, hp, hrun⟩ := hrun
  cases hrun
  refine ⟨fun k hk => ?_, rfl, List.length_append⟩
  by_contra hclosed
  rw [Nat.lt_one_iff.mp hk, Nat.add_zero] at hclosed
  rw [PartitionHandle.start, if_neg hclosed] at hp
  cases hp

/-- A topic is created only if all its partitions can be opened. -/
lemma createTopic_opened {topic : TopicRecord} {ps : List PartitionRecord}
    (hrun : (image.createTopic path topic ps).exec w = (some image', w')) :
    Opened w w' ps.length := by
  induction ps generalizing image w with
  | nil =>
    cases hrun
    exact .refl _
  | cons p ps ih =>
    obtain ⟨handle, w₁, hspawn, hrest⟩ := exec_bind_eq_some.mp hrun
    rw [List.length_cons, Nat.add_comm]
    exact (spawn_opened hspawn).trans (ih hrest)

lemma createTopics_opened {ts : List (TopicRecord × List PartitionRecord)}
    (hrun : (image.createTopics path ts).exec w = (some image', w')) :
    Opened w w' (ts.flatMap Prod.snd).length := by
  induction ts generalizing image w with
  | nil =>
    cases hrun
    exact .refl _
  | cons t ts ih =>
    obtain ⟨next, w₁, htopic, hrest⟩ := exec_bind_eq_some.mp hrun
    rw [List.flatMap_cons, List.length_append]
    exact (createTopic_opened htopic).trans (ih hrest)

/-- Nothing is opened by a command to an actor. -/
lemma send_opened {c : Storage.PartitionCommand} {replies : List Storage.Reply}
    (hrun : (h.send c).exec w = (some replies, w')) : Opened w w' 0 := by
  obtain ⟨p, a, -, -, -, rfl⟩ := send_eq_some hrun
  refine ⟨fun _ hk => absurd hk (Nat.not_lt_zero _), ?_, ?_⟩ <;> rw [Host.put] <;> split
  · rfl
  · rfl
  · rfl
  · exact List.length_set

lemma append_opened {record : RecordBatch} {acks : Storage.Acks} {done : ℕ}
    {res : ProducePartitionResponse}
    (hrun : (h.append record acks done []).exec w = (some res, w')) : Opened w w' 0 := by
  obtain ⟨replies, w₁, hsend, hrun⟩ := exec_bind_eq_some.mp hrun
  obtain ⟨later, w₂, hlater, hrun⟩ := exec_bind_eq_some.mp hrun
  obtain ⟨response, -, hres⟩ := exec_orPanic_bind_eq_some.mp hrun
  cases hlater
  cases hres
  exact send_opened hsend

lemma persist_opened [Crc] {actor : MetadataActor} {clock : Host → UInt64}
    {rs : List MetadataRecord} {u : Unit}
    (hrun : (actor.persist clock rs).exec w = (some u, w')) : Opened w w' 0 := by
  induction rs generalizing w with
  | nil =>
    cases hrun
    exact .refl _
  | cons r rs ih =>
    obtain ⟨_, w₁, happend, hrest⟩ := exec_bind_eq_some.mp hrun
    rw [MetadataActor.append, exec_get_bind] at happend
    obtain ⟨_, w₂, happend, hunit⟩ := exec_bind_eq_some.mp happend
    cases hunit
    exact (append_opened happend).trans (ih hrest)

lemma create_opened [Crc] {actor : MetadataActor} {clock : Host → UInt64} {elapsed : UInt32}
    {req : CreateTopicRequest} {r : MetadataImage × CreateTopicResponse}
    (hrun : (actor.create clock image elapsed req).exec w = (some r, w')) :
    ∀ k < ((MetadataActor.topicRecords req).flatMap Prod.snd).length,
      w.opens (w.cells.length + k) = true := by
  obtain ⟨_, w₁, hpersist, hrun⟩ := exec_bind_eq_some.mp hrun
  obtain ⟨next, w₂, hcreate, -⟩ := exec_bind_eq_some.mp hrun
  have hopened := (persist_opened hpersist).trans (createTopics_opened hcreate)
  rw [Nat.zero_add] at hopened
  exact hopened.1

end Panics

/-- When an opening fails, the metadata actor ends and the connection panics. -/
lemma handleCreateTopics_of_failsToOpen [Crc] {b : BrokerState} (clock : Host → UInt64)
    (elapsed : UInt32) {req : CreateTopicRequest} (hfails : FailsToOpen b req) :
    (b.handleCreateTopics clock elapsed req).1 = .error .brokenPipe ∧
      (b.handleCreateTopics clock elapsed req).2.metadata = none := by
  rw [BrokerState.handleCreateTopics]
  cases hactor : b.metadata with
  | none => exact ⟨rfl, hactor⟩
  | some actor =>
    rcases hrun : (actor.create clock b.image elapsed req).exec b.host with ⟨_ | r, w⟩
    · simp only [hrun, and_self]
    · obtain ⟨k, hk, hclosed⟩ := hfails
      rw [create_opened hrun k hk] at hclosed
      cases hclosed

/-- A request that meets a failure is never all or nothing: nobody serves later requests, and the
connection panics instead of writing an error code. -/
theorem not_allOrNothing [Crc] (b : BrokerState) (path : String) (clock : Host → UInt64)
    (elapsed : UInt32) (req : CreateTopicRequest) (hfails : FailsToOpen b req) :
    ¬ AllOrNothing path b (b.handleCreateTopics clock elapsed req).2
      (Connection.respond (b.handleCreateTopics clock elapsed req).1) := by
  obtain ⟨herror, hended⟩ := handleCreateTopics_of_failsToOpen clock elapsed hfails
  intro h
  have hserving := h.serving
  rw [hended] at hserving
  cases hserving

/-! ### A request that meets a failure -/

section Examples

local instance : Crc := Crc.castagnoli

/-- A broker that has just been started on an empty directory; only the first `n` openings of a
partition succeed. -/
def started (n : ℕ) : BrokerState :=
  match (MetadataActor.new "data" .asKept).exec ⟨fun _ => ⟨1 <<< 20, ∅⟩, fun k => k < n, []⟩ with
  | (some (actor, image), w) => ⟨image, some actor, w⟩
  | (none, w) => ⟨.empty, none, w⟩

/-- A request for one topic with one partition. -/
def ordersTopic : CreateTopicRequest := ⟨[⟨"orders", 1, 1, []⟩], 0, false⟩

/-- The outcome of the request when the partition of the topic cannot be opened. -/
def ordersOutcome : Except IoError CreateTopicResponse × BrokerState :=
  (started 1).handleCreateTopics (fun _ => 0) 0 ordersTopic

lemma failsToOpen_orders : FailsToOpen (started 1) ordersTopic :=
  ⟨0, by decide +kernel, by decide +kernel⟩

theorem not_allOrNothing_orders : ¬ AllOrNothing "data" (started 1) ordersOutcome.2
    (Connection.respond ordersOutcome.1) :=
  not_allOrNothing (started 1) "data" (fun _ => 0) 0 ordersTopic failsToOpen_orders

/-- The log has the records of the topic, and nobody answers. -/
theorem allOrNothing_not_orders : FailsToOpen (started 1) ordersTopic ∧
    (started 1).metadata.isSome ∧ ordersOutcome.2.metadata = none ∧
    ((started 1).metadataLog "data").lookup 0 ≠ (ordersOutcome.2.metadataLog "data").lookup 0 ∧
    Connection.respond ordersOutcome.1 = none ∧
    ¬ AllOrNothing "data" (started 1) ordersOutcome.2 (Connection.respond ordersOutcome.1) := by
  refine ⟨failsToOpen_orders, by decide +kernel, by decide +kernel, by decide +kernel,
    by decide +kernel, fun h => ?_⟩
  exact absurd h.serving (by decide +kernel)

end Examples

end Musil.Broker
