import Musil.Lib.Run
import Musil.Broker.Failure

/-!
# A broker from one start to the next

A broker handles requests for new topics until its process ends; with the process all actors end.
The next one starts from the files. What is seen of the host in between are the states after each
append to the metadata log and after each start of a partition.
-/

namespace Musil.Broker

open Network Proto Threaded Run
open Storage (PartitionCommand)

/-! ### One partition after the other -/

namespace MetadataImage

/-- Every partition with its topic. -/
def withTopics (ts : List (TopicRecord × List PartitionRecord)) :
    List (TopicRecord × PartitionRecord) :=
  ts.flatMap fun t => t.2.map fun p => (t.1, p)

/-- The key of a partition. -/
def key (t : TopicRecord × PartitionRecord) : TopicPartition :=
  ⟨t.1.name, t.2.partitionId⟩

def createPartitions (path : String) :
    List (TopicRecord × PartitionRecord) → MetadataImage → HostM MetadataImage
  | [], image => pure image
  | t :: ts, image => do
    let handle ← PartitionHandle.spawn t.2.partitionId.toUInt32 (config path t.1 t.2)
    createPartitions path ts (image.insert (key t) handle)

variable {path : String}

lemma createTopic_bind {topic : TopicRecord} {ps : List PartitionRecord}
    {ts : List (TopicRecord × PartitionRecord)} (image : MetadataImage) :
    (image.createTopic path topic ps >>= createPartitions path ts) =
      image.createPartitions path (ps.map (fun p => (topic, p)) ++ ts) := by
  induction ps generalizing image with
  | nil => exact pure_bind _ _
  | cons p ps ih =>
    rw [createTopic, bind_assoc]
    exact congrArg _ (funext fun handle => ih _)

/-- Topics are created one partition after the other. -/
lemma createTopics_eq (ts : List (TopicRecord × List PartitionRecord)) (image : MetadataImage) :
    image.createTopics path ts = image.createPartitions path (withTopics ts) := by
  induction ts generalizing image with
  | nil => rfl
  | cons t ts ih =>
    rw [createTopics, withTopics, List.flatMap_cons, ← createTopic_bind]
    exact congrArg _ (funext fun next => ih next)

end MetadataImage

/-! ### Events -/

namespace MetadataActor

/-- The first part of a start: open the metadata log and read the topics that it lists. -/
def listed (path : String) (order : TopicOrder) :
    HostM (PartitionHandle × List (TopicRecord × List PartitionRecord)) := do
  let handle ← PartitionHandle.spawn 0 (config path)
  let p ← orPanic ((← get).partition handle.actor)
  let batches ← orPanic (segmentBatches p)
  let records ← orPanic (batches.mapM metadataRecord)
  pure (handle, order.topics ((records.filterMap id).foldl note []))

lemma new_eq (path : String) (order : TopicOrder) : new path order = (do
    let r ← listed path order
    let snapshot ← MetadataImage.createTopics path r.2 .empty
    modify fun w => w.release (r.1.actor :: snapshot.actors)
    pure (⟨path, r.1⟩, snapshot)) := by
  simp only [new, listed, bind_assoc, pure_bind]

end MetadataActor

/-- What a broker goes through: a start of its process, or a request for new topics. -/
inductive BrokerEvent where
  | start (order : TopicOrder)
  | create (clock : Host → UInt64) (elapsed : UInt32) (req : CreateTopicRequest)

namespace BrokerState

variable [Crc] (path : String)

/-- A process ends, and the next one starts on the same path. -/
def restart (b : BrokerState) (order : TopicOrder) : BrokerState :=
  match (MetadataActor.new path order).exec (b.host.release []) with
  | (some (actor, image), w) => ⟨image, some actor, w⟩
  | (none, w) => ⟨.empty, none, w.release []⟩

def step (b : BrokerState) : BrokerEvent → BrokerState
  | .start order => b.restart path order
  | .create clock elapsed req => (b.handleCreateTopics clock elapsed req).2

section Create

variable {path} {b : BrokerState} {actor : MetadataActor} {clock : Host → UInt64}
  {elapsed : UInt32} {req : CreateTopicRequest} {w : Host}

lemma step_create_of_ended (hended : b.metadata = none) :
    b.step path (.create clock elapsed req) = b := by
  rw [step, handleCreateTopics, hended]

lemma step_create {image : MetadataImage} {res : CreateTopicResponse}
    (hactor : b.metadata = some actor)
    (hrun : (actor.create clock b.image elapsed req).exec b.host = (some (image, res), w)) :
    b.step path (.create clock elapsed req) = ⟨image, some actor, w⟩ := by
  simp only [step, handleCreateTopics, hactor, hrun]

lemma step_create_of_panic (hactor : b.metadata = some actor)
    (hrun : (actor.create clock b.image elapsed req).exec b.host = (none, w)) :
    b.step path (.create clock elapsed req) = ⟨b.image, none, w.release b.image.actors⟩ := by
  simp only [step, handleCreateTopics, hactor, hrun]

end Create

/-- The partitions that a request asks for, each with its topic. -/
def requested (req : CreateTopicRequest) : List (TopicRecord × PartitionRecord) :=
  MetadataImage.withTopics (MetadataActor.topicRecords req)

/-- The host at some moment of an event. -/
inductive Moment (b : BrokerState) : BrokerEvent → Host → Prop
  | before (e : BrokerEvent) : Moment b e b.host
  | listed (order : TopicOrder) :
      Moment b (.start order) ((MetadataActor.listed path order).exec (b.host.release [])).2
  | started {order : TopicOrder} {handle : PartitionHandle}
      {topics : List (TopicRecord × List PartitionRecord)} {w : Host}
      {ts : List (TopicRecord × PartitionRecord)}
      (hlisted : (MetadataActor.listed path order).exec (b.host.release []) =
        (some (handle, topics), w))
      (hts : ts <+: MetadataImage.withTopics topics) :
      Moment b (.start order) ((MetadataImage.empty.createPartitions path ts).exec w).2
  | written {actor : MetadataActor} {clock : Host → UInt64} {elapsed : UInt32}
      {req : CreateTopicRequest} {rs : List MetadataRecord} (hactor : b.metadata = some actor)
      (hrs : rs <+: req.topics.flatMap MetadataActor.records) :
      Moment b (.create clock elapsed req) ((actor.persist clock rs).exec b.host).2
  | created {actor : MetadataActor} {clock : Host → UInt64} {elapsed : UInt32}
      {req : CreateTopicRequest} {w : Host} {ts : List (TopicRecord × PartitionRecord)}
      (hactor : b.metadata = some actor)
      (hwritten : (actor.persist clock (req.topics.flatMap MetadataActor.records)).exec b.host =
        (some (), w))
      (hts : ts <+: requested req) :
      Moment b (.create clock elapsed req)
        ((b.image.createPartitions actor.path ts).exec w).2
  | after (e : BrokerEvent) : Moment b e (b.step path e).host

end BrokerState

/-! ### What happens to the cells -/

namespace Host

/-- The cells are those of before, in the same directories, and no actor has come to life. -/
def Thinner (w w' : Host) : Prop :=
  List.Forall₂ (fun c c' => c'.dir = c.dir ∧ (c'.actor.isSome → c.actor.isSome)) w.cells w'.cells

lemma Thinner.refl (w : Host) : Thinner w w :=
  List.forall₂_same.mpr fun _ _ => ⟨rfl, id⟩

lemma Thinner.trans {w w' w'' : Host} (h : Thinner w w') (h' : Thinner w' w'') : Thinner w w'' := by
  refine List.forall₂_iff_get.mpr ⟨h.length_eq.trans h'.length_eq, fun n hn hn'' => ?_⟩
  have hn' := h.length_eq ▸ hn
  obtain ⟨hdir, hlive⟩ := (List.forall₂_iff_get.mp h).2 n hn hn'
  obtain ⟨hdir', hlive'⟩ := (List.forall₂_iff_get.mp h').2 n hn' hn''
  exact ⟨hdir'.trans hdir, hlive ∘ hlive'⟩

lemma thinner_release (w : Host) (kept : List ℕ) : Thinner w (w.release kept) := by
  refine List.forall₂_iff_get.mpr ⟨List.length_mapIdx.symm, fun n hn hn' => ?_⟩
  simp only [release, List.get_eq_getElem, List.getElem_mapIdx]
  split
  · exact ⟨rfl, id⟩
  · exact ⟨rfl, nofun⟩

/-- A partition that is put back into a live cell. -/
lemma thinner_put {w : Host} {n : ℕ} {p q : Storage.Partition} (hp : w.partition n = some p)
    (hlive : p.actor.isSome) : Thinner w (w.put n q) := by
  obtain ⟨c, hc, rfl⟩ := Option.map_eq_some_iff.mp hp
  obtain ⟨hn, rfl⟩ := List.getElem?_eq_some_iff.mp hc
  rw [put, hc]
  refine List.forall₂_iff_get.mpr ⟨List.length_set.symm, fun m hm hm' => ?_⟩
  simp only [List.get_eq_getElem, List.getElem_set]
  split
  · subst m
    exact ⟨rfl, fun _ => hlive⟩
  · exact ⟨rfl, id⟩

lemma partition_put {w : Host} {n : ℕ} {p q : Storage.Partition} (hp : w.partition n = some p) :
    (w.put n q).partition n = some q := by
  obtain ⟨c, hc, -⟩ := Option.map_eq_some_iff.mp hp
  rw [put, hc, partition, List.getElem?_set_self (List.getElem?_eq_some_iff.mp hc).1]
  simp

/-- The host after a partition has been started. -/
def add (w : Host) (dir : Directory) (p : Storage.Partition) : Host :=
  { w with dirs := Function.update w.dirs dir p.disk, cells := w.cells ++ [⟨dir, p.state, p.actor⟩] }

lemma cell_add (w : Host) (dir : Directory) (p : Storage.Partition) :
    (w.add dir p).cells[w.cells.length]? = some ⟨dir, p.state, p.actor⟩ :=
  List.getElem?_concat_length

lemma partition_add (w : Host) (dir : Directory) (p : Storage.Partition) :
    (w.add dir p).partition w.cells.length = some p := by
  rw [partition, cell_add]
  simp only [add, Option.map_some, Function.update_self]

end Host

section Commands

variable {w : Host} {h : PartitionHandle}

lemma spawn_exec (id : UInt32) (config : PartitionConfig) (w : Host) :
    (PartitionHandle.spawn id config).exec w = match PartitionHandle.start config w with
      | none => (none, w)
      | some p => (some ⟨id, w.cells.length⟩, w.add config.directory p) := by
  rw [PartitionHandle.spawn, exec_get_bind, exec_bind, exec_orPanic]
  cases PartitionHandle.start config w <;> rfl

lemma send_exec {p p' : Storage.Partition} {a : Storage.PartitionActor} {c : PartitionCommand}
    {out : List Storage.Reply} (hp : w.partition h.actor = some p) (ha : p.actor = some a)
    (hhandle : p.handle c = (p', out)) :
    (h.send c).exec w = (some out, w.put h.actor p') := by
  rw [PartitionHandle.send, exec_get_bind, hp]
  simp only [exec_bind, exec_orPanic, ha, hhandle]
  rfl

lemma thinner_send (c : PartitionCommand) : w.Thinner ((h.send c).exec w).2 := by
  rw [PartitionHandle.send, exec_get_bind]
  cases hp : w.partition h.actor with
  | none => exact .refl w
  | some p =>
    cases ha : p.actor with
    | none =>
      refine exec_bind_related (fun _ _ _ => .trans) (.refl w) fun q w₁ hq => ?_
      cases hq
      simp only [ha]
      exact .refl w
    | some a =>
      refine exec_bind_related (fun _ _ _ => .trans) (.refl w) fun q w₁ hq => ?_
      cases hq
      simp only [ha]
      exact Host.thinner_put hp (Option.isSome_of_mem ha)

variable [Crc] {actor : MetadataActor} {clock : Host → UInt64}

lemma thinner_append (record : MetadataRecord) :
    w.Thinner ((actor.append clock record).exec w).2 := by
  rw [MetadataActor.append, exec_get_bind]
  refine exec_bind_related (fun _ _ _ => .trans) ?_ fun _ w₁ _ => .refl w₁
  refine exec_bind_related (fun _ _ _ => .trans) (thinner_send _) fun _ w₁ _ => ?_
  refine exec_bind_related (fun _ _ _ => .trans) (.refl w₁) fun _ w₂ hlater => ?_
  refine exec_bind_related (fun _ _ _ => .trans) (.refl w₂) fun _ w₃ _ => .refl w₃

lemma thinner_persist (actor : MetadataActor) (clock : Host → UInt64) (rs : List MetadataRecord) :
    w.Thinner ((actor.persist clock rs).exec w).2 := by
  induction rs generalizing w with
  | nil => exact .refl w
  | cons r rs ih =>
    exact exec_bind_related (fun _ _ _ => .trans) (thinner_append r) fun _ _ _ => ih

end Commands

end Musil.Broker
