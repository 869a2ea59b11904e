import Musil.Broker.Host
import Mathlib.Data.List.AList

/-!
# Answers to fetch and produce requests

A broker finds the handle of every partition that a request names in its metadata image, and puts
the answers together in the order of the request. The image is searched under 16 bits of the
partition index, of which a fetch request has 32.
-/

namespace Musil.Broker

open Network Proto Threaded
open Storage (Partition PartitionActor PartitionCommand)

/-- The handles of all partitions. -/
structure MetadataImage where
  partitions : AList fun _ : TopicPartition => PartitionHandle

namespace MetadataImage

def empty : MetadataImage := ⟨∅⟩

def partition (image : MetadataImage) (topic : String) (partition : UInt16) :
    Option PartitionHandle :=
  image.partitions.lookup ⟨topic, partition⟩

/-- The handle registered for exactly that index. -/
def registered (image : MetadataImage) (topic : String) (index : UInt32) :
    Option PartitionHandle :=
  if index.toNat < 2 ^ 16 then image.partition topic index.toUInt16 else none

end MetadataImage

def errorFetchResponse (partitionIndex : UInt32) (errorCode : ErrorCode) : PartitionResponse :=
  ⟨partitionIndex, errorCode, 0, 0, []⟩

def errorProduceResponse (index : UInt32) (errorCode : ErrorCode) : ProducePartitionResponse :=
  ⟨index, errorCode, 0, 0, 0, "", none⟩

/-! ### The handlers -/

section Handlers

variable [Crc] (image : MetadataImage)

def fetchPartition (replicaId : Int32) (topic : String) (p : FetchPartition) :
    HostM PartitionResponse :=
  match image.partition topic p.partition.toUInt16 with
  | some partition => partition.fetch p replicaId
  | none => pure (errorFetchResponse p.partition .unknownTopicOrPartition)

def fetchTopic (replicaId : Int32) (t : FetchTopic) : HostM TopicResponse := do
  let partResponses ← t.partitions.mapM (fetchPartition image replicaId t.topic)
  pure ⟨t.topic, partResponses⟩

/-- The time that the request takes is read off a clock. -/
def handleFetch (elapsed : UInt32) (body : FetchRequest) : HostM FetchResponse := do
  let topicResponses ← body.topics.mapM (fetchTopic image body.replicaId)
  pure ⟨elapsed, topicResponses⟩

omit [Crc]

/-- The number under which an actor knows the caller of an append, and the commands of others that
the actor handles while that caller waits. -/
structure Waiting where
  done : ℕ
  others : List PartitionCommand

def producePartition (acks : Storage.Acks) (waiting : Host → TopicPartition → Waiting)
    (topic : String) (p : ProducePartition) : HostM ProducePartitionResponse :=
  match image.partition topic p.index with
  | some partition => do
    let wait := waiting (← get) ⟨topic, p.index⟩
    partition.append p.records acks wait.done wait.others
  | none => pure (errorProduceResponse p.index.toUInt32 .unknownTopicOrPartition)

def produceTopic (acks : Storage.Acks) (waiting : Host → TopicPartition → Waiting)
    (t : ProduceTopic) : HostM ProduceTopicResponse := do
  let partResponses ← t.partitions.mapM (producePartition image acks waiting t.topic)
  pure ⟨t.topic, partResponses⟩

def handleProduce (elapsed : UInt32) (waiting : Host → TopicPartition → Waiting)
    (body : ProduceRequest) : HostM ProduceResponse := do
  let topicResponses ← body.topics.mapM (produceTopic image body.acks waiting)
  pure ⟨elapsed, topicResponses⟩

end Handlers

/-! ### Right answers -/

section Answered

variable [Crc] (image : MetadataImage)

/-- The entry carries the index that was asked for, and is what the handle registered under it
returns, or the error when there is none. -/
def FetchEntry (replicaId : Int32) (topic : String) (w : Host) (p : FetchPartition)
    (res : PartitionResponse) (w' : Host) : Prop :=
  res.partitionIndex = p.partition ∧
    match image.registered topic p.partition with
    | some h => (h.fetch p replicaId).exec w = (some res, w')
    | none => res = errorFetchResponse p.partition .unknownTopicOrPartition ∧ w' = w

/-- The response has the topics and the partitions of the request in their order. -/
def FetchAnswered (req : FetchRequest) (w : Host) (resp : FetchResponse) (w' : Host) : Prop :=
  Pass (fun w t r w' => r.topic = t.topic ∧
      Pass (FetchEntry image req.replicaId t.topic) w t.partitions r.partitions w')
    w req.topics resp.responses w'

omit [Crc]

def ProduceEntry (acks : Storage.Acks) (waiting : Host → TopicPartition → Waiting) (topic : String)
    (w : Host) (p : ProducePartition) (res : ProducePartitionResponse) (w' : Host) : Prop :=
  res.index = p.index.toUInt32 ∧
    match image.registered topic p.index.toUInt32 with
    | some h => (h.append p.records acks (waiting w ⟨topic, p.index⟩).done
        (waiting w ⟨topic, p.index⟩).others).exec w = (some res, w')
    | none => res = errorProduceResponse p.index.toUInt32 .unknownTopicOrPartition ∧ w' = w

def ProduceAnswered (waiting : Host → TopicPartition → Waiting) (req : ProduceRequest) (w : Host)
    (resp : ProduceResponse) (w' : Host) : Prop :=
  Pass (fun w t r w' => r.topic = t.topic ∧
      Pass (ProduceEntry image req.acks waiting t.topic) w t.partitions r.partitionResponses w')
    w req.topics resp.responses w'

/-! ### When answers are right -/

/-- The id that a running actor puts into its responses. -/
def Host.partitionId (w : Host) (n : ℕ) : Option ℕ :=
  w.cells[n]?.bind fun c => c.actor.map fun a => a.config.partitionId

/-- A handle found for an index has that index for its id. -/
def IndexKept (topic : String) (p : FetchPartition) : Prop :=
  ∀ h ∈ image.partition topic p.partition.toUInt16,
    p.partition.toNat < 2 ^ 16 ∧ h.id = p.partition

/-- A handle found for an index leads to an actor with that id, if to any. -/
def ActorKept (w : Host) (topic : String) (p : ProducePartition) : Prop :=
  ∀ h ∈ image.partition topic p.index, ∀ id ∈ w.partitionId h.actor,
    UInt32.ofNat id = p.index.toUInt32

end Answered

/-! ### Actors keep their ids -/

section Ids

variable {w w' : Host} {h : PartitionHandle} {n id : ℕ} {c : PartitionCommand}
  {replies : List Storage.Reply}

/-- An actor that runs later has run before, with the same id. -/
def Host.Before (w w' : Host) : Prop :=
  ∀ n id, w'.partitionId n = some id → w.partitionId n = some id

lemma Host.Before.refl (w : Host) : w.Before w := fun _ _ h => h

lemma Host.Before.trans {w'' : Host} (h : w.Before w') (h' : w'.Before w'') : w.Before w'' :=
  fun n id hid => h n id (h' n id hid)

lemma handle_config {p : Partition} {a' : PartitionActor} (h : (p.handle c).1.actor = some a') :
    ∃ a, p.actor = some a ∧ a'.config = a.config := by
  cases ha : p.actor with
  | none =>
    rw [Partition.handle_of_none ha] at h
    exact absurd (h.symm.trans ha) nofun
  | some a =>
    refine ⟨a, rfl, ?_⟩
    cases c with
    | append record acks done =>
      rw [Partition.handle_append ha] at h
      rcases hp : a.active.appendBatch p.disk (PartitionActor.rebased p.state record) with
        ⟨_ | seg, d⟩
      · rw [PartitionActor.handleAppend_of_none acks done hp] at h
        cases h
      · rw [PartitionActor.handleAppend_of_some acks done hp] at h
        cases h
        rfl
    | truncate offset done =>
      rw [Partition.handle_truncate ha, PartitionActor.handleTruncate] at h
      split_ifs at h <;> cases h <;> rfl
    | updateReplicaLeo id leo =>
      rw [Partition.handle_updateReplicaLeo ha] at h
      cases h
      rfl
    | shutdown =>
      rw [Partition.handle_shutdown ha] at h
      cases h

lemma handle_index {p : Partition} {a : PartitionActor} {d : ℕ}
    {r : Storage.ProducePartitionResponse} (ha : p.actor = some a)
    (h : .appended d r ∈ (p.handle c).2) : r.index = a.config.partitionId := by
  cases c with
  | append record acks done =>
    rw [Partition.handle_append ha] at h
    rcases hp : a.active.appendBatch p.disk (PartitionActor.rebased p.state record) with
      ⟨_ | seg, d⟩
    · simp [PartitionActor.handleAppend_of_none acks done hp] at h
    · simp only [PartitionActor.handleAppend_of_some acks done hp] at h
      split_ifs at h
      · cases h
      · cases List.mem_singleton.mp h
        rfl
  | truncate offset done =>
    rw [Partition.handle_truncate ha] at h
    cases List.mem_singleton.mp h
  | updateReplicaLeo id leo =>
    rw [Partition.handle_updateReplicaLeo ha] at h
    obtain ⟨ack, -, heq⟩ := List.mem_map.mp h
    cases heq
    rfl
  | shutdown =>
    rw [Partition.handle_shutdown ha] at h
    cases h

lemma send_eq_some (hs : (h.send c).exec w = (some replies, w')) :
    ∃ p a, w.partition h.actor = some p ∧ p.actor = some a ∧ replies = (p.handle c).2 ∧
      w' = w.put h.actor (p.handle c).1 := by
  simp only [PartitionHandle.send, exec_get_bind, exec_orPanic_bind_eq_some] at hs
  obtain ⟨p, hp, a, ha, hs⟩ := hs
  cases hs
  exact ⟨p, a, hp, ha, rfl, rfl⟩

lemma partitionId_of_partition {p : Partition} (hp : w.partition n = some p) :
    w.partitionId n = p.actor.map fun a => a.config.partitionId := by
  obtain ⟨c, hc, rfl⟩ := Option.map_eq_some_iff.mp hp
  rw [Host.partitionId, hc, Option.bind_some]

lemma partitionId_put {p p' : Partition} (hp : w.partition n = some p) (m : ℕ) :
    (w.put n p').partitionId m
      = if m = n then p'.actor.map fun a => a.config.partitionId else w.partitionId m := by
  obtain ⟨c, hc, -⟩ := Option.map_eq_some_iff.mp hp
  have hlt : n < w.cells.length := (List.getElem?_eq_some_iff.mp hc).1
  simp only [Host.put, hc, Host.partitionId, List.getElem?_set, hlt, if_true]
  by_cases hm : m = n
  · rw [if_pos hm.symm, if_pos hm, Option.bind_some]
  · rw [if_neg (Ne.symm hm), if_neg hm]

lemma send_before (hs : (h.send c).exec w = (some replies, w')) : w.Before w' := by
  obtain ⟨p, a, hp, ha, -, rfl⟩ := send_eq_some hs
  intro n id hid
  rw [partitionId_put hp] at hid
  split_ifs at hid with hn
  · obtain ⟨a', ha', rfl⟩ := Option.map_eq_some_iff.mp hid
    obtain ⟨a₀, ha₀, hconfig⟩ := handle_config ha'
    rw [hn, partitionId_of_partition hp, ha₀, Option.map_some, hconfig]
  · exact hid

/-- An actor answers under its id. -/
lemma send_index (hs : (h.send c).exec w = (some replies, w')) {d : ℕ}
    {r : Storage.ProducePartitionResponse} (hr : .appended d r ∈ replies) :
    w.partitionId h.actor = some r.index := by
  obtain ⟨p, a, hp, ha, rfl, -⟩ := send_eq_some hs
  rw [partitionId_of_partition hp, ha, Option.map_some, handle_index ha hr]

lemma sends_index {cs : List PartitionCommand} {later : List (List Storage.Reply)}
    (hs : (cs.mapM h.send).exec w = (some later, w')) : w.Before w' ∧
      ∀ d r, .appended d r ∈ later.flatten → w.partitionId h.actor = some r.index := by
  have hpass := Threaded.pass_of_mapM hs
  clear hs
  induction hpass with
  | nil w => exact ⟨.refl w, fun _ _ hr => absurd hr List.not_mem_nil⟩
  | cons head _ ih =>
    have hbefore := send_before head
    refine ⟨hbefore.trans ih.1, fun d r hr => ?_⟩
    rw [List.flatten_cons] at hr
    rcases List.mem_append.mp hr with hr | hr
    · exact send_index head hr
    · exact hbefore _ _ (ih.2 d r hr)

end Ids

/-! ### Entries -/

section Entries

variable {w w₁ w₂ : Host} {h : PartitionHandle} {topic : String} {image : MetadataImage}

lemma mem_of_answerTo {done : ℕ} {replies : List Storage.Reply}
    {r : Storage.ProducePartitionResponse} (h : PartitionHandle.answerTo done replies = some r) :
    ∃ d, .appended d r ∈ replies := by
  obtain ⟨reply, hmem, hr⟩ := List.exists_of_findSome?_eq_some h
  cases reply with
  | appended d response =>
    dsimp only at hr
    split_ifs at hr
    cases hr
    exact ⟨d, hmem⟩
  | truncated d => cases hr

lemma append_index {record : RecordBatch} {acks : Storage.Acks} {done : ℕ}
    {others : List PartitionCommand} {res : ProducePartitionResponse}
    (hrun : (h.append record acks done others).exec w = (some res, w₂)) :
    w.Before w₂ ∧ ∃ id, w.partitionId h.actor = some id ∧ res.index = UInt32.ofNat id := by
  rw [PartitionHandle.append] at hrun
  obtain ⟨replies, w₁, hsend, hrun⟩ := exec_bind_eq_some.mp hrun
  obtain ⟨later, w', hlater, hrun⟩ := exec_bind_eq_some.mp hrun
  obtain ⟨response, hfound, hres⟩ := exec_orPanic_bind_eq_some.mp hrun
  cases hres
  obtain ⟨hbefore, hindex⟩ := sends_index hlater
  have hsent := send_before hsend
  refine ⟨hsent.trans hbefore, response.index, ?_, rfl⟩
  obtain ⟨d, hmem⟩ := mem_of_answerTo hfound
  rcases List.mem_append.mp hmem with hmem | hmem
  · exact send_index hsend hmem
  · exact hsent _ _ (hindex d response hmem)

lemma fetch_index [Crc] {req : FetchPartition} {replicaId : Int32} {res : PartitionResponse}
    (hrun : (h.fetch req replicaId).exec w = (some res, w₁)) :
    res.partitionIndex = h.id ∧ res.errorCode = .none := by
  rw [PartitionHandle.fetch] at hrun
  simp only [exec_get_bind, exec_orPanic_bind_eq_some] at hrun
  obtain ⟨p, -, r, hfetch, hres⟩ := hrun
  obtain ⟨records, rfl⟩ := Storage.PartitionState.fetch_eq_some hfetch
  split_ifs at hres
  · obtain ⟨_, _, -, hres⟩ := exec_bind_eq_some.mp hres
    cases hres
    exact ⟨UInt32.ofNat_toNat, rfl⟩
  · cases hres
    exact ⟨UInt32.ofNat_toNat, rfl⟩

lemma registered_of_lt {index : UInt32} (h : index.toNat < 2 ^ 16) :
    image.registered topic index = image.partition topic index.toUInt16 :=
  if_pos h

lemma registered_toUInt32 (index : UInt16) :
    image.registered topic index.toUInt32 = image.partition topic index := by
  have hlt : index.toUInt32.toNat < 2 ^ 16 := index.toNat_lt
  rw [registered_of_lt hlt, UInt16.toUInt16_toUInt32]

/-- An entry of a fetch is right only if the index was not cut off. -/
lemma fetchEntry_agree [Crc] {replicaId : Int32} {p : FetchPartition} {res : PartitionResponse}
    (hrun : (fetchPartition image replicaId topic p).exec w = (some res, w₁))
    (hentry : FetchEntry image replicaId topic w p res w₂) :
    IndexKept image topic p ∧ w₁ = w₂ := by
  obtain ⟨hindex, hentry⟩ := hentry
  rw [fetchPartition] at hrun
  cases hfind : image.partition topic p.partition.toUInt16 with
  | none =>
    rw [hfind] at hrun
    cases hrun
    refine ⟨fun h hh => absurd (hfind.symm.trans hh) nofun, ?_⟩
    have hnone : image.registered topic p.partition = none := by
      rw [MetadataImage.registered, hfind, ite_self]
    rw [hnone] at hentry
    exact hentry.2.symm
  | some h =>
    rw [hfind] at hrun
    obtain ⟨hid, hcode⟩ := fetch_index hrun
    by_cases hlt : p.partition.toNat < 2 ^ 16
    · rw [registered_of_lt hlt, hfind] at hentry
      refine ⟨fun h' hh' => ?_, ?_⟩
      · cases hfind.symm.trans hh'
        exact ⟨hlt, hid.symm.trans hindex⟩
      · exact (Prod.mk.inj (hrun.symm.trans hentry)).2
    · rw [MetadataImage.registered, if_neg hlt] at hentry
      rw [hentry.1] at hcode
      cases hcode

lemma fetchEntry_of_indexKept [Crc] {replicaId : Int32} {p : FetchPartition}
    {res : PartitionResponse} (hkept : IndexKept image topic p)
    (hrun : (fetchPartition image replicaId topic p).exec w = (some res, w₁)) :
    FetchEntry image replicaId topic w p res w₁ := by
  rw [fetchPartition] at hrun
  cases hfind : image.partition topic p.partition.toUInt16 with
  | none =>
    rw [hfind] at hrun
    cases hrun
    refine ⟨rfl, ?_⟩
    rw [MetadataImage.registered, hfind, ite_self]
    exact ⟨rfl, rfl⟩
  | some h =>
    rw [hfind] at hrun
    obtain ⟨hlt, hid⟩ := hkept h hfind
    refine ⟨(fetch_index hrun).1.trans hid, ?_⟩
    rw [registered_of_lt hlt, hfind]
    exact hrun

/-- An entry of a produce request is right only if the actor has the id that was asked for. -/
lemma produceEntry_agree {acks : Storage.Acks} {waiting : Host → TopicPartition → Waiting}
    {w₀ : Host} {p : ProducePartition} {res : ProducePartitionResponse} (hbefore : w₀.Before w)
    (hrun : (producePartition image acks waiting topic p).exec w = (some res, w₁))
    (hentry : ProduceEntry image acks waiting topic w p res w₂) :
    ActorKept image w₀ topic p ∧ w₁ = w₂ ∧ w₀.Before w₁ := by
  obtain ⟨hindex, hentry⟩ := hentry
  rw [registered_toUInt32] at hentry
  rw [producePartition] at hrun
  cases hfind : image.partition topic p.index with
  | none =>
    rw [hfind] at hrun hentry
    cases hrun
    exact ⟨fun h hh => absurd (hfind.symm.trans hh) nofun, hentry.2.symm, hbefore⟩
  | some h =>
    rw [hfind] at hrun hentry
    dsimp only at hrun
    rw [exec_get_bind] at hrun
    obtain ⟨hlater, id, hid, hres⟩ := append_index hrun
    refine ⟨fun h' hh' id' hid' => ?_, ?_, hbefore.trans hlater⟩
    · cases hfind.symm.trans hh'
      cases (hbefore _ _ hid).symm.trans hid'
      exact hres.symm.trans hindex
    · exact (Prod.mk.inj (hrun.symm.trans hentry)).2

lemma produceEntry_of_actorKept {acks : Storage.Acks} {waiting : Host → TopicPartition → Waiting}
    {w₀ : Host} {p : ProducePartition} {res : ProducePartitionResponse} (hbefore : w₀.Before w)
    (hkept : ActorKept image w₀ topic p)
    (hrun : (producePartition image acks waiting topic p).exec w = (some res, w₁)) :
    ProduceEntry image acks waiting topic w p res w₁ ∧ w₀.Before w₁ := by
  rw [producePartition] at hrun
  rw [ProduceEntry, registered_toUInt32]
  cases hfind : image.partition topic p.index with
  | none =>
    rw [hfind] at hrun
    cases hrun
    exact ⟨⟨rfl, rfl, rfl⟩, hbefore⟩
  | some h =>
    rw [hfind] at hrun
    dsimp only at hrun
    rw [exec_get_bind] at hrun
    obtain ⟨hlater, id, hid, hres⟩ := append_index hrun
    exact ⟨⟨hres.trans (hkept h hfind id (hbefore _ _ hid)), hrun⟩, hbefore.trans hlater⟩

end Entries

/-! ### Responses -/

section Responses

variable {w w' : Host} {image : MetadataImage}

lemma fetchAnswered_iff [Crc] {elapsed : UInt32} {req : FetchRequest} {resp : FetchResponse}
    (hrun : (handleFetch image elapsed req).exec w = (some resp, w')) :
    FetchAnswered image req w resp w' ↔
      ∀ t ∈ req.topics, ∀ p ∈ t.partitions, IndexKept image t.topic p := by
  obtain ⟨responses, rfl, hpass⟩ := pass_of_mapM_bind hrun
  constructor
  · intro hanswered
    refine (hpass.forall_of_agree (I := fun _ => True) trivial ?_ hanswered).1
    intro w _ t r w₁ w₂ ht hr
    obtain ⟨parts, rfl, hparts⟩ := pass_of_mapM_bind ht
    refine hparts.forall_of_agree (I := fun _ => True) trivial ?_ hr.2
    intro w _ p res w₁ w₂ hp hentry
    obtain ⟨hkept, heq⟩ := fetchEntry_agree hp hentry
    exact ⟨hkept, heq, trivial⟩
  · intro hkept
    refine (hpass.mono (I := fun _ => True) trivial ?_).1
    intro w _ t ht r w₁ hr
    obtain ⟨parts, rfl, hparts⟩ := pass_of_mapM_bind hr
    refine ⟨⟨rfl, ?_⟩, trivial⟩
    refine (hparts.mono (I := fun _ => True) trivial ?_).1
    exact fun w _ p hp res w₁ hrun => ⟨fetchEntry_of_indexKept (hkept t ht p hp) hrun, trivial⟩

lemma produceAnswered_iff {elapsed : UInt32} {waiting : Host → TopicPartition → Waiting}
    {req : ProduceRequest} {resp : ProduceResponse}
    (hrun : (handleProduce image elapsed waiting req).exec w = (some resp, w')) :
    ProduceAnswered image waiting req w resp w' ↔
      ∀ t ∈ req.topics, ∀ p ∈ t.partitions, ActorKept image w t.topic p := by
  obtain ⟨responses, rfl, hpass⟩ := pass_of_mapM_bind hrun
  constructor
  · intro hanswered
    refine (hpass.forall_of_agree (I := w.Before) (.refl w) ?_ hanswered).1
    intro w₀ hw₀ t r w₁ w₂ ht hr
    obtain ⟨parts, rfl, hparts⟩ := pass_of_mapM_bind ht
    exact hparts.forall_of_agree hw₀ (fun _ hw _ _ _ _ hp hentry => produceEntry_agree hw hp hentry)
      hr.2
  · intro hkept
    refine (hpass.mono (I := w.Before) (.refl w) ?_).1
    intro w₀ hw₀ t ht r w₁ hr
    obtain ⟨parts, rfl, hparts⟩ := pass_of_mapM_bind hr
    obtain ⟨hentries, hw₁⟩ := hparts.mono hw₀ fun _ hw p hp _ _ hrun =>
      produceEntry_of_actorKept hw (hkept t ht p hp) hrun
    exact ⟨⟨rfl, hentries⟩, hw₁⟩

/-- A response answers what was asked for exactly if every handle found in the image has the index
that was asked for: 16 bits of it for a fetch, the id of its actor for a produce request. -/
theorem answers_iff [Crc] (image : MetadataImage) (w w' : Host) (elapsed : UInt32) :
    (∀ req resp, (handleFetch image elapsed req).exec w = (some resp, w') →
      (FetchAnswered image req w resp w' ↔
        ∀ t ∈ req.topics, ∀ p ∈ t.partitions, IndexKept image t.topic p)) ∧
    ∀ waiting req resp, (handleProduce image elapsed waiting req).exec w = (some resp, w') →
      (ProduceAnswered image waiting req w resp w' ↔
        ∀ t ∈ req.topics, ∀ p ∈ t.partitions, ActorKept image w t.topic p) :=
  ⟨fun _ _ hrun => fetchAnswered_iff hrun, fun _ _ _ hrun => produceAnswered_iff hrun⟩

end Responses

/-! ### Two requests -/

section Examples

local instance : Crc := Crc.castagnoli

/-- A topic with one partition, to which one record was appended. -/
def orders : Option PartitionHandle × Host :=
  Panics.exec (do
    let h ← PartitionHandle.spawn 0
      { partitionId := 0, brokerId := 1, baseDir := "data", topicId := "orders" }
    let _ ← h.append (.single 7) .leader 0 []
    pure h) ⟨fun _ => ⟨1 <<< 20, ∅⟩, fun _ => true, []⟩

def ordersImage : MetadataImage :=
  ⟨AList.singleton ⟨"orders", 0⟩ (orders.1.get (by decide +kernel))⟩

/-- A request for one partition of the topic. -/
def ordersRequest (partition : UInt32) : FetchRequest :=
  ⟨-1, 1024, [⟨"orders", [⟨partition, 0, 1024, 0⟩]⟩]⟩

def ordersResponse (partition : UInt32) : Option FetchResponse × Host :=
  (handleFetch ordersImage 0 (ordersRequest partition)).exec orders.2

lemma ordersResponse_isSome :
    (ordersResponse 0).1.isSome ∧ (ordersResponse 65536).1.isSome := by
  decide +kernel

theorem answers_registered : ∃ resp w', ordersResponse 0 = (some resp, w') ∧
    FetchAnswered ordersImage (ordersRequest 0) orders.2 resp w' := by
  obtain ⟨resp, hresp⟩ := Option.isSome_iff_exists.mp ordersResponse_isSome.1
  have hrun : ordersResponse 0 = (some resp, (ordersResponse 0).2) := by rw [← hresp]
  refine ⟨resp, _, hrun, ((answers_iff ordersImage orders.2 _ 0).1 _ resp hrun).mpr ?_⟩
  simp only [ordersRequest, List.forall_mem_singleton]
  intro h hh
  have hid : (ordersImage.partition "orders" 0).map PartitionHandle.id = some 0 := by decide +kernel
  refine ⟨by decide, ?_⟩
  rw [show ordersImage.partition "orders" 0 = some h from hh] at hid
  exact Option.some.inj hid

/-- The request for partition 65536 is answered with the record in partition 0. -/
theorem answers_not_registered : ∃ resp w', ordersResponse 65536 = (some resp, w') ∧
    resp.responses.map (fun t => t.partitions.map fun p => (p.partitionIndex, p.records.length))
      = [[(0, 1)]] ∧
    ¬ FetchAnswered ordersImage (ordersRequest 65536) orders.2 resp w' := by
  obtain ⟨resp, hresp⟩ := Option.isSome_iff_exists.mp ordersResponse_isSome.2
  have hrun : ordersResponse 65536 = (some resp, (ordersResponse 65536).2) := by rw [← hresp]
  refine ⟨resp, _, hrun, ?_, ?_⟩
  · have hentries : (ordersResponse 65536).1.map (fun r => r.responses.map fun t =>
        t.partitions.map fun p => (p.partitionIndex, p.records.length)) = some [[(0, 1)]] := by
      decide +kernel
    rw [hresp] at hentries
    exact Option.some.inj hentries
  · rw [fetchAnswered_iff hrun]
    intro h
    simp only [ordersRequest, List.forall_mem_singleton] at h
    obtain ⟨handle, hhandle⟩ := Option.isSome_iff_exists.mp
      (show (ordersImage.partition "orders" 0).isSome by decide +kernel)
    exact absurd (h handle hhandle).1 (by decide)

end Examples

end Musil.Broker
