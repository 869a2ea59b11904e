import Musil.Lib.Groups
import Musil.Broker.Restart

/-!
# Answers to metadata requests

A broker lists the partitions of its image by topic. The image and the list are hash maps, so
neither the topics nor the partitions of a topic come in a fixed order. Topics that are requested
again and restarts leave the partitions of every topic without a gap.
-/

namespace Musil.Broker

open Network Proto Threaded Run
open Storage (PartitionState ReplicaMetadata)

/-- The fields of a broker's configuration that it tells its clients. -/
structure BrokerConfig where
  nodeId : Int32
  host : String
  port : Int32
  deriving DecidableEq

def BrokerConfig.toMetadata (config : BrokerConfig) : BrokerMetadata :=
  ⟨config.nodeId, config.host, config.port⟩

/-- Replicas are in sync when they are built, and the code never changes that. -/
def isInSync (_ : ReplicaMetadata) : Bool := true

/-- An order in which the hash maps are gone through. -/
structure MetadataOrder where
  partitions : List (Σ _ : TopicPartition, PartitionHandle) →
    List (Σ _ : TopicPartition, PartitionHandle)
  topics : List TopicMetadata → List TopicMetadata
  partitions_perm : ∀ es, (partitions es).Perm es
  topics_perm : ∀ ts, (topics ts).Perm ts

/-- The order in which the maps are kept. -/
def MetadataOrder.asKept : MetadataOrder where
  partitions := id
  topics := id
  partitions_perm _ := .refl _
  topics_perm _ := .refl _

/-! ### The handler -/

def partitionMetadata (key : TopicPartition) (state : PartitionState) : PartitionMetadata :=
  let counts : UInt32 × UInt32 := state.replicas.foldl (fun (isr, offline) replica =>
    if isInSync replica then (isr + 1, offline) else (isr, offline + 1)) (0, 0)
  { errorCode := .none
    partitionIndex := Int32.ofNat key.partitionId.toNat
    leaderId := 0
    replicaNodes := UInt32.ofNat state.replicas.length
    isrNodes := counts.1
    offlineReplicas := counts.2 }

abbrev TopicPartitions := AList fun _ : String => List PartitionMetadata

/-- Note one partition of the image with its topic. -/
def notePartition (topics : TopicPartitions) (e : Σ _ : TopicPartition, PartitionHandle) :
    HostM TopicPartitions := do
  let p ← orPanic ((← get).partition e.2.actor)
  pure (topics.pushAt e.1.topicId (partitionMetadata e.1 p.state))

def metadataResponse (order : MetadataOrder) (brokers : List BrokerConfig) (elapsed : UInt32)
    (topics : TopicPartitions) : MetadataResponse where
  throttleTimeMs := elapsed
  brokers := brokers.map BrokerConfig.toMetadata
  controllerId := 0
  topics := order.topics (topics.entries.map fun t => ⟨.none, t.1, t.2⟩)
  errorCode := .none

/-- The request is not looked at: the answer lists all topics. -/
def handleMetadata (order : MetadataOrder) (brokers : List BrokerConfig) (elapsed : UInt32)
    (image : MetadataImage) : HostM MetadataResponse := do
  let topics ← (order.partitions image.partitions.entries).foldlM notePartition ∅
  pure (metadataResponse order brokers elapsed topics)

/-! ### What is listed -/

/-- The answer has the topics of the image, each once, and with them their partitions, each once. -/
structure Lists (resp : MetadataResponse) (image : MetadataImage) : Prop where
  names : (resp.topics.map (·.name)).Nodup
  topics : ∀ q ∈ image.keys, ∃ t ∈ resp.topics, t.name = q.topicId
  partitions : ∀ t ∈ resp.topics, ∃ ids : List UInt16,
    t.partitions.map (·.partitionIndex) = ids.map (fun i => Int32.ofNat i.toNat) ∧
      ids ≠ [] ∧ ids.Nodup ∧ ∀ i, i ∈ ids ↔ ⟨t.name, i⟩ ∈ image.keys
  replicas : ∀ t ∈ resp.topics, ∀ p ∈ t.partitions,
    p.isrNodes = p.replicaNodes ∧ p.offlineReplicas = 0

/-- The state that an actor publishes. -/
def Host.stateOf (w : Host) (n : ℕ) : PartitionState :=
  ((w.partition n).map (·.state)).getD (.new [])

/-- The partitions of the entries, by topic. -/
def noted (w : Host) (es : List (Σ _ : TopicPartition, PartitionHandle)) : TopicPartitions :=
  es.foldl (fun ts e => ts.pushAt e.1.topicId (partitionMetadata e.1 (w.stateOf e.2.actor))) ∅

/-- The actors that the image has handles of have been started on the host. -/
def Host.Has (w : Host) (image : MetadataImage) : Prop :=
  ∀ e ∈ image.partitions.entries, e.2.actor < w.cells.length

section Handler

variable {w : Host} {image : MetadataImage} {es : List (Σ _ : TopicPartition, PartitionHandle)}

lemma partitionMetadata_counts (key : TopicPartition) (state : PartitionState) :
    (partitionMetadata key state).isrNodes = (partitionMetadata key state).replicaNodes ∧
      (partitionMetadata key state).offlineReplicas = 0 := by
  have hfold : ∀ (replicas : List ReplicaMetadata) (isr offline : UInt32),
      replicas.foldl (fun (c : UInt32 × UInt32) replica =>
        if isInSync replica then (c.1 + 1, c.2) else (c.1, c.2 + 1)) (isr, offline)
          = (isr + UInt32.ofNat replicas.length, offline) := by
    intro replicas
    induction replicas with
    | nil => simp
    | cons r rs ih =>
      intro isr offline
      rw [List.foldl_cons, isInSync, if_pos rfl, ih, List.length_cons, UInt32.ofNat_add]
      congr 1
      grind
  simp only [partitionMetadata, hfold, UInt32.zero_add, and_self]

lemma foldlM_notePartition (hes : ∀ e ∈ es, e.2.actor < w.cells.length) (topics : TopicPartitions) :
    (es.foldlM notePartition topics).exec w = (some (es.foldl (fun ts e =>
      ts.pushAt e.1.topicId (partitionMetadata e.1 (w.stateOf e.2.actor))) topics), w) := by
  induction es generalizing topics with
  | nil => rfl
  | cons e es ih =>
    obtain ⟨he, hes⟩ := List.forall_mem_cons.mp hes
    have hp : w.partition e.2.actor = some ⟨w.dirs (w.cells[e.2.actor]).dir,
        (w.cells[e.2.actor]).state, (w.cells[e.2.actor]).actor⟩ := by
      rw [Host.partition, List.getElem?_eq_getElem he, Option.map_some]
    rw [List.foldlM_cons, exec_bind, notePartition, exec_get_bind, hp, List.foldl_cons, Host.stateOf,
      hp]
    exact ih hes _

lemma lookup_noted (name : String) : (noted w es).lookup name =
    if ∃ e ∈ es, e.1.topicId = name then
      some ((es.filter fun e => e.1.topicId = name).map fun e =>
        partitionMetadata e.1 (w.stateOf e.2.actor))
    else none := by
  rw [noted, AList.lookup_foldl_pushAt (fun e : Σ _ : TopicPartition, PartitionHandle =>
    e.1.topicId) fun e => partitionMetadata e.1 (w.stateOf e.2.actor), AList.lookup_empty]
  rfl

/-- The ids of a topic are those of its entries. -/
lemma ids_filter (hperm : es.Perm image.partitions.entries) (name : String) :
    ((es.filter fun e => e.1.topicId = name).map (·.1.partitionId)).Nodup ∧
      ∀ i, i ∈ (es.filter fun e => e.1.topicId = name).map (·.1.partitionId) ↔
        ⟨name, i⟩ ∈ image.keys := by
  constructor
  · have hnodup : (es.map Sigma.fst).Nodup :=
      (hperm.map Sigma.fst).nodup_iff.mpr image.partitions.nodupKeys
    refine (hnodup.of_map.filter _).map_on fun e he e' he' hid => ?_
    obtain ⟨he, hname⟩ := List.mem_filter.mp he
    obtain ⟨he', hname'⟩ := List.mem_filter.mp he'
    refine List.inj_on_of_nodup_map hnodup he he' (TopicPartition.ext ?_ hid)
    exact (of_decide_eq_true hname).trans (of_decide_eq_true hname').symm
  · intro i
    rw [MetadataImage.keys, AList.keys, List.keys, List.mem_map, List.mem_map]
    constructor
    · rintro ⟨e, he, rfl⟩
      obtain ⟨he, hname⟩ := List.mem_filter.mp he
      exact ⟨e, hperm.mem_iff.mp he, TopicPartition.ext (of_decide_eq_true hname) rfl⟩
    · rintro ⟨e, he, hkey⟩
      refine ⟨e, List.mem_filter.mpr ⟨hperm.mem_iff.mpr he, decide_eq_true ?_⟩, ?_⟩ <;> rw [hkey]

/-- A metadata request changes nothing, and is answered with what the image has. -/
lemma handleMetadata_lists (order : MetadataOrder) (brokers : List BrokerConfig) (elapsed : UInt32)
    (h : w.Has image) :
    ∃ resp, (handleMetadata order brokers elapsed image).exec w = (some resp, w) ∧
      resp.brokers = brokers.map BrokerConfig.toMetadata ∧ Lists resp image := by
  have hperm := order.partitions_perm image.partitions.entries
  set es := order.partitions image.partitions.entries
  have hfold : (es.foldlM notePartition ∅).exec w = (some (noted w es), w) :=
    foldlM_notePartition (fun e he => h e (hperm.mem_iff.mp he)) ∅
  refine ⟨_, exec_bind_eq_some.mpr ⟨noted w es, w, hfold, rfl⟩, rfl, ?_⟩
  have hmem : ∀ t ∈ order.topics ((noted w es).entries.map fun t => ⟨.none, t.1, t.2⟩),
      (∃ e ∈ es, e.1.topicId = t.name) ∧ t.partitions = (es.filter fun e => e.1.topicId = t.name).map
        fun e => partitionMetadata e.1 (w.stateOf e.2.actor) := by
    intro t ht
    obtain ⟨e, he, rfl⟩ := List.mem_map.mp ((order.topics_perm _).mem_iff.mp ht)
    have hsome := (lookup_noted e.1).symm.trans (AList.mem_lookup_iff.mpr he)
    split_ifs at hsome with hex
    exact ⟨hex, (Option.some.inj hsome).symm⟩
  constructor
  · have hnames : ((noted w es).entries.map fun t =>
        (⟨.none, t.1, t.2⟩ : TopicMetadata)).map (·.name) = (noted w es).keys := List.map_map
    refine ((order.topics_perm _).map _).nodup_iff.mpr ?_
    rw [hnames]
    exact AList.keys_nodup _
  · intro q hq
    obtain ⟨e, he, rfl⟩ := List.mem_map.mp hq
    have hsome : (noted w es).lookup e.1.topicId = _ := lookup_noted _
    rw [if_pos ⟨e, hperm.mem_iff.mpr he, rfl⟩] at hsome
    refine ⟨⟨.none, _, _⟩, (order.topics_perm _).mem_iff.mpr (List.mem_map.mpr
      ⟨⟨e.1.topicId, _⟩, AList.mem_lookup_iff.mp hsome, rfl⟩), rfl⟩
  · intro t ht
    obtain ⟨⟨e, he, hname⟩, hparts⟩ := hmem t ht
    obtain ⟨hnodup, hids⟩ := ids_filter hperm t.name
    refine ⟨_, ?_, ?_, hnodup, hids⟩
    · rw [hparts, List.map_map, List.map_map]
      rfl
    · exact List.ne_nil_of_mem (List.mem_map_of_mem (List.mem_filter.mpr ⟨he, decide_eq_true hname⟩))
  · intro t ht p hp
    rw [(hmem t ht).2] at hp
    obtain ⟨e, -, rfl⟩ := List.mem_map.mp hp
    exact partitionMetadata_counts _ _

end Handler

/-! ### Every broker can answer -/

section Has

variable {w w' : Host} {image : MetadataImage} {path : String}

lemma Host.Has.mono (h : w.Has image) (hle : w.cells.length ≤ w'.cells.length) : w'.Has image :=
  fun e he => (h e he).trans_le hle

lemma Host.Has.insert (h : w.Has image) (key : TopicPartition) (handle : PartitionHandle)
    (hhandle : handle.actor < w.cells.length) : w.Has (image.insert key handle) := by
  intro e he
  rw [MetadataImage.insert, AList.entries_insert] at he
  rcases List.mem_cons.mp he with rfl | he
  · exact hhandle
  · exact h e ((List.kerase_sublist _ _).subset he)

/-- Every new partition has an actor, also when a later one cannot be opened. -/
lemma has_createPartitions (path : String) (ts : List (TopicRecord × PartitionRecord))
    (h : w.Has image) :
    w.cells.length ≤ ((image.createPartitions path ts).exec w).2.cells.length ∧
      ∀ next w', (image.createPartitions path ts).exec w = (some next, w') → w'.Has next := by
  induction ts generalizing image w with
  | nil =>
    refine ⟨le_rfl, fun next w' hrun => ?_⟩
    cases hrun
    exact h
  | cons t ts ih =>
    rw [MetadataImage.createPartitions, exec_bind, spawn_exec]
    cases PartitionHandle.start (MetadataImage.config path t.1 t.2) w with
    | none =>
      refine ⟨le_rfl, fun next w' hrun => ?_⟩
      cases hrun
    | some p =>
      have hlt : w.cells.length < (w.add (MetadataImage.config path t.1 t.2).directory p).cells.length :=
        by rw [Host.add, List.length_append, List.length_singleton]; exact Nat.lt_succ_self _
      obtain ⟨hle, hnext⟩ := ih ((h.mono hlt.le).insert (MetadataImage.key t)
        ⟨t.2.partitionId.toUInt32, w.cells.length⟩ hlt)
      exact ⟨hlt.le.trans hle, hnext⟩

namespace BrokerState

variable {b : BrokerState}

lemma has_restart [Crc] (order : TopicOrder) :
    (b.restart path order).host.Has (b.restart path order).image := by
  rw [restart, MetadataActor.new_eq, exec_bind]
  rcases (MetadataActor.listed path order).exec (b.host.release []) with ⟨_ | ⟨handle, topics⟩, w⟩
  · exact fun _ he => absurd he List.not_mem_nil
  · have hempty : w.Has .empty := fun _ he => absurd he List.not_mem_nil
    have hnext := (has_createPartitions path (MetadataImage.withTopics topics) hempty).2
    simp only [MetadataImage.createTopics_eq, exec_bind]
    rcases hrun : (MetadataImage.empty.createPartitions path
      (MetadataImage.withTopics topics)).exec w with ⟨_ | next, w₁⟩
    · exact fun _ he => absurd he List.not_mem_nil
    · exact (hnext next w₁ hrun).mono (Host.thinner_release _ _).length_eq.le

lemma has_create [Crc] (actor : MetadataActor) (clock : Host → UInt64) (elapsed : UInt32)
    (req : CreateTopicRequest) (h : w.Has image) :
    w.cells.length ≤ ((actor.create clock image elapsed req).exec w).2.cells.length ∧
      ∀ r w', (actor.create clock image elapsed req).exec w = (some r, w') → w'.Has r.1 := by
  have hwritten := (thinner_persist actor clock (w := w)
    (req.topics.flatMap MetadataActor.records)).length_eq
  rw [MetadataActor.create, exec_bind]
  rcases hpersist : (actor.persist clock (req.topics.flatMap MetadataActor.records)).exec w
    with ⟨_ | u, w₁⟩
  · rw [hpersist] at hwritten
    refine ⟨hwritten.le, fun r w' hr => ?_⟩
    cases hr
  · rw [hpersist] at hwritten
    have hcreated := has_createPartitions actor.path
      (MetadataImage.withTopics (MetadataActor.topicRecords req)) (h.mono hwritten.le)
    simp only [MetadataImage.createTopics_eq, exec_bind]
    rcases hrun : (image.createPartitions actor.path
      (MetadataImage.withTopics (MetadataActor.topicRecords req))).exec w₁ with ⟨_ | next, w₂⟩
    · rw [hrun] at hcreated
      refine ⟨hwritten.le.trans hcreated.1, fun r w' hr => ?_⟩
      cases hr
    · rw [hrun] at hcreated
      have hreleased := (Host.thinner_release w₂ (actor.handle.actor :: next.actors)).length_eq.le
      refine ⟨(hwritten.le.trans hcreated.1).trans hreleased, fun r w' hr => ?_⟩
      cases hr
      exact (hcreated.2 next w₂ rfl).mono hreleased

lemma has_step [Crc] (h : b.host.Has b.image) (e : BrokerEvent) :
    (b.step path e).host.Has (b.step path e).image := by
  cases e with
  | start order => exact has_restart order
  | create clock elapsed req =>
    cases hactor : b.metadata with
    | none => rwa [step_create_of_ended hactor]
    | some actor =>
      obtain ⟨hle, hnext⟩ := has_create actor clock elapsed req h
      rcases hrun : (actor.create clock b.image elapsed req).exec b.host with ⟨_ | ⟨image, res⟩, w⟩
      · rw [step_create_of_panic hactor hrun]
        rw [hrun] at hle
        exact (h.mono hle).mono (Host.thinner_release _ _).length_eq.le
      · rw [step_create hactor hrun]
        exact hnext _ _ hrun

end BrokerState

end Has

/-! ### Topics without gaps -/

/-- The partitions of every topic are those up to some number. -/
def Dense (image : MetadataImage) : Prop :=
  ∀ name, ∀ i j : UInt16, j ≤ i → ⟨name, i⟩ ∈ image.keys → ⟨name, j⟩ ∈ image.keys

/-- Different numbers without a gap are those below their count. -/
lemma mem_iff_lt_length {l : List ℕ} (hnodup : l.Nodup) (hdown : ∀ i ∈ l, ∀ j < i, j ∈ l) (i : ℕ) :
    i ∈ l ↔ i < l.length := by
  constructor
  · intro hi
    have hsub : List.range (i + 1) ⊆ l := by
      intro j hj
      rcases Nat.lt_succ_iff_lt_or_eq.mp (List.mem_range.mp hj) with hlt | rfl
      · exact hdown i hi j hlt
      · exact hi
    have hle := List.nodup_range.length_le_of_subset hsub
    rwa [List.length_range] at hle
  · intro hi
    by_contra hnot
    have hsub : l ⊆ List.range i := by
      intro j hj
      rw [List.mem_range]
      rcases Nat.lt_trichotomy j i with hlt | rfl | hgt
      · exact hlt
      · exact absurd hj hnot
      · exact absurd (hdown j hj i hgt) hnot
    have hle := hnodup.length_le_of_subset hsub
    rw [List.length_range] at hle
    exact absurd hi (Nat.not_lt_of_le hle)

/-- How many partitions are listed for a topic says which there are. -/
lemma Lists.mem_keys_iff {resp : MetadataResponse} {image : MetadataImage} (h : Lists resp image)
    (hdense : Dense image) {t : TopicMetadata} (ht : t ∈ resp.topics) :
    0 < t.partitions.length ∧ t.partitions.length ≤ 2 ^ 16 ∧
      ∀ i : UInt16, ⟨t.name, i⟩ ∈ image.keys ↔ i.toNat < t.partitions.length := by
  obtain ⟨ids, hmap, hne, hnodup, hids⟩ := h.partitions t ht
  have hlen : t.partitions.length = (ids.map UInt16.toNat).length := by
    have := congrArg List.length hmap
    simpa only [List.length_map] using this
  have hmem : ∀ i : UInt16, i ∈ ids ↔ i.toNat ∈ ids.map UInt16.toNat := fun i =>
    ⟨fun hi => List.mem_map_of_mem hi, fun hi => by
      obtain ⟨j, hj, heq⟩ := List.mem_map.mp hi
      exact UInt16.toNat_inj.mp heq ▸ hj⟩
  have hnodup' : (ids.map UInt16.toNat).Nodup :=
    hnodup.map_on fun _ _ _ _ heq => UInt16.toNat_inj.mp heq
  have hdown : ∀ i ∈ ids.map UInt16.toNat, ∀ j < i, j ∈ ids.map UInt16.toNat := by
    intro i hi j hj
    obtain ⟨i, hmem', rfl⟩ := List.mem_map.mp hi
    have hj' : (UInt16.ofNat j).toNat = j := UInt16.toNat_ofNat_of_lt' (hj.trans i.toNat_lt)
    rw [← hj', ← hmem, hids]
    refine hdense t.name i _ ?_ ((hids i).mp hmem')
    rw [UInt16.le_iff_toNat_le, hj']
    exact hj.le
  have hrange : ids.map UInt16.toNat ⊆ List.range (2 ^ 16) := by
    intro i hi
    obtain ⟨i, -, rfl⟩ := List.mem_map.mp hi
    exact List.mem_range.mpr i.toNat_lt
  rw [hlen]
  refine ⟨?_, ?_, fun i => ?_⟩
  · rw [List.length_map]
    exact List.length_pos_iff.mpr hne
  · have hle := hnodup'.length_le_of_subset hrange
    rwa [List.length_range] at hle
  · rw [← hids, hmem, mem_iff_lt_length hnodup' hdown]

/-! ### Requested partitions -/

/-- The topics that an event asks for. -/
def BrokerEvent.topics : BrokerEvent → List TopicRequest
  | .start _ => []
  | .create _ _ req => req.topics

/-- Some event asks for the partition. -/
def Requested (es : List BrokerEvent) (q : TopicPartition) : Prop :=
  ∃ t ∈ es.flatMap BrokerEvent.topics, t.name = q.topicId ∧
    q.partitionId.toNat < t.numPartitions.toInt.toNat

/-- A broker is first started on empty directories that can all be opened, and goes through
requests for valid topics and further starts; the records of every request go to the first segment
of a log that the writer is at the end of. -/
structure Orderly [Crc] (path : String) (w : Host) (es : List BrokerEvent) : Prop where
  empty : ∀ dir, (w.dirs dir).files = ∅
  free : (w.dirs (metadataPartition.directory path)).free < 2 ^ 63
  opens : ∀ k, w.opens k = true
  valid : ∀ e ∈ es, e.Valid
  first : Meets (BrokerState.step path) BrokerState.RecordsInFirst
    ((BrokerState.down w).restart path .asKept) es

section Requested

variable [Crc] {path : String} {w : Host} {es : List BrokerEvent}

/-- The broker after the first start, which finds no topics, and the events. -/
def brokerAfter (path : String) (w : Host) (es : List BrokerEvent) : BrokerState :=
  run (BrokerState.step path) ((BrokerState.down w).restart path .asKept) es

lemma Orderly.recorded (h : Orderly path w es) :
    (brokerAfter path w es).Recorded path
      ((es.flatMap BrokerEvent.topics).flatMap MetadataActor.records) := by
  have hok := Meets.and (Meets.of_forall fun e he _ => h.valid e he) h.first
  refine run_history (P := fun es => (brokerAfter path w es).Recorded path
    ((es.flatMap BrokerEvent.topics).flatMap MetadataActor.records))
    (BrokerState.recorded_first .asKept h.empty h.free h.opens) ?_ hok
  intro es e hrs hok
  rw [brokerAfter, run_concat, List.flatMap_append, List.flatMap_append, List.flatMap_singleton]
  cases e with
  | start =>
    rw [BrokerEvent.topics, List.flatMap_nil, List.append_nil]
    exact hrs.restart _
  | create clock elapsed req => exact hrs.create hok.1 hok.2

omit [Crc] in
lemma mem_partitionRecords (t : TopicRequest) (i : UInt16) :
    (∃ p ∈ MetadataActor.partitionRecords t, p.partitionId = i) ↔
      i.toNat < t.numPartitions.toInt.toNat := by
  constructor
  · rintro ⟨p, hp, rfl⟩
    obtain ⟨n, hn, rfl⟩ := List.mem_map.mp hp
    rw [UInt16.toNat_ofNat']
    exact (Nat.mod_le _ _).trans_lt (List.mem_range.mp hn)
  · intro hi
    exact ⟨_, List.mem_map_of_mem (List.mem_range.mpr hi), UInt16.ofNat_toNat⟩

/-- The image has what has been requested, through all restarts. -/
lemma Orderly.mem_keys_iff (h : Orderly path w es) (q : TopicPartition) :
    q ∈ (brokerAfter path w es).image.keys ↔ Requested es q := by
  rw [h.recorded.keys, MetadataActor.mem_listedKeys_records, MetadataActor.mem_listedKeys]
  simp only [List.mem_map, exists_exists_and_eq_and, mem_partitionRecords, Requested]
  exact or_iff_left List.not_mem_nil

omit [Crc] in
lemma Requested.append {q : TopicPartition} (h : Requested es q) {es' : List BrokerEvent} :
    Requested (es ++ es') q := by
  obtain ⟨t, ht, hq⟩ := h
  refine ⟨t, ?_, hq⟩
  rw [List.flatMap_append]
  exact List.mem_append_left _ ht

lemma Orderly.of_append {es' : List BrokerEvent} (h : Orderly path w (es ++ es')) :
    Orderly path w es :=
  ⟨h.empty, h.free, h.opens, fun e he => h.valid e (List.mem_append_left _ he),
    (meets_append.mp h.first).1⟩

lemma Orderly.dense (h : Orderly path w es) : Dense (brokerAfter path w es).image := by
  intro name i j hji hi
  rw [h.mem_keys_iff] at hi ⊢
  obtain ⟨t, ht, hname, hlt⟩ := hi
  exact ⟨t, ht, hname, (UInt16.le_iff_toNat_le.mp hji).trans_lt hlt⟩

lemma has_brokerAfter (path : String) (w : Host) (es : List BrokerEvent) :
    (brokerAfter path w es).host.Has (brokerAfter path w es).image :=
  run_invariant' (P := fun b : BrokerState => b.host.Has b.image)
    (fun _ e hb => BrokerState.has_step hb e) (BrokerState.has_restart .asKept) es

end Requested

/-- After every such run a metadata request is answered with the topics that have been requested,
each once, and for each topic with as many partitions as the largest request for it asks for, up to
the number of ids; their indexes are those below this number. -/
theorem metadata_requested [Crc] (path : String) (w : Host) (es : List BrokerEvent)
    (h : Orderly path w es) (order : MetadataOrder) (brokers : List BrokerConfig)
    (elapsed : UInt32) :
    ∃ resp, (handleMetadata order brokers elapsed (brokerAfter path w es).image).exec
        (brokerAfter path w es).host = (some resp, (brokerAfter path w es).host) ∧
      (resp.topics.map (·.name)).Nodup ∧
      (∀ q, Requested es q → ∃ t ∈ resp.topics, t.name = q.topicId) ∧
      ∀ t ∈ resp.topics, 0 < t.partitions.length ∧
        (∀ i : UInt16, Requested es ⟨t.name, i⟩ ↔ i.toNat < t.partitions.length) ∧
        (t.partitions.map (·.partitionIndex)).Perm
          ((List.range t.partitions.length).map fun i => Int32.ofNat i) := by
  obtain ⟨resp, hrun, -, hlists⟩ := handleMetadata_lists order brokers elapsed
    (has_brokerAfter path w es)
  refine ⟨resp, hrun, hlists.names, fun q hq => hlists.topics q ((h.mem_keys_iff q).mpr hq),
    fun t ht => ?_⟩
  obtain ⟨hpos, hle, hkeys⟩ := hlists.mem_keys_iff h.dense ht
  refine ⟨hpos, fun i => (h.mem_keys_iff _).symm.trans (hkeys i), ?_⟩
  obtain ⟨ids, hmap, -, hnodup, hids⟩ := hlists.partitions t ht
  have hperm : (ids.map UInt16.toNat).Perm (List.range t.partitions.length) := by
    have hnodup' : (ids.map UInt16.toNat).Nodup :=
      hnodup.map_on fun _ _ _ _ heq => UInt16.toNat_inj.mp heq
    rw [List.perm_ext_iff_of_nodup hnodup' List.nodup_range]
    intro i
    rw [List.mem_map, List.mem_range]
    constructor
    · rintro ⟨i, hi, rfl⟩
      exact (hkeys i).mp ((hids i).mp hi)
    · intro hi
      have hi' : (UInt16.ofNat i).toNat = i := UInt16.toNat_ofNat_of_lt' (hi.trans_le hle)
      exact ⟨UInt16.ofNat i, (hids _).mpr ((hkeys _).mpr (hi'.symm ▸ hi)), hi'⟩
  have hindexes := hperm.map fun i => Int32.ofNat i
  rw [List.map_map] at hindexes
  rw [hmap]
  exact hindexes

/-! ### A topic that grows -/

section Examples

local instance : Crc := Crc.castagnoli

/-- A command for a topic with a number of partitions. -/
def createTopic (name : String) (numPartitions : Int32) : BrokerEvent :=
  .create (fun _ => 0) 0 ⟨[⟨name, numPartitions, 1, []⟩], 0, false⟩

/-- Two topics are requested, and the broker is started again. -/
def jobsAndLogs : List BrokerEvent := [createTopic "jobs" 2, createTopic "logs" 1, .start .asKept]

lemma orderly_jobsAndLogs : Orderly "data" blank jobsAndLogs :=
  ⟨fun _ => rfl, by decide, fun _ => rfl, by decide +kernel, by decide +kernel⟩

theorem metadata_requested_jobs_logs : ∃ resp,
    (handleMetadata .asKept [⟨1, "localhost", 9092⟩] 0 (brokerAfter "data" blank jobsAndLogs).image).exec
        (brokerAfter "data" blank jobsAndLogs).host
      = (some resp, (brokerAfter "data" blank jobsAndLogs).host) ∧
    ∀ t ∈ resp.topics, t.name = "jobs" → t.partitions.length = 2 := by
  obtain ⟨resp, hrun, -, -, htopics⟩ := metadata_requested "data" blank jobsAndLogs
    orderly_jobsAndLogs .asKept [⟨1, "localhost", 9092⟩] 0
  refine ⟨resp, hrun, fun t ht hname => ?_⟩
  obtain ⟨-, hrequested, -⟩ := htopics t ht
  have hone : Requested jobsAndLogs ⟨t.name, 1⟩ :=
    ⟨⟨"jobs", 2, 1, []⟩, List.mem_cons_self, hname.symm,
      show (1 : UInt16).toNat < (2 : Int32).toInt.toNat by decide⟩
  have htwo : ¬ Requested jobsAndLogs ⟨t.name, 2⟩ := by
    rintro ⟨t', ht', hname', hlt⟩
    rw [hname] at hname'
    rcases List.mem_cons.mp ht' with rfl | ht'
    · exact absurd hlt (show ¬ (2 : UInt16).toNat < (2 : Int32).toInt.toNat by decide)
    · obtain rfl := List.mem_singleton.mp ht'
      exact absurd hname' (by decide)
  have hlt := (hrequested 1).mp hone
  have hge := (hrequested 2).not.mp htwo
  rw [show (1 : UInt16).toNat = 1 from rfl] at hlt
  rw [show (2 : UInt16).toNat = 2 from rfl] at hge
  omega

end Examples

end Musil.Broker
