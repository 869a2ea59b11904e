import Musil.Storage.Segment
import Mathlib.Data.List.Sort

/-!
# Partitions

The published state of a partition, the actor that owns its files and handles commands one by one,
and the handle through which the rest of the broker reads the state and sends commands.
-/

namespace Musil.Storage

open Bytes Proto

/-! ### The published state -/

structure ReplicaMetadata where
  replicaId : ℕ
  logEndOffset : ℕ
  deriving DecidableEq, Repr

def ReplicaMetadata.empty (replicaId : ℕ) : ReplicaMetadata := ⟨replicaId, 0⟩

structure PartitionState where
  segments : List SegmentView
  logEndOffset : ℕ
  highWatermark : ℕ
  replicas : List ReplicaMetadata
  deriving DecidableEq, Repr

structure PartitionResponse where
  partitionIndex : ℕ
  highWatermark : ℕ
  logStartOffset : ℕ
  records : List RecordBatch
  deriving DecidableEq

/-- The length of the leading run of elements that satisfy the predicate. -/
def partitionPoint {α : Type} (p : α → Bool) (as : List α) : ℕ :=
  (as.takeWhile p).length

namespace PartitionState

def new (replicas : List ReplicaMetadata) : PartitionState := ⟨[], 0, 0, replicas⟩

/-- A fetch reads the files behind the state. It panics when no segment starts at or below the
fetch offset. -/
def fetch [Crc] (st : PartitionState) (d : Disk) (partitionIndex : ℕ) (req : FetchPartition) :
    Option PartitionResponse :=
  match partitionPoint (fun v => v.baseOffset ≤ req.fetchOffset.toNat) st.segments with
  | 0 => none
  | idx + 1 => do
    let v ← st.segments[idx]?
    let records ← v.fetch (d.file v.baseOffset) req
    pure ⟨partitionIndex, st.highWatermark, st.logEndOffset, records⟩

lemma fetch_eq_some [Crc] {st : PartitionState} {d : Disk} {partitionIndex : ℕ}
    {req : FetchPartition} {res : PartitionResponse}
    (h : st.fetch d partitionIndex req = some res) :
    ∃ records, res = ⟨partitionIndex, st.highWatermark, st.logEndOffset, records⟩ := by
  rw [fetch] at h
  split at h
  · cases h
  · simp only [Option.bind_eq_bind, Option.bind_eq_some_iff] at h
    obtain ⟨v, -, records, -, hres⟩ := h
    cases hres
    exact ⟨records, rfl⟩

lemma fetch_logStartOffset [Crc] {st : PartitionState} {d : Disk} {partitionIndex : ℕ}
    {req : FetchPartition} {res : PartitionResponse}
    (h : st.fetch d partitionIndex req = some res) : res.logStartOffset = st.logEndOffset := by
  obtain ⟨records, rfl⟩ := fetch_eq_some h
  rfl

/-- Raise the first replica of that id to `leo`. -/
def raise (replicaId leo : ℕ) : List ReplicaMetadata → List ReplicaMetadata
  | [] => []
  | r :: rs =>
    if r.replicaId = replicaId then { r with logEndOffset := max r.logEndOffset leo } :: rs
    else r :: raise replicaId leo rs

def ackReplica (st : PartitionState) (replicaId leo : ℕ) : PartitionState :=
  let replicas := raise replicaId leo st.replicas
  { st with
    replicas := replicas
    highWatermark := ((replicas.map (·.logEndOffset)).min?).getD st.highWatermark }

lemma mem_raise {id leo : ℕ} {rs : List ReplicaMetadata} {r' : ReplicaMetadata}
    (h : r' ∈ raise id leo rs) :
    r' ∈ rs ∨ ∃ r ∈ rs, r.replicaId = id ∧ r' = { r with logEndOffset := max r.logEndOffset leo } := by
  induction rs with
  | nil => exact absurd h List.not_mem_nil
  | cons r rs ih =>
    rw [raise] at h
    split_ifs at h with hid
    · rcases List.mem_cons.mp h with rfl | hmem
      · exact .inr ⟨r, List.mem_cons_self, hid, rfl⟩
      · exact .inl (List.mem_cons_of_mem _ hmem)
    · rcases List.mem_cons.mp h with rfl | hmem
      · exact .inl List.mem_cons_self
      · rcases ih hmem with hold | ⟨x, hx, hxid, hr'⟩
        · exact .inl (List.mem_cons_of_mem _ hold)
        · exact .inr ⟨x, List.mem_cons_of_mem _ hx, hxid, hr'⟩

/-- Raising a replica keeps the ids. -/
lemma exists_of_mem_raise {id leo : ℕ} {rs : List ReplicaMetadata} {r' : ReplicaMetadata}
    (h : r' ∈ raise id leo rs) : ∃ r ∈ rs, r.replicaId = r'.replicaId := by
  rcases mem_raise h with hold | ⟨r, hr, -, rfl⟩
  · exact ⟨r', hold, rfl⟩
  · exact ⟨r, hr, rfl⟩

/-- After an acknowledgement the high watermark is at most every replica's log end. -/
lemma ackReplica_highWatermark_le (st : PartitionState) (id leo : ℕ) :
    ∀ r ∈ (st.ackReplica id leo).replicas,
      (st.ackReplica id leo).highWatermark ≤ r.logEndOffset := by
  intro r hr
  have hmem : r.logEndOffset ∈ (raise id leo st.replicas).map (·.logEndOffset) :=
    List.mem_map_of_mem hr
  cases hmin : ((raise id leo st.replicas).map (·.logEndOffset)).min? with
  | none => simp [List.min?_eq_none_iff.mp hmin] at hmem
  | some m =>
    rw [show (st.ackReplica id leo).highWatermark = m by simp [ackReplica, hmin]]
    exact (List.min?_eq_some_iff.mp hmin).2 _ hmem

/-- A watermark below all replicas does not fall. -/
lemma le_ackReplica_highWatermark {st : PartitionState} (id leo : ℕ)
    (h : ∀ r ∈ st.replicas, st.highWatermark ≤ r.logEndOffset) :
    st.highWatermark ≤ (st.ackReplica id leo).highWatermark := by
  have hraised : ∀ r ∈ raise id leo st.replicas,
      st.highWatermark ≤ r.logEndOffset := by
    intro r hr
    rcases mem_raise hr with hold | ⟨r₀, hr₀, -, rfl⟩
    · exact h r hold
    · exact (h r₀ hr₀).trans (Nat.le_max_left _ _)
  simp only [ackReplica]
  cases hmin : ((raise id leo st.replicas).map (·.logEndOffset)).min? with
  | none => exact le_rfl
  | some m =>
    obtain ⟨r, hr, rfl⟩ := List.mem_map.mp (List.min?_mem hmin)
    exact hraised r hr

/-- Without replicas an acknowledgement changes nothing. -/
lemma ackReplica_of_nil {st : PartitionState} {id leo : ℕ}
    (h : (st.ackReplica id leo).replicas = []) :
    st.replicas = [] ∧ (st.ackReplica id leo).highWatermark = st.highWatermark := by
  have hraise : raise id leo st.replicas = [] := h
  refine ⟨?_, by simp [ackReplica, hraise]⟩
  cases hrs : st.replicas with
  | nil => rfl
  | cons r rs =>
    rw [hrs, raise] at hraise
    split_ifs at hraise

end PartitionState

/-! ### Commands and replies -/

inductive Acks where
  | none
  | leader
  | all
  deriving DecidableEq, Repr

/-- A request to the actor. `done` names the caller that waits for the reply. -/
inductive PartitionCommand where
  | append (record : RecordBatch) (acks : Acks) (done : ℕ)
  | truncate (offset done : ℕ)
  | updateReplicaLeo (replicaId leo : ℕ)
  | shutdown
  deriving DecidableEq

structure ProducePartitionResponse where
  index : ℕ
  baseOffset : ℕ
  leaderId : ℕ
  deriving DecidableEq, Repr

inductive Reply where
  | appended (done : ℕ) (response : ProducePartitionResponse)
  | truncated (done : ℕ)
  deriving DecidableEq, Repr

/-! ### The actor -/

structure PartitionActorConfig where
  segmentBytes : ℕ
  brokerId : ℕ
  partitionId : ℕ
  deriving DecidableEq, Repr

def PartitionActorConfig.segmentConfig (config : PartitionActorConfig) (baseOffset : ℕ) :
    SegmentConfig :=
  ⟨baseOffset, config.segmentBytes, 1 <<< 12⟩

structure PendingResponse where
  hw : ℕ
  baseOffset : ℕ
  done : ℕ
  deriving DecidableEq, Repr

structure PartitionActor where
  config : PartitionActorConfig
  active : LogSegment
  acksPendingReplication : List PendingResponse
  deriving DecidableEq, Repr

/-- A partition: its files, the state last published, and the actor while its task runs. -/
structure Partition where
  disk : Disk
  state : PartitionState
  actor : Option PartitionActor

namespace PartitionActor

def response (a : PartitionActor) (baseOffset : ℕ) : ProducePartitionResponse :=
  ⟨a.config.partitionId, baseOffset, a.config.brokerId⟩

/-- Begin a new segment at `leo` when the active one is full. -/
def rollOver (config : PartitionActorConfig) (leo : ℕ) (segments : List SegmentView)
    (active : LogSegment) (d : Disk) : List SegmentView × LogSegment × Disk :=
  if config.segmentBytes ≤ active.size then
    let (newActive, d) := LogSegment.openSegment (config.segmentConfig leo) d
    let (newView, newActive) := newActive.publish
    (segments ++ [newView], newActive, d)
  else (segments, active, d)

/-! ### Start -/

/-- Open the segments that are no longer written to. -/
def openOlder (config : PartitionActorConfig) : List ℕ → Disk → List SegmentView × Disk
  | [], d => ([], d)
  | baseOffset :: bases, d =>
    let (seg, d) := LogSegment.openSegment (config.segmentConfig baseOffset) d
    let (views, d) := openOlder config bases d
    (seg.publish.1 :: views, d)

/-- The writer, the views and the log end offset that the files of the directory give. -/
def initialState (config : PartitionActorConfig) (d : Disk) :
    Option (LogSegment × List SegmentView × ℕ × Disk) := do
  let logOffsets := d.files.keys.insertionSort (· ≤ ·)
  let lastBase := logOffsets.getLast?.getD 0
  let (active, d) := LogSegment.openSegment (config.segmentConfig lastBase) d
  let count ← active.recordsCount d
  let leo := lastBase + count
  let (older, d) := openOlder config logOffsets.dropLast d
  let (view, active) := active.publish
  let (segments, active, d) := rollOver config leo (older ++ [view]) active d
  pure (active, segments, leo, d)

/-- Start the actor of a partition over a fresh state with the given replicas. -/
def new (config : PartitionActorConfig) (replicas : List ReplicaMetadata) (d : Disk) :
    Option Partition := do
  let (active, segments, leo, d) ← initialState config d
  let state := PartitionState.new replicas
  let hw := if state.replicas.isEmpty then leo else state.highWatermark
  pure ⟨d, { state with segments := segments, logEndOffset := leo, highWatermark := hw },
    some ⟨config, active, []⟩⟩

/-! ### Commands -/

def handleAppend (a : PartitionActor) (d : Disk) (state : PartitionState) (record : RecordBatch)
    (acks : Acks) (done : ℕ) : Partition × List Reply :=
  let baseOffset := state.logEndOffset
  let record := { record with baseOffset := UInt64.ofNat baseOffset }
  match a.active.appendBatch d record with
  | (none, d) => (⟨d, state, none⟩, [])
  | (some active, d) =>
    let leo := baseOffset + record.recordsCount.toNat
    let (currentActive, active) := active.publish
    -- the state of a running actor has at least one segment, and the last one is written to
    let segments := state.segments.dropLast ++ [currentActive]
    let (segments, active, d) := rollOver a.config leo segments active d
    let hw :=
      if state.replicas.isEmpty then state.highWatermark + record.recordsCount.toNat
      else state.highWatermark
    let next : PartitionState := ⟨segments, leo, hw, state.replicas⟩
    match acks with
    | .none | .leader =>
      (⟨d, next, some { a with active := active }⟩, [.appended done (a.response baseOffset)])
    | .all =>
      (⟨d, next, some { a with
          active := active
          acksPendingReplication := a.acksPendingReplication ++ [⟨leo, baseOffset, done⟩] }⟩, [])

def handleTruncate (a : PartitionActor) (d : Disk) (state : PartitionState) (offset : ℕ) :
    Partition :=
  if state.logEndOffset ≤ offset then ⟨d, state, some a⟩
  else
    let kept := state.segments.filter fun v => v.baseOffset < offset
    let removed := state.segments.filter fun v => offset ≤ v.baseOffset
    let d := removed.foldl (fun d v => d.remove v.baseOffset) d
    let (active, d) := LogSegment.openSegment (a.config.segmentConfig offset) d
    let (view, active) := active.publish
    ⟨d, ⟨kept ++ [view], offset, min state.highWatermark offset, state.replicas⟩,
      some { a with active := active }⟩

def handleUpdateReplicaLeo (a : PartitionActor) (d : Disk) (state : PartitionState)
    (replicaId leo : ℕ) : Partition × List Reply :=
  let next := state.ackReplica replicaId leo
  let ready : PendingResponse → Bool := fun ack => ack.hw ≤ next.highWatermark
  (⟨d, next, some { a with
      acksPendingReplication := a.acksPendingReplication.dropWhile ready }⟩,
    (a.acksPendingReplication.takeWhile ready).map fun ack =>
      .appended ack.done (a.response ack.baseOffset))

/-! ### What a command does -/

section Handle

variable (a : PartitionActor) (d : Disk) (state : PartitionState) (record : RecordBatch)
  (acks : Acks) (done : ℕ)

/-- The batch with the offset that the actor gives it. -/
abbrev rebased (state : PartitionState) (record : RecordBatch) : RecordBatch :=
  { record with baseOffset := UInt64.ofNat state.logEndOffset }

variable {a d state record}

/-- An append that cannot be written ends the actor. -/
lemma handleAppend_of_none {d' : Disk}
    (h : a.active.appendBatch d (rebased state record) = (none, d')) :
    a.handleAppend d state record acks done = (⟨d', state, none⟩, []) := by
  simp only [handleAppend, h]

/-- An append that is written moves the log end on, and is answered or waits. -/
lemma handleAppend_of_some {active : LogSegment} {d' : Disk}
    (h : a.active.appendBatch d (rebased state record) = (some active, d')) :
    a.handleAppend d state record acks done =
      (let leo := state.logEndOffset + record.recordsCount.toNat
       let roll := rollOver a.config leo (state.segments.dropLast ++ [active.publish.1])
         active.publish.2 d'
       (⟨roll.2.2,
          { segments := roll.1
            logEndOffset := leo
            highWatermark :=
              if state.replicas.isEmpty then state.highWatermark + record.recordsCount.toNat
              else state.highWatermark
            replicas := state.replicas },
          some { a with
            active := roll.2.1
            acksPendingReplication := a.acksPendingReplication ++
              if acks = .all then [⟨leo, state.logEndOffset, done⟩] else [] }⟩,
        if acks = .all then [] else [.appended done (a.response state.logEndOffset)])) := by
  simp only [handleAppend, h]
  cases acks with
  | none => simp only [reduceCtorEq, if_false, List.append_nil]
  | leader => simp only [reduceCtorEq, if_false, List.append_nil]
  | all => rfl

lemma handleTruncate_replicas (offset : ℕ) :
    (a.handleTruncate d state offset).state.replicas = state.replicas := by
  rw [handleTruncate]
  split_ifs <;> rfl

lemma handleTruncate_highWatermark_le (offset : ℕ) :
    (a.handleTruncate d state offset).state.highWatermark ≤ state.highWatermark := by
  rw [handleTruncate]
  split_ifs
  · exact le_rfl
  · exact Nat.min_le_left _ _

lemma handleTruncate_pending {offset : ℕ} {a' : PartitionActor}
    (h : (a.handleTruncate d state offset).actor = some a') :
    a'.acksPendingReplication = a.acksPendingReplication := by
  rw [handleTruncate] at h
  split_ifs at h <;> cases h <;> rfl

/-- A new actor has the replicas it was given, watermark 0 if there are any, and nothing pending. -/
lemma new_eq_some {config : PartitionActorConfig} {replicas : List ReplicaMetadata} {p : Partition}
    (h : new config replicas d = some p) :
    p.state.replicas = replicas ∧ (replicas ≠ [] → p.state.highWatermark = 0) ∧
      ∀ a, p.actor = some a → a.acksPendingReplication = [] := by
  simp only [new, Option.bind_eq_bind, Option.bind_eq_some_iff] at h
  obtain ⟨_, -, hp⟩ := h
  cases hp
  refine ⟨rfl, fun hne => ?_, ?_⟩
  · have hempty : replicas.isEmpty = false := List.isEmpty_eq_false_iff.mpr hne
    simp [PartitionState.new, hempty]
  · rintro a ⟨⟩
    rfl

/-- Without replicas a new actor starts with the watermark at the log end. -/
lemma new_level {config : PartitionActorConfig} {replicas : List ReplicaMetadata} {p : Partition}
    (h : new config replicas d = some p) (hnil : p.state.replicas = []) :
    p.state.highWatermark = p.state.logEndOffset := by
  simp only [new, Option.bind_eq_bind, Option.bind_eq_some_iff] at h
  obtain ⟨_, -, hp⟩ := h
  cases hp
  have hempty : (PartitionState.new replicas).replicas.isEmpty = true := List.isEmpty_iff.mpr hnil
  simp only [hempty, if_true]

end Handle

end PartitionActor

namespace Partition

/-- The actor handles one command: the partition after it, and the replies it sends. -/
def handle (p : Partition) (c : PartitionCommand) : Partition × List Reply :=
  match p.actor with
  | none => (p, [])
  | some a => match c with
    | .append record acks done => a.handleAppend p.disk p.state record acks done
    | .truncate offset done => (a.handleTruncate p.disk p.state offset, [.truncated done])
    | .updateReplicaLeo replicaId leo => a.handleUpdateReplicaLeo p.disk p.state replicaId leo
    | .shutdown => ({ p with actor := none }, [])

section Handle

variable {p : Partition} {a : PartitionActor}

lemma handle_of_none (ha : p.actor = none) (c : PartitionCommand) : p.handle c = (p, []) := by
  rw [handle, ha]

lemma handle_append (ha : p.actor = some a) (record : RecordBatch) (acks : Acks) (done : ℕ) :
    p.handle (.append record acks done) = a.handleAppend p.disk p.state record acks done := by
  rw [handle, ha]

lemma handle_truncate (ha : p.actor = some a) (offset done : ℕ) :
    p.handle (.truncate offset done)
      = (a.handleTruncate p.disk p.state offset, [.truncated done]) := by
  rw [handle, ha]

lemma handle_updateReplicaLeo (ha : p.actor = some a) (replicaId leo : ℕ) :
    p.handle (.updateReplicaLeo replicaId leo)
      = a.handleUpdateReplicaLeo p.disk p.state replicaId leo := by
  rw [handle, ha]

lemma handle_shutdown (ha : p.actor = some a) :
    p.handle .shutdown = ({ p with actor := none }, []) := by
  rw [handle, ha]

end Handle

end Partition

end Musil.Storage
