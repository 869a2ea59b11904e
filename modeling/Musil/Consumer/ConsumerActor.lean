import Musil.Consumer.OffsetSync
import Musil.Lib.Threaded
import Musil.Network.Requests
import Mathlib.Data.List.AList

/-!
# A consumer of a topic

A consumer reads one partition of its topic from a given offset on, or all partitions that the
metadata lists from their beginnings. In a loop it fetches from all of them at once, sends the
records on and moves the offset of each partition on by their number.

The code panics on a partition that it does not know and on records that end early; what it has sent
until then has been sent.
-/

namespace Musil.Consumer

open Network Proto Threaded

inductive ConsumerError where
  | reqErr (e : RequestError)
  | topicNotFound
  deriving DecidableEq, Repr

structure ConsumerRecord where
  topic : String
  partition : UInt16
  inner : Record

def batchIntoConsumerRecords (topic : String) (partition : UInt16) (batch : RecordBatch) :
    Option (List ConsumerRecord) :=
  batch.intoRecords.map fun records => records.map fun r => ⟨topic, partition, r⟩

/-- The offset is not looked at where there is no partition. -/
structure ConsumerConfig where
  topic : String
  partition : Option UInt16
  baseOffset : UInt64 := 0

abbrev ConsumerPartitions := AList fun _ : UInt16 => ConsumerPartitionState

/-- The actor with the records that it has sent. -/
structure ConsumerActor where
  partitions : ConsumerPartitions
  cfg : ConsumerConfig
  sent : List ConsumerRecord

/-- The partitions of the topic, out of what a metadata request returns. -/
def doRequestMetadata (topic : String) (metadata : Except RequestError MetadataResponse) :
    Except ConsumerError (List PartitionMetadata) :=
  match metadata with
  | .error e => .error (.reqErr e)
  | .ok metadata =>
    match metadata.topics.find? fun t => t.name = topic with
    | none => .error .topicNotFound
    | some t => .ok t.partitions

namespace ConsumerActor

def new (cfg : ConsumerConfig) (metadata : Except RequestError MetadataResponse) :
    Except ConsumerError ConsumerActor :=
  match cfg.partition with
  | some partition =>
    .ok ⟨AList.insert partition (.fromOffset cfg.baseOffset.toNat) ∅, cfg, []⟩
  | none => (doRequestMetadata cfg.topic metadata).map fun ps =>
    ⟨ps.foldl (fun partitions p =>
      partitions.insert p.partitionIndex.toUInt32.toUInt16 (.fromOffset 0)) ∅, cfg, []⟩

/-- The partitions with the offsets to fetch from. -/
def offsets (c : ConsumerActor) : List (UInt16 × UInt64) :=
  c.partitions.entries.map fun e => (e.1, UInt64.ofNat e.2.commitOffset)

def receiveBatch (topic : String) (partition : UInt16) (b : RecordBatch) :
    Panics ConsumerActor ℕ := do
  let records ← orPanic (batchIntoConsumerRecords topic partition b)
  modify fun c => { c with sent := c.sent ++ records }
  pure records.length

def receivePartition (topic : String) (p : PartitionResponse) : Panics ConsumerActor ℕ := do
  let index := p.partitionIndex.toUInt16
  let state ← orPanic ((← get).partitions.lookup index)
  let state := { state with highWatermark := max state.highWatermark p.highWatermark.toNat }
  modify fun c => { c with partitions := c.partitions.insert index state }
  let received ← p.records.mapM (receiveBatch topic index)
  let state := { state with commitOffset := state.commitOffset + received.sum }
  modify fun c => { c with partitions := c.partitions.insert index state }
  pure received.sum

/-- Receive a response; the value is the number of records in it. -/
def receive (response : FetchResponse) : Panics ConsumerActor ℕ := do
  let received ← response.responses.mapM fun t => do
    let received ← t.partitions.mapM (receivePartition t.topic)
    pure received.sum
  pure received.sum

end ConsumerActor

/-- The offset that the consumer begins at. -/
def ConsumerConfig.start (cfg : ConsumerConfig) (i : UInt16) : ℕ :=
  if cfg.partition = some i then cfg.baseOffset.toNat else 0

/-- The records that have been sent on for a partition. -/
def ConsumerActor.sentOf (c : ConsumerActor) (i : UInt16) : List Record :=
  (c.sent.filter fun r => r.partition = i).map (·.inner)

/-! ### A new consumer -/

section New

variable {cfg : ConsumerConfig} {metadata : Except RequestError MetadataResponse} {c : ConsumerActor}

lemma lookup_foldl_insert (ps : List PartitionMetadata) (m : ConsumerPartitions)
    (hm : ∀ i st, m.lookup i = some st → st.commitOffset = 0) (i : UInt16)
    (st : ConsumerPartitionState)
    (h : (ps.foldl (fun partitions p =>
      partitions.insert p.partitionIndex.toUInt32.toUInt16 (.fromOffset 0)) m).lookup i = some st) :
    st.commitOffset = 0 := by
  induction ps generalizing m with
  | nil => exact hm i st h
  | cons p ps ih =>
    refine ih _ (fun j st' hj => ?_) h
    rcases eq_or_ne j p.partitionIndex.toUInt32.toUInt16 with rfl | hne
    · rw [AList.lookup_insert] at hj
      cases hj
      rfl
    · rw [AList.lookup_insert_ne hne] at hj
      exact hm j st' hj

/-- A new consumer has sent nothing and begins at its offsets. -/
lemma ConsumerActor.new_eq_ok (h : ConsumerActor.new cfg metadata = .ok c) :
    c.cfg = cfg ∧ c.sent = [] ∧
      ∀ i st, c.partitions.lookup i = some st → st.commitOffset = cfg.start i := by
  rw [ConsumerActor.new] at h
  split at h
  · next partition hpartition =>
    cases h
    refine ⟨rfl, rfl, fun i st hi => ?_⟩
    rcases eq_or_ne i partition with rfl | hne
    · rw [AList.lookup_insert] at hi
      cases hi
      rw [ConsumerConfig.start, if_pos hpartition]
      rfl
    · rw [AList.lookup_insert_ne hne] at hi
      cases hi
  · next hpartition =>
    cases hps : doRequestMetadata cfg.topic metadata with
    | error e =>
      rw [hps] at h
      cases h
    | ok ps =>
      rw [hps] at h
      cases h
      refine ⟨rfl, rfl, fun i st hi => ?_⟩
      rw [ConsumerConfig.start, hpartition, if_neg (Option.some_ne_none i).symm]
      refine lookup_foldl_insert ps ∅ (fun j st' hj => ?_) i st hi
      rw [AList.lookup_empty] at hj
      cases hj

end New

/-! ### What is received -/

namespace ConsumerActor

variable {c : ConsumerActor} {i j : UInt16} {st : ConsumerPartitionState} {records : List Record}

lemma map_fst_offsets (c : ConsumerActor) : c.offsets.map Prod.fst = c.partitions.keys := by
  rw [offsets, List.map_map]
  rfl

/-- The records are sent on for partition `i`, and its offset is moved on by their number. -/
def advance (c : ConsumerActor) (topic : String) (i : UInt16) (st : ConsumerPartitionState)
    (highWatermark : ℕ) (records : List Record) : ConsumerActor where
  partitions := (c.partitions.insert i ⟨max st.highWatermark highWatermark, st.commitOffset⟩).insert
    i ⟨max st.highWatermark highWatermark, st.commitOffset + records.length⟩
  cfg := c.cfg
  sent := c.sent ++ records.map fun r => ⟨topic, i, r⟩

lemma lookup_advance (topic : String) (highWatermark : ℕ) :
    (c.advance topic i st highWatermark records).partitions.lookup i
      = some ⟨max st.highWatermark highWatermark, st.commitOffset + records.length⟩ :=
  AList.lookup_insert _

lemma lookup_advance_of_ne (topic : String) (highWatermark : ℕ) (h : j ≠ i) :
    (c.advance topic i st highWatermark records).partitions.lookup j = c.partitions.lookup j := by
  rw [advance, AList.lookup_insert_ne h, AList.lookup_insert_ne h]

lemma sentOf_advance (topic : String) (highWatermark : ℕ) :
    (c.advance topic i st highWatermark records).sentOf i = c.sentOf i ++ records := by
  have hall : (records.map fun r => (⟨topic, i, r⟩ : ConsumerRecord)).filter (·.partition = i)
      = records.map fun r => ⟨topic, i, r⟩ := by
    rw [List.filter_eq_self, List.forall_mem_map]
    exact fun _ _ => decide_eq_true rfl
  rw [sentOf, advance, List.filter_append, hall, List.map_append, List.map_map]
  exact congrArg _ (List.map_id _)

lemma sentOf_advance_of_ne (topic : String) (highWatermark : ℕ) (h : j ≠ i) :
    (c.advance topic i st highWatermark records).sentOf j = c.sentOf j := by
  have hnone : (records.map fun r => (⟨topic, i, r⟩ : ConsumerRecord)).filter (·.partition = j)
      = [] := by
    rw [List.filter_eq_nil_iff, List.forall_mem_map]
    exact fun _ _ heq => h (of_decide_eq_true heq).symm
  rw [sentOf, advance, List.filter_append, hnone, List.append_nil]
  rfl

lemma receiveBatches_exec (topic : String) {bs : List RecordBatch}
    (h : consumerRecords bs = some records) (c : ConsumerActor) :
    ∃ ns : List ℕ, (bs.mapM (receiveBatch topic i)).exec c
        = (some ns, { c with sent := c.sent ++ records.map fun r => ⟨topic, i, r⟩ }) ∧
      ns.sum = records.length := by
  induction bs generalizing c records with
  | nil =>
    cases h
    refine ⟨[], ?_, rfl⟩
    show (some [], c) = (some [], { c with sent := c.sent ++ [] })
    rw [List.append_nil]
  | cons b bs ih =>
    obtain ⟨rss, hrss, rfl⟩ := Option.map_eq_some_iff.mp h
    rw [List.mapM_cons] at hrss
    obtain ⟨rs, hrs, hrss⟩ := Option.bind_eq_some_iff.mp hrss
    obtain ⟨rss', hrss', heq⟩ := Option.bind_eq_some_iff.mp hrss
    cases heq
    have hrest : consumerRecords bs = some rss'.flatten := by rw [consumerRecords, hrss', Option.map_some]
    have hbatch : (receiveBatch topic i b).exec c
        = (some rs.length, { c with sent := c.sent ++ rs.map fun r => ⟨topic, i, r⟩ }) := by
      rw [receiveBatch, batchIntoConsumerRecords, hrs, Option.map_some, exec_bind, exec_orPanic]
      dsimp only
      rw [List.length_map]
      rfl
    obtain ⟨ns, hns, hsum⟩ := ih hrest { c with sent := c.sent ++ rs.map fun r => ⟨topic, i, r⟩ }
    refine ⟨rs.length :: ns, ?_, ?_⟩
    · rw [List.mapM_cons, exec_bind, hbatch]
      dsimp only
      rw [exec_bind, hns]
      simp only [List.flatten_cons, List.map_append, List.append_assoc]
      rfl
    · rw [List.sum_cons, hsum, List.flatten_cons, List.length_append]

lemma receivePartition_exec (topic : String) {p : PartitionResponse}
    (hst : c.partitions.lookup p.partitionIndex.toUInt16 = some st)
    (h : consumerRecords p.records = some records) :
    (receivePartition topic p).exec c = (some records.length,
      c.advance topic p.partitionIndex.toUInt16 st p.highWatermark.toNat records) := by
  obtain ⟨ns, hns, hsum⟩ := receiveBatches_exec (i := p.partitionIndex.toUInt16) topic h
    ⟨c.partitions.insert p.partitionIndex.toUInt16
      ⟨max st.highWatermark p.highWatermark.toNat, st.commitOffset⟩, c.cfg, c.sent⟩
  rw [receivePartition, exec_get_bind, exec_bind, hst, exec_orPanic]
  dsimp only
  rw [exec_bind]
  have hmodify : ∀ (f : ConsumerActor → ConsumerActor) (c : ConsumerActor),
      (modify f : Panics ConsumerActor PUnit).exec c = (some ⟨⟩, f c) := fun _ _ => rfl
  rw [hmodify]
  dsimp only
  rw [exec_bind, hns]
  dsimp only
  rw [exec_bind, hmodify, hsum]
  rfl

end ConsumerActor

end Musil.Consumer
