import Musil.Lib.Run
import Musil.Storage.PartitionStart
import Mathlib.Data.List.Infix

/-!
# Consumption

A consumer fetches at its commit offset, emits the records it decodes and moves its commit offset on
by their number. Between the moment a fetch loads the published state and the moment it reads the
files, the actor may append.
-/

namespace Musil.Consumer

open Proto Storage Run

/-! ### The offset loop -/

structure ConsumerPartitionState where
  highWatermark : ℕ
  commitOffset : ℕ
  deriving DecidableEq, Repr

/-- The records that batches are turned into; there is no value when one ends early. -/
def consumerRecords (batches : List RecordBatch) : Option (List Record) :=
  (batches.mapM RecordBatch.intoRecords).map List.flatten

namespace ConsumerPartitionState

def fromOffset (fetchOffset : ℕ) : ConsumerPartitionState := ⟨0, fetchOffset⟩

/-- A response moves the consumer on by the records in it, which are emitted. -/
def receive (c : ConsumerPartitionState) (res : PartitionResponse) :
    Option (ConsumerPartitionState × List Record) :=
  (consumerRecords res.records).map fun records =>
    (⟨max c.highWatermark res.highWatermark, c.commitOffset + records.length⟩, records)

end ConsumerPartitionState

/-- A batch as a producer sends it: the deltas count the records, the lengths of the records and
the checksum are right. -/
structure Produced [Crc] extends Filled where
  sized : ∀ r ∈ recs, r.Sized
  deltas : ∀ (i : ℕ) (r : Record), recs[i]? = some r → r.offsetDelta.toNat = i
  crc_eq : Crc.crc32Iscsi batch.records = batch.crc

lemma Produced.searchable [Crc] (x : Produced) : x.Searchable :=
  x.carries.searchable x.sized x.deltas

def Produced.single [Crc] (value : UInt8) : Produced where
  toFilled := .single value
  sized r hr := by
    rw [List.mem_singleton.mp hr]
    exact Record.new_sized 0 0 (by decide : 33 + 0 + 1 < 2 ^ 32)
  deltas i r hr := by
    cases i with
    | zero =>
      cases hr
      rfl
    | succ i => cases hr
  crc_eq := rfl

/-! ### A consumer beside the actor -/

/-- The partition, the state that the fetch under way has loaded, and the consumer; the records
written so far with their offsets, and the records emitted. -/
structure System where
  id : ℕ
  partition : Partition
  loaded : Option PartitionState
  consumer : ConsumerPartitionState
  log : List (Record × ℕ)
  emitted : List Record

inductive Event [Crc] where
  | append (x : Produced) (acks : Acks) (done : ℕ)
  | load
  | fetch (partitionMaxBytes : UInt32)

namespace System

def start (id : ℕ) (p : Partition) : System := ⟨id, p, none, .fromOffset 0, [], []⟩

/-- A new consumer takes the place of the one that there was. -/
def join (s : System) (o : ℕ) : System :=
  { s with loaded := none, consumer := .fromOffset o, emitted := [] }

def step [Crc] (s : System) : Event → System
  | .append x acks done =>
    let (p, _) := s.partition.handle (.append x.batch acks done)
    let written := if p.actor.isSome then x.recs.zipIdx s.partition.state.logEndOffset else []
    { s with partition := p, log := s.log ++ written }
  | .load => { s with loaded := some s.partition.state }
  | .fetch partitionMaxBytes =>
    let received := do
      let st ← s.loaded
      let res ← st.fetch s.partition.disk s.id
        ⟨UInt64.ofNat s.consumer.commitOffset, partitionMaxBytes⟩
      s.consumer.receive res
    match received with
    | none => { s with loaded := none }
    | some (c, records) =>
      { s with loaded := none, consumer := c, emitted := s.emitted ++ records }

/-- The consumer that began at `o` has emitted the records from there on, each once and in order. A
fetch below the end of the loaded state returns a record; the consumer's next fetch emits exactly
what is decoded from the response and moves its commit offset on by as much. -/
structure InOrder [Crc] (s : System) (o : ℕ) : Prop where
  offsets : s.log.map Prod.snd = List.range s.partition.state.logEndOffset
  emitted : s.emitted.zipIdx o <+: s.log.drop o
  commit_eq : s.consumer.commitOffset = o + s.emitted.length
  fetched : ∀ st ∈ s.loaded, ∀ req, req.fetchOffset.toNat < st.logEndOffset →
    ∃ res records, st.fetch s.partition.disk s.id req = some res ∧
      consumerRecords res.records = some records ∧ records ≠ []
  received : ∀ st ∈ s.loaded, ∀ m : UInt32, ∃ res records,
    st.fetch s.partition.disk s.id ⟨UInt64.ofNat s.consumer.commitOffset, m⟩ = some res ∧
      consumerRecords res.records = some records ∧
      (s.consumer.commitOffset < st.logEndOffset → records ≠ []) ∧
      (s.step (.fetch m)).emitted = s.emitted ++ records ∧
      (s.step (.fetch m)).consumer.commitOffset = s.consumer.commitOffset + records.length

/-! ### What a fetch delivers -/

/-- Every record can be found in its batch and has its length. -/
def Decodable (xs : List Filled) : Prop :=
  ∀ x ∈ xs, x.Searchable ∧ ∀ r ∈ x.recs, r.Sized

lemma consumerRecords_map {xs : List Filled} (h : ∀ r ∈ xs.flatMap Filled.recs, r.Sized) :
    consumerRecords (xs.map Filled.batch) = some (xs.flatMap Filled.recs) := by
  have hmap : (xs.map Filled.batch).mapM RecordBatch.intoRecords = some (xs.map Filled.recs) := by
    induction xs with
    | nil => rfl
    | cons x xs ih =>
      simp only [List.flatMap_cons, List.forall_mem_append] at h
      rw [List.map_cons, List.mapM_cons, x.carries.intoRecords_eq h.1, ih h.2]
      rfl
  rw [consumerRecords, hmap]
  rfl

section Invariant

variable {s : System} {o : ℕ} {xs ys : List Filled}

/-- What a fetch from a state returns is decoded into the records from the fetch offset on. -/
lemma exists_fetch [Crc] {d : Disk} {st : PartitionState} (h : Shows d st xs) (hx : Decodable xs)
    (id : ℕ) (req : FetchPartition) (ho : req.fetchOffset.toNat ≤ st.logEndOffset) :
    ∃ res records, st.fetch d id req = some res ∧ consumerRecords res.records = some records ∧
      records <+: (xs.flatMap Filled.recs).drop req.fetchOffset.toNat ∧
      (req.fetchOffset.toNat < st.logEndOffset → records ≠ []) := by
  obtain ⟨ys, hfetch, hpre, hfirst⟩ := h.fetch (fun x hx' => (hx x hx').1) id req ho
  refine ⟨_, ys.flatMap Filled.recs, hfetch, consumerRecords_map fun r hr => ?_, hpre, ?_⟩
  · obtain ⟨x, hmem, hr'⟩ := List.mem_flatMap.mp (List.drop_subset _ _ (hpre.subset hr))
    exact (hx x hmem).2 r hr'
  · intro hlt
    obtain ⟨y, hy, -⟩ := hfirst hlt
    obtain ⟨ys', rfl⟩ := List.head?_eq_some_iff.mp hy
    rw [List.flatMap_cons]
    exact List.append_ne_nil_of_left_ne_nil y.recs_ne _

/-! ### The invariant -/

/-- The log holds the batches `xs`, and the loaded state shows the first of them. -/
structure Holding (s : System) (xs : List Filled) : Prop where
  log_eq : s.log = (xs.flatMap Filled.recs).zipIdx
  leo_eq : s.partition.state.logEndOffset = (xs.flatMap Filled.recs).length
  leo_lt : s.partition.state.logEndOffset < 2 ^ 63
  decodable : Decodable xs
  running : ∀ a, s.partition.actor = some a → Running s.partition a xs ∧
    AtEnd s.partition.disk a.active ∧ ∀ st ∈ s.loaded, Behind a.active st
  shows : Shows s.partition.disk s.partition.state xs
  loaded : ∀ st ∈ s.loaded, ∃ ys, ys <+: xs ∧ Shows s.partition.disk st ys

/-- The consumer has emitted the records from its start on, and the loaded state reaches its commit
offset. -/
structure Following (s : System) (o : ℕ) (xs : List Filled) : Prop where
  start_le : o ≤ s.partition.state.logEndOffset
  emitted : s.emitted <+: (xs.flatMap Filled.recs).drop o
  commit_eq : s.consumer.commitOffset = o + s.emitted.length
  commit_le : ∀ st ∈ s.loaded, s.consumer.commitOffset ≤ st.logEndOffset

/-- The fetch under way is answered, or there is none. -/
lemma Holding.unload (h : Holding s xs) (c : ConsumerPartitionState) (records : List Record) :
    Holding { s with loaded := none, consumer := c, emitted := records } xs where
  log_eq := h.log_eq
  leo_eq := h.leo_eq
  leo_lt := h.leo_lt
  decodable := h.decodable
  running a ha :=
    ⟨(h.running a ha).1, (h.running a ha).2.1, fun _ hst => absurd hst (by simp)⟩
  shows := h.shows
  loaded _ hst := absurd hst (by simp)

lemma Following.grow (h : Following s o xs) (hp : xs <+: ys) (hs : Holding s xs)
    {s' : System} (hs' : Holding s' ys) (hconsumer : s'.consumer = s.consumer)
    (hemitted : s'.emitted = s.emitted) (hloaded : s'.loaded = s.loaded) : Following s' o ys where
  start_le := by
    obtain ⟨zs, rfl⟩ := hp
    have hle := h.start_le
    rw [hs.leo_eq] at hle
    rw [hs'.leo_eq, List.flatMap_append, List.length_append]
    omega
  emitted := by
    obtain ⟨zs, rfl⟩ := hp
    rw [hemitted, List.flatMap_append]
    exact h.emitted.trans (List.IsPrefix.drop (List.prefix_append _ _) o)
  commit_eq := by rw [hconsumer, hemitted, h.commit_eq]
  commit_le := by
    rw [hconsumer, hloaded]
    exact h.commit_le

lemma Following.commit_le_leo (h : Following s o xs) (hs : Holding s xs) :
    s.consumer.commitOffset ≤ s.partition.state.logEndOffset := by
  have hlen := h.emitted.length_le
  have hstart := h.start_le
  rw [List.length_drop, ← hs.leo_eq] at hlen
  rw [h.commit_eq]
  omega

/-- The invariant of a run. -/
def Consumes (s : System) (o : ℕ) : Prop :=
  ∃ xs, s.Holding xs ∧ s.Following o xs

lemma Consumes.join (h : s.Consumes o) {o' : ℕ} (ho : o' ≤ s.partition.state.logEndOffset) :
    (s.join o').Consumes o' := by
  obtain ⟨xs, hs, -⟩ := h
  refine ⟨xs, hs.unload (.fromOffset o') [], ho, List.nil_prefix, rfl, fun _ hst => ?_⟩
  exact absurd hst (by simp [System.join])

lemma consumes_start {p : Partition} {a : PartitionActor} (id : ℕ) (h : Running p a [])
    (he : AtEnd p.disk a.active) : (start id p).Consumes 0 := by
  refine ⟨[], ⟨rfl, h.leo_eq, h.leo_lt, fun _ hx => absurd hx List.not_mem_nil, fun b hb => ?_,
    h.shows, fun _ hst => ?_⟩, Nat.zero_le _, List.nil_prefix, rfl, fun _ hst => ?_⟩
  · obtain rfl : a = b := Option.some.inj (h.actor.symm.trans hb)
    exact ⟨h, he, fun _ hst => absurd hst (by simp [start])⟩
  · exact absurd hst (by simp [start])
  · exact absurd hst (by simp [start])

variable [Crc]

lemma Holding.append (h : Holding s xs) (x : Produced) (acks : Acks) (done : ℕ) :
    ∃ ys, xs <+: ys ∧ Holding (s.step (.append x acks done)) ys := by
  cases ha : s.partition.actor with
  | none =>
    have hstep : s.step (.append x acks done) = s := by
      simp only [step, Partition.handle_of_none ha, ha, Option.isSome_none, Bool.false_eq_true,
        if_false, List.append_nil]
    exact ⟨xs, List.prefix_refl _, hstep.symm ▸ h⟩
  | some a =>
    obtain ⟨hrunning, hend, hbehind⟩ := h.running a ha
    rcases hp : a.handleAppend s.partition.disk s.partition.state x.batch acks done with ⟨p', out⟩
    have hstep : s.step (.append x acks done) = { s with
        partition := p'
        log := s.log ++ if p'.actor.isSome then x.recs.zipIdx s.partition.state.logEndOffset
          else [] } := by
      simp only [step, Partition.handle_append ha, hp]
    rw [hstep]
    rcases hrunning.append (x := x.toFilled) hend hp with ⟨hnone, hstate, -, hkeep⟩ |
      ⟨a', hrunning', -, hend', hpres, -⟩
    · refine ⟨xs, List.prefix_refl _, ?_, ?_, ?_, h.decodable, ?_, ?_, ?_⟩
      · simpa [hnone] using h.log_eq
      · exact hstate ▸ h.leo_eq
      · exact hstate ▸ h.leo_lt
      · exact fun b hb => absurd hb (by simp [hnone])
      · rw [show p'.state = s.partition.state from hstate]
        exact hkeep _ _ h.shows hrunning.isBehind
      · intro st hst
        obtain ⟨ys, hys, hshows⟩ := h.loaded st hst
        exact ⟨ys, hys, hkeep st ys hshows (hbehind st hst)⟩
    · have hrecs : ((xs ++ [stored s.partition.state x.toFilled]).flatMap Filled.recs)
          = xs.flatMap Filled.recs ++ x.recs := by
        rw [List.flatMap_append, List.flatMap_singleton]
        rfl
      refine ⟨xs ++ [stored s.partition.state x.toFilled], List.prefix_append _ _, ?_, ?_, ?_, ?_,
        ?_, hrunning'.shows, ?_⟩
      · simp only [hrunning'.actor, Option.isSome_some, if_true]
        rw [hrecs, List.zipIdx_append, h.log_eq, h.leo_eq, Nat.zero_add]
      · rw [hrunning'.leo_eq, endOffset, Nat.zero_add]
      · exact hrunning'.leo_lt
      · intro y hy
        rcases List.mem_append.mp hy with hold | hnew
        · exact h.decodable y hold
        · rw [List.mem_singleton.mp hnew]
          exact ⟨x.searchable, x.sized⟩
      · intro b hb
        rw [hrunning'.actor] at hb
        cases hb
        refine ⟨hrunning', hend', fun st hst => ?_⟩
        obtain ⟨ys, -, hshows⟩ := h.loaded st hst
        exact (hpres st ys hshows (hbehind st hst)).2
      · intro st hst
        obtain ⟨ys, hys, hshows⟩ := h.loaded st hst
        exact ⟨ys, hys.trans (List.prefix_append _ _), (hpres st ys hshows (hbehind st hst)).1⟩

lemma Holding.load (h : Holding s xs) : Holding (s.step .load) xs where
  log_eq := h.log_eq
  leo_eq := h.leo_eq
  leo_lt := h.leo_lt
  decodable := h.decodable
  running a ha := by
    obtain ⟨hrunning, hend, -⟩ := h.running a ha
    refine ⟨hrunning, hend, fun st hst => ?_⟩
    cases hst
    exact hrunning.isBehind
  shows := h.shows
  loaded st hst := by
    cases hst
    exact ⟨xs, List.prefix_refl _, h.shows⟩

lemma Following.load (h : Following s o xs) (hs : Holding s xs) :
    Following (s.step .load) o xs where
  start_le := h.start_le
  emitted := h.emitted
  commit_eq := h.commit_eq
  commit_le st hst := by
    cases hst
    exact h.commit_le_leo hs

/-- A fetch from the loaded state is answered, and the consumer takes in what it is answered. -/
lemma Following.exists_received (h : Following s o xs) (hs : Holding s xs) {st : PartitionState}
    (hst : st ∈ s.loaded) (m : UInt32) : ∃ res records,
      st.fetch s.partition.disk s.id ⟨UInt64.ofNat s.consumer.commitOffset, m⟩ = some res ∧
      consumerRecords res.records = some records ∧
      (s.consumer.commitOffset < st.logEndOffset → records ≠ []) ∧
      records <+: (xs.flatMap Filled.recs).drop s.consumer.commitOffset ∧
      s.step (.fetch m) = { s with
        loaded := none
        consumer := ⟨max s.consumer.highWatermark res.highWatermark,
          s.consumer.commitOffset + records.length⟩
        emitted := s.emitted ++ records } := by
  obtain ⟨ys, hys, hshows⟩ := hs.loaded st hst
  have hcommit : (UInt64.ofNat s.consumer.commitOffset).toNat = s.consumer.commitOffset := by
    refine UInt64.toNat_ofNat_of_lt' ((h.commit_le_leo hs).trans_lt ?_)
    exact hs.leo_lt.trans (by decide)
  obtain ⟨res, records, hfetch, hrecords, hpre, hne⟩ := exists_fetch hshows
    (fun y hy => hs.decodable y (hys.subset hy)) s.id ⟨UInt64.ofNat s.consumer.commitOffset, m⟩
    (hcommit.le.trans (h.commit_le st hst))
  rw [hcommit] at hpre hne
  refine ⟨res, records, hfetch, hrecords, hne, ?_, ?_⟩
  · obtain ⟨zs, rfl⟩ := hys
    rw [List.flatMap_append]
    exact hpre.trans (List.IsPrefix.drop (List.prefix_append _ _) _)
  · simp only [step, Option.mem_def.mp hst, Option.bind_eq_bind, Option.bind_some, hfetch,
      ConsumerPartitionState.receive, hrecords, Option.map_some]

/-- The records of a response stand behind those emitted before. -/
lemma Following.fetch (h : Following s o xs) (hs : Holding s xs) (m : UInt32) :
    Following (s.step (.fetch m)) o xs := by
  cases hl : s.loaded with
  | none =>
    have hstep : s.step (.fetch m) = { s with loaded := none } := by
      simp only [step, hl, Option.bind_eq_bind, Option.bind_none]
    rw [hstep]
    exact ⟨h.start_le, h.emitted, h.commit_eq, fun _ hst => absurd hst (by simp)⟩
  | some st =>
    obtain ⟨res, records, -, -, -, hpre, hstep⟩ := h.exists_received hs hl m
    rw [hstep]
    refine ⟨h.start_le, ?_, ?_, fun _ hst => absurd hst (by simp)⟩
    · obtain ⟨rest, hrest⟩ := h.emitted
      have hdrop : rest = (xs.flatMap Filled.recs).drop s.consumer.commitOffset := by
        rw [h.commit_eq, ← List.drop_drop, ← hrest, List.drop_left]
      rw [← hrest, List.prefix_append_right_inj, hdrop]
      exact hpre
    · rw [List.length_append, h.commit_eq, Nat.add_assoc]

lemma Consumes.step (h : s.Consumes o) (e : Event) : (s.step e).Consumes o := by
  obtain ⟨xs, hs, hf⟩ := h
  cases e with
  | append x acks done =>
    obtain ⟨ys, hp, hs'⟩ := hs.append x acks done
    exact ⟨ys, hs', hf.grow hp hs hs' rfl rfl rfl⟩
  | load => exact ⟨xs, hs.load, hf.load hs⟩
  | fetch partitionMaxBytes =>
    refine ⟨xs, ?_, hf.fetch hs partitionMaxBytes⟩
    simp only [System.step]
    split
    · exact hs.unload s.consumer s.emitted
    · exact hs.unload _ _

lemma Consumes.inOrder (h : s.Consumes o) : s.InOrder o := by
  obtain ⟨xs, hs, hf⟩ := h
  constructor
  · rw [hs.log_eq, hs.leo_eq, List.range_eq_range', List.zipIdx_map_snd]
  · obtain ⟨rest, hrest⟩ := hf.emitted
    have hlen : ((xs.flatMap Filled.recs).take o).length = o :=
      List.length_take_of_le (hs.leo_eq ▸ hf.start_le)
    rw [hs.log_eq, ← List.take_append_drop o (xs.flatMap Filled.recs), ← hrest, List.zipIdx_append,
      List.zipIdx_append, List.drop_left' (by rw [List.length_zipIdx, hlen]), hlen, Nat.zero_add]
    exact List.prefix_append _ _
  · exact hf.commit_eq
  · intro st hst req hlt
    obtain ⟨ys, hys, hshows⟩ := hs.loaded st hst
    obtain ⟨res, records, hfetch, hrecords, -, hne⟩ := exists_fetch hshows
      (fun y hy => hs.decodable y (hys.subset hy)) s.id req hlt.le
    exact ⟨res, records, hfetch, hrecords, hne hlt⟩
  · intro st hst m
    obtain ⟨res, records, hfetch, hrecords, hne, -, hstep⟩ := hf.exists_received hs hst m
    exact ⟨res, records, hfetch, hrecords, hne, by rw [hstep], by rw [hstep]⟩

end Invariant

end System

end Musil.Consumer
