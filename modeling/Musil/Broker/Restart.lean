import Musil.Broker.Ownership
import Musil.Storage.FirstSegment

/-!
# Topics across restarts

The metadata actor finds the topics again that it has written to the first segment of its log. It
finds no others, and a record that is written after a start to a log that was not empty takes the
place of the first records. As long as all topics go to the first segment of a log that was empty
at the last start, every start finds the partitions that the image had.
-/

namespace Musil.Broker

open Bytes Bytes.Reader Network Proto Threaded Run Utf8
open Storage (AtEnd Partition PartitionActor Running stored)

/-! ### Records in batches -/

namespace MetadataRecord

lemma Fits.length_lt {r : MetadataRecord} (h : r.Fits) : r.encode.length < 2 ^ 20 := by
  cases r with
  | topic t =>
    have hname : (asBytes t.name).length < 2 ^ 16 := h
    simp only [encode, putName, List.length_append, length_toBE, List.length_singleton]
    omega
  | partition p =>
    obtain ⟨hname, hreplicas⟩ := h
    have hflat : (p.replicas.flatMap fun r => toBE 4 r.toUInt32.toNat).length
        = p.replicas.length * 4 := by
      simp [List.length_flatMap]
    simp only [encode, putName, List.length_append, length_toBE, List.length_singleton, hflat]
    omega

/-- The bytes that a record takes in the log. -/
def bytesInLog (r : MetadataRecord) : ℕ :=
  headerSize + 33 + r.encode.length

end MetadataRecord

/-- The batch has one record, and its value is the metadata record. -/
structure Noted (x : Filled) (r : MetadataRecord) : Prop where
  recs : ∃ record : Record, x.recs = [record] ∧ record.Sized ∧ record.value = r.encode
  fits : r.Fits

section Noted

variable {x : Filled} {xs : List Filled} {r : MetadataRecord} {rs : List MetadataRecord}

/-- The record as the batch has it. -/
def noteRecord (now : UInt64) (r : MetadataRecord) : Record :=
  { Record.new now 0 [] r.encode with
    offsetDelta := 0
    timestampDelta := now - min 0xFFFFFFFFFFFFFFFF now }

lemma noteRecord_sized (now : UInt64) (h : r.Fits) : (noteRecord now r).Sized := by
  have hsized : (Record.new now 0 [] r.encode).Sized := by
    refine Record.new_sized _ _ ?_
    have hlt := h.length_lt
    rw [List.length_nil]
    omega
  rw [Record.Sized, Record.length_encode] at hsized ⊢
  exact hsized

lemma metadataBatch_records [Crc] (now : UInt64) (r : MetadataRecord) (epoch : Int32) :
    (MetadataActor.metadataBatch now r epoch).records = (noteRecord now r).encode :=
  List.append_nil _

lemma length_metadataBatch [Crc] (now : UInt64) (r : MetadataRecord) (epoch : Int32) :
    (MetadataActor.metadataBatch now r epoch).encode.length = r.bytesInLog := by
  rw [RecordBatch.length_encode, metadataBatch_records, Record.length_encode]
  simp [noteRecord, Record.new, MetadataRecord.bytesInLog, Nat.add_assoc]

lemma exists_noted [Crc] (now : UInt64) (h : r.Fits) (epoch : Int32) :
    ∃ x : Filled, x.batch = MetadataActor.metadataBatch now r epoch ∧ Noted x r := by
  have hsized := noteRecord_sized now h
  have hlength : (noteRecord now r).encode.length = 33 + r.encode.length := by
    rw [Record.length_encode]
    simp [noteRecord, Record.new]
  have hlt := h.length_lt
  refine ⟨⟨MetadataActor.metadataBatch now r epoch, [noteRecord now r], ⟨?_, rfl, rfl⟩,
    List.cons_ne_nil _ _⟩, rfl, ⟨_, rfl, hsized, rfl⟩, h⟩
  rw [RecordBatch.Sized, metadataBatch_records, hlength, show
    (MetadataActor.metadataBatch now r epoch).batchLength = 49 + UInt32.ofNat
      (MetadataActor.metadataBatch now r epoch).records.length from rfl, metadataBatch_records,
    hlength]
  simp only [batchPayloadHeader, UInt32.toNat_add, UInt32.toNat_ofNat', UInt32.toNat_ofNat]
  omega

/-- What is read from the batch. -/
lemma Noted.metadataRecord_eq (h : Noted x r) :
    MetadataActor.metadataRecord x.batch = some (some r) := by
  obtain ⟨⟨record, hrecs, hsized, hvalue⟩, hfits⟩ := h
  rw [MetadataActor.metadataRecord, x.carries.records_eq, hrecs, List.flatMap_singleton,
    (Record.reads_decode hsized).run_eq]
  simp only [Option.bind_eq_bind, Option.bind_some, hvalue]
  exact MetadataRecord.decode_of_encode hfits

/-- The records of a log are read back in order. -/
lemma mapM_metadataRecord (h : List.Forall₂ Noted xs rs) :
    (xs.map Filled.batch).mapM MetadataActor.metadataRecord = some (rs.map some) := by
  induction h with
  | nil => rfl
  | cons hx _ ih =>
    rw [List.map_cons, List.mapM_cons, hx.metadataRecord_eq, ih]
    rfl

end Noted

/-! ### What a log lists -/

namespace MetadataActor

/-- The partitions that a log lists. -/
def listedKeys (topics : List (TopicRecord × List PartitionRecord)) : List TopicPartition :=
  (MetadataImage.withTopics topics).map MetadataImage.key

/-- The topic is in the list. -/
def Names (topics : List (TopicRecord × List PartitionRecord)) (name : String) : Prop :=
  ∃ e ∈ topics, e.1.name = name

section Listed

variable {topics : List (TopicRecord × List PartitionRecord)} {q : TopicPartition} {name : String}

lemma mem_listedKeys : q ∈ listedKeys topics ↔
    ∃ e ∈ topics, e.1.name = q.topicId ∧ ∃ p ∈ e.2, p.partitionId = q.partitionId := by
  constructor
  · intro h
    obtain ⟨⟨t, p⟩, hmem, rfl⟩ := List.mem_map.mp h
    obtain ⟨e, he, hp⟩ := List.mem_flatMap.mp hmem
    obtain ⟨p', hp', heq⟩ := List.mem_map.mp hp
    cases heq
    exact ⟨e, he, rfl, p, hp', rfl⟩
  · rintro ⟨e, he, hname, p, hp, hid⟩
    refine List.mem_map.mpr ⟨(e.1, p), List.mem_flatMap.mpr ⟨e, he, List.mem_map_of_mem hp⟩, ?_⟩
    rw [MetadataImage.key, hname, hid]

lemma mem_listedKeys_of_perm {topics' : List (TopicRecord × List PartitionRecord)}
    (h : topics.Perm topics') : q ∈ listedKeys topics ↔ q ∈ listedKeys topics' := by
  rw [mem_listedKeys, mem_listedKeys]
  exact exists_congr fun e => and_congr_left fun _ => h.mem_iff

lemma mem_listedKeys_note_topic (t : TopicRecord) :
    q ∈ listedKeys (note topics (.topic t)) ↔ q ∈ listedKeys topics := by
  rw [note]
  split_ifs
  · rfl
  · simp [mem_listedKeys]

lemma mem_listedKeys_note_partition {p : PartitionRecord} (h : Names topics p.topicId) :
    q ∈ listedKeys (note topics (.partition p)) ↔
      q = ⟨p.topicId, p.partitionId⟩ ∨ q ∈ listedKeys topics := by
  simp only [mem_listedKeys, note, List.mem_map, exists_exists_and_eq_and]
  constructor
  · rintro ⟨e, he, hname, p', hp', hid⟩
    split_ifs at hname hp' with htopic
    · rcases List.mem_append.mp hp' with hold | hnew
      · exact .inr ⟨e, he, hname, p', hold, hid⟩
      · rw [List.mem_singleton.mp hnew] at hid
        exact .inl (TopicPartition.ext (hname.symm.trans htopic) hid.symm)
    · exact .inr ⟨e, he, hname, p', hp', hid⟩
  · rintro (rfl | ⟨e, he, hname, p', hp', hid⟩)
    · obtain ⟨e, he, htopic⟩ := h
      refine ⟨e, he, ?_⟩
      rw [if_pos htopic]
      exact ⟨htopic, p, List.mem_append_right _ List.mem_cons_self, rfl⟩
    · refine ⟨e, he, ?_⟩
      split_ifs
      · exact ⟨hname, p', List.mem_append_left _ hp', hid⟩
      · exact ⟨hname, p', hp', hid⟩

lemma names_note_topic (t : TopicRecord) : Names (note topics (.topic t)) t.name := by
  rw [note]
  split_ifs with hany
  · simpa [Names] using hany
  · exact ⟨(t, []), List.mem_append_right _ List.mem_cons_self, rfl⟩

lemma Names.note (h : Names topics name) (r : MetadataRecord) :
    Names (MetadataActor.note topics r) name := by
  obtain ⟨e, he, hname⟩ := h
  cases r with
  | topic t =>
    rw [MetadataActor.note]
    split_ifs
    · exact ⟨e, he, hname⟩
    · exact ⟨e, List.mem_append_left _ he, hname⟩
  | partition p =>
    rw [MetadataActor.note]
    refine ⟨_, List.mem_map_of_mem he, ?_⟩
    split_ifs
    · exact hname
    · exact hname

lemma mem_listedKeys_partitions {ps : List PartitionRecord} (h : Names topics name)
    (hps : ∀ p ∈ ps, p.topicId = name) :
    q ∈ listedKeys ((ps.map MetadataRecord.partition).foldl note topics) ↔
      q ∈ ps.map (fun p => ⟨name, p.partitionId⟩) ∨ q ∈ listedKeys topics := by
  induction ps generalizing topics with
  | nil => simp
  | cons p ps ih =>
    obtain ⟨hp, hps⟩ := List.forall_mem_cons.mp hps
    rw [List.map_cons, List.foldl_cons, ih (h.note _) hps,
      mem_listedKeys_note_partition (hp ▸ h), hp, List.map_cons, List.mem_cons, or_left_comm,
      or_assoc]

/-- The records of a request list its partitions behind the others. -/
lemma mem_listedKeys_records (ts : List TopicRequest) :
    q ∈ listedKeys ((ts.flatMap records).foldl note topics) ↔
      q ∈ listedKeys (ts.map fun t => (⟨t.name⟩, partitionRecords t)) ∨ q ∈ listedKeys topics := by
  induction ts generalizing topics with
  | nil => simp [listedKeys, MetadataImage.withTopics]
  | cons t ts ih =>
    have hids : ∀ p ∈ partitionRecords t, p.topicId = t.name := by
      intro p hp
      obtain ⟨i, -, rfl⟩ := List.mem_map.mp hp
      rfl
    have hkeys : listedKeys ((t :: ts).map fun t => (⟨t.name⟩, partitionRecords t)) =
        (partitionRecords t).map (fun p => ⟨t.name, p.partitionId⟩) ++
          listedKeys (ts.map fun t => (⟨t.name⟩, partitionRecords t)) := by
      simp only [listedKeys, MetadataImage.withTopics, List.map_cons, List.flatMap_cons,
        List.map_append, List.map_map]
      rfl
    rw [List.flatMap_cons, List.foldl_append, ih, records, List.foldl_cons,
      mem_listedKeys_partitions (names_note_topic ⟨t.name⟩) hids, mem_listedKeys_note_topic, hkeys,
      List.mem_append, or_left_comm, or_assoc]

end Listed

end MetadataActor

/-! ### The log on the host -/

/-- Actor `n` runs on the metadata log, whose first segment has the batches `xs`; the other
directories have no records, and all partitions can be opened. -/
structure LogAt (path : String) (n : ℕ) (w : Host) (a : PartitionActor) (xs : List Filled) :
    Prop where
  cell : ∃ c, w.cells[n]? = some c ∧ c.dir = metadataPartition.directory path ∧
    Running ⟨w.dirs c.dir, c.state, c.actor⟩ a xs
  config : a.config = (MetadataActor.config path).actorConfig
  log : ((w.dirs (metadataPartition.directory path)).file 0).log = Storage.bytes xs
  others : ∀ dir, dir ≠ metadataPartition.directory path → ∀ k, ((w.dirs dir).file k).log = []
  opens : ∀ k, w.opens k = true

/-- The records go to the first segment of a log that the writer is at the end of. -/
def InFirst (p : Partition) (a : PartitionActor) (rs : List MetadataRecord) : Prop :=
  AtEnd p.disk a.active ∧ a.active.segment.baseOffset = 0 ∧
    a.active.size + (rs.dropLast.map MetadataRecord.bytesInLog).sum < a.config.segmentBytes ∧
    (rs.map MetadataRecord.bytesInLog).sum ≤ p.disk.free

instance (p : Partition) (a : PartitionActor) (rs : List MetadataRecord) :
    Decidable (InFirst p a rs) :=
  inferInstanceAs (Decidable (_ ∧ _ ∧ _ ∧ _))

section LogAt

variable {path : String} {n : ℕ} {w w' : Host} {a : PartitionActor} {xs : List Filled}
  {rs : List MetadataRecord}

lemma LogAt.exists_partition (h : LogAt path n w a xs) :
    ∃ p, w.partition n = some p ∧ p.actor = some a ∧ Running p a xs := by
  obtain ⟨c, hc, -, hrunning⟩ := h.cell
  exact ⟨_, congrArg _ hc, hrunning.actor, hrunning⟩

/-- Whatever happens to the other cells and directories. -/
lemma LogAt.frame (h : LogAt path n w a xs) (hcell : w'.cells[n]? = w.cells[n]?)
    (hdir : w'.dirs (metadataPartition.directory path) = w.dirs (metadataPartition.directory path))
    (hothers : ∀ dir k, ((w'.dirs dir).file k).log = ((w.dirs dir).file k).log)
    (hopens : w'.opens = w.opens) : LogAt path n w' a xs := by
  obtain ⟨c, hc, hcdir, hrunning⟩ := h.cell
  refine ⟨⟨c, hcell.trans hc, hcdir, ?_⟩, h.config, ?_, fun dir hne k => ?_, fun k => ?_⟩
  · rw [hcdir] at hrunning ⊢
    rwa [hdir]
  · rw [hothers]
    exact h.log
  · rw [hothers]
    exact h.others dir hne k
  · rw [hopens]
    exact h.opens k

/-- The actor has handled an append to its first segment. -/
lemma LogAt.put (h : LogAt path n w a xs) {p : Partition} {a' : PartitionActor} {ys : List Filled}
    (hrunning : Running p a' ys) (hconfig : a'.config = a.config)
    (hlog : (p.disk.file 0).log = Storage.bytes ys) : LogAt path n (w.put n p) a' ys := by
  obtain ⟨c, hc, hdir, -⟩ := h.cell
  have hput : w.put n p = { w with
      dirs := Function.update w.dirs c.dir p.disk
      cells := w.cells.set n { c with state := p.state, actor := p.actor } } := by
    rw [Host.put, hc]
  rw [hput]
  refine ⟨⟨{ c with state := p.state, actor := p.actor }, ?_, hdir, ?_⟩, hconfig.trans h.config, ?_,
    fun dir hne k => ?_, h.opens⟩
  · exact List.getElem?_set_self (List.getElem?_eq_some_iff.mp hc).1
  · simpa only [Function.update_self] using hrunning
  · simpa only [← hdir, Function.update_self] using hlog
  · simpa only [Function.update_of_ne (hdir.symm ▸ hne)] using h.others dir hne k

variable [Crc] {actor : MetadataActor} {clock : Host → UInt64}

/-- An append that is answered at once. -/
lemma append_exec {p p' : Partition} {r : MetadataRecord}
    {res : Storage.ProducePartitionResponse} (hp : w.partition actor.handle.actor = some p)
    (ha : p.actor = some a)
    (hhandle : a.handleAppend p.disk p.state
      (MetadataActor.metadataBatch (clock w) r MetadataActor.initialEpoch) .none 0 =
        (p', [.appended 0 res])) :
    (actor.append clock r).exec w = (some (), w.put actor.handle.actor p') := by
  have hcommand : p.handle (.append (MetadataActor.metadataBatch (clock w) r
      MetadataActor.initialEpoch) .none 0) = (p', [.appended 0 res]) := by
    rw [Partition.handle_append ha, hhandle]
  rw [MetadataActor.append, exec_get_bind, exec_bind, PartitionHandle.append, exec_bind,
    send_exec hp ha hcommand]
  rfl

/-- Records that go to the first segment are written there one after the other. -/
lemma LogAt.persist (clock : Host → UInt64) (h : LogAt path actor.handle.actor w a xs)
    (hfits : ∀ r ∈ rs, r.Fits)
    (hfirst : rs ≠ [] → ∀ p ∈ w.partition actor.handle.actor, InFirst p a rs) :
    ∃ w' a' ys, (actor.persist clock rs).exec w = (some (), w') ∧
      LogAt path actor.handle.actor w' a' (xs ++ ys) ∧ List.Forall₂ Noted ys rs := by
  induction rs generalizing w a xs with
  | nil => exact ⟨w, a, [], rfl, by rwa [List.append_nil], .nil⟩
  | cons r rs ih =>
    obtain ⟨hr, hrs⟩ := List.forall_mem_cons.mp hfits
    obtain ⟨p, hp, ha, hrunning⟩ := h.exists_partition
    obtain ⟨hend, hbase, hsize, hfree⟩ := hfirst (List.cons_ne_nil _ _) p hp
    obtain ⟨x, hx, hnoted⟩ := exists_noted (clock w) hr MetadataActor.initialEpoch
    have hlength : x.batch.encode.length = r.bytesInLog := by rw [hx, length_metadataBatch]
    rw [List.map_cons, List.sum_cons] at hfree
    obtain ⟨p', a', hhandle, hrunning', hconfig, hend', hlog, hfree', hbase'⟩ :=
      hrunning.append_first (x := x) hend hbase (by omega) 0
    rw [hx] at hhandle
    have hbytes : (Storage.bytes (xs ++ [stored p.state x])).length
        = a.active.size + r.bytesInLog := by
      rw [Storage.bytes_append, List.length_append, (hrunning.first_writes hbase).size_eq,
        ← hlength, RecordBatch.length_encode]
      simp [Storage.bytes, RecordBatch.length_encode, stored, Filled.rebase]
    obtain ⟨w', a'', ys, hrun, hlogAt, hys⟩ := ih (h.put hrunning' hconfig hlog) hrs fun hne q hq => by
      obtain rfl : q = p' := Option.some.inj (hq.symm.trans (Host.partition_put hp))
      rw [List.dropLast_cons_of_ne_nil hne, List.map_cons, List.sum_cons] at hsize
      have hroom := hbase' (by omega)
      refine ⟨hend', hroom, ?_, by omega⟩
      rw [(hrunning'.first_writes hroom).size_eq, hconfig]
      omega
    refine ⟨w', a'', stored p.state x :: ys, ?_, ?_, .cons ?_ hys⟩
    · exact exec_bind_eq_some.mpr ⟨(), _, append_exec hp ha hhandle, hrun⟩
    · rwa [List.append_assoc, List.singleton_append] at hlogAt
    · exact ⟨hnoted.recs, hnoted.fits⟩

end LogAt

/-! ### Starts of partitions -/

/-- Partitions were started in some directories: only their disks changed, and no log. -/
structure Host.Grown (dirs : List Directory) (w w' : Host) : Prop where
  opens : w'.opens = w.opens
  log : ∀ dir k, ((w'.dirs dir).file k).log = ((w.dirs dir).file k).log
  others : ∀ dir ∉ dirs, w'.dirs dir = w.dirs dir
  cells : w.cells <+: w'.cells

section Start

variable {path : String} {n : ℕ} {w w' : Host} {a : PartitionActor} {xs : List Filled}
  {rs : List MetadataRecord} {dirs : List Directory}

lemma LogAt.grown (h : LogAt path n w a xs) (hw : w.Grown dirs w')
    (hdirs : metadataPartition.directory path ∉ dirs) : LogAt path n w' a xs := by
  obtain ⟨c, hc, -⟩ := h.cell
  obtain ⟨cells, hcells⟩ := hw.cells
  refine h.frame ?_ (hw.others _ hdirs) hw.log hw.opens
  rw [← hcells, List.getElem?_append_left (List.getElem?_eq_some_iff.mp hc).1]

lemma LogAt.release (h : LogAt path n w a xs) {kept : List ℕ} (hn : n ∈ kept) :
    LogAt path n (w.release kept) a xs := by
  refine h.frame ?_ rfl (fun _ _ => rfl) rfl
  simp [Host.release, List.getElem?_mapIdx, hn]

lemma Host.Grown.trans {w'' : Host} {dirs' : List Directory} (h : w.Grown dirs w')
    (h' : w'.Grown dirs' w'') : w.Grown (dirs ++ dirs') w'' where
  opens := h'.opens.trans h.opens
  log dir k := (h'.log dir k).trans (h.log dir k)
  others dir hdir := by
    rw [List.mem_append, not_or] at hdir
    exact (h'.others dir hdir.2).trans (h.others dir hdir.1)
  cells := h.cells.trans h'.cells

/-- A started partition has the logs that it found. -/
lemma grown_add {dir : Directory} {p : Partition} {config : Storage.PartitionActorConfig}
    {replicas : List Storage.ReplicaMetadata}
    (h : PartitionActor.new config replicas (w.dirs dir) = some p) :
    w.Grown [dir] (w.add dir p) where
  opens := rfl
  log dir' k := by
    rcases eq_or_ne dir' dir with rfl | hne
    · simpa only [Host.add, Function.update_self] using (Storage.new_first h).1 k
    · simp only [Host.add, Function.update_of_ne hne]
  others dir' hdir := Function.update_of_ne (List.ne_of_not_mem_cons hdir) _ _
  cells := List.prefix_append _ _

/-- Partitions without records are started one after the other. -/
lemma createPartitions_exec (ts : List (TopicRecord × PartitionRecord)) (image : MetadataImage)
    (hopens : ∀ k, w.opens k = true)
    (hempty : ∀ q ∈ ts.map MetadataImage.key, ∀ k, ((w.dirs (q.directory path)).file k).log = []) :
    ∃ next w', (image.createPartitions path ts).exec w = (some next, w') ∧
      (∀ q, q ∈ next.keys ↔ q ∈ ts.map MetadataImage.key ∨ q ∈ image.keys) ∧
      w.Grown ((ts.map MetadataImage.key).map (TopicPartition.directory path)) w' := by
  induction ts generalizing image w with
  | nil => exact ⟨image, w, rfl, by simp, rfl, fun _ _ => rfl, fun _ _ => rfl, List.prefix_rfl⟩
  | cons t ts ih =>
    rw [List.map_cons, List.forall_mem_cons] at hempty
    obtain ⟨p, hp⟩ := Storage.new_of_empty (MetadataImage.config path t.1 t.2).actorConfig
      (MetadataImage.config path t.1 t.2).replicas hempty.1
    have hadd := grown_add hp
    have hstart : PartitionHandle.start (MetadataImage.config path t.1 t.2) w = some p := by
      rw [PartitionHandle.start, if_pos (hopens _)]
      exact hp
    obtain ⟨next, w', hrun, hkeys, hgrown⟩ := ih (w := w.add ((MetadataImage.key t).directory path) p)
      (image.insert (MetadataImage.key t) ⟨t.2.partitionId.toUInt32, w.cells.length⟩) hopens
      fun q hq k => (hadd.log (q.directory path) k).trans (hempty.2 q hq k)
    have hall := hadd.trans hgrown
    rw [List.singleton_append, ← List.map_cons, ← List.map_cons] at hall
    refine ⟨next, w', ?_, fun q => ?_, hall⟩
    · rw [MetadataImage.createPartitions, exec_bind, spawn_exec, hstart]
      exact hrun
    · rw [hkeys, List.map_cons, List.mem_cons]
      refine (or_congr_right ((AList.mem_insert _).trans Iff.rfl)).trans ?_
      rw [or_left_comm, or_assoc]
      rfl

/-! ### Restarts -/

lemma segmentBatches_eq {p : Partition} {v : Storage.SegmentView}
    (hhead : p.state.segments.head? = some v) (hbase : v.baseOffset = 0)
    (hsize : v.size = (Storage.bytes xs).length) (hlog : (p.disk.file 0).log = Storage.bytes xs) :
    MetadataActor.segmentBatches p = some (xs.map Filled.batch) := by
  have hbatches := Storage.batches_bytes xs []
  rw [List.append_nil] at hbatches
  have hread : (v.batchesFrom (p.disk.file 0) 0).batches = (xs.map Filled.batch).map some := by
    rw [Storage.SegmentView.batchesFrom, hlog, hsize]
    exact hbatches
  rw [MetadataActor.segmentBatches, hhead]
  simp only [hbase, fetchAll, hread, List.mapM_map]
  exact List.mapM_pure

/-- What a start finds of a log whose first segment has all batches. -/
lemma listed_exec (order : TopicOrder) {p : Partition}
    (hnew : PartitionActor.new (MetadataActor.config path).actorConfig []
      (w.dirs (metadataPartition.directory path)) = some p)
    (hrunning : Running p a xs) (hconfig : a.config = (MetadataActor.config path).actorConfig)
    (hkey : ((w.dirs (metadataPartition.directory path)).files.keys.insertionSort
      (· ≤ ·)).head?.getD 0 = 0)
    (hlog : ((w.dirs (metadataPartition.directory path)).file 0).log = Storage.bytes xs)
    (hnoted : List.Forall₂ Noted xs rs)
    (hothers : ∀ dir, dir ≠ metadataPartition.directory path → ∀ k, ((w.dirs dir).file k).log = [])
    (hopens : ∀ k, w.opens k = true) :
    (MetadataActor.listed path order).exec w =
        (some (⟨0, w.cells.length⟩, order.topics (rs.foldl MetadataActor.note [])),
          w.add (metadataPartition.directory path) p) ∧
      LogAt path w.cells.length (w.add (metadataPartition.directory path) p) a xs := by
  obtain ⟨hlogs, v, hhead, hbase, hsize⟩ := Storage.new_first hnew
  have hzero : v.baseOffset = 0 := hbase.trans hkey
  rw [hzero, hlog] at hsize
  have hbatches := segmentBatches_eq hhead hzero hsize ((hlogs 0).trans hlog)
  have hstart : PartitionHandle.start (MetadataActor.config path) w = some p := by
    rw [PartitionHandle.start, if_pos (hopens _)]
    exact hnew
  have hgrown := grown_add hnew
  refine ⟨?_, ⟨_, w.cell_add _ p, rfl, ?_⟩, hconfig, ?_, fun dir hne k => ?_, hopens⟩
  · have hpartition := w.partition_add (metadataPartition.directory path) p
    have hrecords : (rs.map some).filterMap id = rs := by simp
    refine exec_bind_eq_some.mpr ⟨_, _, by rw [spawn_exec, hstart], ?_⟩
    rw [exec_get_bind]
    refine exec_orPanic_bind_eq_some.mpr ⟨p, hpartition, ?_⟩
    refine exec_orPanic_bind_eq_some.mpr ⟨_, hbatches, ?_⟩
    refine exec_orPanic_bind_eq_some.mpr ⟨_, mapM_metadataRecord hnoted, ?_⟩
    rw [hrecords, exec_pure]
    rfl
  · simpa only [Host.add, Function.update_self] using hrunning
  · rw [hgrown.log]
    exact hlog
  · rw [hgrown.log]
    exact hothers dir hne k

end Start

/-! ### The image and the log -/

/-- A topic name that a directory can have, other than that of the metadata log. -/
structure ValidName (name : String) : Prop where
  plain : '/' ∉ name.toList
  other : name ≠ "__cluster-metadata"
  short : (asBytes name).length < 2 ^ 16

instance (name : String) : Decidable (ValidName name) :=
  decidable_of_iff ('/' ∉ name.toList ∧ name ≠ "__cluster-metadata" ∧
      (asBytes name).length < 2 ^ 16)
    ⟨fun h => ⟨h.1, h.2.1, h.2.2⟩, fun h => ⟨h.1, h.2, h.3⟩⟩

def BrokerEvent.Valid : BrokerEvent → Prop
  | .start _ => True
  | .create _ _ req => ∀ t ∈ req.topics, ValidName t.name

instance : (e : BrokerEvent) → Decidable e.Valid
  | .start _ => .isTrue trivial
  | .create _ _ req => inferInstanceAs (Decidable (∀ t ∈ req.topics, ValidName t.name))

namespace BrokerState

/-- The records of a request go to the first segment of a log that the writer is at the end of. -/
def RecordsInFirst (b : BrokerState) : BrokerEvent → Prop
  | .start _ => True
  | .create _ _ req => req.topics ≠ [] → ∀ actor ∈ b.metadata,
    ∀ p ∈ b.host.partition actor.handle.actor, ∀ a ∈ p.actor,
      InFirst p a (req.topics.flatMap MetadataActor.records)

instance (b : BrokerState) : (e : BrokerEvent) → Decidable (b.RecordsInFirst e)
  | .start _ => .isTrue trivial
  | .create _ _ req => inferInstanceAs (Decidable (req.topics ≠ [] → ∀ actor ∈ b.metadata,
    ∀ p ∈ b.host.partition actor.handle.actor, ∀ a ∈ p.actor,
      InFirst p a (req.topics.flatMap MetadataActor.records)))

/-- The metadata log has the records `rs`, and the image has the partitions that they list. -/
structure Recorded (path : String) (b : BrokerState) (rs : List MetadataRecord) : Prop where
  log : ∃ actor a xs, b.metadata = some actor ∧ actor.path = path ∧
    LogAt path actor.handle.actor b.host a xs ∧ List.Forall₂ Noted xs rs
  keys : ∀ q, q ∈ b.image.keys ↔ q ∈ MetadataActor.listedKeys (rs.foldl MetadataActor.note [])
  dirs : ∀ q ∈ b.image.keys, q.directory path ≠ metadataPartition.directory path

section Recorded

variable {path : String} {b : BrokerState} {rs : List MetadataRecord} {clock : Host → UInt64}
  {elapsed : UInt32} {req : CreateTopicRequest}

lemma fits_of_valid (h : ∀ t ∈ req.topics, ValidName t.name) :
    ∀ r ∈ req.topics.flatMap MetadataActor.records, r.Fits := by
  intro r hr
  obtain ⟨t, ht, hr⟩ := List.mem_flatMap.mp hr
  rcases List.mem_cons.mp hr with rfl | hr
  · exact (h t ht).short
  · obtain ⟨p, hp, rfl⟩ := List.mem_map.mp hr
    obtain ⟨i, -, rfl⟩ := List.mem_map.mp hp
    exact ⟨(h t ht).short, Nat.two_pow_pos 16⟩

/-- The partitions of valid topics are not in the directory of the metadata log. -/
lemma directory_ne_of_valid (h : ∀ t ∈ req.topics, ValidName t.name) :
    ∀ q ∈ (requested req).map MetadataImage.key,
      q.directory path ≠ metadataPartition.directory path := by
  intro q hq
  obtain ⟨e, he, hname, -⟩ := MetadataActor.mem_listedKeys.mp hq
  obtain ⟨t, ht, rfl⟩ := List.mem_map.mp he
  have hvalid : ValidName q.topicId := hname ▸ h t ht
  rw [Ne, TopicPartition.Plain.directory_inj hvalid.plain metadataPartition_plain]
  rintro rfl
  exact hvalid.other rfl

/-- A request writes its records behind the others and creates its partitions. -/
lemma Recorded.create [Crc] (h : Recorded path b rs) (hvalid : ∀ t ∈ req.topics, ValidName t.name)
    (hfirst : b.RecordsInFirst (.create clock elapsed req)) :
    Recorded path (b.step path (.create clock elapsed req))
      (rs ++ req.topics.flatMap MetadataActor.records) := by
  obtain ⟨actor, a, xs, hactor, hpath, hlog, hnoted⟩ := h.log
  have hne : ∀ q ∈ (requested req).map MetadataImage.key,
      q.directory path ≠ metadataPartition.directory path := directory_ne_of_valid hvalid
  obtain ⟨w₁, a₁, ys, hpersist, hlog₁, hys⟩ := hlog.persist clock (fits_of_valid hvalid)
    fun hrs p hp => by
      obtain ⟨p', hp', ha, -⟩ := hlog.exists_partition
      obtain rfl : p' = p := Option.some.inj (hp'.symm.trans hp)
      exact hfirst (fun hnil => hrs (by rw [hnil, List.flatMap_nil])) actor hactor p' hp' a ha
  obtain ⟨next, w₂, hcreate, hkeys, hgrown⟩ := createPartitions_exec (requested req) b.image
    hlog₁.opens fun q hq => hlog₁.others _ (hne q hq)
  have hrun : (actor.create clock b.image elapsed req).exec b.host =
      (some (next, ⟨elapsed, req.topics.map MetadataActor.response⟩),
        w₂.release (actor.handle.actor :: next.actors)) := by
    refine exec_bind_eq_some.mpr ⟨_, _, hpersist, ?_⟩
    refine exec_bind_eq_some.mpr ⟨next, w₂, ?_, rfl⟩
    rw [MetadataImage.createTopics_eq, hpath]
    exact hcreate
  rw [step_create hactor hrun]
  have hlog₂ := hlog₁.grown hgrown fun hmem => by
    obtain ⟨q, hq, hdir⟩ := List.mem_map.mp hmem
    exact hne q hq hdir
  refine ⟨⟨actor, a₁, xs ++ ys, rfl, hpath, hlog₂.release List.mem_cons_self,
    List.rel_append hnoted hys⟩, fun q => ?_, fun q hq => ?_⟩
  · rw [hkeys, h.keys, List.foldl_append]
    exact (MetadataActor.mem_listedKeys_records req.topics).symm
  · rcases (hkeys q).mp hq with hnew | hold
    · exact hne q hnew
    · exact h.dirs q hold

/-- A start finds what the log has. -/
lemma recorded_restart [Crc] (order : TopicOrder) {a : PartitionActor} {xs : List Filled}
    {p : Partition}
    (hnew : PartitionActor.new (MetadataActor.config path).actorConfig []
      (b.host.dirs (metadataPartition.directory path)) = some p)
    (hrunning : Running p a xs) (hconfig : a.config = (MetadataActor.config path).actorConfig)
    (hkey : ((b.host.dirs (metadataPartition.directory path)).files.keys.insertionSort
      (· ≤ ·)).head?.getD 0 = 0)
    (hlog : ((b.host.dirs (metadataPartition.directory path)).file 0).log = Storage.bytes xs)
    (hnoted : List.Forall₂ Noted xs rs)
    (hothers : ∀ dir, dir ≠ metadataPartition.directory path →
      ∀ k, ((b.host.dirs dir).file k).log = [])
    (hopens : ∀ k, b.host.opens k = true)
    (hdirs : ∀ q ∈ MetadataActor.listedKeys (rs.foldl MetadataActor.note []),
      q.directory path ≠ metadataPartition.directory path) :
    Recorded path (b.restart path order) rs := by
  obtain ⟨hlisted, hlogAt⟩ := listed_exec (w := b.host.release []) order hnew hrunning hconfig hkey
    hlog hnoted hothers hopens
  have hlistedKeys : ∀ q,
      q ∈ MetadataActor.listedKeys (order.topics (rs.foldl MetadataActor.note [])) ↔
        q ∈ MetadataActor.listedKeys (rs.foldl MetadataActor.note []) := fun q =>
    MetadataActor.mem_listedKeys_of_perm (order.topics_perm _)
  obtain ⟨next, w₂, hcreate, hkeys, hgrown⟩ := createPartitions_exec
    (MetadataImage.withTopics (order.topics (rs.foldl MetadataActor.note []))) .empty hlogAt.opens
    fun q hq => hlogAt.others _ (hdirs q ((hlistedKeys q).mp hq))
  have hrun : (MetadataActor.new path order).exec (b.host.release []) =
      (some (⟨path, ⟨0, (b.host.release []).cells.length⟩⟩, next),
        w₂.release ((b.host.release []).cells.length :: next.actors)) := by
    rw [MetadataActor.new_eq]
    refine exec_bind_eq_some.mpr ⟨_, _, hlisted, ?_⟩
    refine exec_bind_eq_some.mpr ⟨next, w₂, ?_, rfl⟩
    rw [MetadataImage.createTopics_eq]
    exact hcreate
  rw [restart, hrun]
  have hlog₂ := hlogAt.grown hgrown fun hmem => by
    obtain ⟨q, hq, hdir⟩ := List.mem_map.mp hmem
    exact hdirs q ((hlistedKeys q).mp hq) hdir
  have hnextKeys : ∀ q, q ∈ next.keys ↔
      q ∈ MetadataActor.listedKeys (rs.foldl MetadataActor.note []) := by
    intro q
    exact ((hkeys q).trans (or_iff_left List.not_mem_nil)).trans (hlistedKeys q)
  exact ⟨⟨_, a, xs, rfl, rfl, hlog₂.release List.mem_cons_self, hnoted⟩, hnextKeys,
    fun q hq => hdirs q ((hnextKeys q).mp hq)⟩

lemma Recorded.restart [Crc] (h : Recorded path b rs) (order : TopicOrder) :
    Recorded path (b.restart path order) rs := by
  obtain ⟨actor, a, xs, -, -, hlog, hnoted⟩ := h.log
  obtain ⟨c, -, hdir, hrunning⟩ := hlog.cell
  rw [hdir] at hrunning
  obtain ⟨p', a', hnew, hrunning', hconfig⟩ := hrunning.restart []
  rw [hlog.config] at hnew hconfig
  exact recorded_restart order hnew hrunning' hconfig hrunning.first_key hlog.log hnoted hlog.others
    hlog.opens fun q hq => h.dirs q ((h.keys q).mpr hq)

/-- A first start on empty directories. -/
lemma recorded_first [Crc] (order : TopicOrder) {w : Host} (hempty : ∀ dir, (w.dirs dir).files = ∅)
    (hfree : (w.dirs (metadataPartition.directory path)).free < 2 ^ 63)
    (hopens : ∀ k, w.opens k = true) : Recorded path ((down w).restart path order) [] := by
  have hfile : ∀ dir k, ((w.dirs dir).file k).log = [] := by
    intro dir k
    rw [Storage.Disk.file_of_notMem]
    rw [hempty]
    exact AList.notMem_empty k
  obtain ⟨p, a, hnew, hrunning, hconfig, -⟩ :=
    Running.new (MetadataActor.config path).actorConfig [] hfree
  have hdisk : (⟨(w.dirs (metadataPartition.directory path)).free, ∅⟩ : Storage.Disk) =
      w.dirs (metadataPartition.directory path) := by
    rw [← hempty (metadataPartition.directory path)]
  rw [hdisk] at hnew
  refine recorded_restart order hnew hrunning hconfig ?_ (hfile _ 0) .nil (fun dir _ => hfile dir)
    hopens fun q hq => absurd hq List.not_mem_nil
  show ((w.dirs _).files.keys.insertionSort (· ≤ ·)).head?.getD 0 = 0
  rw [hempty]
  rfl

end Recorded

/-- The rebuilt image has exactly the partitions that the image had. -/
def KeepsKeys [Crc] (path : String) (b : BrokerState) : Prop :=
  ∀ order q, q ∈ (b.restart path order).image.keys ↔ q ∈ b.image.keys

end BrokerState

/-- A broker is first started on empty directories that can all be opened. After every run of
requests for valid topics and of starts, of which the records of every request go to the first
segment of a log that the writer is at the end of, a start rebuilds the image. -/
theorem keepsKeys_of_recordsInFirst [Crc] (path : String) (w : Host)
    (hempty : ∀ dir, (w.dirs dir).files = ∅)
    (hfree : (w.dirs (metadataPartition.directory path)).free < 2 ^ 63)
    (hopens : ∀ k, w.opens k = true) (order : TopicOrder) (es : List BrokerEvent)
    (hvalid : ∀ e ∈ es, e.Valid) (hfirst : Meets (BrokerState.step path)
      BrokerState.RecordsInFirst ((BrokerState.down w).restart path order) es) :
    (run (BrokerState.step path) ((BrokerState.down w).restart path order) es).KeepsKeys path := by
  have hok := Meets.and (Meets.of_forall fun e he _ => hvalid e he) hfirst
  obtain ⟨rs, hrs⟩ := run_invariant (P := fun b : BrokerState => ∃ rs, b.Recorded path rs)
    (fun b e ⟨rs, hrs⟩ hok => by
      cases e with
      | start order => exact ⟨rs, hrs.restart order⟩
      | create clock elapsed req => exact ⟨_, hrs.create hok.1 hok.2⟩)
    ⟨[], BrokerState.recorded_first order hempty hfree hopens⟩ hok
  exact fun order' q => ((hrs.restart order').keys q).trans (hrs.keys q).symm

/-! ### Topics before and after a start -/

section Examples

local instance : Crc := Crc.castagnoli

/-- Two topics from before the first restart are there after two more. -/
theorem keepsKeys_jobs_logs :
    (run (BrokerState.step "data") ((BrokerState.down blank).restart "data" .asKept)
      [createOne "jobs", createOne "logs", .start .asKept, .start .asKept]).KeepsKeys "data" :=
  keepsKeys_of_recordsInFirst "data" blank (fun _ => rfl) (by decide) (fun _ => rfl) .asKept _
    (by decide +kernel) (by decide +kernel)

/-- A broker with a topic from before and one from after a restart. -/
def jobsThenLogs : BrokerState :=
  run (BrokerState.step "data") ((BrokerState.down blank).restart "data" .asKept)
    [createOne "jobs", .start .asKept, createOne "logs"]

/-- The records of the second topic have taken the place of those of the first. -/
theorem keepsKeys_not_jobs :
    (∀ e ∈ [createOne "jobs", .start .asKept, createOne "logs"], e.Valid) ∧
    jobsThenLogs.image.keys = [⟨"logs", 0⟩, ⟨"jobs", 0⟩] ∧
    (jobsThenLogs.restart "data" .asKept).image.keys = [⟨"logs", 0⟩] ∧
    ¬ jobsThenLogs.KeepsKeys "data" := by
  have hkeys : jobsThenLogs.image.keys = [⟨"logs", 0⟩, ⟨"jobs", 0⟩] := by decide +kernel
  have hrebuilt : (jobsThenLogs.restart "data" .asKept).image.keys = [⟨"logs", 0⟩] := by
    decide +kernel
  refine ⟨by decide +kernel, hkeys, hrebuilt, fun h => ?_⟩
  have hjobs := (h .asKept ⟨"jobs", 0⟩).mpr (by rw [hkeys]; decide)
  rw [hrebuilt] at hjobs
  exact absurd hjobs (by decide)

end Examples

end Musil.Broker
