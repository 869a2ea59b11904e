import Musil.Storage.PartitionStart

/-!
# The first segment

Starting an actor changes no log file, and the first view that it publishes reaches all of the
first segment. Until the first segment is full, an append at its end goes there.
-/

namespace Musil.Storage

open Bytes Proto

/-! ### Starts -/

section Start

variable {d d' : Disk} {config : PartitionActorConfig} {replicas : List ReplicaMetadata}
  {p : Partition}

lemma openSegment_log (opts : SegmentConfig) (d : Disk) (k : ℕ) :
    ((LogSegment.openSegment opts d).2.file k).log = (d.file k).log := by
  rcases eq_or_ne k opts.baseOffset with rfl | hne
  · rw [LogSegment.openSegment, Disk.file_put]
  · rw [LogSegment.openSegment, Disk.file_put_ne _ _ _ hne]

lemma openSegment_size (opts : SegmentConfig) (d : Disk) :
    (LogSegment.openSegment opts d).1.publish.1.size = (d.file opts.baseOffset).log.length := by
  simp only [LogSegment.openSegment, LogSegment.publish]
  split_ifs with hfresh
  · exact hfresh.symm
  · rfl

lemma openOlder_log (ks : List ℕ) (d : Disk) (k : ℕ) :
    ((PartitionActor.openOlder config ks d).2.file k).log = (d.file k).log := by
  induction ks generalizing d with
  | nil => rfl
  | cons j ks ih => exact (ih _).trans (openSegment_log _ d k)

lemma rollOver_log {leo : ℕ} {segments : List SegmentView} {active : LogSegment} (k : ℕ) :
    ((PartitionActor.rollOver config leo segments active d).2.2.file k).log = (d.file k).log := by
  rw [PartitionActor.rollOver]
  split_ifs
  · exact openSegment_log _ d k
  · rfl

lemma rollOver_head {leo : ℕ} {segments : List SegmentView} {active : LogSegment} {v : SegmentView}
    (h : segments.head? = some v) :
    (PartitionActor.rollOver config leo segments active d).1.head? = some v := by
  rw [PartitionActor.rollOver]
  split_ifs
  · rw [List.head?_append, h, Option.some_or]
  · exact h

/-- The next segment takes no space, and is not begun before the active one is full. -/
lemma rollOver_files {leo : ℕ} {segments views : List SegmentView} {active active' : LogSegment}
    (h : PartitionActor.rollOver config leo segments active d = (views, active', d')) :
    (∀ k, (d'.file k).log = (d.file k).log) ∧ d'.free = d.free ∧
      (active.size < config.segmentBytes → active' = active) := by
  refine ⟨fun k => ?_, ?_, fun hroom => ?_⟩
  · have hlog : ((PartitionActor.rollOver config leo segments active d).2.2.file k).log
        = (d.file k).log := rollOver_log k
    rwa [h] at hlog
  · rw [PartitionActor.rollOver] at h
    split_ifs at h <;> cases h <;> rfl
  · rw [PartitionActor.rollOver, if_neg (Nat.not_le.mpr hroom)] at h
    cases h
    rfl

/-- The first view of a started actor is of the first segment, and as long as its log. -/
lemma new_first (h : PartitionActor.new config replicas d = some p) :
    (∀ k, (p.disk.file k).log = (d.file k).log) ∧ ∃ v, p.state.segments.head? = some v ∧
      v.baseOffset = (d.files.keys.insertionSort (· ≤ ·)).head?.getD 0 ∧
      v.size = (d.file v.baseOffset).log.length := by
  simp only [PartitionActor.new, PartitionActor.initialState, Option.bind_eq_bind,
    Option.bind_eq_some_iff] at h
  obtain ⟨_, ⟨count, -, hstate⟩, hp⟩ := h
  cases hstate
  cases hp
  refine ⟨fun k => ?_, ?_⟩
  · rw [rollOver_log, openOlder_log, openSegment_log]
  · cases hkeys : d.files.keys.insertionSort (· ≤ ·) with
    | nil => exact ⟨_, rollOver_head rfl, rfl, openSegment_size _ d⟩
    | cons k ks =>
      cases ks with
      | nil => exact ⟨_, rollOver_head rfl, rfl, openSegment_size _ d⟩
      | cons j js =>
        refine ⟨_, rollOver_head rfl, rfl, (openSegment_size _ _).trans ?_⟩
        rw [openSegment_log]
        rfl

/-- An actor can be started on a directory without records. -/
lemma new_of_empty (config : PartitionActorConfig) (replicas : List ReplicaMetadata)
    (h : ∀ k, (d.file k).log = []) : ∃ p, PartitionActor.new config replicas d = some p := by
  have hcount : ∀ opts, (LogSegment.openSegment opts d).1.recordsCount
      (LogSegment.openSegment opts d).2 = some 0 := by
    intro opts
    have hsize := openSegment_size opts d
    rw [h, List.length_nil] at hsize
    rw [LogSegment.recordsCount, show (LogSegment.openSegment opts d).1.size = 0 from hsize]
    rfl
  simp only [PartitionActor.new, PartitionActor.initialState, hcount, Option.bind_eq_bind,
    Option.bind_some]
  exact ⟨_, rfl⟩

end Start

/-! ### Appends -/

section Append

variable {p : Partition} {a : PartitionActor} {xs : List Filled} {x : Filled}

/-- The directory of a running actor begins with the segment at zero. -/
lemma Running.first_key (h : Running p a xs) :
    (p.disk.files.keys.insertionSort (· ≤ ·)).head?.getD 0 = 0 := by
  obtain ⟨ks, closed, cur, -, hserves⟩ := h.serves
  rw [hserves.keeps.keys_eq]
  have hstacked := hserves.keeps.stacked
  cases ks with
  | nil =>
    have hclosed : closed = [] := List.eq_nil_of_length_eq_zero hstacked.length_eq.symm
    rw [List.nil_append, List.head?_cons, Option.getD_some, hserves.keeps.base_eq, hclosed]
    rfl
  | cons k ks =>
    cases closed with
    | nil => exact hstacked.elim
    | cons ys closed => exact hstacked.1

/-- While the writer is in the first segment, it has written all batches there. -/
lemma Running.first_writes (h : Running p a xs) (hbase : a.active.segment.baseOffset = 0) :
    Writes a.config.maxEntries p.disk a.active xs := by
  obtain ⟨ks, closed, cur, rfl, hserves⟩ := h.serves
  have hflat : closed.flatten = [] := by
    by_contra hne
    have hlt : 0 < endOffset 0 closed.flatten := endOffset_lt hne
    rw [← hserves.keeps.base_eq, hbase] at hlt
    exact lt_irrefl _ hlt
  rw [hflat, List.nil_append]
  exact hserves.keeps.writes

/-- An append at the end of the first segment, if there is room for it. The next append goes there
as well unless the segment is full. -/
theorem Running.append_first (h : Running p a xs) (he : AtEnd p.disk a.active)
    (hbase : a.active.segment.baseOffset = 0) (hfree : x.batch.encode.length ≤ p.disk.free)
    (done : ℕ) :
    ∃ p' a', a.handleAppend p.disk p.state x.batch .none done =
        (p', [.appended done (a.response p.state.logEndOffset)]) ∧
      Running p' a' (xs ++ [stored p.state x]) ∧ a'.config = a.config ∧
      AtEnd p'.disk a'.active ∧ (p'.disk.file 0).log = bytes (xs ++ [stored p.state x]) ∧
      p'.disk.free + x.batch.encode.length = p.disk.free ∧
      ((bytes (xs ++ [stored p.state x])).length < a.config.segmentBytes →
        a'.active.segment.baseOffset = 0) := by
  have hwrites := h.first_writes hbase
  obtain ⟨ks, closed, cur, hflat, hserves⟩ := h.serves
  have hroom := hserves.keeps.room
  rw [hflat] at hroom
  have hmem : a.active.segment.baseOffset ∈ p.disk.files := (hserves.keeps.mem _).mpr (.inr rfl)
  have hoffset : (stored p.state x).batch.baseOffset.toNat
      = endOffset a.active.segment.baseOffset xs := by
    rw [hbase, ← h.leo_eq]
    exact UInt64.toNat_ofNat_of_lt' (h.leo_lt.trans (by decide))
  have hlength : (stored p.state x).batch.encode.length = x.batch.encode.length := by
    rw [RecordBatch.length_encode, RecordBatch.length_encode]
    rfl
  obtain ⟨seg', d', happend, hwrites', -, -, hfree', hseg, -⟩ :=
    hwrites.appendBatch he (Nat.succ_pos _) hmem hoffset (by omega) (hlength.le.trans hfree)
  rcases hroll : PartitionActor.rollOver a.config
      (p.state.logEndOffset + x.batch.recordsCount.toNat)
      (p.state.segments.dropLast ++ [seg'.publish.1]) seg'.publish.2 d' with ⟨views, active, d''⟩
  obtain ⟨hlog, hrollFree, hkeep⟩ := rollOver_files hroll
  rcases hp : a.handleAppend p.disk p.state x.batch .none done with ⟨p', out⟩
  have hhandle := hp
  rw [PartitionActor.handleAppend_of_some .none done happend] at hhandle
  simp only [hroll] at hhandle
  rcases h.append he hp with ⟨hnone, -⟩ | ⟨a', hrunning, hconfig, hend, -, hout⟩
  · cases hhandle
    cases hnone
  · have hactor := hrunning.actor
    cases hhandle
    cases hactor
    refine ⟨_, _, by rw [hout]; rfl, hrunning, rfl, hend, ?_, ?_, fun hroom => ?_⟩
    · have hbase' : seg'.segment.baseOffset = 0 := (congrArg _ hseg).trans hbase
      rw [← hwrites'.stored.log, hbase']
      exact hlog 0
    · rw [← hlength, ← hfree']
      exact congrArg (· + _) hrollFree
    · rw [← hwrites'.size_eq] at hroom
      rw [hkeep hroom]
      exact (congrArg _ hseg).trans hbase

end Append

end Musil.Storage
