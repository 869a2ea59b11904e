import Musil.Storage.PartitionKeep

/-!
# Starting the actor

The actor finds the segments of a partition in its directory. On an empty directory it begins the
first segment; on a directory that an actor has left it recovers all batches. The writer's handle
is at the start of the active log then, and so at its end only if that log is empty.
-/

namespace Musil.Storage

open Bytes Proto

/-! ### Opening what is there -/

section Open

variable {m base n : ℕ} {d d' d'' : Disk} {xs cur : List Filled} {opts : SegmentConfig}
  {ks : List ℕ} {closed : List (List Filled)} {active : LogSegment} {views : List SegmentView}
  {config : PartitionActorConfig}

lemma Writes.agrees (h : Writes m d active xs) (hd : d.Agrees d') : Writes m d' active xs :=
  ⟨hd.file ▸ h.stored, h.size_eq, h.writePos, h.due⟩

/-- The closed segments are opened one by one. -/
lemma Stacked.openOlder (h : Stacked config.maxEntries d base ks closed)
    (hmem : ∀ k ∈ ks, k ∈ d.files) :
    d.Agrees (PartitionActor.openOlder config ks d).2 ∧
      Laid d base (PartitionActor.openOlder config ks d).1 closed := by
  induction ks generalizing d base closed with
  | nil =>
    cases closed with
    | nil => exact ⟨.refl d, trivial⟩
    | cons xs closed => exact h.elim
  | cons k ks ih =>
    cases closed with
    | nil => exact h.elim
    | cons xs closed =>
      obtain ⟨rfl, ⟨n, hstored⟩, -, hrest⟩ := h
      rw [List.forall_mem_cons] at hmem
      obtain ⟨hwrites, hagrees, -, -⟩ :=
        Stored.openSegment (config.segmentConfig k) hstored hmem.1
      obtain ⟨hagrees', hlaid⟩ := ih (hrest.agrees hagrees) fun j hj =>
        (hagrees.mem j).mpr (hmem.2 j hj)
      have hholds := hwrites.holds
      rw [hagrees.file] at hholds
      refine ⟨hagrees.trans hagrees', rfl, hholds, hlaid.frame fun v _ ys hv => ?_⟩
      rwa [← hagrees.file]

lemma openOlder_baseOffset (config : PartitionActorConfig) (ks : List ℕ) (d : Disk) :
    (PartitionActor.openOlder config ks d).1.map SegmentView.baseOffset = ks := by
  induction ks generalizing d with
  | nil => rfl
  | cons k ks ih => exact congrArg (k :: ·) (ih _)

/-- The base offsets in the directory are those of the closed segments and, last, the active one. -/
lemma Keeps.keys_eq (h : Keeps m d active ks closed cur) :
    d.files.keys.insertionSort (· ≤ ·) = ks ++ [active.segment.baseOffset] := by
  have hsorted : (ks ++ [active.segment.baseOffset]).Pairwise (· < ·) := by
    rw [List.pairwise_append]
    refine ⟨h.stacked.sorted, List.pairwise_singleton _ _, fun k hk j hj => ?_⟩
    rw [List.mem_singleton.mp hj, h.base_eq]
    exact (h.stacked.base_lt hk).2
  have hperm : d.files.keys.Perm (ks ++ [active.segment.baseOffset]) := by
    refine (List.perm_ext_iff_of_nodup d.files.keys_nodup (hsorted.imp fun hlt => hlt.ne)).mpr ?_
    intro k
    rw [← AList.mem_keys, h.mem, List.mem_append, List.mem_singleton]
  refine List.Perm.eq_of_pairwise' (r := (· ≤ ·)) (List.pairwise_insertionSort _ _)
    (hsorted.imp fun hlt => hlt.le) ?_
  exact (List.perm_insertionSort _ _).trans hperm

/-- With the closed segments opened, the views show all batches. -/
lemma Keeps.openOlder (h : Keeps config.maxEntries d active ks closed cur) :
    Serves config.maxEntries (PartitionActor.openOlder config ks d).2 active.publish.2
      ((PartitionActor.openOlder config ks d).1 ++ [active.publish.1]) ks closed cur := by
  obtain ⟨hagrees, hlaid⟩ := h.stacked.openOlder fun k hk => (h.mem k).mpr (.inl hk)
  refine ⟨⟨h.stacked.agrees hagrees, h.base_eq, fun k => (hagrees.mem k).trans (h.mem k),
    (h.writes.agrees hagrees).publish, ?_⟩, ⟨_, closed, rfl, ?_, rfl⟩, fun v hv => ?_⟩
  · rw [hagrees.free]
    exact h.room
  · exact hlaid.frame fun v _ xs hv => by rwa [hagrees.file]
  · rcases List.mem_append.mp hv with hold | hnew
    · have hmem : v.baseOffset ∈ ks := by
        rw [← openOlder_baseOffset config ks d]
        exact List.mem_map_of_mem hold
      rw [show active.publish.2.segment.baseOffset = _ from h.base_eq]
      exact .inl (h.stacked.base_lt hmem).2
    · rw [List.mem_singleton.mp hnew]
      exact .inr ⟨rfl, le_rfl⟩

end Open

/-! ### The start -/

section Start

variable {d d' : Disk} {ks : List ℕ} {closed : List (List Filled)} {cur xs : List Filled}
  {active : LogSegment} {config : PartitionActorConfig} {p : Partition} {a : PartitionActor}

/-- The actor runs once the last segment of the directory is open. -/
lemma Keeps.new (replicas : List ReplicaMetadata)
    (hlast : (d.files.keys.insertionSort (· ≤ ·)).getLast?.getD 0 = active.segment.baseOffset)
    (holder : (d.files.keys.insertionSort (· ≤ ·)).dropLast = ks)
    (hopen : LogSegment.openSegment (config.segmentConfig active.segment.baseOffset) d = (active, d'))
    (h : Keeps config.maxEntries d' active ks closed cur) :
    ∃ p a, PartitionActor.new config replicas d = some p ∧ Running p a (closed.flatten ++ cur) ∧
      a.config = config ∧ (AtEnd d' active → AtEnd p.disk a.active) := by
  have hserves := h.openOlder
  have hcount := h.writes.recordsCount_eq
  have hleo : active.segment.baseOffset + (cur.flatMap Filled.recs).length
      = endOffset 0 (closed.flatten ++ cur) := by
    rw [endOffset_append, h.base_eq]
    rfl
  rcases hroll : PartitionActor.rollOver config
      (active.segment.baseOffset + (cur.flatMap Filled.recs).length)
      ((PartitionActor.openOlder config ks d').1 ++ [active.publish.1]) active.publish.2
      (PartitionActor.openOlder config ks d').2 with ⟨views, active', d''⟩
  obtain ⟨hkeep, hend, -⟩ := hserves.rollOver hleo hroll
  let leo := active.segment.baseOffset + (cur.flatMap Filled.recs).length
  let hw := if replicas.isEmpty then leo else 0
  refine ⟨⟨d'', ⟨views, leo, hw, replicas⟩, some ⟨config, active', []⟩⟩, ⟨config, active', []⟩, ?_,
    ⟨rfl, hleo, hkeep⟩, rfl, fun he => hend ?_⟩
  · simp only [PartitionActor.new, PartitionActor.initialState, hlast, hopen, hcount, holder,
      Option.bind_eq_bind, Option.bind_some, hroll]
    rfl
  · have hagrees := (h.stacked.openOlder fun k hk => (h.mem k).mpr (.inl hk)).1
    rw [AtEnd, hagrees.file]
    exact he

/-- On an empty directory the actor begins with nothing. -/
theorem Running.new (config : PartitionActorConfig) (replicas : List ReplicaMetadata) {free : ℕ}
    (hfree : free < 2 ^ 63) :
    ∃ p a, PartitionActor.new config replicas ⟨free, ∅⟩ = some p ∧ Running p a [] ∧
      a.config = config ∧ AtEnd p.disk a.active := by
  obtain ⟨hwrites, hend, hdisk, -⟩ :=
    openSegment_fresh (config.segmentConfig 0) ⟨free, ∅⟩ rfl
  have hkeeps : Keeps config.maxEntries (LogSegment.openSegment (config.segmentConfig 0) ⟨free, ∅⟩).2
      (LogSegment.openSegment (config.segmentConfig 0) ⟨free, ∅⟩).1 [] [] [] := by
    refine ⟨trivial, rfl, fun k => ?_, hwrites, ?_⟩
    · rw [hdisk, Disk.mem_put]
      exact or_comm
    · rw [hdisk]
      simpa using hfree
  obtain ⟨p, a, hnew, hrunning, hconfig, hatEnd⟩ :=
    hkeeps.new (d := ⟨free, ∅⟩) replicas rfl rfl rfl
  exact ⟨p, a, hnew, hrunning, hconfig, hatEnd hend⟩

lemma isSome_new (config : PartitionActorConfig) (replicas : List ReplicaMetadata) {free : ℕ}
    (hfree : free < 2 ^ 63) : (PartitionActor.new config replicas ⟨free, ∅⟩).isSome := by
  obtain ⟨p, a, hnew, -⟩ := Running.new config replicas hfree
  rw [hnew]
  rfl

/-- The actor of a run on fixed inputs, with segments that take all of its batches. -/
lemma isSome_new_large : (PartitionActor.new ⟨1 <<< 20, 1, 0⟩ [] ⟨1 <<< 20, ∅⟩).isSome :=
  isSome_new _ _ (by decide)

def openedLarge : Partition :=
  (PartitionActor.new ⟨1 <<< 20, 1, 0⟩ [] ⟨1 <<< 20, ∅⟩).get isSome_new_large

/-- The same with a replica. -/
lemma isSome_new_replicated :
    (PartitionActor.new ⟨1 <<< 20, 1, 0⟩ [⟨2, 0⟩] ⟨1 <<< 20, ∅⟩).isSome :=
  isSome_new _ _ (by decide)

def openedReplicated : Partition :=
  (PartitionActor.new ⟨1 <<< 20, 1, 0⟩ [⟨2, 0⟩] ⟨1 <<< 20, ∅⟩).get isSome_new_replicated

/-- The actor of a run on fixed inputs, with a segment for each batch. -/
lemma isSome_new_small : (PartitionActor.new ⟨50, 1, 0⟩ [] ⟨1 <<< 20, ∅⟩).isSome :=
  isSome_new _ _ (by decide)

/-- On the directory that an actor has left, the next one finds every batch. -/
theorem Running.restart (replicas : List ReplicaMetadata) (h : Running p a xs) :
    ∃ p' a', PartitionActor.new a.config replicas p.disk = some p' ∧ Running p' a' xs ∧
      a'.config = a.config := by
  obtain ⟨ks, closed, cur, rfl, hserves⟩ := h.serves
  have hkeeps := hserves.keeps
  obtain ⟨hwrites, hagrees, -, -⟩ := Stored.openSegment
    (a.config.segmentConfig a.active.segment.baseOffset) hkeeps.writes.stored
    ((hkeeps.mem _).mpr (.inr rfl))
  have hkeys := hkeeps.keys_eq
  have hkeeps' : Keeps a.config.maxEntries
      (LogSegment.openSegment (a.config.segmentConfig a.active.segment.baseOffset) p.disk).2
      (LogSegment.openSegment (a.config.segmentConfig a.active.segment.baseOffset) p.disk).1
      ks closed cur := by
    refine ⟨hkeeps.stacked.agrees hagrees, hkeeps.base_eq,
      fun k => (hagrees.mem k).trans (hkeeps.mem k), hwrites, ?_⟩
    rw [hagrees.free]
    exact hkeeps.room
  obtain ⟨p', a', hnew, hrunning, hconfig, -⟩ := hkeeps'.new replicas
    (by rw [hkeys, List.getLast?_concat]; rfl) (by rw [hkeys, List.dropLast_concat]) rfl
  exact ⟨p', a', hnew, hrunning, hconfig⟩

/-- The handle of a started actor stands at the start of the active log. -/
lemma new_cursor {replicas : List ReplicaMetadata}
    (h : PartitionActor.new config replicas d = some p) (ha : p.actor = some a) :
    a.active.cursor = 0 := by
  simp only [PartitionActor.new, PartitionActor.initialState, Option.bind_eq_bind,
    Option.bind_eq_some_iff] at h
  obtain ⟨_, ⟨count, -, hstate⟩, hp⟩ := h
  cases hstate
  cases hp
  cases ha
  simp only [PartitionActor.rollOver]
  split_ifs <;> rfl

/-- A started actor writes at the end of the active log only if that log is empty. -/
theorem atEnd_new_iff {replicas : List ReplicaMetadata}
    (h : PartitionActor.new config replicas d = some p) (ha : p.actor = some a) :
    AtEnd p.disk a.active ↔ (p.disk.file a.active.segment.baseOffset).log = [] := by
  rw [AtEnd, new_cursor h ha, eq_comm, List.length_eq_zero_iff]

end Start

end Musil.Storage
