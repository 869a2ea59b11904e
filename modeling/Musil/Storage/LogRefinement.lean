import Musil.Lib.Run
import Musil.Storage.RaftPartition

/-!
# The log on disk and the reference log

Appends and truncations are carried out on both logs. They show the same entries as long as a
truncation cuts where a segment begins: what it leaves behind the cut can be read again.
-/

namespace Musil.Storage.LogRefinement

open Proto Raft Run

/-- The two logs that carry out the same operations. -/
structure Logs where
  disk : RaftPartition
  vec : VecLog

inductive Op where
  | append (epoch : UInt32) (data : List UInt8)
  | truncate (offset : ℕ)

namespace Logs

def start (p : Partition) (clock : ℕ → UInt64) : Logs :=
  ⟨⟨p, clock⟩, .new⟩

/-- An appended entry has the offset behind the others. -/
def step [Crc] (s : Logs) : Op → Logs
  | .append epoch data =>
    let entry : LogEntry := ⟨epoch.toNat, RaftLog.logEndOffset s.vec, data⟩
    ⟨s.disk.append entry, RaftLog.append s.vec entry⟩
  | .truncate offset => ⟨s.disk.truncate offset, RaftLog.truncate s.vec offset⟩

/-- No read of the log on disk panics, and all reads return what the reference log returns. -/
structure Agree (s : Logs) : Prop where
  logEndOffset : s.disk.logEndOffset = RaftLog.logEndOffset s.vec
  epochAt : ∀ o, s.disk.epochAt o = some (RaftLog.epochAt s.vec o)
  entries : ∀ start stop, start ≤ stop →
    s.disk.entries start stop = some (RaftLog.entries s.vec start stop)

/-- The disk has room for an append, and a truncation is at the base offset of a segment if it cuts
anything off. -/
def Ok (s : Logs) : Op → Prop
  | .append _ data => s.disk.Fits data
  | .truncate offset => s.disk.CutsAtBase offset

instance (s : Logs) : (op : Op) → Decidable (s.Ok op)
  | .append _ data => inferInstanceAs (Decidable (s.disk.Fits data))
  | .truncate offset => inferInstanceAs (Decidable (s.disk.CutsAtBase offset))

/-- The log on disk holds the entries of the reference log, each in a batch of its own. -/
def Related (s : Logs) : Prop :=
  ∃ xs, s.disk.Sound xs ∧ xs.map entryOf = s.vec.entries

section Related

variable {s : Logs}

lemma Related.contiguous (h : s.Related) : Contiguous s.vec.entries := by
  obtain ⟨xs, hsound, hentries⟩ := h
  exact hentries ▸ hsound.contiguous

lemma Related.logEndOffset (h : s.Related) :
    s.disk.logEndOffset = RaftLog.logEndOffset s.vec := by
  rw [VecLog.logEndOffset_eq h.contiguous]
  obtain ⟨xs, hsound, hentries⟩ := h
  rw [hsound.keeping.logEndOffset_eq, ← hentries, List.length_map]

lemma Related.agree (h : s.Related) : s.Agree where
  logEndOffset := h.logEndOffset
  epochAt o := by
    rw [VecLog.epochAt_eq h.contiguous]
    obtain ⟨xs, hsound, hentries⟩ := h
    rw [hsound.keeping.epochAt_eq, hentries]
  entries a b _ := by
    rw [VecLog.entries_eq h.contiguous]
    obtain ⟨xs, hsound, hentries⟩ := h
    rw [hsound.keeping.entries_eq, hentries]

lemma Related.step [Crc] (h : s.Related) {op : Op} (hok : s.Ok op) : (s.step op).Related := by
  have hcontiguous := h.contiguous
  have hleo := h.logEndOffset
  obtain ⟨xs, hsound, hentries⟩ := h
  cases op with
  | append epoch data =>
    obtain ⟨x, hsound', hx⟩ := hsound.append
      ⟨epoch.toNat, RaftLog.logEndOffset s.vec, data⟩ hok epoch.toNat_lt hleo.symm
    refine ⟨xs ++ [x], hsound', ?_⟩
    rw [List.map_append, List.map_singleton, hx, hentries]
    rfl
  | truncate offset =>
    refine ⟨xs.take offset, hsound.truncate hok, ?_⟩
    rw [List.map_take, hentries]
    exact (VecLog.truncate_entries hcontiguous offset).symm

end Related

/-- The logs stay related in every run of appends that fit and truncations at the start of a
segment. -/
lemma related_of_run [Crc] (config : PartitionActorConfig) (hsize : 0 < config.segmentBytes)
    (replicas : List ReplicaMetadata) (free : ℕ) (hfree : free < 2 ^ 63) {p : Partition}
    (hp : PartitionActor.new config replicas ⟨free, ∅⟩ = some p) (clock : ℕ → UInt64)
    (ops : List Op) (hok : Meets step Ok (start p clock) ops) :
    (run step (start p clock) ops).Related := by
  obtain ⟨p', a, hnew, hrunning, -, hend⟩ := Running.new config replicas hfree
  obtain rfl : p' = p := Option.some.inj (hnew.symm.trans hp)
  have hlined := ((new_empty hsize hp).2 a hrunning.actor).1
  have hstart : (start p' clock).Related :=
    ⟨[], ⟨⟨a, hrunning, hend, hlined⟩, fun _ hx => absurd hx List.not_mem_nil, contiguous_nil⟩, rfl⟩
  exact run_invariant (P := Related) (fun _ _ h hop => h.step hop) hstart hok

/-- On a directory that was empty the log on disk shows what the reference log holds, after any
appends that fit and any truncations at the start of a segment. -/
theorem agree_of_run [Crc] (config : PartitionActorConfig) (hsize : 0 < config.segmentBytes)
    (replicas : List ReplicaMetadata) (free : ℕ) (hfree : free < 2 ^ 63) (p : Partition)
    (hp : PartitionActor.new config replicas ⟨free, ∅⟩ = some p) (clock : ℕ → UInt64)
    (ops : List Op) (hok : Meets step Ok (start p clock) ops) :
    (run step (start p clock) ops).Agree :=
  (related_of_run config hsize replicas free hfree hp clock ops hok).agree

/-! ### Two runs -/

section Runs

local instance : Crc := Crc.castagnoli

/-- Every entry fills its segment, so a cut is where a segment begins. -/
theorem agree_full_segments :
    (run step (start ((PartitionActor.new ⟨50, 1, 0⟩ [] ⟨1 <<< 20, ∅⟩).get isSome_new_small)
        fun _ => 0)
      [.append 1 [7], .append 1 [8], .truncate 1, .append 2 [9]]).Agree :=
  agree_of_run ⟨50, 1, 0⟩ (by decide) [] (1 <<< 20) (by decide) _ (Option.some_get _).symm _ _
    (by decide +kernel)

/-- An entry that is cut off within a segment is read again. -/
theorem agree_not_all_runs :
    ¬ (run step (start ((PartitionActor.new ⟨1 <<< 20, 1, 0⟩ [] ⟨1 <<< 20, ∅⟩).get
        isSome_new_large) fun _ => 0)
      [.append 1 [7], .append 1 [8], .truncate 1]).Agree := by
  intro h
  exact absurd (h.entries 0 2 (by decide)) (by decide +kernel)

end Runs

end Logs

end Musil.Storage.LogRefinement
