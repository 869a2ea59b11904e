import Musil.Lib.Run
import Musil.Storage.PartitionStart
import Mathlib.Data.List.Infix

/-!
# Records across restarts

Appends to a partition, and clean stops of its actor after which another one starts on the same
directory. A started actor writes from the start of the active log: records that were there are
overwritten, unless there are none.
-/

namespace Musil.Storage.Durability

open Proto Run

/-- The partition; the records written so far with their offsets, and the batches whose append was
answered, with the offset of the answer. -/
structure System where
  config : PartitionActorConfig
  replicas : List ReplicaMetadata
  id : ℕ
  partition : Partition
  log : List (Record × ℕ)
  answered : List (Filled × ℕ)

inductive Op where
  | append (x : Filled) (acks : Acks) (done : ℕ)
  | restart

namespace System

def start (config : PartitionActorConfig) (replicas : List ReplicaMetadata) (id : ℕ)
    (p : Partition) : System :=
  ⟨config, replicas, id, p, [], []⟩

/-- The offset that a reply names. -/
def answers (x : Filled) (replies : List Reply) : List (Filled × ℕ) :=
  replies.filterMap fun reply => match reply with
    | .appended _ response => some (x, response.baseOffset)
    | .truncated _ => none

/-- Stop the actor, and start another one on the files that it leaves. -/
def restart (s : System) : Partition :=
  let (stopped, _) := s.partition.handle .shutdown
  (PartitionActor.new s.config s.replicas stopped.disk).getD
    ⟨stopped.disk, .new s.replicas, none⟩

def step (s : System) : Op → System
  | .append x acks done =>
    let (p, replies) := s.partition.handle (.append x.batch acks done)
    let written := if p.actor.isSome then x.recs.zipIdx s.partition.state.logEndOffset else []
    { s with
      partition := p
      log := s.log ++ written
      answered := s.answered ++ answers x replies }
  | .restart => if s.partition.actor.isSome then { s with partition := s.restart } else s

/-- A fetch at the offset returns a batch that begins there, with the bytes of the record. -/
def Readable [Crc] (s : System) (r : Record) (offset : ℕ) : Prop :=
  ∀ partitionMaxBytes, ∃ res b bs,
    s.partition.state.fetch s.partition.disk s.id ⟨UInt64.ofNat offset, partitionMaxBytes⟩
      = some res ∧ res.records = b :: bs ∧ b.baseOffset.toNat = offset ∧ r.encode <+: b.records

/-- All answered records can be read, and every append takes the next offset. -/
structure Durable [Crc] (s : System) : Prop where
  offsets : s.log.map Prod.snd = List.range s.partition.state.logEndOffset
  answered : ∀ x o, (x, o) ∈ s.answered → ∀ (i : ℕ) (r : Record), x.recs[i]? = some r →
    (r, o + i) ∈ s.log
  readable : ∀ r o, (r, o) ∈ s.log → s.Readable r o

/-- An append meets a writer at the end of the active log, and a batch whose records are found
under their places. -/
def WritesAtEnd (s : System) : Op → Prop
  | .append x _ _ => (∀ a ∈ s.partition.actor, AtEnd s.partition.disk a.active) ∧ x.Searchable
  | .restart => True

instance (s : System) : (op : Op) → Decidable (s.WritesAtEnd op)
  | .append _ _ _ => inferInstanceAs (Decidable (_ ∧ _))
  | .restart => .isTrue trivial

/-! ### The invariant -/

/-- The partition holds the batches whose records the log lists. -/
structure Kept (s : System) (xs : List Filled) : Prop where
  log_eq : s.log = (xs.flatMap Filled.recs).zipIdx
  leo_eq : s.partition.state.logEndOffset = (xs.flatMap Filled.recs).length
  leo_lt : s.partition.state.logEndOffset < 2 ^ 63
  searchable : ∀ x ∈ xs, x.Searchable
  running : ∀ a, s.partition.actor = some a → Running s.partition a xs ∧ a.config = s.config
  shows : Shows s.partition.disk s.partition.state xs
  answered : ∀ x o, (x, o) ∈ s.answered → ∀ (i : ℕ) (r : Record), x.recs[i]? = some r →
    (r, o + i) ∈ s.log

section Kept

variable {s : System} {xs : List Filled} {x : Filled} {r : Record} {o : ℕ}

lemma Readable.returns [Crc] (h : s.Readable r o) (partitionMaxBytes : UInt32) :
    (s.partition.state.fetch s.partition.disk s.id ⟨UInt64.ofNat o, partitionMaxBytes⟩).map
      (fun res => res.records.isEmpty) = some false := by
  obtain ⟨res, b, bs, hfetch, hres, -⟩ := h partitionMaxBytes
  rw [hfetch, Option.map_some, hres, List.isEmpty_cons]

lemma Kept.readable [Crc] (h : s.Kept xs) (hr : (r, o) ∈ s.log) : s.Readable r o := by
  intro partitionMaxBytes
  rw [h.log_eq, List.mk_mem_zipIdx_iff_getElem?] at hr
  obtain ⟨hlt, hget⟩ := List.getElem?_eq_some_iff.mp hr
  have hleo : o < s.partition.state.logEndOffset := h.leo_eq ▸ hlt
  have ho : (UInt64.ofNat o).toNat = o :=
    UInt64.toNat_ofNat_of_lt' ((hleo.trans h.leo_lt).trans (by decide))
  obtain ⟨ys, hfetch, hprefix, hfirst⟩ := h.shows.fetch h.searchable s.id
    ⟨UInt64.ofNat o, partitionMaxBytes⟩ (ho.le.trans hleo.le)
  obtain ⟨y, hy, hbase⟩ := hfirst (ho.le.trans_lt hleo)
  obtain ⟨ys', rfl⟩ := List.head?_eq_some_iff.mp hy
  refine ⟨_, y.batch, ys'.map Filled.batch, hfetch, rfl, by rw [hbase, ho], ?_⟩
  obtain ⟨r', rs, hrecs⟩ := List.exists_cons_of_ne_nil y.recs_ne
  have hhead : r' = r := by
    rw [ho, List.drop_eq_getElem_cons hlt, hget, List.flatMap_cons, hrecs, List.cons_append,
      List.cons_prefix_cons] at hprefix
    exact hprefix.1
  rw [y.carries.records_eq, hrecs, hhead, List.flatMap_cons]
  exact List.prefix_append _ _

lemma Kept.durable [Crc] (h : s.Kept xs) : s.Durable where
  offsets := by rw [h.log_eq, h.leo_eq, List.zipIdx_map_snd, List.range_eq_range']
  answered := h.answered
  readable _ _ hr := h.readable hr

lemma Kept.append (h : s.Kept xs) {acks : Acks} {done : ℕ}
    (hok : s.WritesAtEnd (.append x acks done)) : ∃ ys, (s.step (.append x acks done)).Kept ys := by
  cases ha : s.partition.actor with
  | none =>
    have hstep : s.step (.append x acks done) = s := by
      simp [step, Partition.handle_of_none ha, ha, answers]
    exact ⟨xs, hstep.symm ▸ h⟩
  | some a =>
    obtain ⟨hrunning, hconfig⟩ := h.running a ha
    rcases hp : a.handleAppend s.partition.disk s.partition.state x.batch acks done with ⟨p', out⟩
    have hstep : s.step (.append x acks done) = { s with
        partition := p'
        log := s.log ++ if p'.actor.isSome then x.recs.zipIdx s.partition.state.logEndOffset
          else []
        answered := s.answered ++ answers x out } := by
      simp only [step, Partition.handle_append ha, hp]
    rw [hstep]
    rcases hrunning.append (hok.1 a ha) hp with ⟨hnone, hstate, rfl, hkeep⟩ |
      ⟨a', hrunning', hconfig', -, -, rfl⟩
    · refine ⟨xs, ?_, ?_, ?_, h.searchable, fun b hb => absurd hb (by simp [hnone]), ?_, ?_⟩
      · simpa [hnone] using h.log_eq
      · exact hstate ▸ h.leo_eq
      · exact hstate ▸ h.leo_lt
      · rw [show p'.state = s.partition.state from hstate]
        exact hkeep _ _ h.shows hrunning.isBehind
      · simpa [hnone, answers] using h.answered
    · have hrecs : ((xs ++ [stored s.partition.state x]).flatMap Filled.recs)
          = xs.flatMap Filled.recs ++ x.recs := by
        rw [List.flatMap_append, List.flatMap_singleton]
        rfl
      simp only [hrunning'.actor, Option.isSome_some, if_true]
      refine ⟨xs ++ [stored s.partition.state x], ?_, ?_, hrunning'.leo_lt, ?_, ?_,
        hrunning'.shows, ?_⟩
      · rw [hrecs, List.zipIdx_append, h.log_eq, h.leo_eq, Nat.zero_add]
      · rw [hrunning'.leo_eq, endOffset, Nat.zero_add]
      · intro y hy
        rcases List.mem_append.mp hy with hold | hnew
        · exact h.searchable y hold
        · rw [List.mem_singleton.mp hnew]
          exact hok.2
      · intro b hb
        obtain rfl : a' = b := Option.some.inj (hrunning'.actor.symm.trans hb)
        exact ⟨hrunning', hconfig'.trans hconfig⟩
      · intro y o hy i r hr
        rcases List.mem_append.mp hy with hold | hnew
        · exact List.mem_append_left _ (h.answered y o hold i r hr)
        · split_ifs at hnew with hall
          · exact absurd hnew (by simp [answers])
          · obtain ⟨rfl, rfl⟩ : y = x ∧ o = s.partition.state.logEndOffset := by
              simpa [answers, PartitionActor.response] using hnew
            refine List.mem_append_right _ ?_
            rw [List.mk_mem_zipIdx_iff_le_and_getElem?_sub]
            refine ⟨Nat.le_add_right _ _, ?_⟩
            rw [Nat.add_sub_cancel_left]
            exact hr

lemma Kept.restart (h : s.Kept xs) : (s.step .restart).Kept xs := by
  simp only [step]
  split_ifs with hsome
  · obtain ⟨a, ha⟩ := Option.isSome_iff_exists.mp hsome
    obtain ⟨hrunning, hconfig⟩ := h.running a ha
    obtain ⟨p', a', hnew, hrunning', hconfig'⟩ := hrunning.restart s.replicas
    have hrestart : s.restart = p' := by
      simp only [System.restart, Partition.handle_shutdown ha, ← hconfig, hnew, Option.getD_some]
    rw [hrestart]
    refine ⟨h.log_eq, ?_, hrunning'.leo_lt, h.searchable, fun b hb => ?_, hrunning'.shows,
      h.answered⟩
    · rw [hrunning'.leo_eq, endOffset, Nat.zero_add]
    · obtain rfl : a' = b := Option.some.inj (hrunning'.actor.symm.trans hb)
      exact ⟨hrunning', hconfig'.trans hconfig⟩
  · exact h

end Kept

/-- As long as every append writes at the end of the active log, and its records are found under
their places, every record can be read after any appends and restarts. -/
theorem durable_of_writesAtEnd [Crc] (config : PartitionActorConfig)
    (replicas : List ReplicaMetadata) (id free : ℕ) (hfree : free < 2 ^ 63) (p : Partition)
    (hp : PartitionActor.new config replicas ⟨free, ∅⟩ = some p) (ops : List Op)
    (hok : Meets step WritesAtEnd (start config replicas id p) ops) :
    (run step (start config replicas id p) ops).Durable := by
  obtain ⟨p', a, hnew, hrunning, hconfig, -⟩ := Running.new config replicas hfree
  obtain rfl : p' = p := Option.some.inj (hnew.symm.trans hp)
  have hstart : (start config replicas id p').Kept [] := by
    refine ⟨rfl, hrunning.leo_eq, hrunning.leo_lt, fun _ hx => absurd hx List.not_mem_nil,
      fun b hb => ?_, hrunning.shows, fun _ _ hx => absurd hx List.not_mem_nil⟩
    obtain rfl : a = b := Option.some.inj (hrunning.actor.symm.trans hb)
    exact ⟨hrunning, hconfig⟩
  obtain ⟨xs, hkept⟩ := run_invariant (P := fun s : System => ∃ xs, s.Kept xs)
    (fun s op ⟨xs, hxs⟩ hop => by
      cases op with
      | append x acks done => exact hxs.append hop
      | restart => exact ⟨xs, hxs.restart⟩) ⟨[], hstart⟩ hok
  exact hkept.durable

/-! ### Two runs -/

section Runs

local instance : Crc := Crc.castagnoli

/-- Every batch fills its segment, so the next one goes to an empty segment after a restart. -/
theorem durable_full_segments :
    (run step (start ⟨50, 1, 0⟩ [] 0 ((PartitionActor.new ⟨50, 1, 0⟩ [] ⟨1 <<< 20, ∅⟩).get
        isSome_new_small))
      [.append (.single 7) .leader 0, .restart, .append (.single 8) .leader 1]).Durable :=
  durable_of_writesAtEnd ⟨50, 1, 0⟩ [] 0 (1 <<< 20) (by decide) _ (Option.some_get _).symm _
    (by decide +kernel)

/-- The first record after a restart takes the place of the record from before. -/
theorem durable_not_all_runs :
    ¬ (run step (start ⟨1 <<< 20, 1, 0⟩ [] 0
        ((PartitionActor.new ⟨1 <<< 20, 1, 0⟩ [] ⟨1 <<< 20, ∅⟩).get isSome_new_large))
      [.append (.single 7) .leader 0, .restart, .append (.single 8) .leader 1]).Durable := by
  intro h
  have hread := h.readable (Record.new 0 0 [] [7]) 0 (by decide +kernel)
  exact absurd (hread.returns 100) (by decide +kernel)

end Runs

end System

end Musil.Storage.Durability
