import Musil.Lib.Run
import Musil.Storage.PartitionCut

/-!
# Truncations and acknowledgements

A truncation moves the log end and the high watermark back. What the replicas have reported before
it and the appends that wait for them stay: they were for the longer log. An acknowledgement after
it can raise the watermark above the log end, and answer an append whose batch is gone.
-/

namespace Musil.Storage.Truncation

open Proto Run

/-! ### Runs -/

/-- An append that was written, with its batch as it was stored. -/
structure Written where
  acks : Acks
  done : ℕ
  batch : Filled

/-- The partition, the states published so far, the number of commands, the appends written, those
that no truncation has cut since, and the replies to the last command. -/
structure System where
  partition : Partition
  published : List PartitionState
  issued : ℕ
  written : List Written
  log : List Written
  sent : List Reply

inductive Event where
  | append (x : Filled) (acks : Acks)
  | truncate (offset : ℕ)
  /-- A replica is acknowledged with the log end of the `k`-th published state. -/
  | updateReplicaLeo (replicaId k : ℕ)

namespace System

def start (p : Partition) : System := ⟨p, [p.state], 0, [], [], []⟩

/-- The `n`-th command is called `n`. -/
def handle (s : System) (c : PartitionCommand) : System :=
  let (p, replies) := s.partition.handle c
  { s with
    partition := p
    published := s.published ++ if p.actor.isSome then [p.state] else []
    issued := s.issued + 1
    sent := replies }

def step (s : System) : Event → System
  | .append x acks =>
    let s' := s.handle (.append x.batch acks s.issued)
    let new : List Written :=
      if s'.partition.actor.isSome then [⟨acks, s.issued, stored s.partition.state x⟩] else []
    { s' with written := s.written ++ new, log := s.log ++ new }
  | .truncate offset =>
    { s.handle (.truncate offset s.issued) with
      log := s.log.filter fun w => stopOf w.batch ≤ offset }
  | .updateReplicaLeo replicaId k => match s.published[k]? with
    | none => { s with sent := [] }
    | some st => s.handle (.updateReplicaLeo replicaId st.logEndOffset)

/-- The batch lies below the log end and is read at each of its offsets. -/
structure Held (p : Partition) (x : Filled) : Prop where
  stop_le : stopOf x ≤ p.state.logEndOffset
  batchAt : ∀ o, x.batch.baseOffset.toNat ≤ o → o < stopOf x →
    p.state.batchAt p.disk o = some x.batch

/-- The high watermark is not above the log end, and an append that waits for all replicas is
answered with its offset and only while its batch is held. -/
structure Honest (s : System) : Prop where
  highWatermark_le : s.partition.state.highWatermark ≤ s.partition.state.logEndOffset
  held : ∀ w ∈ s.written, w.acks = .all → ∀ response, .appended w.done response ∈ s.sent →
    response.baseOffset = w.batch.batch.baseOffset.toNat ∧ Held s.partition w.batch

/-- All replicas have reported `o`; the new report `leo` counts for the first one of its id. -/
def Reached (replicaId leo o : ℕ) : List ReplicaMetadata → Prop
  | [] => True
  | r :: rs =>
    if r.replicaId = replicaId then
      (o ≤ r.logEndOffset ∨ o ≤ leo) ∧ ∀ r' ∈ rs, o ≤ r'.logEndOffset
    else o ≤ r.logEndOffset ∧ Reached replicaId leo o rs

instance Reached.decidable (replicaId leo o : ℕ) :
    (rs : List ReplicaMetadata) → Decidable (Reached replicaId leo o rs)
  | [] => .isTrue trivial
  | r :: rs =>
    haveI := Reached.decidable replicaId leo o rs
    inferInstanceAs (Decidable (if r.replicaId = replicaId then
      (o ≤ r.logEndOffset ∨ o ≤ leo) ∧ ∀ r' ∈ rs, o ≤ r'.logEndOffset
      else o ≤ r.logEndOffset ∧ Reached replicaId leo o rs))

/-- An append that waits for `o` is ready: all replicas have reported that much. Without replicas
it is the watermark that has to be there. -/
def Ready (st : PartitionState) (replicaId leo o : ℕ) : Prop :=
  if st.replicas = [] then o ≤ st.highWatermark else Reached replicaId leo o st.replicas

instance (st : PartitionState) (replicaId leo o : ℕ) : Decidable (Ready st replicaId leo o) :=
  inferInstanceAs (Decidable (if st.replicas = [] then o ≤ st.highWatermark
    else Reached replicaId leo o st.replicas))

/-- The front of the queue that is ready. -/
def readied (s : System) (replicaId leo : ℕ) (a : PartitionActor) : List PendingResponse :=
  a.acksPendingReplication.takeWhile fun ack => Ready s.partition.state replicaId leo ack.hw

/-- An acknowledgement does not bring all replicas beyond the log end, unless there are none, and
makes no append ready that a truncation has cut. -/
def Uncut (s : System) : Event → Prop
  | .updateReplicaLeo replicaId k => ∀ st ∈ s.published[k]?,
    (s.partition.state.replicas = [] ∨
      ¬ Reached replicaId st.logEndOffset (s.partition.state.logEndOffset + 1)
        s.partition.state.replicas) ∧
    ∀ a ∈ s.partition.actor, ∀ ack ∈ s.readied replicaId st.logEndOffset a,
      ack.done ∈ s.log.map Written.done
  | _ => True

instance (s : System) : (e : Event) → Decidable (s.Uncut e)
  | .append _ _ => .isTrue trivial
  | .truncate _ => .isTrue trivial
  | .updateReplicaLeo _ k => inferInstanceAs (Decidable (∀ st ∈ s.published[k]?, _))

section Reached

variable {replicaId leo o : ℕ}

lemma reached_iff (rs : List ReplicaMetadata) : Reached replicaId leo o rs ↔
    ∀ r ∈ PartitionState.raise replicaId leo rs, o ≤ r.logEndOffset := by
  induction rs with
  | nil => exact iff_of_true trivial fun r hr => absurd hr List.not_mem_nil
  | cons r rs ih =>
    rw [Reached, PartitionState.raise]
    split_ifs
    · rw [List.forall_mem_cons, le_max_iff]
    · rw [List.forall_mem_cons, ih]

/-- The watermark that an acknowledgement leaves. -/
lemma le_highWatermark_iff (st : PartitionState) :
    o ≤ (st.ackReplica replicaId leo).highWatermark ↔ Ready st replicaId leo o := by
  rw [Ready]
  split_ifs with hnil
  · simp [PartitionState.ackReplica, hnil, PartitionState.raise]
  · rw [reached_iff]
    constructor
    · exact fun h r hr => h.trans (PartitionState.ackReplica_highWatermark_le _ _ _ r hr)
    · intro h
      cases hmin : ((PartitionState.raise replicaId leo st.replicas).map (·.logEndOffset)).min? with
      | none =>
        rw [List.min?_eq_none_iff, List.map_eq_nil_iff] at hmin
        have hreplicas : (st.ackReplica replicaId leo).replicas = [] := hmin
        exact absurd (PartitionState.ackReplica_of_nil hreplicas).1 hnil
      | some m =>
        obtain ⟨r, hr, rfl⟩ := List.mem_map.mp (List.min?_mem hmin)
        simp only [PartitionState.ackReplica, hmin, Option.getD_some]
        exact h r hr

lemma Ready.reached {st : PartitionState} (h : Ready st replicaId leo o) :
    Reached replicaId leo o st.replicas := by
  rw [Ready] at h
  split_ifs at h with hnil
  · rw [hnil]
    trivial
  · exact h

end Reached

/-! ### The invariant -/

/-- While the actor runs, all appends that were not cut are in place. -/
structure Inv (s : System) : Prop where
  highWatermark_le : s.partition.state.highWatermark ≤ s.partition.state.logEndOffset
  issued : ∀ w ∈ s.written, w.done < s.issued
  nodup : (s.written.map Written.done).Nodup
  log_subset : s.log ⊆ s.written
  pending : ∀ a, s.partition.actor = some a → ∀ ack ∈ a.acksPendingReplication,
    ∃ w ∈ s.written, w.done = ack.done ∧ w.batch.batch.baseOffset.toNat = ack.baseOffset
  placed : ∀ a, s.partition.actor = some a → ∃ front cur,
    Rowed a.config.maxEntries s.partition.disk a.active s.partition.state.segments
      s.partition.state.logEndOffset front cur ∧
    ∀ w ∈ s.log, Placed (rowOf a.active front cur) w.batch
  held : ∀ w ∈ s.written, w.acks = .all → ∀ response, .appended w.done response ∈ s.sent →
    response.baseOffset = w.batch.batch.baseOffset.toNat ∧ Held s.partition w.batch

section Inv

variable {s : System}

lemma Inv.honest (h : s.Inv) : s.Honest := ⟨h.highWatermark_le, h.held⟩

lemma Inv.issued_notMem (h : s.Inv) : s.issued ∉ s.written.map Written.done := by
  intro hmem
  obtain ⟨w, hw, hdone⟩ := List.mem_map.mp hmem
  exact (h.issued w hw).ne hdone

/-- The actor has ended, or had ended before. -/
lemma Inv.stop (h : s.Inv) {s' : System} (hactor : s'.partition.actor = none)
    (hstate : s'.partition.state = s.partition.state) (hissued : s.issued ≤ s'.issued)
    (hwritten : s'.written = s.written) (hlog : s'.log ⊆ s.log)
    (hsent : s'.sent = []) : s'.Inv := by
  constructor
  · rw [hstate]
    exact h.highWatermark_le
  · rw [hwritten]
    exact fun w hw => (h.issued w hw).trans_le hissued
  · rw [hwritten]
    exact h.nodup
  · rw [hwritten]
    exact fun w hw => h.log_subset (hlog hw)
  · intro a ha
    rw [hactor] at ha
    cases ha
  · intro a ha
    rw [hactor] at ha
    cases ha
  · intro w hw hall response hmem
    rw [hsent] at hmem
    exact absurd hmem List.not_mem_nil

/-- An append that is not written ends the actor. -/
lemma Inv.unwritten (h : s.Inv) {x : Filled} {acks : Acks} {p : Partition}
    (hp : s.partition.handle (.append x.batch acks s.issued) = (p, [])) (hnone : p.actor = none)
    (hstate : p.state = s.partition.state) : (s.step (.append x acks)).Inv := by
  refine h.stop ?_ ?_ (Nat.le_succ _) ?_ ?_ ?_
  · simpa only [step, handle, hp] using hnone
  · simpa only [step, handle, hp] using hstate
  · simp [step, handle, hp, hnone]
  · simp [step, handle, hp, hnone]
  · simp only [step, handle, hp]

/-- An append that is written is placed behind the others. -/
lemma Inv.append (h : s.Inv) (x : Filled) (acks : Acks) : (s.step (.append x acks)).Inv := by
  cases ha : s.partition.actor with
  | none => exact h.unwritten (Partition.handle_of_none ha _) ha rfl
  | some a =>
    obtain ⟨front, cur, hrowed, hplaced⟩ := h.placed a ha
    rcases happend : a.active.appendBatch s.partition.disk (stored s.partition.state x).batch with
      ⟨_ | active, d'⟩
    · refine h.unwritten (p := ⟨d', s.partition.state, none⟩) ?_ rfl rfl
      rw [Partition.handle_append ha]
      exact PartitionActor.handleAppend_of_none _ _ happend
    · rcases hroll : PartitionActor.rollOver a.config
        (s.partition.state.logEndOffset + x.recs.length)
        (s.partition.state.segments.dropLast ++ [active.publish.1]) active.publish.2 d' with
        ⟨views', active', d''⟩
      obtain ⟨front', cur', hrowed', hkeep, hnew⟩ := hrowed.append happend hroll
      have hcount : x.batch.recordsCount.toNat = x.recs.length := x.count_eq
      have hpartition := Partition.handle_append ha x.batch acks s.issued
      rw [PartitionActor.handleAppend_of_some _ _ happend] at hpartition
      simp only [hcount, hroll] at hpartition
      simp only [step, handle, hpartition, Option.isSome_some, if_true]
      constructor
      · have hle := h.highWatermark_le
        simp only []
        split_ifs <;> omega
      · intro w hw
        rcases List.mem_append.mp hw with hold | hlast
        · exact Nat.lt_succ_of_lt (h.issued w hold)
        · rw [List.mem_singleton.mp hlast]
          exact Nat.lt_succ_self _
      · rw [List.map_append, List.map_singleton, ← List.concat_eq_append]
        exact h.nodup.concat h.issued_notMem
      · intro w hw
        rcases List.mem_append.mp hw with hold | hlast
        · exact List.mem_append_left _ (h.log_subset hold)
        · exact List.mem_append_right _ hlast
      · intro b hb ack hack
        cases hb
        rcases List.mem_append.mp hack with hold | hqueued
        · obtain ⟨w, hw, hdone⟩ := h.pending a ha ack hold
          exact ⟨w, List.mem_append_left _ hw, hdone⟩
        · split_ifs at hqueued
          · rw [List.mem_singleton.mp hqueued]
            refine ⟨_, List.mem_append_right _ (List.mem_singleton_self _), rfl, ?_⟩
            exact UInt64.toNat_ofNat_of_lt' (hrowed.leo_lt.trans (by decide))
          · exact absurd hqueued List.not_mem_nil
      · intro b hb
        cases hb
        refine ⟨front', cur', hrowed', fun w hw => ?_⟩
        rcases List.mem_append.mp hw with hold | hlast
        · exact hkeep _ (hplaced w hold)
        · rw [List.mem_singleton.mp hlast]
          exact hnew
      · -- a reply at once is not for one that waits
        intro w hw hall response hmem
        simp only [] at hmem
        split_ifs at hmem with hacks
        · exact absurd hmem List.not_mem_nil
        · obtain ⟨hdone, -⟩ := Reply.appended.inj (List.mem_singleton.mp hmem)
          rcases List.mem_append.mp hw with hold | hlast
          · exact absurd hdone (h.issued w hold).ne
          · rw [List.mem_singleton.mp hlast] at hall
            exact absurd hall hacks

/-- A truncation keeps in place what it does not cut. -/
lemma Inv.truncate (h : s.Inv) (offset : ℕ) : (s.step (.truncate offset)).Inv := by
  have hsub : (s.log.filter fun w => decide (stopOf w.batch ≤ offset)) ⊆ s.log :=
    List.filter_subset_self _
  cases ha : s.partition.actor with
  | none =>
    have hpartition := Partition.handle_of_none ha (.truncate offset s.issued)
    apply h.stop
    · simpa only [step, handle, hpartition] using ha
    · simp only [step, handle, hpartition]
    · exact Nat.le_succ _
    · rfl
    · exact hsub
    · simp only [step, handle, hpartition]
  | some a =>
    have hpartition := Partition.handle_truncate ha offset s.issued
    obtain ⟨front, cur, hrowed, hplaced⟩ := h.placed a ha
    have hsent : ∀ w : Written, ∀ response,
        Reply.appended w.done response ∉ [Reply.truncated s.issued] := by
      intro w response hmem
      cases List.mem_singleton.mp hmem
    rcases Nat.lt_or_ge offset s.partition.state.logEndOffset with hlt | hge
    · obtain ⟨a', d', views', front', htruncate, hconfig, hpending, hrowed', hkeep⟩ :=
        hrowed.truncate hlt
      rw [htruncate] at hpartition
      simp only [step, handle, hpartition]
      constructor
      · exact Nat.min_le_right _ _
      · exact fun w hw => Nat.lt_succ_of_lt (h.issued w hw)
      · exact h.nodup
      · exact fun w hw => h.log_subset (hsub hw)
      · intro b hb ack hack
        cases hb
        rw [hpending] at hack
        exact h.pending a ha ack hack
      · intro b hb
        cases hb
        rw [hconfig]
        refine ⟨front', [], hrowed', fun w hw => ?_⟩
        obtain ⟨hw, hle⟩ := List.mem_filter.mp hw
        exact hkeep _ (hplaced w hw) (of_decide_eq_true hle)
      · exact fun w _ _ response hmem => absurd hmem (hsent w response)
    · have hsame : a.handleTruncate s.partition.disk s.partition.state offset
          = ⟨s.partition.disk, s.partition.state, some a⟩ := if_pos hge
      rw [hsame] at hpartition
      simp only [step, handle, hpartition]
      constructor
      · exact h.highWatermark_le
      · exact fun w hw => Nat.lt_succ_of_lt (h.issued w hw)
      · exact h.nodup
      · exact fun w hw => h.log_subset (hsub hw)
      · intro b hb
        cases hb
        exact h.pending a ha
      · intro b hb
        cases hb
        exact ⟨front, cur, hrowed, fun w hw => hplaced w (hsub hw)⟩
      · exact fun w _ _ response hmem => absurd hmem (hsent w response)

/-- An acknowledgement that answers no cut append finds the answered ones in place. -/
lemma Inv.acknowledge (h : s.Inv) {replicaId k : ℕ}
    (hok : s.Uncut (.updateReplicaLeo replicaId k)) :
    (s.step (.updateReplicaLeo replicaId k)).Inv := by
  cases hk : s.published[k]? with
  | none =>
    simp only [step, hk]
    exact { h with held := fun w _ _ response hmem => absurd hmem List.not_mem_nil }
  | some st =>
    obtain ⟨hreplica, hanswered⟩ := hok st hk
    cases ha : s.partition.actor with
    | none =>
      have hpartition := Partition.handle_of_none ha
        (.updateReplicaLeo replicaId st.logEndOffset)
      simp only [step, hk]
      apply h.stop
      · simpa only [handle, hpartition] using ha
      · simp only [handle, hpartition]
      · exact Nat.le_succ _
      · rfl
      · exact fun _ hw => hw
      · simp only [handle, hpartition]
    | some a =>
      obtain ⟨front, cur, hrowed, hplaced⟩ := h.placed a ha
      have hpartition := Partition.handle_updateReplicaLeo ha replicaId st.logEndOffset
      rw [PartitionActor.handleUpdateReplicaLeo] at hpartition
      simp only [step, hk, handle, hpartition]
      constructor
      · rcases hreplica with hnil | hreached
        · have hnone : (s.partition.state.ackReplica replicaId st.logEndOffset).replicas = [] := by
            simp only [PartitionState.ackReplica, hnil, PartitionState.raise]
          exact (PartitionState.ackReplica_of_nil hnone).2.trans_le h.highWatermark_le
        · refine Nat.lt_succ_iff.mp (not_le.mp fun hle => hreached ?_)
          exact ((le_highWatermark_iff _).mp hle).reached
      · exact fun w hw => Nat.lt_succ_of_lt (h.issued w hw)
      · exact h.nodup
      · exact h.log_subset
      · intro b hb ack hack
        cases hb
        exact h.pending a ha ack ((List.dropWhile_sublist _).subset hack)
      · intro b hb
        cases hb
        exact ⟨front, cur, hrowed, hplaced⟩
      · intro w hw _ response hmem
        obtain ⟨ack, hack, hreply⟩ := List.mem_map.mp hmem
        obtain ⟨hdone, rfl⟩ := Reply.appended.inj hreply
        have hpend := (List.takeWhile_sublist _).subset hack
        simp only [le_highWatermark_iff] at hack
        obtain ⟨w₁, hw₁, hdone₁, hbase⟩ := h.pending a ha ack hpend
        obtain ⟨w₂, hw₂, hdone₂⟩ := List.mem_map.mp (hanswered a ha ack hack)
        have heq₁ : w₁ = w := List.inj_on_of_nodup_map h.nodup hw₁ hw (hdone₁.trans hdone)
        have heq₂ : w₂ = w :=
          List.inj_on_of_nodup_map h.nodup (h.log_subset hw₂) hw (hdone₂.trans hdone)
        subst heq₁
        subst heq₂
        refine ⟨hbase.symm, hrowed.stop_le (hplaced _ hw₂), fun o hle hlt => ?_⟩
        exact hrowed.batchAt (hplaced _ hw₂) hle hlt

lemma Inv.step (h : s.Inv) {e : Event} (hok : s.Uncut e) : (s.step e).Inv := by
  cases e with
  | append x acks => exact h.append x acks
  | truncate offset => exact h.truncate offset
  | updateReplicaLeo replicaId k => exact h.acknowledge hok

lemma inv_start {config : PartitionActorConfig} {replicas : List ReplicaMetadata} {free : ℕ}
    {p : Partition} (hsize : 0 < config.segmentBytes) (hfree : free < 2 ^ 63)
    (hp : PartitionActor.new config replicas ⟨free, ∅⟩ = some p) : (start p).Inv := by
  obtain ⟨a, ha, rfl, hrowed⟩ := rowed_new hsize hfree hp
  obtain ⟨hstate, hactor⟩ := new_empty hsize hp
  constructor
  · simp only [start, hstate]
    exact le_rfl
  · exact fun w hw => absurd hw List.not_mem_nil
  · exact List.nodup_nil
  · exact fun _ hw => hw
  · intro b hb ack hack
    rw [(hactor b hb).2] at hack
    exact absurd hack List.not_mem_nil
  · intro b hb
    obtain rfl : a = b := Option.some.inj (ha.symm.trans hb)
    exact ⟨[], [], hrowed, fun w hw => absurd hw List.not_mem_nil⟩
  · exact fun w hw => absurd hw List.not_mem_nil

end Inv

/-- On a directory that was empty, the high watermark stays at or below the log end and only appends
are answered whose batches are held, in every run in which no acknowledgement leaves all replicas
above the log end or answers an append that was cut. -/
theorem honest_of_run (config : PartitionActorConfig) (hsize : 0 < config.segmentBytes)
    (replicas : List ReplicaMetadata) (free : ℕ) (hfree : free < 2 ^ 63) (p : Partition)
    (hp : PartitionActor.new config replicas ⟨free, ∅⟩ = some p) (es : List Event)
    (hok : Meets step Uncut (start p) es) : (run step (start p) es).Honest :=
  (run_invariant (P := Inv) (fun _ _ h hok => h.step hok) (inv_start hsize hfree hp) hok).honest

/-! ### Runs with a truncation -/

section Runs

local instance castagnoli : Crc := Crc.castagnoli

/-- The cut is within a segment and at what the replica has; the first append was answered before,
and the last one is answered behind the cut. -/
theorem honest_cut_within_segment :
    (run step (start openedReplicated) [.append (.single 7) .all, .append (.single 8) .leader,
      .updateReplicaLeo 2 1, .truncate 1, .append (.single 9) .all,
      .updateReplicaLeo 2 5]).Honest :=
  honest_of_run ⟨1 <<< 20, 1, 0⟩ (by decide) [⟨2, 0⟩] (1 <<< 20) (by decide) openedReplicated
    (Option.some_get _).symm _ (by decide +kernel)

/-- The replica had the record that was cut. -/
def raisedBehindCut : System :=
  run step (start openedReplicated) [.append (.single 7) .leader, .updateReplicaLeo 2 1,
    .truncate 0, .updateReplicaLeo 2 0]

/-- Another record stands where the one that was queued stood. -/
def answeredBehindCut : System :=
  run step (start openedReplicated) [.append (.single 7) .all, .truncate 0,
    .append (.single 8) .leader, .updateReplicaLeo 2 1]

lemma length_written_pos : 0 < answeredBehindCut.written.length := by
  decide +kernel

def queued : Written :=
  answeredBehindCut.written.get ⟨0, length_written_pos⟩

theorem honest_not_all_runs : ¬ raisedBehindCut.Honest ∧ ¬ answeredBehindCut.Honest := by
  constructor
  · intro h
    exact absurd h.highWatermark_le (by decide +kernel)
  · intro h
    have hheld := (h.held queued (List.get_mem _ _) (by decide +kernel) ⟨0, 0, 1⟩
      (by decide +kernel)).2
    exact absurd (hheld.batchAt 0 (by decide +kernel) (by decide +kernel)) (by decide +kernel)

end Runs

end System

end Musil.Storage.Truncation
