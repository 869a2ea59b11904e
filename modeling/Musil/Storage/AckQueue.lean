import Musil.Lib.Run
import Musil.Storage.PartitionStart
import Mathlib.Data.List.Count
import Mathlib.Data.List.Perm.Basic
import Mathlib.Data.List.TakeWhile

/-!
# The queue of acknowledgements

An append that waits for all replicas is queued with the log end behind its batch. The queue is
drained from the front, but only when a replica is acknowledged: an append that is at or below the
high watermark already when it is written waits all the same.
-/

namespace Musil.Storage.AckQueue

open Proto Run

/-! ### Runs -/

/-- An append that was written: how it is acknowledged, its caller, and the log end behind it. -/
structure Written where
  acks : Acks
  done : ℕ
  stop : ℕ

/-- The partition, the number of commands so far, the appends written, and the replies. -/
structure System where
  partition : Partition
  issued : ℕ
  written : List Written
  replies : List Reply

inductive Event where
  | append (record : RecordBatch) (acks : Acks)
  | updateReplicaLeo (replicaId leo : ℕ)

namespace System

def start (p : Partition) : System := ⟨p, 0, [], []⟩

/-- The actor runs, and the files take the batch. -/
def Writes (s : System) (record : RecordBatch) : Prop :=
  ∃ a ∈ s.partition.actor, (a.active.appendBatch s.partition.disk
    (PartitionActor.rebased s.partition.state record)).1.isSome

instance (s : System) (record : RecordBatch) : Decidable (s.Writes record) :=
  inferInstanceAs (Decidable (∃ a ∈ s.partition.actor, _))

/-- The log end behind a batch that is appended next. -/
def stopOf (s : System) (record : RecordBatch) : ℕ :=
  s.partition.state.logEndOffset + record.recordsCount.toNat

/-- The `n`-th command is called `n`. -/
def command (s : System) : Event → PartitionCommand
  | .append record acks => .append record acks s.issued
  | .updateReplicaLeo replicaId leo => .updateReplicaLeo replicaId leo

def writes (s : System) : Event → List Written
  | .append record acks => if s.Writes record then [⟨acks, s.issued, s.stopOf record⟩] else []
  | .updateReplicaLeo _ _ => []

def step (s : System) (e : Event) : System :=
  let (p, replies) := s.partition.handle (s.command e)
  ⟨p, s.issued + 1, s.written ++ s.writes e, s.replies ++ replies⟩

/-- The callers that were answered, in the order of the replies. -/
def callers (replies : List Reply) : List ℕ :=
  replies.filterMap fun reply => match reply with
    | .appended done _ => some done
    | .truncated _ => none

/-- The callers that ask for an answer behind all replicas, in the order of their appends. -/
def requests (written : List Written) : List ℕ :=
  (written.filter fun w => w.acks = .all).map Written.done

/-- Who is still queued is above the high watermark, in order; all others below it were answered
once; and those that waited for all replicas in the order of their appends. -/
structure Prompt (s : System) : Prop where
  waiting : ∀ a, s.partition.actor = some a → ∀ ack ∈ a.acksPendingReplication,
    s.partition.state.highWatermark < ack.hw
  sorted : ∀ a, s.partition.actor = some a →
    (a.acksPendingReplication.map PendingResponse.hw).Pairwise (· ≤ ·)
  answered : ∀ w ∈ s.written, w.stop ≤ s.partition.state.highWatermark →
    (callers s.replies).count w.done = 1
  ordered : (callers s.replies).filter (· ∈ requests s.written) <+: requests s.written

/-- An append that is written and waits for all replicas finds a replica, and ends above the high
watermark. -/
def EndsAbove (s : System) : Event → Prop
  | .append record acks => acks = .all → s.Writes record →
    s.partition.state.replicas ≠ [] ∧ s.partition.state.highWatermark < s.stopOf record
  | .updateReplicaLeo _ _ => True

instance (s : System) : (e : Event) → Decidable (s.EndsAbove e)
  | .append _ _ => inferInstanceAs (Decidable (_ → _ → _))
  | .updateReplicaLeo _ _ => .isTrue trivial

/-! ### What a step does -/

section Step

variable {s : System} {record : RecordBatch}

/-- An append that is not written changes nothing that is published. -/
lemma step_append_of_not_writes (acks : Acks) (h : ¬ s.Writes record) :
    ∃ d, s.step (.append record acks)
      = ⟨⟨d, s.partition.state, none⟩, s.issued + 1, s.written, s.replies⟩ := by
  have hwrites : s.writes (.append record acks) = [] := if_neg h
  rw [step, hwrites, command, Partition.handle]
  cases ha : s.partition.actor with
  | none => exact ⟨s.partition.disk, by simp [← ha]⟩
  | some a =>
    rcases happend : a.active.appendBatch s.partition.disk
      (PartitionActor.rebased s.partition.state record) with ⟨_ | active, d⟩
    · refine ⟨d, ?_⟩
      simp only [PartitionActor.handleAppend_of_none _ _ happend, List.append_nil]
    · exact absurd ⟨a, ha, by rw [happend]; rfl⟩ h

/-- An append that is written is answered or queued. -/
lemma step_append_of_writes (acks : Acks) (h : s.Writes record) : ∃ a a' d segments,
    s.partition.actor = some a ∧
    a'.acksPendingReplication = a.acksPendingReplication ++ (if acks = .all then
      [⟨s.stopOf record, s.partition.state.logEndOffset, s.issued⟩] else []) ∧
    s.step (.append record acks) =
      ⟨⟨d, ⟨segments, s.stopOf record,
          if s.partition.state.replicas.isEmpty then
            s.partition.state.highWatermark + record.recordsCount.toNat
          else s.partition.state.highWatermark, s.partition.state.replicas⟩, some a'⟩,
        s.issued + 1, s.written ++ [⟨acks, s.issued, s.stopOf record⟩],
        s.replies ++ if acks = .all then [] else
          [.appended s.issued (a.response s.partition.state.logEndOffset)]⟩ := by
  have hwrites : s.writes (.append record acks) = [⟨acks, s.issued, s.stopOf record⟩] := if_pos h
  obtain ⟨a, ha, hsome⟩ := h
  rw [Option.mem_def] at ha
  rcases happend : a.active.appendBatch s.partition.disk
    (PartitionActor.rebased s.partition.state record) with ⟨_ | active, d⟩
  · rw [happend] at hsome
    cases hsome
  · rw [step, hwrites, command, Partition.handle_append ha]
    simp only [PartitionActor.handleAppend_of_some _ _ happend]
    exact ⟨a, _, _, _, ha, rfl, rfl⟩

end Step

/-! ### The invariant -/

lemma callers_append (rs rs' : List Reply) : callers (rs ++ rs') = callers rs ++ callers rs' :=
  List.filterMap_append

lemma requests_concat (ws : List Written) (w : Written) :
    requests (ws ++ [w]) = requests ws ++ if w.acks = .all then [w.done] else [] := by
  rw [requests, List.filter_append, List.map_append, List.filter_cons, List.filter_nil]
  simp only [decide_eq_true_eq]
  split_ifs <;> rfl

lemma filter_mem_concat {ns ms : List ℕ} {n : ℕ} (h : n ∉ ns) :
    ns.filter (· ∈ ms ++ [n]) = ns.filter (· ∈ ms) := by
  refine List.filter_congr fun k hk => ?_
  have hne : k ≠ n := ne_of_mem_of_not_mem hk h
  simp [hne]

/-- The callers in `pend` are those that the actor has queued, or had when it ended. -/
structure Queued (s : System) (pend : List PendingResponse) : Prop where
  actor : ∀ a, s.partition.actor = some a → a.acksPendingReplication = pend
  above : ∀ ack ∈ pend, s.partition.state.highWatermark < ack.hw
  le : ∀ ack ∈ pend, ack.hw ≤ s.partition.state.logEndOffset
  sorted : (pend.map PendingResponse.hw).Pairwise (· ≤ ·)
  issued : ∀ w ∈ s.written, w.done < s.issued
  nodup : (s.written.map Written.done).Nodup
  accounted : (callers s.replies ++ pend.map PendingResponse.done).Perm (s.written.map Written.done)
  linked : ∀ ack ∈ pend, ⟨.all, ack.done, ack.hw⟩ ∈ s.written
  ordered : (callers s.replies).filter (· ∈ requests s.written) ++ pend.map PendingResponse.done
    = requests s.written
  level : s.partition.state.replicas = [] →
    s.partition.state.highWatermark = s.partition.state.logEndOffset

section Queued

variable {s : System} {pend : List PendingResponse} {record : RecordBatch} {acks : Acks}
  {a : PartitionActor}

lemma Queued.prompt (h : s.Queued pend) : s.Prompt where
  waiting a ha ack hack := by
    rw [h.actor a ha] at hack
    exact h.above ack hack
  sorted a ha := by
    rw [h.actor a ha]
    exact h.sorted
  answered w hw hle := by
    have hnodup : (callers s.replies ++ pend.map PendingResponse.done).Nodup :=
      h.accounted.nodup_iff.mpr h.nodup
    have hmem : w.done ∈ callers s.replies ++ pend.map PendingResponse.done :=
      h.accounted.mem_iff.mpr (List.mem_map_of_mem hw)
    rcases List.mem_append.mp hmem with hanswered | hpend
    · exact List.count_eq_one_of_mem (List.nodup_append.mp hnodup).1 hanswered
    · -- who is queued is above the high watermark
      obtain ⟨ack, hack, hdone⟩ := List.mem_map.mp hpend
      have heq : ⟨.all, ack.done, ack.hw⟩ = w :=
        List.inj_on_of_nodup_map h.nodup (h.linked ack hack) hw hdone
      have habove := h.above ack hack
      rw [← heq] at hle
      exact absurd habove (Nat.not_lt.mpr hle)
  ordered := ⟨_, h.ordered⟩

lemma Queued.issued_notMem (h : s.Queued pend) : s.issued ∉ s.written.map Written.done := by
  intro hmem
  obtain ⟨w, hw, hdone⟩ := List.mem_map.mp hmem
  exact (h.issued w hw).ne hdone

lemma mem_of_mem_requests {n : ℕ} (h : n ∈ requests s.written) :
    n ∈ s.written.map Written.done := by
  obtain ⟨w, hw, rfl⟩ := List.mem_map.mp h
  exact List.mem_map_of_mem (List.mem_of_mem_filter hw)

lemma Queued.answered_mem (h : s.Queued pend) {n : ℕ} (hn : n ∈ callers s.replies) :
    n ∈ s.written.map Written.done :=
  h.accounted.subset (List.mem_append_left _ hn)

/-- A command that is not carried out, or one that ends the actor. -/
lemma Queued.idle (h : s.Queued pend) (d : Disk) {o : Option PartitionActor}
    (ho : ∀ a, o = some a → s.partition.actor = some a) :
    Queued ⟨⟨d, s.partition.state, o⟩, s.issued + 1, s.written, s.replies⟩ pend :=
  { h with
    actor := fun a ha => h.actor a (ho a ha)
    issued := fun w hw => Nat.lt_succ_of_lt (h.issued w hw) }

/-- Who is queued has a replica to wait for. -/
lemma Queued.replicas_ne (h : s.Queued pend) {ack : PendingResponse} (hack : ack ∈ pend) :
    s.partition.state.replicas ≠ [] := by
  intro hnil
  have habove := h.above ack hack
  rw [h.level hnil] at habove
  exact absurd habove (Nat.not_lt.mpr (h.le ack hack))

/-- The caller of an append that is written is queued, or answered at once. -/
lemma Queued.accounted_append (h : s.Queued pend) (acks : Acks) (stop baseOffset : ℕ)
    (response : ProducePartitionResponse) :
    (callers (s.replies ++ if acks = .all then [] else [.appended s.issued response]) ++
      List.map PendingResponse.done
        (pend ++ if acks = .all then [⟨stop, baseOffset, s.issued⟩] else [])).Perm
      (List.map Written.done (s.written ++ [⟨acks, s.issued, stop⟩])) := by
  rw [List.map_append, List.map_append, List.map_singleton, callers_append]
  split_ifs
  · rw [← List.append_assoc]
    simpa [callers] using h.accounted.append_right [s.issued]
  · rw [List.map_nil, List.append_nil, List.append_assoc]
    refine (List.Perm.append_left _ List.perm_append_comm).trans ?_
    rw [← List.append_assoc]
    exact h.accounted.append_right _

/-- Its request is behind all others, as its place in the queue is. -/
lemma Queued.ordered_append (h : s.Queued pend) (acks : Acks) (stop baseOffset : ℕ)
    (response : ProducePartitionResponse) :
    (callers (s.replies ++ if acks = .all then [] else [.appended s.issued response])).filter
        (· ∈ requests (s.written ++ [⟨acks, s.issued, stop⟩])) ++
      List.map PendingResponse.done
        (pend ++ if acks = .all then [⟨stop, baseOffset, s.issued⟩] else [])
      = requests (s.written ++ [⟨acks, s.issued, stop⟩]) := by
  rw [requests_concat, callers_append, List.map_append]
  split_ifs
  · have hfresh : s.issued ∉ callers s.replies :=
      fun hmem => h.issued_notMem (h.answered_mem hmem)
    rw [show callers [] = [] from rfl, List.append_nil, filter_mem_concat hfresh,
      ← List.append_assoc, h.ordered]
    rfl
  · have hfresh : s.issued ∉ requests s.written :=
      fun hmem => h.issued_notMem (mem_of_mem_requests hmem)
    rw [List.append_nil, List.map_nil, List.append_nil, List.filter_append]
    simpa [callers, hfresh] using h.ordered

/-- An append that is written is queued at the end, or answered. -/
lemma Queued.append (h : s.Queued pend) (hwrites : s.Writes record)
    (hok : s.EndsAbove (.append record acks)) :
    ∃ pend', (s.step (.append record acks)).Queued pend' := by
  obtain ⟨a, a', d, segments, ha, hpend, hstep⟩ := step_append_of_writes acks hwrites
  have hgrows : s.partition.state.logEndOffset ≤ s.stopOf record := Nat.le_add_right _ _
  set q := if acks = .all then
    [(⟨s.stopOf record, s.partition.state.logEndOffset, s.issued⟩ : PendingResponse)]
  else [] with hq
  have hnew : ∀ ack ∈ q, acks = .all ∧
      ack = ⟨s.stopOf record, s.partition.state.logEndOffset, s.issued⟩ := by
    intro ack hack
    rw [hq] at hack
    split_ifs at hack with hall
    · exact ⟨hall, List.mem_singleton.mp hack⟩
    · exact absurd hack List.not_mem_nil
  rw [h.actor a ha] at hpend
  rw [hstep]
  refine ⟨pend ++ q, ?_⟩
  constructor
  · intro b hb
    cases hb
    exact hpend
  · intro ack hack
    have hne : s.partition.state.replicas ≠ [] := by
      rcases List.mem_append.mp hack with hold | hqueued
      · exact h.replicas_ne hold
      · exact (hok (hnew ack hqueued).1 hwrites).1
    simp only [List.isEmpty_eq_false_iff.mpr hne, if_neg Bool.false_ne_true]
    rcases List.mem_append.mp hack with hold | hqueued
    · exact h.above ack hold
    · obtain ⟨hall, rfl⟩ := hnew ack hqueued
      exact (hok hall hwrites).2
  · intro ack hack
    rcases List.mem_append.mp hack with hold | hqueued
    · exact (h.le ack hold).trans hgrows
    · exact (hnew ack hqueued).2 ▸ le_rfl
  · rw [List.map_append, List.pairwise_append]
    refine ⟨h.sorted, ?_, fun n hn m hm => ?_⟩
    · rw [hq]
      split_ifs
      · exact List.pairwise_singleton _ _
      · exact List.Pairwise.nil
    · obtain ⟨ack, hack, rfl⟩ := List.mem_map.mp hn
      obtain ⟨ack', hack', rfl⟩ := List.mem_map.mp hm
      rw [(hnew ack' hack').2]
      exact (h.le ack hack).trans hgrows
  · intro w hw
    rcases List.mem_append.mp hw with hold | hlast
    · exact Nat.lt_succ_of_lt (h.issued w hold)
    · rw [List.mem_singleton.mp hlast]
      exact Nat.lt_succ_self _
  · rw [List.map_append, List.map_singleton, ← List.concat_eq_append]
    exact h.nodup.concat h.issued_notMem
  · exact h.accounted_append acks _ _ _
  · intro ack hack
    rcases List.mem_append.mp hack with hold | hqueued
    · exact List.mem_append_left _ (h.linked ack hold)
    · obtain ⟨rfl, rfl⟩ := hnew ack hqueued
      exact List.mem_append_right _ (List.mem_singleton_self _)
  · exact h.ordered_append acks _ _ _
  · intro hnil
    have hempty : s.partition.state.replicas.isEmpty = true := List.isEmpty_iff.mpr hnil
    simp only [hempty, if_true, h.level hnil]
    rfl

/-- What is left in the queue is above the watermark up to which it is drained. -/
lemma lt_of_mem_dropWhile {k : ℕ} (h : (pend.map PendingResponse.hw).Pairwise (· ≤ ·)) :
    ∀ ack ∈ pend.dropWhile fun ack => ack.hw ≤ k, k < ack.hw := by
  induction pend with
  | nil => exact fun _ hack => absurd hack List.not_mem_nil
  | cons ack pend ih =>
    rw [List.map_cons, List.pairwise_cons] at h
    rw [List.dropWhile_cons]
    split_ifs with hready
    · exact ih h.2
    · rw [decide_eq_true_eq, Nat.not_le] at hready
      refine List.forall_mem_cons.mpr ⟨hready, fun ack' hack' => ?_⟩
      exact hready.trans_le (h.1 _ (List.mem_map_of_mem hack'))

/-- An acknowledgement answers the front of the queue. -/
lemma Queued.acknowledge (h : s.Queued pend) (replicaId leo : ℕ) :
    ∃ pend', (s.step (.updateReplicaLeo replicaId leo)).Queued pend' := by
  rw [step, command, Partition.handle]
  cases ha : s.partition.actor with
  | none => exact ⟨pend, by simpa [writes] using h.idle s.partition.disk (by simp [ha])⟩
  | some a =>
    set hw := (s.partition.state.ackReplica replicaId leo).highWatermark with hhw
    set ready : PendingResponse → Bool := fun ack => ack.hw ≤ hw with hready
    have hsplit := List.takeWhile_append_dropWhile (p := ready) (l := pend)
    have hkept : pend.dropWhile ready ⊆ pend := (List.dropWhile_sublist ready).subset
    have hcallers : callers ((pend.takeWhile ready).map fun ack =>
        .appended ack.done (a.response ack.baseOffset))
          = (pend.takeWhile ready).map PendingResponse.done := by
      rw [callers, List.filterMap_map, ← List.filterMap_eq_map]
      rfl
    have hasked : ∀ n ∈ (pend.takeWhile ready).map PendingResponse.done,
        decide (n ∈ requests s.written) = true := by
      intro n hn
      obtain ⟨ack, hack, rfl⟩ := List.mem_map.mp hn
      rw [decide_eq_true_eq, ← h.ordered]
      refine List.mem_append_right _ (List.mem_map_of_mem ?_)
      exact (List.takeWhile_sublist ready).subset hack
    simp only [PartitionActor.handleUpdateReplicaLeo, h.actor a ha, ← hhw, ← hready]
    refine ⟨pend.dropWhile ready, ?_⟩
    constructor
    · intro b hb
      cases hb
      rfl
    · exact lt_of_mem_dropWhile h.sorted
    · exact fun ack hack => h.le ack (hkept hack)
    · exact h.sorted.sublist ((List.dropWhile_sublist ready).map _)
    · intro w hw
      rw [writes, List.append_nil] at hw
      exact Nat.lt_succ_of_lt (h.issued w hw)
    · rw [writes, List.append_nil]
      exact h.nodup
    · rw [writes, List.append_nil, callers_append, hcallers, List.append_assoc, ← List.map_append,
        hsplit]
      exact h.accounted
    · rw [writes, List.append_nil]
      exact fun ack hack => h.linked ack (hkept hack)
    · rw [writes, List.append_nil, callers_append, hcallers, List.filter_append,
        List.filter_eq_self.mpr hasked, List.append_assoc, ← List.map_append, hsplit]
      exact h.ordered
    · intro hnil
      obtain ⟨hnil', heq⟩ := PartitionState.ackReplica_of_nil hnil
      exact heq.trans (h.level hnil')

/-- Every step keeps the queue in order whose append, if it is one that waits, ends above. -/
lemma Queued.step (h : s.Queued pend) {e : Event} (hok : s.EndsAbove e) :
    ∃ pend', (s.step e).Queued pend' := by
  cases e with
  | append record acks =>
    by_cases hwrites : s.Writes record
    · exact h.append hwrites hok
    · obtain ⟨d, hstep⟩ := step_append_of_not_writes acks hwrites
      rw [hstep]
      exact ⟨pend, h.idle d fun _ ha => by cases ha⟩
  | updateReplicaLeo replicaId leo => exact h.acknowledge replicaId leo

/-- An append that is queued at or below the high watermark waits there. -/
lemma Queued.not_prompt (h : s.Queued pend) {e : Event} (hnot : ¬ s.EndsAbove e) :
    ¬ (s.step e).Prompt := by
  cases e with
  | append record acks =>
    simp only [EndsAbove, not_forall] at hnot
    obtain ⟨rfl, hwrites, hnot⟩ := hnot
    obtain ⟨a, a', d, segments, -, hpend, hstep⟩ := step_append_of_writes .all hwrites
    rw [if_pos rfl] at hpend
    intro hprompt
    have hlt := hprompt.waiting a' (by rw [hstep]) _ (hpend ▸ List.mem_append_right _
      (List.mem_singleton_self _))
    rw [hstep] at hlt
    simp only [] at hlt
    split_ifs at hlt with hempty
    · rw [h.level (List.isEmpty_iff.mp hempty)] at hlt
      exact lt_irrefl _ hlt
    · exact hnot ⟨fun hnil => hempty (List.isEmpty_iff.mpr hnil), hlt⟩
  | updateReplicaLeo replicaId leo => exact absurd trivial hnot

lemma queued_start {config : PartitionActorConfig} {replicas : List ReplicaMetadata} {d : Disk}
    {p : Partition} (hp : PartitionActor.new config replicas d = some p) : (start p).Queued [] where
  actor a ha := (PartitionActor.new_eq_some hp).2.2 a ha
  above _ hack := absurd hack List.not_mem_nil
  le _ hack := absurd hack List.not_mem_nil
  sorted := List.Pairwise.nil
  issued _ hw := absurd hw List.not_mem_nil
  nodup := List.nodup_nil
  accounted := List.Perm.refl _
  linked _ hack := absurd hack List.not_mem_nil
  ordered := rfl
  level hnil := PartitionActor.new_level hp hnil

end Queued

/-- In every state of a run the queue holds only appends above the watermark, and the others were
answered once and in order, exactly if every append that is written to wait for all replicas finds
a replica and ends above the watermark. -/
theorem prompt_iff (config : PartitionActorConfig) (replicas : List ReplicaMetadata) (d : Disk)
    (p : Partition) (hp : PartitionActor.new config replicas d = some p) (es : List Event) :
    (∀ n, (run step (start p) (es.take n)).Prompt) ↔ Meets step EndsAbove (start p) es := by
  constructor
  · have hmeets (s : System) (hs : ∃ pend, s.Queued pend)
        (hprompt : ∀ n, (run step s (es.take n)).Prompt) : Meets step EndsAbove s es := by
      induction es generalizing s with
      | nil => trivial
      | cons e es ih =>
        obtain ⟨pend, hqueued⟩ := hs
        have hok : s.EndsAbove e := by
          by_contra hnot
          exact hqueued.not_prompt hnot (hprompt 1)
        exact ⟨hok, ih _ (hqueued.step hok) fun n => hprompt (n + 1)⟩
    exact hmeets _ ⟨[], queued_start hp⟩
  · intro hok n
    have hqueued : ∃ pend, (run step (start p) (es.take n)).Queued pend :=
      run_invariant (P := fun s : System => ∃ pend, s.Queued pend)
        (fun _ _ h hok => h.elim fun _ hqueued => hqueued.step hok) ⟨[], queued_start hp⟩
        (hok.take n)
    obtain ⟨pend, hpend⟩ := hqueued
    exact hpend.prompt

/-! ### Two runs -/

section Runs

local instance castagnoli : Crc := Crc.castagnoli

/-- The replica reaches the log end, and both appends are answered. -/
theorem prompt_replicated :
    (run step (start openedReplicated)
      [.append (RecordBatch.single 7) .all, .append (RecordBatch.single 8) .leader,
        .updateReplicaLeo 2 2]).Prompt :=
  (prompt_iff ⟨1 <<< 20, 1, 0⟩ [⟨2, 0⟩] ⟨1 <<< 20, ∅⟩ openedReplicated (Option.some_get _).symm
    [.append (RecordBatch.single 7) .all, .append (RecordBatch.single 8) .leader,
      .updateReplicaLeo 2 2]).mpr (by decide +kernel) 3

/-- A partition without replicas never answers an append that waits for all of them. -/
theorem prompt_not_all_runs :
    ¬ (run step (start openedLarge) [.append (RecordBatch.single 7) .all]).Prompt := by
  intro h
  have hwaiting := h.waiting _ (Option.some_get (by decide +kernel)).symm ⟨1, 0, 0⟩
    (by decide +kernel)
  exact absurd hwaiting (by decide +kernel)

end Runs

end System

end Musil.Storage.AckQueue
