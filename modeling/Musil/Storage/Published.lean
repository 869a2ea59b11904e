import Musil.Lib.Run
import Musil.Storage.PartitionOrder

/-!
# Published states

Appends and acknowledgements of replicas, in any order. Each of them publishes a state that is built
from the one before; a replica is acknowledged with a log end offset that it has read from an
earlier state.
-/

namespace Musil.Storage

open Proto Run

/-! ### Well-formed states -/

/-- The batches start where the one before ends, and end at `stop`. -/
def Tile (stop : ℕ) : ℕ → List RecordBatch → Prop
  | base, [] => base = stop
  | base, b :: bs => b.baseOffset.toNat = base ∧ Tile stop (base + b.recordsCount.toNat) bs

/-- The batches of each segment lead from its base offset to that of the next one, those of the
last segment to `stop`. -/
def Tiled (d : Disk) (stop : ℕ) : ℕ → List SegmentView → Prop
  | base, [] => base = stop
  | base, v :: vs => v.baseOffset = base ∧ ∃ bs next,
      (v.batchesFrom (d.file v.baseOffset) 0).batches = bs.map some ∧ Tile next base bs ∧
      Tiled d stop next vs

/-- The offsets, the segments and the watermark of a state agree. -/
structure WellFormed (d : Disk) (st : PartitionState) : Prop where
  segments_ne : st.segments ≠ []
  head_eq : ∀ v ∈ st.segments.head?, v.baseOffset = 0
  sorted : (st.segments.map SegmentView.baseOffset).Pairwise (· < ·)
  tiled : Tiled d st.logEndOffset 0 st.segments
  highWatermark_le : st.highWatermark ≤ st.logEndOffset
  highWatermark_eq : st.replicas = [] → st.highWatermark = st.logEndOffset
  /-- The segment that a fetch takes is in bounds. -/
  inBounds : ∀ offset, ∃ idx v,
    partitionPoint (fun v => v.baseOffset ≤ offset) st.segments = idx + 1 ∧
      st.segments[idx]? = some v

/-! ### From what a state shows -/

section Shows

variable {d : Disk} {base o : ℕ} {v : SegmentView} {vs : List SegmentView} {xs : List Filled}
  {segs : List (List Filled)} {st : PartitionState}

lemma tile_of_chained (h : Chained base xs) : Tile (endOffset base xs) base (xs.map Filled.batch) := by
  induction xs generalizing base with
  | nil => rfl
  | cons x xs ih =>
    rw [List.map_cons, endOffset_cons]
    refine ⟨h.1, ?_⟩
    rw [x.count_eq]
    exact ih h.2

lemma Laid.tiled (h : Laid d base vs segs) : Tiled d (endOffset base segs.flatten) base vs := by
  induction vs generalizing base segs with
  | nil =>
    cases segs with
    | nil => rfl
    | cons xs segs => exact h.elim
  | cons v vs ih =>
    cases segs with
    | nil => exact h.elim
    | cons xs segs =>
      obtain ⟨rfl, hholds, hrest⟩ := h
      refine ⟨rfl, _, _, hholds.batchesFrom, tile_of_chained hholds.chained, ?_⟩
      rw [List.flatten_cons, endOffset_append]
      exact ih hrest

/-- A state with increasing segments and a bounded watermark is well-formed. -/
lemma Shows.wellFormed (h : Shows d st xs)
    (hsorted : (st.segments.map SegmentView.baseOffset).Pairwise (· < ·))
    (hle : st.highWatermark ≤ st.logEndOffset)
    (heq : st.replicas = [] → st.highWatermark = st.logEndOffset) : WellFormed d st := by
  obtain ⟨segs, hlaid, rfl⟩ := h.laid
  refine ⟨h.segments_ne, fun v hv => ?_, hsorted, h.leo_eq ▸ hlaid.tiled, hle, heq,
    fun offset => ?_⟩
  · obtain ⟨vs, hvs⟩ := List.head?_eq_some_iff.mp hv
    rw [hvs] at hlaid
    cases segs with
    | nil => exact hlaid.elim
    | cons xs segs => exact hlaid.1
  · obtain ⟨pre, v, post, -, -, -, hvs, -, -, -, -, -, -, hpoint⟩ :=
      hlaid.locate h.segments_ne (Nat.zero_le offset)
    exact ⟨pre.length, v, hpoint, by simp [hvs]⟩

end Shows

namespace Published

/-! ### Runs -/

/-- The partition, the states published so far with the current one last, the number of records of
each append, and the replies. -/
structure System where
  partition : Partition
  published : List PartitionState
  counts : List ℕ
  replies : List Reply

inductive Event where
  | append (x : Filled) (acks : Acks)
  /-- A replica is acknowledged with the log end of the `k`-th published state. -/
  | ack (replicaId k : ℕ)

namespace System

def start (p : Partition) : System := ⟨p, [p.state], [], []⟩

/-- The actor handles a command; unless it ends, it publishes. -/
def handle (s : System) (c : PartitionCommand) : System :=
  let (p, replies) := s.partition.handle c
  { s with
    partition := p
    published := s.published ++ if p.actor.isSome then [p.state] else []
    replies := s.replies ++ replies }

/-- The `n`-th append is called `n`. -/
def step (s : System) : Event → System
  | .append x acks => { s.handle (.append x.batch acks s.counts.length) with
      counts := s.counts ++ [x.recs.length] }
  | .ack replicaId k => match s.published[k]? with
    | none => s
    | some st => s.handle (.updateReplicaLeo replicaId st.logEndOffset)

/-- All published states are well-formed, end where the first of the appends end, and the watermark
never falls; the last view is that of the active segment; and an append is answered with the number
of records before it, at once if it does not wait for replicas. -/
structure Sound (s : System) : Prop where
  wellFormed : ∀ st ∈ s.published, WellFormed s.partition.disk st
  ends : ∀ st ∈ s.published, ∃ counts, counts <+: s.counts ∧ st.logEndOffset = counts.sum
  current : s.partition.actor.isSome → s.partition.state ∈ s.published ∧
    s.partition.state.logEndOffset = s.counts.sum
  monotone : (s.published.map PartitionState.highWatermark).Pairwise (· ≤ ·)
  active : ∀ a, s.partition.actor = some a →
    s.partition.state.segments.getLast? = some a.active.segment
  answered : ∀ n response, .appended n response ∈ s.replies →
    n < s.counts.length ∧ response.baseOffset = (s.counts.take n).sum
  answers : ∀ x acks, acks ≠ .all → (s.step (.append x acks)).partition.actor.isSome →
    ∃ response, .appended s.counts.length response ∈ (s.step (.append x acks)).replies

end System

/-! ### The invariant -/

/-- What does not depend on the files. -/
structure Ordered (st : PartitionState) : Prop where
  sorted : (st.segments.map SegmentView.baseOffset).Pairwise (· < ·)
  highWatermark_le : st.highWatermark ≤ st.logEndOffset
  highWatermark_eq : st.replicas = [] → st.highWatermark = st.logEndOffset

namespace System

/-- The published states show the first batches of those that the actor has written. -/
structure Inv (s : System) : Prop where
  mem : s.partition.state ∈ s.published
  ends : ∀ st ∈ s.published, ∃ counts, counts <+: s.counts ∧ st.logEndOffset = counts.sum
  shown : ∀ st ∈ s.published, (∃ ys, Shows s.partition.disk st ys) ∧ Ordered st ∧
    ∀ a, s.partition.actor = some a → Behind a.active st
  le : ∀ st ∈ s.published, st.logEndOffset ≤ s.partition.state.logEndOffset ∧
    st.highWatermark ≤ s.partition.state.highWatermark
  monotone : (s.published.map PartitionState.highWatermark).Pairwise (· ≤ ·)
  replicas : ∀ r ∈ s.partition.state.replicas, s.partition.state.highWatermark ≤ r.logEndOffset ∧
    r.logEndOffset ≤ s.partition.state.logEndOffset
  running : ∀ a, s.partition.actor = some a → (∃ xs, Running s.partition a xs) ∧
    AtEnd s.partition.disk a.active ∧ Lined s.partition a ∧
    s.partition.state.logEndOffset = s.counts.sum ∧
    ∀ x ∈ a.acksPendingReplication, x.done < s.counts.length ∧
      x.baseOffset = (s.counts.take x.done).sum
  answered : ∀ n response, .appended n response ∈ s.replies →
    n < s.counts.length ∧ response.baseOffset = (s.counts.take n).sum

section Inv

variable {s : System}

lemma Inv.answers (h : s.Inv) (x : Filled) {acks : Acks} (hacks : acks ≠ .all)
    (hsome : (s.step (.append x acks)).partition.actor.isSome) :
    ∃ response, .appended s.counts.length response ∈ (s.step (.append x acks)).replies := by
  cases ha : s.partition.actor with
  | none =>
    have hnone : (s.step (.append x acks)).partition.actor = none := by
      simp only [step, System.handle, Partition.handle_of_none ha, ha]
    rw [hnone] at hsome
    cases hsome
  | some a =>
    obtain ⟨⟨xs, hrunning⟩, hend, -⟩ := h.running a ha
    rcases hp : a.handleAppend s.partition.disk s.partition.state x.batch acks s.counts.length with
      ⟨p', out⟩
    simp only [step, System.handle, Partition.handle_append ha, hp] at hsome ⊢
    rcases hrunning.append hend hp with ⟨hnone, -⟩ | ⟨a', -, -, -, -, rfl⟩
    · rw [hnone] at hsome
      cases hsome
    · rw [if_neg hacks]
      exact ⟨_, List.mem_append_right _ (List.mem_singleton_self _)⟩

lemma Inv.sound (h : s.Inv) : s.Sound where
  ends := h.ends
  current hsome := by
    obtain ⟨a, ha⟩ := Option.isSome_iff_exists.mp hsome
    exact ⟨h.mem, (h.running a ha).2.2.2.1⟩
  answers x acks hacks := h.answers x hacks
  wellFormed st hst := by
    obtain ⟨⟨ys, hshows⟩, hordered, -⟩ := h.shown st hst
    exact hshows.wellFormed hordered.sorted hordered.highWatermark_le hordered.highWatermark_eq
  monotone := h.monotone
  active a ha := (h.running a ha).2.2.1.last
  answered := h.answered

/-- What is counted before an append stays so when more appends follow. -/
lemma counted_of_isPrefix {cs cs' : List ℕ} (hp : cs <+: cs') {n o : ℕ}
    (h : n < cs.length ∧ o = (cs.take n).sum) : n < cs'.length ∧ o = (cs'.take n).sum := by
  obtain ⟨ds, rfl⟩ := hp
  rw [List.length_append, List.take_append_of_le_length h.1.le]
  exact ⟨h.1.trans_le (Nat.le_add_right _ _), h.2⟩

/-- The actor goes on and publishes a further state. -/
lemma Inv.publish (h : s.Inv) {a a' : PartitionActor} (ha : s.partition.actor = some a)
    {p' : Partition} (xs : List Filled) {counts : List ℕ} {out : List Reply}
    (hrunning : Running p' a' xs) (hend : AtEnd p'.disk a'.active)
    (hpres : Preserves s.partition.disk a.active p'.disk a'.active) (hordered : Ordered p'.state)
    (hleo : s.partition.state.logEndOffset ≤ p'.state.logEndOffset)
    (hhw : s.partition.state.highWatermark ≤ p'.state.highWatermark)
    (hreplicas : ∀ r ∈ p'.state.replicas, p'.state.highWatermark ≤ r.logEndOffset ∧
      r.logEndOffset ≤ p'.state.logEndOffset)
    (hlined : Lined p' a')
    (hsum : p'.state.logEndOffset = counts.sum) (hcounts : s.counts <+: counts)
    (hpending : ∀ x ∈ a'.acksPendingReplication, x.done < counts.length ∧
      x.baseOffset = (counts.take x.done).sum)
    (hout : ∀ n response, .appended n response ∈ out → n < counts.length ∧
      response.baseOffset = (counts.take n).sum) :
    Inv ⟨p', s.published ++ if p'.actor.isSome then [p'.state] else [], counts,
      s.replies ++ out⟩ := by
  rw [hrunning.actor, Option.isSome_some, if_pos rfl]
  constructor
  · exact List.mem_concat_self
  · intro st hst
    rcases List.mem_append.mp hst with hold | hnew
    · obtain ⟨cs, hcs, hleo⟩ := h.ends st hold
      exact ⟨cs, hcs.trans hcounts, hleo⟩
    · rw [List.mem_singleton.mp hnew]
      exact ⟨counts, List.prefix_refl _, hsum⟩
  · intro st hst
    rcases List.mem_append.mp hst with hold | hnew
    · obtain ⟨⟨ys, hshows⟩, hord, hbehind⟩ := h.shown st hold
      obtain ⟨hshows', hbehind'⟩ := hpres st ys hshows (hbehind a ha)
      refine ⟨⟨ys, hshows'⟩, hord, fun b hb => ?_⟩
      obtain rfl : a' = b := Option.some.inj (hrunning.actor.symm.trans hb)
      exact hbehind'
    · rw [List.mem_singleton.mp hnew]
      refine ⟨⟨xs, hrunning.shows⟩, hordered, fun b hb => ?_⟩
      obtain rfl : a' = b := Option.some.inj (hrunning.actor.symm.trans hb)
      exact hrunning.isBehind
  · intro st hst
    rcases List.mem_append.mp hst with hold | hnew
    · exact ⟨(h.le st hold).1.trans hleo, (h.le st hold).2.trans hhw⟩
    · rw [List.mem_singleton.mp hnew]
      exact ⟨le_rfl, le_rfl⟩
  · rw [List.map_append, List.pairwise_append]
    refine ⟨h.monotone, List.pairwise_singleton _ _, fun hw hold hw' hnew => ?_⟩
    obtain ⟨st, hst, rfl⟩ := List.mem_map.mp hold
    rw [List.map_singleton, List.mem_singleton] at hnew
    exact hnew ▸ (h.le st hst).2.trans hhw
  · exact hreplicas
  · intro b hb
    obtain rfl : a' = b := Option.some.inj (hrunning.actor.symm.trans hb)
    exact ⟨⟨xs, hrunning⟩, hend, hlined, hsum, hpending⟩
  · intro n response hn
    rcases List.mem_append.mp hn with hold | hnew
    · exact counted_of_isPrefix hcounts (h.answered n response hold)
    · exact hout n response hnew

/-- The actor has ended: the files still hold what was published. -/
lemma Inv.stop (h : s.Inv) (p' : Partition) (hnone : p'.actor = none)
    (hstate : p'.state = s.partition.state) (counts : List ℕ) (hcounts : s.counts <+: counts)
    (hkeep : ∀ st ∈ s.published, ∀ ys, Shows s.partition.disk st ys → Shows p'.disk st ys) :
    Inv ⟨p', s.published, counts, s.replies⟩ := by
  constructor
  · exact hstate ▸ h.mem
  · intro st hst
    obtain ⟨cs, hcs, hleo⟩ := h.ends st hst
    exact ⟨cs, hcs.trans hcounts, hleo⟩
  · intro st hst
    obtain ⟨⟨ys, hshows⟩, hord, -⟩ := h.shown st hst
    exact ⟨⟨ys, hkeep st hst ys hshows⟩, hord, fun b hb => absurd hb (by simp [hnone])⟩
  · exact hstate ▸ h.le
  · exact h.monotone
  · exact hstate ▸ h.replicas
  · exact fun b hb => absurd hb (by simp [hnone])
  · exact fun n response hn => counted_of_isPrefix hcounts (h.answered n response hn)

lemma Inv.append (h : s.Inv) (x : Filled) (acks : Acks) : (s.step (.append x acks)).Inv := by
  have hcounts : s.counts <+: s.counts ++ [x.recs.length] := List.prefix_append _ _
  cases ha : s.partition.actor with
  | none =>
    have hstep : s.step (.append x acks)
        = ⟨s.partition, s.published, s.counts ++ [x.recs.length], s.replies⟩ := by
      simp [step, System.handle, Partition.handle_of_none ha, ha]
    rw [hstep]
    exact h.stop _ ha rfl _ hcounts fun _ _ _ hshows => hshows
  | some a =>
    obtain ⟨⟨xs, hrunning⟩, hend, hlined, hsum, hpending⟩ := h.running a ha
    rcases hp : a.handleAppend s.partition.disk s.partition.state x.batch acks s.counts.length with
      ⟨p', out⟩
    have hstep : s.step (.append x acks) = ⟨p', s.published ++
        if p'.actor.isSome then [p'.state] else [], s.counts ++ [x.recs.length],
        s.replies ++ out⟩ := by
      simp only [step, System.handle, Partition.handle_append ha, hp]
    rw [hstep]
    have hrun := hrunning.append hend hp
    rcases happend : a.active.appendBatch s.partition.disk
      (PartitionActor.rebased s.partition.state x.batch) with ⟨_ | active, d'⟩
    · rw [PartitionActor.handleAppend_of_none _ _ happend] at hp
      cases hp
      rcases hrun with ⟨-, -, -, hkeep⟩ | ⟨a', hrunning', -⟩
      · have hstop := h.stop ⟨d', s.partition.state, none⟩ rfl rfl _ hcounts
          fun st hst ys hshows => hkeep st ys hshows ((h.shown st hst).2.2 a ha)
        simpa using hstop
      · exact absurd hrunning'.actor (by simp)
    · rcases hrun with ⟨hnone, -⟩ | ⟨a', hrunning', -, hend', hpres, hout⟩
      · rw [PartitionActor.handleAppend_of_some _ _ happend] at hp
        cases hp
        cases hnone
      · have hactor := hrunning'.actor
        have hlined' := hlined.append hrunning hp hactor
        rw [PartitionActor.handleAppend_of_some _ _ happend] at hp
        cases hp
        cases hactor
        have hcount : x.batch.recordsCount.toNat = x.recs.length := x.count_eq
        have hordered := (h.shown _ h.mem).2.1
        have hnext : s.counts.length < (s.counts ++ [x.recs.length]).length ∧
            s.partition.state.logEndOffset
              = ((s.counts ++ [x.recs.length]).take s.counts.length).sum := by
          rw [List.length_append, List.take_left]
          exact ⟨Nat.lt_succ_self _, hsum⟩
        refine h.publish ha _ hrunning' hend' hpres ⟨hlined'.sorted, ?_, fun hnil => ?_⟩
          (Nat.le_add_right _ _) ?_ (fun r hr => ?_) hlined' ?_ hcounts (fun y hy => ?_)
          (fun n response hn => ?_)
        · have hle := hordered.highWatermark_le
          simp only []
          split_ifs <;> omega
        · simp only [show s.partition.state.replicas = [] from hnil, List.isEmpty_nil, if_true]
          rw [hordered.highWatermark_eq hnil]
        · simp only []
          split_ifs <;> omega
        · have hne : s.partition.state.replicas.isEmpty = false :=
            List.isEmpty_eq_false_iff.mpr (List.ne_nil_of_mem hr)
          simp only [hne, Bool.false_eq_true, if_false]
          exact ⟨(h.replicas r hr).1, (h.replicas r hr).2.trans (Nat.le_add_right _ _)⟩
        · rw [List.sum_append, List.sum_singleton, ← hsum, ← hcount]
        · rcases List.mem_append.mp hy with hold | hnew
          · exact counted_of_isPrefix hcounts (hpending y hold)
          · split_ifs at hnew
            · rw [List.mem_singleton.mp hnew]
              exact hnext
            · exact absurd hnew List.not_mem_nil
        · rw [hout] at hn
          split_ifs at hn
          · exact absurd hn List.not_mem_nil
          · cases List.mem_singleton.mp hn
            exact hnext

lemma Inv.ack (h : s.Inv) (replicaId k : ℕ) : (s.step (.ack replicaId k)).Inv := by
  simp only [step]
  cases hk : s.published[k]? with
  | none => exact h
  | some st =>
    have hst : st ∈ s.published := List.mem_of_getElem? hk
    cases ha : s.partition.actor with
    | none =>
      have hstep : s.handle (.updateReplicaLeo replicaId st.logEndOffset)
          = ⟨s.partition, s.published, s.counts, s.replies⟩ := by
        simp [System.handle, Partition.handle_of_none ha, ha]
      simp only [hstep]
      exact h
    | some a =>
      obtain ⟨⟨xs, hrunning⟩, hend, hlined, hsum, hpending⟩ := h.running a ha
      have hordered := (h.shown _ h.mem).2.1
      let p' := (a.handleUpdateReplicaLeo s.partition.disk s.partition.state replicaId
        st.logEndOffset).1
      have hstep : s.handle (.updateReplicaLeo replicaId st.logEndOffset) = ⟨p', s.published ++
          if p'.actor.isSome then [p'.state] else [], s.counts, s.replies ++
          (a.handleUpdateReplicaLeo s.partition.disk s.partition.state replicaId
            st.logEndOffset).2⟩ := by
        simp only [System.handle, Partition.handle_updateReplicaLeo ha]
        rfl
      simp only [hstep]
      have hcredited : ∀ r ∈ p'.state.replicas, r.logEndOffset ≤ s.partition.state.logEndOffset := by
        intro r hr
        rcases PartitionState.mem_raise hr with hold | ⟨r₀, hr₀, -, rfl⟩
        · exact (h.replicas r hold).2
        · exact Nat.max_le.mpr ⟨(h.replicas r₀ hr₀).2, (h.le st hst).1⟩
      have hle := s.partition.state.ackReplica_highWatermark_le replicaId st.logEndOffset
      have hhw := PartitionState.le_ackReplica_highWatermark replicaId st.logEndOffset
        fun r hr => (h.replicas r hr).1
      refine h.publish ha xs ⟨rfl, hrunning.leo_eq, hrunning.serves⟩ hend (.refl _ _)
        ⟨hordered.sorted, ?_, fun hnil => ?_⟩ le_rfl hhw
        (fun r hr => ⟨hle r hr, hcredited r hr⟩)
        ⟨hlined.sorted, hlined.mem, hlined.last⟩ hsum (List.prefix_refl _)
        (fun x hx => hpending x (List.dropWhile_subset _ hx)) (fun n response hn => ?_)
      · by_cases hnil : p'.state.replicas = []
        · exact (PartitionState.ackReplica_of_nil hnil).2.le.trans hordered.highWatermark_le
        · obtain ⟨r, hr⟩ := List.exists_mem_of_ne_nil _ hnil
          exact (hle r hr).trans (hcredited r hr)
      · obtain ⟨hnil', heq⟩ := PartitionState.ackReplica_of_nil hnil
        exact heq.trans (hordered.highWatermark_eq hnil')
      · obtain ⟨y, hy, hreply⟩ := List.mem_map.mp hn
        cases hreply
        exact hpending y (List.takeWhile_subset _ hy)

lemma Inv.step (h : s.Inv) (e : Event) : (s.step e).Inv := by
  cases e with
  | append x acks => exact h.append x acks
  | ack replicaId k => exact h.ack replicaId k

end Inv

/-! ### The start -/

lemma inv_start {config : PartitionActorConfig} {ids : List ℕ} {free : ℕ} {p : Partition}
    (hsize : 0 < config.segmentBytes) (hfree : free < 2 ^ 63)
    (hp : PartitionActor.new config (ids.map .empty) ⟨free, ∅⟩ = some p) : (start p).Inv := by
  obtain ⟨p', a, hnew, hrunning, -, hend⟩ := Running.new config (ids.map .empty) hfree
  obtain rfl : p' = p := Option.some.inj (hnew.symm.trans hp)
  obtain ⟨hstate, hactor⟩ := new_empty hsize hp
  have hordered : Ordered p'.state := by
    rw [hstate]
    exact ⟨List.pairwise_singleton _ _, le_rfl, fun _ => rfl⟩
  have hown : ∀ st ∈ [p'.state], st = p'.state := fun st hst => List.mem_singleton.mp hst
  refine ⟨List.mem_singleton_self _, fun st hst => ?_, fun st hst => ?_, fun st hst => ?_,
    List.pairwise_singleton _ _, fun r hr => ?_, fun b hb => ?_,
    fun _ _ hn => absurd hn List.not_mem_nil⟩
  · rw [hown st hst, hstate]
    exact ⟨[], List.nil_prefix, rfl⟩
  · rw [hown st hst]
    refine ⟨⟨[], hrunning.shows⟩, hordered, fun b hb => ?_⟩
    obtain rfl : a = b := Option.some.inj (hrunning.actor.symm.trans hb)
    exact hrunning.isBehind
  · rw [hown st hst]
    exact ⟨le_rfl, le_rfl⟩
  · rw [start, hstate] at hr
    obtain ⟨id, -, rfl⟩ := List.mem_map.mp hr
    rw [start, hstate]
    exact ⟨le_rfl, le_rfl⟩
  · obtain rfl : a = b := Option.some.inj (hrunning.actor.symm.trans hb)
    obtain ⟨hlined, hpending⟩ := hactor a hrunning.actor
    refine ⟨⟨[], hrunning⟩, hend, hlined, ?_, fun x hx => ?_⟩
    · rw [start, hstate]
      rfl
    · rw [hpending] at hx
      exact absurd hx List.not_mem_nil

/-- Every state that a run of appends and acknowledgements publishes is well-formed, on any disk
and with any replicas. -/
theorem sound_of_run (config : PartitionActorConfig) (hsize : 0 < config.segmentBytes)
    (ids : List ℕ) (free : ℕ) (hfree : free < 2 ^ 63) (p : Partition)
    (hp : PartitionActor.new config (ids.map .empty) ⟨free, ∅⟩ = some p) (es : List Event) :
    (run step (start p) es).Sound :=
  (run_invariant' (P := Inv) (fun _ e h => h.step e) (inv_start hsize hfree hp) es).sound

/-- A full segment and a replica that is acknowledged with its end. -/
theorem sound_rolled_over :
    letI := Crc.castagnoli
    (run step (start ((PartitionActor.new ⟨50, 1, 0⟩ ([2].map .empty) ⟨1 <<< 20, ∅⟩).get
        (by decide +kernel)))
      [.append (.single 7) .all, .append (.single 8) .leader, .ack 2 1]).Sound :=
  letI := Crc.castagnoli
  sound_of_run ⟨50, 1, 0⟩ (by decide) [2] (1 <<< 20) (by decide) _ (Option.some_get _).symm _

end System

end Published

end Musil.Storage
