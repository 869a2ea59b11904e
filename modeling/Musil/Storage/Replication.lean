import Musil.Lib.Run
import Musil.Storage.Partition
import Mathlib.Data.List.Perm.Basic
import Mathlib.Data.List.TakeWhile

/-!
# Acknowledged by all replicas

Callers append to a partition and fetch from it, each fetch in the name of a replica or of a
consumer. A call puts its command into the actor's channel some time later, in any order with the
others. A replica that fetches at an offset holds the records below it, and what it has fetched up
to is compared with what the actor credits it with.
-/

namespace Musil.Storage.Replication

open Bytes Proto Run

/-- An append that the actor has given the offsets from `baseOffset` on. -/
structure Assigned where
  done : ℕ
  acks : Acks
  baseOffset : ℕ
  count : ℕ
  deriving DecidableEq, Repr

/-- The partition, the callers' commands on their way and in the channel, and what has happened:
the number of appends, the fetches of replicas, the appends handled, and the replies sent. -/
structure System where
  id : ℕ
  partition : Partition
  sending : List PartitionCommand
  channel : List PartitionCommand
  issued : ℕ
  fetched : List (ℕ × ℕ)
  assigned : List Assigned
  replies : List Reply

inductive Event where
  | append (record : RecordBatch) (acks : Acks)
  | fetch (replicaId : ℤ) (req : FetchPartition)
  /-- The command of the `k`-th waiting caller enters the channel. -/
  | send (k : ℕ)
  /-- The actor takes a command from the channel and handles it. -/
  | recv
  deriving DecidableEq

namespace System

def start (id : ℕ) (p : Partition) : System := ⟨id, p, [], [], 0, [], [], []⟩

/-- The part of a fetch before its command is sent: the response, and the command. -/
def handleFetch [Crc] (s : System) (replicaId : ℤ) (req : FetchPartition) :
    Option (PartitionResponse × List PartitionCommand) := do
  let res ← s.partition.state.fetch s.partition.disk s.id req
  pure (res, if 0 ≤ replicaId then [.updateReplicaLeo replicaId.toNat res.logStartOffset] else [])

/-- The append that a command asks for, as the actor assigns it. -/
def assign (s : System) : PartitionCommand → List Assigned
  | .append record acks done =>
    [⟨done, acks, s.partition.state.logEndOffset, record.recordsCount.toNat⟩]
  | _ => []

def step [Crc] (s : System) : Event → System
  | .append record acks =>
    { s with sending := s.sending ++ [.append record acks s.issued], issued := s.issued + 1 }
  | .fetch replicaId req =>
    let fetched := if 0 ≤ replicaId then [(replicaId.toNat, req.fetchOffset.toNat)] else []
    { s with
      sending := s.sending ++ ((s.handleFetch replicaId req).map Prod.snd).getD []
      fetched := s.fetched ++ fetched }
  | .send k =>
    { s with sending := s.sending.eraseIdx k, channel := s.channel ++ s.sending[k]?.toList }
  | .recv =>
    match s.partition.actor, s.channel with
    | some _, c :: channel =>
      let (partition, replies) := s.partition.handle c
      { s with
        partition := partition
        channel := channel
        assigned := s.assigned ++ s.assign c
        replies := s.replies ++ replies }
    | _, _ => s

/-- The replica has fetched at `offset` or above. -/
def Reached (s : System) (replicaId offset : ℕ) : Prop :=
  ∃ f ∈ s.fetched, f.1 = replicaId ∧ offset ≤ f.2

/-- An append that waits for all replicas is answered only after all have fetched behind it, and
the high watermark is no higher than what each replica has fetched up to. -/
structure AllReplicated (s : System) : Prop where
  answered : ∀ a ∈ s.assigned, a.acks = .all → ∀ resp, .appended a.done resp ∈ s.replies →
    ∀ r ∈ s.partition.state.replicas, s.Reached r.replicaId (a.baseOffset + a.count)
  highWatermark : ∀ r ∈ s.partition.state.replicas,
    s.partition.state.highWatermark = 0 ∨ s.Reached r.replicaId s.partition.state.highWatermark

instance (s : System) (replicaId offset : ℕ) : Decidable (s.Reached replicaId offset) :=
  inferInstanceAs (Decidable (∃ f ∈ s.fetched, _))

/-- A configured replica that fetches has, with this fetch or an earlier one, reached the log end
offset of the published state; and an append that waits for all replicas ends above offset 0. -/
def CreditEarned (s : System) : Event → Prop
  | .fetch replicaId req =>
    0 ≤ replicaId → (∃ r ∈ s.partition.state.replicas, r.replicaId = replicaId.toNat) →
      s.partition.state.logEndOffset ≤ req.fetchOffset.toNat ∨
        s.Reached replicaId.toNat s.partition.state.logEndOffset
  | .recv => ∀ c ∈ s.channel.head?, ∀ a ∈ s.assign c, a.acks = .all → 0 < a.baseOffset + a.count
  | _ => True

instance (s : System) : (e : Event) → Decidable (s.CreditEarned e)
  | .append _ _ => .isTrue trivial
  | .fetch _ _ => inferInstanceAs (Decidable (_ → _ → _))
  | .send _ => .isTrue trivial
  | .recv => inferInstanceAs (Decidable (∀ c ∈ s.channel.head?, _))

/-! ### Callers are told apart -/

/-- The callers of the appends among some commands. -/
def dones (cs : List PartitionCommand) : List ℕ :=
  cs.filterMap fun c => match c with
    | .append _ _ done => some done
    | _ => none

/-- The callers of all appends, wherever they are. -/
def callers (s : System) : List ℕ :=
  s.assigned.map (·.done) ++ (dones s.channel ++ dones s.sending)

/-- Every append has a caller of its own. -/
structure CallersApart (s : System) : Prop where
  nodup : s.callers.Nodup
  lt : ∀ n ∈ s.callers, n < s.issued

lemma dones_append (cs cs' : List PartitionCommand) : dones (cs ++ cs') = dones cs ++ dones cs' :=
  List.filterMap_append

lemma map_done_assign (s : System) (c : PartitionCommand) :
    (s.assign c).map (·.done) = dones [c] := by
  cases c <;> rfl

lemma CallersApart.of_perm {s s' : System} (h : s.CallersApart) (hp : s'.callers.Perm s.callers)
    (hi : s.issued ≤ s'.issued) : s'.CallersApart :=
  ⟨hp.nodup_iff.mpr h.nodup, fun n hn => (h.lt n (hp.mem_iff.mp hn)).trans_le hi⟩

section Callers

variable [Crc] {s : System}

lemma dones_handleFetch (s : System) (replicaId : ℤ) (req : FetchPartition) :
    dones (((s.handleFetch replicaId req).map Prod.snd).getD []) = [] := by
  rw [handleFetch]
  cases s.partition.state.fetch s.partition.disk s.id req with
  | none => rfl
  | some res =>
    by_cases h : 0 ≤ replicaId
    · simp [h, dones]
    · simp [h, dones]

lemma CallersApart.step (h : s.CallersApart) (e : Event) : (s.step e).CallersApart := by
  cases e with
  | append record acks =>
    have hcallers : (s.step (.append record acks)).callers = s.callers ++ [s.issued] := by
      simp only [callers, System.step, dones_append, List.append_assoc]
      rfl
    constructor
    · rw [hcallers, List.nodup_append]
      refine ⟨h.nodup, List.nodup_singleton _, fun n hn m hm => ?_⟩
      rw [List.mem_singleton.mp hm]
      exact (h.lt n hn).ne
    · intro n hn
      rw [hcallers] at hn
      rcases List.mem_append.mp hn with hold | hnew
      · exact (h.lt n hold).trans (Nat.lt_succ_self _)
      · exact List.mem_singleton.mp hnew ▸ Nat.lt_succ_self _
  | fetch replicaId req =>
    refine h.of_perm (.of_eq ?_) le_rfl
    simp only [callers, System.step, dones_append, dones_handleFetch, List.append_nil]
  | send k =>
    refine h.of_perm (.append_left _ ?_) le_rfl
    have hperm : (s.sending[k]?.toList ++ s.sending.eraseIdx k).Perm s.sending := by
      rcases Nat.lt_or_ge k s.sending.length with hk | hk
      · rw [List.getElem?_eq_getElem hk]
        exact List.getElem_cons_eraseIdx_perm hk
      · rw [List.getElem?_eq_none hk, List.eraseIdx_of_length_le hk]
        exact .refl _
    have hdones := hperm.filterMap fun c => match c with
      | .append _ _ done => some done
      | _ => none
    simp only [System.step, dones_append, List.append_assoc]
    refine .append_left _ ?_
    rw [← dones_append]
    exact hdones
  | recv =>
    simp only [System.step]
    split
    · next c channel hactor hchannel =>
      refine h.of_perm (.of_eq ?_) le_rfl
      have hsplit : dones s.channel = dones [c] ++ dones channel := by
        rw [hchannel, ← dones_append, List.singleton_append]
      simp only [callers, List.map_append, map_done_assign, hsplit, List.append_assoc]
    · exact h

end Callers

/-! ### Credit -/

section Credit

variable {s s' : System}

lemma Reached.mono {id offset offset' : ℕ} (h : s.Reached id offset) (hle : offset' ≤ offset) :
    s.Reached id offset' := by
  obtain ⟨f, hf, hid, hoff⟩ := h
  exact ⟨f, hf, hid, hle.trans hoff⟩

lemma Reached.grow {id offset : ℕ} (h : s.Reached id offset) (hf : s.fetched ⊆ s'.fetched) :
    s'.Reached id offset := by
  obtain ⟨f, hmem, hid, hoff⟩ := h
  exact ⟨f, hf hmem, hid, hoff⟩

/-- What is credited to replicas, on its way or already counted, has been fetched; and what is
still unanswered or was answered is as the actor assigned it. -/
structure CreditInv (s : System) : Prop where
  credited : ∀ r ∈ s.partition.state.replicas,
    r.logEndOffset = 0 ∨ s.Reached r.replicaId r.logEndOffset
  inFlight : ∀ id leo, .updateReplicaLeo id leo ∈ s.sending ++ s.channel →
    ∀ r ∈ s.partition.state.replicas, r.replicaId = id → s.Reached id leo
  highWatermark_le : ∀ r ∈ s.partition.state.replicas,
    s.partition.state.highWatermark ≤ r.logEndOffset
  pending : ∀ a, s.partition.actor = some a → ∀ x ∈ a.acksPendingReplication, 0 < x.hw ∧
    ∃ e ∈ s.assigned, e.done = x.done ∧ e.baseOffset + e.count = x.hw
  answered : ∀ done resp, .appended done resp ∈ s.replies → ∃ e ∈ s.assigned, e.done = done ∧
    (e.acks = .all → ∀ r ∈ s.partition.state.replicas,
      s.Reached r.replicaId (e.baseOffset + e.count))

lemma CreditInv.allReplicated (h : s.CreditInv) (ha : s.CallersApart) : s.AllReplicated where
  answered e he hall resp hresp r hr := by
    obtain ⟨e', he', hdone, hreached⟩ := h.answered e.done resp hresp
    have hnodup : (s.assigned.map (·.done)).Nodup := (List.nodup_append.mp ha.nodup).1
    have heq : e' = e := List.inj_on_of_nodup_map hnodup he' he hdone
    exact heq ▸ hreached (heq ▸ hall) r hr
  highWatermark r hr := by
    rcases h.credited r hr with hzero | hreached
    · exact .inl (Nat.le_zero.mp (hzero ▸ h.highWatermark_le r hr))
    · exact .inr (hreached.mono (h.highWatermark_le r hr))

/-- Nothing but the callers' side moves, and what it sends has been fetched. -/
lemma CreditInv.frame (h : s.CreditInv) (hp : s'.partition = s.partition)
    (hf : s.fetched ⊆ s'.fetched) (ha : s'.assigned = s.assigned) (hr : s'.replies = s.replies)
    (hin : ∀ id leo, .updateReplicaLeo id leo ∈ s'.sending ++ s'.channel →
      .updateReplicaLeo id leo ∈ s.sending ++ s.channel ∨
        ∀ r ∈ s.partition.state.replicas, r.replicaId = id → s'.Reached id leo) :
    s'.CreditInv where
  credited r hmem := by
    rw [hp] at hmem
    exact (h.credited r hmem).imp_right fun hreached => hreached.grow hf
  inFlight id leo hmem r hr hid := by
    rw [hp] at hr
    rcases hin id leo hmem with hold | hnew
    · exact (h.inFlight id leo hold r hr hid).grow hf
    · exact hnew r hr hid
  highWatermark_le := hp ▸ h.highWatermark_le
  pending := by
    rw [hp, ha]
    exact h.pending
  answered done resp hresp := by
    rw [hr] at hresp
    obtain ⟨e, he, hdone, hreached⟩ := h.answered done resp hresp
    rw [ha, hp]
    exact ⟨e, he, hdone, fun hall r hmem => (hreached hall r hmem).grow hf⟩

/-- The actor handles a command that leaves the replicas and their credit as they are. -/
lemma CreditInv.handled (h : s.CreditInv) {p : Partition} {channel : List PartitionCommand}
    {assigned : List Assigned} {replies : List Reply}
    (hchannel : channel ⊆ s.channel) (hreplicas : p.state.replicas = s.partition.state.replicas)
    (hhw : ∀ r ∈ s.partition.state.replicas, p.state.highWatermark ≤ r.logEndOffset)
    (hpending : ∀ a, p.actor = some a → ∀ x ∈ a.acksPendingReplication,
      (∃ a₀, s.partition.actor = some a₀ ∧ x ∈ a₀.acksPendingReplication) ∨
        0 < x.hw ∧ ∃ e ∈ assigned, e.done = x.done ∧ e.baseOffset + e.count = x.hw)
    (hreplies : ∀ done resp, .appended done resp ∈ replies →
      ∃ e ∈ assigned, e.done = done ∧ e.acks ≠ .all) :
    CreditInv { s with
      partition := p
      channel := channel
      assigned := s.assigned ++ assigned
      replies := s.replies ++ replies } where
  credited r hr := h.credited r (hreplicas ▸ hr)
  inFlight id leo hmem r hr := by
    refine h.inFlight id leo ?_ r (hreplicas ▸ hr)
    rcases List.mem_append.mp hmem with hsending | hch
    · exact List.mem_append_left _ hsending
    · exact List.mem_append_right _ (hchannel hch)
  highWatermark_le r hr := hhw r (hreplicas ▸ hr)
  pending a ha x hx := by
    rcases hpending a ha x hx with ⟨a₀, ha₀, hx₀⟩ | ⟨hpos, e, he, hdone, hend⟩
    · obtain ⟨hpos, e, he, hdone, hend⟩ := h.pending a₀ ha₀ x hx₀
      exact ⟨hpos, e, List.mem_append_left _ he, hdone, hend⟩
    · exact ⟨hpos, e, List.mem_append_right _ he, hdone, hend⟩
  answered done resp hresp := by
    rcases List.mem_append.mp hresp with hold | hnew
    · obtain ⟨e, he, hdone, hreached⟩ := h.answered done resp hold
      exact ⟨e, List.mem_append_left _ he, hdone, fun hall r hr => hreached hall r (hreplicas ▸ hr)⟩
    · obtain ⟨e, he, hdone, hacks⟩ := hreplies done resp hnew
      exact ⟨e, List.mem_append_right _ he, hdone, fun hall => absurd hall hacks⟩

/-- The actor credits a replica with what it has fetched: the answers it sends are due. -/
lemma CreditInv.acknowledged (h : s.CreditInv) {a : PartitionActor}
    (ha : s.partition.actor = some a) {channel : List PartitionCommand} {id leo : ℕ}
    (hchannel : s.channel = .updateReplicaLeo id leo :: channel) :
    CreditInv { s with
      partition := (a.handleUpdateReplicaLeo s.partition.disk s.partition.state id leo).1
      channel := channel
      assigned := s.assigned ++ []
      replies := s.replies ++
        (a.handleUpdateReplicaLeo s.partition.disk s.partition.state id leo).2 } := by
  have hcredited : ∀ r ∈ (s.partition.state.ackReplica id leo).replicas,
      r.logEndOffset = 0 ∨ s.Reached r.replicaId r.logEndOffset := by
    intro r' hr'
    rcases PartitionState.mem_raise hr' with hold | ⟨r, hr, hid, rfl⟩
    · exact h.credited r' hold
    · have hleo : s.Reached r.replicaId leo :=
        hid ▸ h.inFlight id leo (by rw [hchannel]; simp) r hr hid
      rcases Nat.le_total r.logEndOffset leo with hle | hle
      · rw [Nat.max_eq_right hle]
        exact .inr hleo
      · rw [Nat.max_eq_left hle]
        exact h.credited r hr
  have hle := s.partition.state.ackReplica_highWatermark_le id leo
  constructor
  · exact hcredited
  · intro id' leo' hmem r' hr' hid
    obtain ⟨r, hr, hrid⟩ := PartitionState.exists_of_mem_raise hr'
    refine h.inFlight id' leo' ?_ r hr (hrid.trans hid)
    rw [hchannel]
    rcases List.mem_append.mp hmem with hsending | hch
    · exact List.mem_append_left _ hsending
    · exact List.mem_append_right _ (List.mem_cons_of_mem _ hch)
  · exact hle
  · rintro a' ⟨⟩ x hx
    obtain ⟨hpos, e, he, hrest⟩ := h.pending a ha x (List.dropWhile_subset _ hx)
    exact ⟨hpos, e, List.mem_append_left _ he, hrest⟩
  · intro done resp hresp
    rcases List.mem_append.mp hresp with hold | hnew
    · obtain ⟨e, he, hdone, hreached⟩ := h.answered done resp hold
      refine ⟨e, List.mem_append_left _ he, hdone, fun hall r' hr' => ?_⟩
      obtain ⟨r, hr, hrid⟩ := PartitionState.exists_of_mem_raise hr'
      exact hrid ▸ hreached hall r hr
    · obtain ⟨x, hx, hreply⟩ := List.mem_map.mp hnew
      obtain ⟨hpos, e, he, hdone, hend⟩ := h.pending a ha x (List.takeWhile_subset _ hx)
      have hready : x.hw ≤ (s.partition.state.ackReplica id leo).highWatermark := by
        simpa using List.mem_takeWhile_imp hx
      cases hreply
      refine ⟨e, List.mem_append_left _ he, hdone, fun _ r hr => ?_⟩
      have hxr : x.hw ≤ r.logEndOffset := hready.trans (hle r hr)
      rcases hcredited r hr with hzero | hreached
      · omega
      · exact hreached.mono (hend ▸ hxr)

/-- An append is answered at once only when it does not wait for replicas. -/
lemma CreditInv.appended (h : s.CreditInv) {a : PartitionActor}
    (ha : s.partition.actor = some a) {channel : List PartitionCommand} {record : RecordBatch}
    {acks : Acks} {done : ℕ} (hchannel : channel ⊆ s.channel)
    (hpos : acks = .all → 0 < s.partition.state.logEndOffset + record.recordsCount.toNat) :
    CreditInv { s with
      partition := (a.handleAppend s.partition.disk s.partition.state record acks done).1
      channel := channel
      assigned := s.assigned ++ s.assign (.append record acks done)
      replies := s.replies ++
        (a.handleAppend s.partition.disk s.partition.state record acks done).2 } := by
  rcases happend : a.active.appendBatch s.partition.disk
    (PartitionActor.rebased s.partition.state record) with ⟨_ | active, d'⟩
  · rw [PartitionActor.handleAppend_of_none _ _ happend]
    exact h.handled hchannel rfl h.highWatermark_le
      (fun a ha => absurd ha (Option.some_ne_none a).symm)
      fun done resp hresp => absurd hresp List.not_mem_nil
  · rw [PartitionActor.handleAppend_of_some _ _ happend]
    refine h.handled hchannel rfl (fun r hr => ?_) ?_ ?_
    · have hne : s.partition.state.replicas.isEmpty = false :=
        List.isEmpty_eq_false_iff.mpr (List.ne_nil_of_mem hr)
      simp only [hne, Bool.false_eq_true, if_false]
      exact h.highWatermark_le r hr
    · rintro a' ⟨⟩ x hx
      rcases List.mem_append.mp hx with hold | hnew
      · exact .inl ⟨a, ha, hold⟩
      · split_ifs at hnew with hall
        · rw [List.mem_singleton] at hnew
          subst hnew
          exact .inr ⟨hpos hall, _, List.mem_singleton_self _, rfl, rfl⟩
        · exact absurd hnew List.not_mem_nil
    · intro done' resp hresp
      by_cases hall : acks = .all
      · simp only [hall, if_true] at hresp
        exact absurd hresp List.not_mem_nil
      · simp only [hall, if_false] at hresp
        cases List.mem_singleton.mp hresp
        exact ⟨_, List.mem_singleton_self _, rfl, hall⟩

/-- What is on its way after a fetch in the name of a replica is no more than it has fetched. -/
lemma CreditInv.fetched [Crc] (h : s.CreditInv) {replicaId : ℤ} {req : FetchPartition}
    (hok : s.CreditEarned (.fetch replicaId req)) : (s.step (.fetch replicaId req)).CreditInv := by
  refine h.frame rfl (List.subset_append_left _ _) rfl rfl fun id leo hmem => ?_
  simp only [System.step, List.mem_append] at hmem
  rcases hmem with (hold | hnew) | hch
  · exact .inl (List.mem_append_left _ hold)
  · right
    intro r hr hid
    rw [handleFetch] at hnew
    cases hfetch : s.partition.state.fetch s.partition.disk s.id req with
    | none => simp [hfetch] at hnew
    | some res =>
      have hstart : res.logStartOffset = s.partition.state.logEndOffset :=
        PartitionState.fetch_logStartOffset hfetch
      by_cases hpos : 0 ≤ replicaId
      · obtain ⟨rfl, rfl⟩ : id = replicaId.toNat ∧ leo = res.logStartOffset := by
          simpa [hfetch, hpos] using hnew
        rw [hstart]
        have hnow : (replicaId.toNat, req.fetchOffset.toNat) ∈
            (s.step (.fetch replicaId req)).fetched := by simp [System.step, hpos]
        rcases hok hpos ⟨r, hr, hid⟩ with hle | hreached
        · exact ⟨_, hnow, rfl, hle⟩
        · exact hreached.grow (List.subset_append_left _ _)
      · simp [hfetch, hpos] at hnew
  · exact .inl (List.mem_append_right _ hch)

lemma CreditInv.step [Crc] (h : s.CreditInv) {e : Event} (hok : s.CreditEarned e) :
    (s.step e).CreditInv := by
  cases e with
  | append record acks =>
    refine h.frame rfl (List.Subset.refl _) rfl rfl fun id leo hmem => .inl ?_
    simpa [System.step] using hmem
  | fetch replicaId req => exact h.fetched hok
  | send k =>
    refine h.frame rfl (List.Subset.refl _) rfl rfl fun id leo hmem => .inl ?_
    simp only [System.step, List.mem_append, Option.mem_toList] at hmem
    rcases hmem with hsending | hch | hnew
    · exact List.mem_append_left _ (List.eraseIdx_subset hsending)
    · exact List.mem_append_right _ hch
    · exact List.mem_append_left _ (List.mem_of_getElem? hnew)
  | recv =>
    simp only [System.step]
    split
    · next a c channel ha hchannel =>
      have hsub : channel ⊆ s.channel := hchannel ▸ List.subset_cons_self _ _
      rw [Partition.handle, ha]
      cases c with
      | append record acks done =>
        refine h.appended ha hsub fun hall => ?_
        exact hok _ (by rw [hchannel]; rfl) _ (List.mem_singleton_self _) hall
      | truncate offset done =>
        refine h.handled hsub (PartitionActor.handleTruncate_replicas ..)
          (fun r hr => (PartitionActor.handleTruncate_highWatermark_le ..).trans
            (h.highWatermark_le r hr)) (fun a' ha' x hx => .inl ⟨a, ha, ?_⟩) ?_
        · exact PartitionActor.handleTruncate_pending ha' ▸ hx
        · intro done' resp hresp
          cases List.mem_singleton.mp hresp
      | updateReplicaLeo id leo => exact h.acknowledged ha hchannel
      | shutdown =>
        refine h.handled hsub rfl h.highWatermark_le (fun a ha => absurd ha ?_) fun _ _ hresp => ?_
        · exact (Option.some_ne_none a).symm
        · exact absurd hresp List.not_mem_nil
    · exact h

lemma creditInv_start (id : ℕ) {config : PartitionActorConfig} {ids : List ℕ} {d : Disk}
    {p : Partition} (hp : PartitionActor.new config (ids.map .empty) d = some p) :
    (start id p).CreditInv := by
  obtain ⟨hreplicas, hhw, hpending⟩ := PartitionActor.new_eq_some hp
  have hzero : ∀ r ∈ p.state.replicas, r.logEndOffset = 0 := by
    intro r hr
    rw [hreplicas] at hr
    obtain ⟨n, -, rfl⟩ := List.mem_map.mp hr
    rfl
  constructor
  · exact fun r hr => .inl (hzero r hr)
  · exact fun _ _ hmem => absurd hmem List.not_mem_nil
  · intro r hr
    refine (hhw ?_).trans_le (Nat.zero_le _)
    exact hreplicas ▸ List.ne_nil_of_mem hr
  · intro a ha x hx
    rw [hpending a ha] at hx
    exact absurd hx List.not_mem_nil
  · exact fun _ _ hmem => absurd hmem List.not_mem_nil

lemma callersApart_start (id : ℕ) (p : Partition) : (start id p).CallersApart :=
  ⟨List.nodup_nil, fun _ hn => absurd hn List.not_mem_nil⟩

end Credit

/-- As long as every replica has fetched up to the log end when it is credited with it, appends
that wait for all replicas are answered only when all have them, on every directory and for all
replicas, in every order of the calls and of the actor's work. -/
theorem allReplicated_of_creditEarned [Crc] (id : ℕ) (config : PartitionActorConfig)
    (ids : List ℕ) (d : Disk) (p : Partition)
    (hp : PartitionActor.new config (ids.map .empty) d = some p) (es : List Event)
    (hok : Meets step CreditEarned (start id p) es) : (run step (start id p) es).AllReplicated := by
  have hinv : (run step (start id p) es).CreditInv ∧ (run step (start id p) es).CallersApart :=
    run_invariant (P := fun s : System => s.CreditInv ∧ s.CallersApart)
      (fun s e h hok => ⟨h.1.step hok, h.2.step e⟩)
      ⟨creditInv_start id hp, callersApart_start id p⟩ hok
  exact hinv.1.allReplicated hinv.2

/-! ### Two runs -/

section Runs

local instance : Crc := Crc.castagnoli

/-- Replica 2 has fetched the record when it asks for the next one. -/
theorem allReplicated_fetched_record :
    (run step (start 0 ((PartitionActor.new ⟨1 <<< 20, 1, 0⟩ ([2].map .empty)
        ⟨1 <<< 20, ∅⟩).get (by decide +kernel)))
      [.append (RecordBatch.single 7) .all, .send 0, .recv, .fetch 2 ⟨1, 100⟩, .send 0,
        .recv]).AllReplicated :=
  allReplicated_of_creditEarned 0 ⟨1 <<< 20, 1, 0⟩ [2] ⟨1 <<< 20, ∅⟩ _
    (Option.some_get _).symm _ (by decide +kernel)

/-- Replica 2 asks for the first record, and the append of it is answered. -/
theorem allReplicated_not_all_runs :
    ¬ (run step (start 0 ((PartitionActor.new ⟨1 <<< 20, 1, 0⟩ ([2].map .empty)
        ⟨1 <<< 20, ∅⟩).get (by decide +kernel)))
      [.append (RecordBatch.single 7) .all, .send 0, .recv, .fetch 2 ⟨0, 100⟩, .send 0,
        .recv]).AllReplicated := by
  intro h
  have hreached := h.answered ⟨0, .all, 0, 1⟩ (by decide +kernel) rfl ⟨0, 0, 1⟩
    (by decide +kernel) ⟨2, 1⟩ (by decide +kernel)
  exact absurd hreached (by decide +kernel)

end Runs

end System

end Musil.Storage.Replication
