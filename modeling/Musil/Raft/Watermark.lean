import Musil.Raft.LeaderCommit

/-!
# The watermark of a leader keeps up

A leader looks for a new watermark only while it serves a fetch request. That is enough as long as
it waits for somebody: the log of a new leader holds nothing of its own epoch, and an entry that it
appends is at first on no other voter. A leader that is the only voter is never made to look.
-/

namespace Musil.Raft

section Rule

variable {L : Type*} [RaftLog L]

namespace Node

/-- How far a leader takes a voter to be: itself at the end of its log. -/
def position (n : Node L) (v : ℕ) : ℕ :=
  if v = n.id then RaftLog.logEndOffset n.log else (n.voterFetchOffsets.lookup v).getD 0

/-- A majority of the voters has reached `o`, and the entry before `o` is of the node's epoch. -/
def Committable (n : Node L) (o : ℕ) : Prop :=
  n.majority ≤ (n.voters.filter fun v => o ≤ n.position v).length
    ∧ RaftLog.epochAt n.log (o - 1) = some n.currentEpoch

instance (n : Node L) (o : ℕ) : Decidable (n.Committable o) :=
  inferInstanceAs (Decidable (_ ∧ _))

/-- Neither an offset above the watermark nor a pending proposal is left to be committed. -/
structure KeepsUp (n : Node L) : Prop where
  watermark : ∀ o, n.highWatermark < o → ¬ n.Committable o
  pending : ∀ p ∈ n.pendingProposes, ¬ n.Committable (p.1 + 1)

/-- A leader that is asked for entries or handed a proposal has an entry at each offset below the
end of its log and at no other. At a proposal it has another voter to wait for, and its watermark is
within its log. -/
def Fit (n : Node L) : Event → Prop
  | .fetchRequest _ _ => n.role = .leader → Full n.log
  | .propose _ _ => n.role = .leader →
    Full n.log ∧ 1 < n.voters.length ∧ n.highWatermark ≤ RaftLog.logEndOffset n.log
  | _ => True

/-! ### What a majority has reached -/

variable {n : Node L}

lemma noted_of_le_position {v o : ℕ} (hv : v ≠ n.id) (ho : 0 < o) (h : o ≤ n.position v) :
    ∃ f, n.voterFetchOffsets.lookup v = some f ∧ o ≤ f := by
  rw [position, if_neg hv] at h
  cases hf : n.voterFetchOffsets.lookup v with
  | none =>
    rw [hf] at h
    exact absurd h (Nat.not_le.mpr ho)
  | some f =>
    rw [hf] at h
    exact ⟨f, rfl, h⟩

/-- What the leader sorts counts every voter that has reached `o`. -/
lemma length_filter_position_le (hnodup : n.voters.Nodup) {o : ℕ} (ho : 0 < o) :
    (n.voters.filter fun v => o ≤ n.position v).length
      ≤ ((n.voterFetchOffsets.entries.map (·.2) ++ [RaftLog.logEndOffset n.log]).filter
          (o ≤ ·)).length := by
  set others := (n.voterFetchOffsets.entries.filter fun e => o ≤ e.2).map (·.1) with hothers
  set own := if o ≤ RaftLog.logEndOffset n.log then [n.id] else [] with hown
  have hsub : (n.voters.filter fun v => o ≤ n.position v) ⊆ others ++ own := by
    intro v hv
    have hreach : o ≤ n.position v := of_decide_eq_true (List.mem_filter.mp hv).2
    rw [List.mem_append]
    by_cases hself : v = n.id
    · right
      rw [position, if_pos hself] at hreach
      rw [hown, if_pos hreach, hself]
      exact List.mem_singleton_self _
    · left
      obtain ⟨f, hf, hle⟩ := noted_of_le_position hself ho hreach
      rw [hothers, List.mem_map]
      exact ⟨⟨v, f⟩, List.mem_filter.mpr ⟨AList.mem_lookup_iff.mp hf, decide_eq_true hle⟩, rfl⟩
  have hlen : (others ++ own).length
      = ((n.voterFetchOffsets.entries.map (·.2) ++ [RaftLog.logEndOffset n.log]).filter
          (o ≤ ·)).length := by
    rw [List.filter_append, List.length_append, List.length_append, hothers, List.length_map,
      List.filter_map, List.length_map, hown, List.filter_singleton]
    congr 1
    by_cases hle : o ≤ RaftLog.logEndOffset n.log <;> simp [hle]
  exact hlen ▸ ((hnodup.filter _).subperm hsub).length_le

/-- The offset at the place that decides is not below anything that can be committed. -/
lemma Committable.le (hnodup : n.voters.Nodup) {o : ℕ} (ho : 0 < o) (h : n.Committable o) :
    n.majority ≤ n.replicaOffsets.length
      ∧ o ≤ n.replicaOffsets.getD (n.majority - 1) 0 := by
  have hcount := h.1.trans (length_filter_position_le hnodup ho)
  have hlen : n.majority ≤ (n.voterFetchOffsets.entries.map (·.2)
      ++ [RaftLog.logEndOffset n.log]).length :=
    hcount.trans (List.length_filter_le _ _)
  have hpos : 0 < n.majority := Nat.succ_pos _
  constructor
  · rw [replicaOffsets, List.length_insertionSort]
    exact hlen
  · apply (isGreatest_insertionSort _ (by omega : n.majority - 1 < _)).2
    rw [Set.mem_ofPred_eq, Nat.sub_add_cancel hpos]
    exact hcount

/-- The offset at the place that decides is within the log when all that is noted is. -/
lemma decisive_le (hnoted : ∀ v f, n.voterFetchOffsets.lookup v = some f →
    f ≤ RaftLog.logEndOffset n.log) :
    n.replicaOffsets.getD (n.majority - 1) 0 ≤ RaftLog.logEndOffset n.log := by
  have hall : ∀ x ∈ n.replicaOffsets, x ≤ RaftLog.logEndOffset n.log := by
    intro x hx
    rw [replicaOffsets, List.mem_insertionSort, List.mem_append, List.mem_map] at hx
    rcases hx with ⟨e, he, rfl⟩ | hx
    · exact hnoted e.1 e.2 (AList.mem_lookup_iff.mpr he)
    · exact (List.mem_singleton.mp hx).le
  rw [List.getD_eq_getElem?_getD]
  cases hx : n.replicaOffsets[n.majority - 1]? with
  | none => exact Nat.zero_le _
  | some x => exact hall x (List.mem_of_getElem? hx)

end Node

end Rule

/-! ### One node -/

instance (n : Node VecLog) : (ev : Event) → Decidable (n.Fit ev)
  | .fetchRequest _ _ => inferInstanceAs (Decidable (_ → _))
  | .propose _ _ => inferInstanceAs (Decidable (_ → _ ∧ _ ∧ _))
  | .electionTimeout | .heartbeatTimeout | .voteRequest _ _ | .voteResponse _ _
  | .beginQuorumEpoch _ _ | .endQuorumEpoch _ _ | .fetchResponse _ _ => .isTrue trivial

/-- What the log and the notes of a leader look like. -/
structure Leading (n : Node VecLog) : Prop where
  noted : ∀ v f, n.voterFetchOffsets.lookup v = some f → f ≤ RaftLog.logEndOffset n.log
  /-- Behind an entry of the leader's own epoch there are only such entries. -/
  own : ∀ o o', RaftLog.epochAt n.log o = some n.currentEpoch → o ≤ o' →
    o' < RaftLog.logEndOffset n.log → RaftLog.epochAt n.log o' = some n.currentEpoch
  watermark : ∀ o, n.highWatermark < o → ¬ n.Committable o

/-- What the reactions of a node keep true of it. -/
structure Level (n : Node VecLog) : Prop where
  nodup : n.voters.Nodup
  bounded : ∀ a ∈ n.log.entries, a.epoch ≤ n.currentEpoch
  candidate : n.role = .candidate → ∀ a ∈ n.log.entries, a.epoch < n.currentEpoch
  leading : n.role = .leader → Leading n
  pending : ∀ p ∈ n.pendingProposes, n.highWatermark ≤ p.1

section Leading

variable {n : Node VecLog}

lemma Node.logEndOffset_proposed (data : List UInt8) (proposeId : ℕ) :
    RaftLog.logEndOffset (n.proposed data proposeId).log = RaftLog.logEndOffset n.log + 1 :=
  VecLog.logEndOffset_append

lemma Node.epochAt_proposed_self (hfull : Full n.log) (data : List UInt8) (proposeId : ℕ) :
    RaftLog.epochAt (n.proposed data proposeId).log (RaftLog.logEndOffset n.log)
      = some n.currentEpoch := by
  have hnone : RaftLog.epochAt n.log (RaftLog.logEndOffset n.log) = none := by
    rw [← Option.not_isSome_iff_eq_none, hfull]
    exact lt_irrefl _
  rw [proposed, VecLog.epochAt_append, hnone, Option.none_or, if_pos rfl]

lemma Node.epochAt_proposed_of_lt (hfull : Full n.log) (data : List UInt8) (proposeId : ℕ) {o : ℕ}
    (ho : o < RaftLog.logEndOffset n.log) :
    RaftLog.epochAt (n.proposed data proposeId).log o = RaftLog.epochAt n.log o := by
  obtain ⟨e, he⟩ := Option.isSome_iff_exists.mp ((hfull o).mpr ho)
  rw [proposed, VecLog.epochAt_append, he, Option.some_or]

/-- A new leader has no entry of its own epoch. -/
lemma Leading.becomeLeader (h : ∀ a ∈ n.log.entries, a.epoch < n.currentEpoch) :
    Leading n.becomeLeader.1 := by
  have hnone (o : ℕ) : RaftLog.epochAt n.log o ≠ some n.currentEpoch := by
    intro ho
    obtain ⟨a, ha, -, hep⟩ := VecLog.mem_of_epochAt ho
    exact (h a ha).ne hep
  refine ⟨fun v f hf => ?_, fun o o' ho => absurd ho (hnone o), fun o _ ho => hnone _ ho.2⟩
  rw [(Node.of_lookup_becomeLeader hf).2]
  exact Nat.zero_le _

/-- Nobody but the leader has reached the end of an entry that it has just appended. -/
lemma Leading.proposed (h : Leading n) (hnodup : n.voters.Nodup) (hfull : Full n.log)
    (hother : 1 < n.voters.length) (data : List UInt8) (proposeId : ℕ) :
    Leading (n.proposed data proposeId) := by
  have hend := n.logEndOffset_proposed data proposeId
  have hold {o : ℕ} := Node.epochAt_proposed_of_lt (o := o) hfull data proposeId
  set leo := RaftLog.logEndOffset n.log with hleo
  refine ⟨fun v f hf => ?_, fun o o' ho hle hlt => ?_, fun o ho hcom => ?_⟩
  · rw [hend]
    exact (h.noted v f hf).trans (Nat.le_succ _)
  · rw [hend] at hlt
    rcases (Nat.lt_succ_iff.mp hlt).eq_or_lt with rfl | hlt
    · exact Node.epochAt_proposed_self hfull data proposeId
    · rw [hold (hle.trans_lt hlt)] at ho
      rw [hold hlt]
      exact h.own o o' ho hle hlt
  · have hpos : 0 < o := (Nat.zero_le _).trans_lt ho
    rcases Nat.lt_or_ge leo o with hlt | hle
    · -- only the leader itself is there
      have hsub : (n.voters.filter fun v => o ≤ (n.proposed data proposeId).position v)
          ⊆ [n.id] := by
        intro v hv
        rw [List.mem_singleton]
        by_contra hv'
        obtain ⟨f, hf, hof⟩ := Node.noted_of_le_position (n := n.proposed data proposeId) hv' hpos
          (of_decide_eq_true (List.mem_filter.mp hv).2)
        exact absurd (h.noted v f hf) (by omega)
      have hone := ((hnodup.filter _).subperm hsub).length_le
      have hmajority := hcom.1.trans hone
      rw [List.length_singleton, Node.majority] at hmajority
      change n.voters.length / 2 + 1 ≤ 1 at hmajority
      omega
    · -- below the new entry everything is as it was
      apply h.watermark o ho
      have hposition : (n.voters.filter fun v => o ≤ (n.proposed data proposeId).position v)
          = n.voters.filter fun v => o ≤ n.position v := by
        refine List.filter_congr fun v _ => decide_eq_decide.mpr ?_
        simp only [Node.position, hend]
        change (o ≤ if v = n.id then leo + 1 else (n.voterFetchOffsets.lookup v).getD 0) ↔ _
        split_ifs <;> omega
      refine ⟨?_, ?_⟩
      · rw [← hposition]
        exact hcom.1
      · rw [← hold (show o - 1 < leo by omega)]
        exact hcom.2

/-- A leader that looks for a new watermark leaves nothing behind. -/
lemma watermark_tryAdvance (hnodup : n.voters.Nodup)
    (hnoted : ∀ v f, n.voterFetchOffsets.lookup v = some f → f ≤ RaftLog.logEndOffset n.log)
    (hown : ∀ o o', RaftLog.epochAt n.log o = some n.currentEpoch → o ≤ o' →
      o' < RaftLog.logEndOffset n.log → RaftLog.epochAt n.log o' = some n.currentEpoch)
    (o : ℕ) (ho : n.tryAdvanceHighWatermark.1.highWatermark < o) : ¬ n.Committable o := by
  intro hcom
  have hpos : 0 < o := (Nat.zero_le _).trans_lt ho
  obtain ⟨hlen, hle⟩ := hcom.le hnodup hpos
  have hend := Node.decisive_le hnoted
  set w := n.replicaOffsets.getD (n.majority - 1) 0 with hw
  rw [Leadership.tryAdvanceHighWatermark_eq n hlen, ← hw] at ho
  split_ifs at ho with hcond
  · change w < o at ho
    omega
  · -- the entry before the offset that decides would be of the leader's epoch too
    apply hcond
    refine ⟨lt_of_lt_of_le ho hle, ?_⟩
    rw [hown (o - 1) (w - 1) hcom.2 (by omega) (by omega)]
    simp

lemma Leading.served (h : Leading n) (hnodup : n.voters.Nodup) (hfull : Full n.log) {c : ℕ}
    {req : FetchRequest} (hdiv : n.checkDivergence req.fetchOffset req.lastFetchedEpoch = none) :
    Leading (n.credited c req.fetchOffset).tryAdvanceHighWatermark.1 := by
  have hnoted : ∀ v f, (n.credited c req.fetchOffset).voterFetchOffsets.lookup v = some f →
      f ≤ RaftLog.logEndOffset n.log := by
    intro v f hf
    rcases Node.of_lookup_credited hf with hf | ⟨-, -, rfl⟩
    · exact h.noted v f hf
    · exact hfull.fetchOffset_le hdiv
  obtain ⟨hwm, pending, hserved⟩ := n.served_eq c req.fetchOffset
  have hcredited := n.credited_eq c req.fetchOffset
  have hkeeps := watermark_tryAdvance (n := n.credited c req.fetchOffset)
    (by rw [hcredited]; exact hnodup) (by rw [hcredited]; exact hnoted)
    (by rw [hcredited]; exact h.own)
  refine ⟨?_, ?_, fun o ho hcom => hkeeps o ho ?_⟩
  · rw [hserved]
    exact hnoted
  · rw [hserved]
    exact h.own
  · rw [hserved] at hcom
    rw [hcredited]
    exact hcom

end Leading

/-! ### What a reaction keeps -/

section Level

variable {i : ℕ} {n n' : Node VecLog} {ev : Event} {out : List Envelope}

/-- The entries of a fetch response are not of a later epoch than the response. -/
def RaftMessage.Bounded : RaftMessage → Prop
  | .fetchResponse resp => ∀ a ∈ resp.entries, a.epoch ≤ resp.epoch
  | _ => True

lemma Level.new (i : ℕ) {voters : List ℕ} (hnodup : voters.Nodup) (qs : QuorumState) {log : VecLog}
    (hbounded : ∀ a ∈ log.entries, a.epoch ≤ qs.currentEpoch) :
    Level (.new i voters qs log) where
  nodup := hnodup
  bounded := hbounded
  candidate hr := by cases hr
  leading hr := by cases hr
  pending p hp := by cases hp

lemma Level.of_follower (h : Level n) (hrole : n'.role = .follower) (hvoters : n'.voters = n.voters)
    (hbounded : ∀ a ∈ n'.log.entries, a.epoch ≤ n'.currentEpoch)
    (hpending : ∀ p ∈ n'.pendingProposes, n'.highWatermark ≤ p.1) : Level n' where
  nodup := hvoters ▸ h.nodup
  bounded := hbounded
  candidate hr := by simp [hrole] at hr
  leading hr := by simp [hrole] at hr
  pending := hpending

lemma Level.becomeFollower (h : Level n) {e : ℕ} (he : n.currentEpoch ≤ e) (leaderId : Option ℕ) :
    Level (n.becomeFollower e leaderId) :=
  h.of_follower rfl rfl (fun a ha => (h.bounded a ha).trans he) h.pending

lemma Level.joined (h : Level n) (e : ℕ) : Level (n.joined e) := by
  rw [Node.joined]
  split_ifs with hlt
  · exact h.becomeFollower hlt.le none
  · exact h

/-- Votes play no part in it. -/
lemma Level.voting (h : Level n) (votedFor : Option ℕ) (votes : Finset ℕ) :
    Level { n with votedFor := votedFor, votesReceived := votes } where
  nodup := h.nodup
  bounded := h.bounded
  candidate := h.candidate
  leading hr := ⟨(h.leading hr).noted, (h.leading hr).own, (h.leading hr).watermark⟩
  pending := h.pending

lemma Level.standing (h : Level n) : Level n.standing where
  nodup := h.nodup
  bounded a ha := (h.bounded a ha).trans (Nat.le_succ _)
  candidate _ a ha := Nat.lt_succ_of_le (h.bounded a ha)
  leading hr := by cases hr
  pending := h.pending

lemma Level.becomeLeader (h : Level n) (hrole : n.role = .candidate) :
    Level n.becomeLeader.1 where
  nodup := h.nodup
  bounded := h.bounded
  candidate hr := by cases hr
  leading _ := .becomeLeader (h.candidate hrole)
  pending := h.pending

lemma Level.truncates (h : Level n) (hrole : n.role = .follower) (o : ℕ) :
    Level { n with log := RaftLog.truncate n.log o } :=
  h.of_follower hrole rfl (fun a ha => h.bounded a (List.mem_of_mem_filter ha)) h.pending

lemma Level.appends (h : Level n) (hrole : n.role = .follower) {resp : FetchResponse}
    (hepoch : resp.epoch ≤ n.currentEpoch) (hresp : ∀ a ∈ resp.entries, a.epoch ≤ resp.epoch) :
    Level (n.adopted resp) := by
  have hlog : (n.adopted resp).log.entries = n.log.entries ++ resp.entries :=
    VecLog.foldl_append_entries n.log resp.entries
  have hbounded : ∀ a ∈ (n.adopted resp).log.entries, a.epoch ≤ n.currentEpoch := by
    intro a ha
    rw [hlog, List.mem_append] at ha
    rcases ha with ha | ha
    · exact h.bounded a ha
    · exact (hresp a ha).trans hepoch
  rw [Node.adopted] at hbounded ⊢
  split_ifs at hbounded ⊢
  · refine h.of_follower hrole rfl hbounded fun p hp => ?_
    exact of_decide_eq_true (List.mem_filter.mp hp).2
  · exact h.of_follower hrole rfl hbounded h.pending

lemma Level.serves (h : Level n) (hrole : n.role = .leader) (hfull : Full n.log) {c : ℕ}
    {req : FetchRequest} (hdiv : n.checkDivergence req.fetchOffset req.lastFetchedEpoch = none) :
    Level (n.credited c req.fetchOffset).tryAdvanceHighWatermark.1 := by
  have hleading := (h.leading hrole).served h.nodup hfull (c := c) hdiv
  have hpending : ∀ p ∈ (n.credited c req.fetchOffset).tryAdvanceHighWatermark.1.pendingProposes,
      (n.credited c req.fetchOffset).tryAdvanceHighWatermark.1.highWatermark ≤ p.1 := by
    intro p hp
    rcases (n.credited c req.fetchOffset).tryAdvanceHighWatermark_cases with
      heq | ⟨hwm, -, -, -, -, heq⟩ <;> rw [heq] at hp ⊢
    · rw [Node.credited_eq] at hp ⊢
      exact h.pending p hp
    · exact of_decide_eq_true (List.mem_filter.mp hp).2
  obtain ⟨hwm, pending, hserved⟩ := n.served_eq c req.fetchOffset
  rw [hserved] at hleading hpending ⊢
  exact ⟨h.nodup, h.bounded, h.candidate, fun _ => hleading, hpending⟩

lemma Level.proposes (h : Level n) (hrole : n.role = .leader) (hfull : Full n.log)
    (hother : 1 < n.voters.length) (hwithin : n.highWatermark ≤ RaftLog.logEndOffset n.log)
    (data : List UInt8) (proposeId : ℕ) : Level (n.proposed data proposeId) where
  nodup := h.nodup
  bounded a ha := by
    rcases List.mem_append.mp ha with ha | ha
    · exact h.bounded a ha
    · rw [List.mem_singleton.mp ha]
      exact le_rfl
  candidate hr := absurd (hrole.symm.trans hr) (by simp)
  leading _ := (h.leading hrole).proposed h.nodup hfull hother data proposeId
  pending p hp := by
    rcases List.mem_append.mp hp with hp | hp
    · exact h.pending p hp
    · rw [List.mem_singleton.mp hp]
      exact hwithin

/-- Every reaction of a node that is fit for the event keeps it level. -/
theorem Reacts.level (h : Reacts i n ev n' out) (hlevel : Level n) (hfit : n.Fit ev)
    (hresp : ∀ c resp, ev = .fetchResponse c resp → ∀ a ∈ resp.entries, a.epoch ≤ resp.epoch) :
    Level n' := by
  cases h with
  | ignores | heartbeats | deniesStale | answersEmpty | diverges => exact hlevel
  | stands => exact hlevel.standing
  | standsAlone => exact hlevel.standing.becomeLeader rfl
  | denies c req => exact hlevel.joined req.epoch
  | grants c req => exact (hlevel.joined req.epoch).voting (some c) _
  | outvoted c resp hepoch => exact hlevel.becomeFollower hepoch.le none
  | overtaken c req hepoch => exact hlevel.becomeFollower hepoch.le none
  | counts c => exact hlevel.voting n.votedFor _
  | wins c hrole => exact (hlevel.voting n.votedFor (insert c n.votesReceived)).becomeLeader hrole
  | follows c req hepoch =>
    exact (hlevel.becomeFollower hepoch (some req.leaderId)).of_follower rfl rfl
      (hlevel.becomeFollower hepoch none).bounded (fun p hp => by cases hp)
  | released c req hepoch =>
    exact (hlevel.becomeFollower hepoch none).of_follower rfl rfl
      (hlevel.becomeFollower hepoch none).bounded (fun p hp => by cases hp)
  | superseded c resp hepoch =>
    exact (hlevel.becomeFollower hepoch.le none).of_follower rfl rfl
      (hlevel.becomeFollower hepoch.le none).bounded (fun p hp => by cases hp)
  | serves c req hepoch hrole hdiv => exact hlevel.serves hrole (hfit hrole) hdiv
  | truncates c resp d hepoch hrole => exact hlevel.truncates hrole d.endOffset
  | appends c resp hepoch hrole => exact hlevel.appends hrole hepoch (hresp c resp rfl)
  | proposes data proposeId hrole =>
    obtain ⟨hfull, hother, hwithin⟩ := hfit hrole
    exact hlevel.proposes hrole hfull hother hwithin data proposeId

/-- A node sends entries of its own log, under its own epoch. -/
lemma Reacts.sends_bounded (h : Reacts i n ev n' out)
    (hbounded : ∀ a ∈ n.log.entries, a.epoch ≤ n.currentEpoch) :
    ∀ env ∈ out, env.message.Bounded := by
  have hentries (o : ℕ) : ∀ a ∈ n.entriesFrom o, a.epoch ≤ n.currentEpoch := by
    intro a ha
    exact hbounded a (List.mem_of_mem_filter ha)
  intro env henv
  cases h with
  | stands | standsAlone | wins =>
    obtain ⟨v, -, rfl⟩ := List.mem_map.mp henv
    trivial
  | heartbeats =>
    obtain ⟨v, -, rfl⟩ := List.mem_map.mp henv
    exact hentries _
  | deniesStale | denies | grants =>
    rw [List.mem_singleton.mp henv]
    trivial
  | overtaken | answersEmpty | diverges =>
    rw [List.mem_singleton.mp henv]
    intro a ha
    cases ha
  | serves =>
    rw [List.mem_singleton.mp henv]
    exact hentries _
  | ignores | outvoted | counts | follows | released | superseded | truncates | appends
  | proposes => cases henv

/-- A leader that is the only voter falls behind with every proposal. -/
theorem Node.not_keepsUp_alone (hvoters : n.voters = [n.id]) (hfull : Full n.log)
    (hwithin : n.highWatermark ≤ RaftLog.logEndOffset n.log) (data : List UInt8) (proposeId : ℕ) :
    ¬ (n.proposed data proposeId).KeepsUp := by
  intro h
  apply h.watermark (RaftLog.logEndOffset n.log + 1) (Nat.lt_succ_of_le hwithin)
  constructor
  · have hself : (n.proposed data proposeId).position n.id = RaftLog.logEndOffset n.log + 1 := by
      rw [position]
      exact (if_pos rfl).trans (n.logEndOffset_proposed data proposeId)
    change n.voters.length / 2 + 1 ≤ (n.voters.filter _).length
    rw [hvoters, List.filter_singleton, hself]
    simp
  · exact epochAt_proposed_self hfull data proposeId

end Level

/-! ### Runs -/

namespace Cluster

variable {s : Cluster VecLog}

/-- Every node is level, and no message carries an entry from the future. -/
structure LevelInv (s : Cluster VecLog) : Prop where
  voters_nodup : s.voters.Nodup
  files : s.FilesKept
  network_sent : s.network ⊆ s.sent
  nodes : ∀ i, Level (s.nodes i)
  bounded : ∀ env ∈ s.sent, env.message.Bounded

lemma LevelInv.init {voters : List ℕ} (hnodup : voters.Nodup) :
    LevelInv (Cluster.init voters fun _ => VecLog.new) where
  voters_nodup := hnodup
  files _ := rfl
  network_sent := List.Subset.refl _
  nodes i := .new i hnodup .empty fun _ ha => (List.not_mem_nil ha).elim
  bounded _ henv := (List.not_mem_nil henv).elim

lemma LevelInv.restart (h : LevelInv s) (i : ℕ) :
    LevelInv (s.put i (.new i s.voters (s.quorumFile i) (s.nodes i).log) (s.quorumFile i)) where
  voters_nodup := h.voters_nodup
  files := h.files.step (.restart i)
  network_sent := h.network_sent
  nodes j := by
    rcases eq_or_ne j i with rfl | hji
    · rw [put_nodes_self, h.files j]
      exact .new j h.voters_nodup _ (h.nodes j).bounded
    · rw [put_nodes_of_ne s hji]
      exact h.nodes j
  bounded := h.bounded

lemma LevelInv.move (h : LevelInv s) {i : ℕ} {n : Node VecLog} (hn : Level n) :
    LevelInv (s.move i n) where
  voters_nodup := by
    rw [move_voters]
    exact h.voters_nodup
  files := h.files.move i n
  network_sent := by
    rw [move_network, move_sent]
    exact h.network_sent
  nodes j := by
    rcases eq_or_ne j i with rfl | hji
    · rw [move_nodes_self]
      exact hn
    · rw [move_nodes_of_ne s hji]
      exact h.nodes j
  bounded := by
    rw [move_sent]
    exact h.bounded

lemma LevelInv.post (h : LevelInv s) {out : List Envelope}
    (hout : ∀ env ∈ out, env.message.Bounded) : LevelInv (s.post out) where
  voters_nodup := h.voters_nodup
  files := h.files
  network_sent := by
    intro env henv
    rw [post_network, List.mem_append] at henv
    rw [post_sent, List.mem_append]
    exact henv.imp_left fun henv => h.network_sent henv
  nodes := h.nodes
  bounded env henv := by
    rw [post_sent, List.mem_append] at henv
    exact henv.elim (h.bounded env) (hout env)

lemma LevelInv.react (h : LevelInv s) {i : ℕ} {ev : Event} (hi : i ∈ s.voters)
    (hjust : s.Justified i ev) (hfit : (s.nodes i).Fit ev) : LevelInv (s.react i ev) := by
  obtain ⟨n, out, hreacts, heq⟩ := react_cases hi (h.files i) ev
  have hlevel : Level n := by
    apply hreacts.level (h.nodes i) hfit
    rintro c resp rfl
    exact h.bounded _ hjust
  rw [heq]
  exact (h.move hlevel).post (hreacts.sends_bounded (h.nodes i).bounded)

lemma LevelInv.step (h : LevelInv s) {inp : Input}
    (hfit : OnTrigger (fun s i ev => (s.nodes i).Fit ev) s inp) : LevelInv (s.step inp) := by
  refine step_preserves (P := LevelInv) (fun s net i ev hfit => hfit) (fun s h => h.network_sent)
    (fun s net hnet h => { h with network_sent := fun _ henv => h.network_sent (hnet henv) })
    (fun s i h => h.restart i) h hfit (fun src dst req _ => ?_) (fun src dst req _ => ?_)
    fun s i ev h hi hjust hfit => h.react hi hjust hfit
  · apply h.post
    simp [RaftMessage.Bounded]
  · apply h.post
    simp [RaftMessage.Bounded]

/-- No leader is behind. -/
def Abreast (s : Cluster VecLog) : Prop :=
  ∀ i, (s.nodes i).role = .leader → (s.nodes i).KeepsUp

lemma LevelInv.abreast (h : LevelInv s) : s.Abreast := by
  intro i hrole
  have hleading := (h.nodes i).leading hrole
  refine ⟨hleading.watermark, fun p hp => ?_⟩
  apply hleading.watermark
  exact Nat.lt_succ_of_le ((h.nodes i).pending p hp)

/-- In every run in which leaders are fit for what they handle, no leader falls behind. -/
theorem abreast_of_run (voters : List ℕ) (hnodup : voters.Nodup) (is : List Input)
    (hfit : Run.Meets step (OnTrigger fun s i ev => (s.nodes i).Fit ev)
      (init voters fun _ => VecLog.new) is) :
    ((init voters fun _ => VecLog.new).run is).Abreast :=
  (Run.run_invariant (fun _ _ h hfit => h.step hfit) (LevelInv.init hnodup) hfit).abreast

/-- Node 2 has the first proposal of node 1 but not the second. -/
theorem abreast_first_proposal :
    ((init [1, 2, 3] fun _ => VecLog.new).run [.electionTimeout 1, .deliver 0, .deliver 1,
      .propose 1 [7] 0, .fetch 2 1 ⟨1, 0, 0⟩, .deliver 3, .deliver 3, .propose 1 [8] 1,
      .fetch 2 1 ⟨1, 1, 1⟩, .deliver 3]).Abreast :=
  abreast_of_run [1, 2, 3] (by decide) _ (by decide)

/-- A node that is the only voter does not commit what it is handed. Two runs of three voters fall
behind as well: a response out of turn leaves node 2 with a hole in its log, behind which node 3
fetches before node 2 fills it; and node 2 is made to cut its log below its watermark. -/
theorem abreast_not_all_runs :
    ¬ ((init [1] fun _ => VecLog.new).run [.electionTimeout 1, .propose 1 [7] 0]).Abreast
      ∧ ¬ ((init [1, 2, 3] fun _ => VecLog.new).run [.electionTimeout 1, .deliver 0, .deliver 1,
        .propose 1 [] 0, .heartbeatTimeout 1, .propose 1 [] 1, .propose 1 [] 2,
        .fetch 2 1 ⟨1, 2, 1⟩, .deliver 5, .deliver 5, .deliver 3, .electionTimeout 2, .deliver 5,
        .deliver 5, .fetch 3 2 ⟨2, 3, 1⟩, .deliver 7, .propose 2 [] 3]).Abreast
      ∧ ¬ ((init [1, 2, 3] fun _ => VecLog.new).run [.electionTimeout 1, .deliver 0, .deliver 1,
        .propose 1 [] 0, .fetch 2 1 ⟨1, 0, 0⟩, .deliver 3, .deliver 3, .fetch 2 1 ⟨1, 1, 1⟩,
        .deliver 3, .deliver 3, .heartbeatTimeout 1, .deliver 3, .fetch 2 1 ⟨1, 1, 9⟩, .deliver 4,
        .deliver 4, .electionTimeout 2, .deliver 5, .deliver 5, .propose 2 [] 1,
        .fetch 3 2 ⟨2, 1, 2⟩, .deliver 7]).Abreast := by
  refine ⟨fun h => ?_, fun h => ?_, fun h => ?_⟩
  · exact (h 1 (by decide)).watermark 1 (by decide) (by decide)
  · exact (h 2 (by decide)).watermark 2 (by decide) (by decide)
  · exact (h 2 (by decide)).pending (0, 1) (by decide) (by decide)

end Cluster

end Musil.Raft
