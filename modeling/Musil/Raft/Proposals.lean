import Musil.Raft.Election
import Musil.Raft.VecLog

/-!
# Proposals

A leader keeps a list of the proposals it has accepted, by offset, and answers them when its
watermark passes or when it steps down. While a proposal is pending its node leads, and its log
holds the entry built for the proposal and no other at that offset.
-/

namespace Musil.Raft

/-! ### What a handler answers -/

/-- The actions on what is committed and on what is cut, which only fetches lead to. -/
def Action.OnFetch : Action → Prop
  | .advanceHighWatermark _ | .truncateLog _ | .commitPropose _ => True
  | _ => False

section Handlers

variable {L : Type*} [RaftLog L] {n : Node L} {a : Action}

omit [RaftLog L] in
lemma not_onFetch_of_reject (n : Node L) : ∀ a ∈ n.rejectPendingProposes.2, ¬ a.OnFetch := by
  intro a hmem ha
  obtain ⟨p, -, rfl⟩ := List.mem_map.mp hmem
  exact ha

lemma not_onFetch_of_handle {ev : Event} (hev : ¬ ((∃ c req, ev = .fetchRequest c req) ∨
    ∃ c resp, ev = .fetchResponse c resp)) : ∀ a ∈ (n.handle ev).2, ¬ a.OnFetch := by
  cases ev with
  | fetchRequest c req => exact absurd (Or.inl ⟨c, req, rfl⟩) hev
  | fetchResponse c resp => exact absurd (Or.inr ⟨c, resp, rfl⟩) hev
  | electionTimeout =>
    simp only [Node.handle, Node.handleElectionTimeout]
    split_ifs <;> simp [Node.becomeLeader, Action.OnFetch]
  | heartbeatTimeout =>
    simp only [Node.handle, Node.handleHeartbeatTimeout]
    split_ifs <;> simp [Action.OnFetch]
  | voteRequest c req =>
    simp only [Node.handle, Node.handleVoteRequest, Node.answerVote]
    split_ifs <;> simp [Action.OnFetch]
  | voteResponse c resp =>
    simp only [Node.handle, Node.handleVoteResponse]
    split_ifs <;> simp [Node.becomeLeader, Action.OnFetch]
  | beginQuorumEpoch c req =>
    simp only [Node.handle, Node.handleBeginQuorumEpoch]
    split_ifs
    · exact List.forall_mem_append.mpr ⟨by simp [Action.OnFetch], not_onFetch_of_reject _⟩
    · simp
  | endQuorumEpoch c req =>
    simp only [Node.handle, Node.handleEndQuorumEpoch]
    split_ifs
    · exact List.forall_mem_append.mpr ⟨by simp [Action.OnFetch], not_onFetch_of_reject _⟩
    · simp
  | propose data q =>
    simp only [Node.handle, Node.handlePropose]
    split_ifs <;> simp [Action.OnFetch]

/-- No other event leads to one. -/
lemma fetch_of_onFetch {ev : Event} (h : a ∈ (n.handle ev).2) (ha : a.OnFetch) :
    (∃ c req, ev = .fetchRequest c req) ∨ ∃ c resp, ev = .fetchResponse c resp := by
  by_contra hev
  exact not_onFetch_of_handle hev a h ha

/-- A fetch request leads to one where it is served, by the watermark. -/
lemma onFetch_of_handleFetchRequest {c : ℕ} {req : FetchRequest}
    (h : a ∈ (n.handleFetchRequest c req).2) (ha : a.OnFetch) :
    req.epoch = n.currentEpoch ∧ n.role = .leader ∧
      n.checkDivergence req.fetchOffset req.lastFetchedEpoch = none ∧
      a ∈ (n.credited c req.fetchOffset).tryAdvanceHighWatermark.2 := by
  have hquiet {as : List Action} (has : ∀ b ∈ as, ¬ b.OnFetch) (hmem : a ∈ as) : False :=
    has a hmem ha
  by_cases hlt : n.currentEpoch < req.epoch
  · rw [Node.handleFetchRequest, if_pos hlt] at h
    exact (hquiet (by simp [Action.OnFetch]) h).elim
  by_cases hgt : req.epoch < n.currentEpoch
  · rw [Node.handleFetchRequest, if_neg hlt, if_pos hgt] at h
    exact (hquiet (by simp [Action.OnFetch]) h).elim
  by_cases hrole : n.role ≠ .leader
  · rw [Node.handleFetchRequest, if_neg hlt, if_neg hgt, if_pos hrole] at h
    exact (hquiet (by simp [Action.OnFetch]) h).elim
  have hepoch : req.epoch = n.currentEpoch := by omega
  cases hdiv : n.checkDivergence req.fetchOffset req.lastFetchedEpoch with
  | some d =>
    rw [Node.handleFetchRequest, if_neg hlt, if_neg hgt, if_neg hrole, hdiv] at h
    exact (hquiet (by simp [Action.OnFetch]) h).elim
  | none =>
    rw [Node.handleFetchRequest_serves hepoch (not_not.mp hrole) hdiv] at h
    rcases List.mem_cons.mp h with rfl | h
    · exact ha.elim
    · exact ⟨hepoch, not_not.mp hrole, rfl, h⟩

/-- A fetch response leads to one where a follower takes it. -/
lemma onFetch_of_handleFetchResponse {resp : FetchResponse}
    (h : a ∈ (n.handleFetchResponse resp).2) (ha : a.OnFetch) :
    resp.epoch ≤ n.currentEpoch ∧ n.role = .follower ∧
      ((∃ d, resp.diverging = some d ∧ a = .truncateLog d.endOffset) ∨
        ∃ hwm, (n.handleFetchResponse resp).1.highWatermark = hwm ∧
          (a = .advanceHighWatermark hwm ∨
            a ∈ { n with highWatermark := hwm }.checkCommittedProposes.2)) := by
  unfold Node.handleFetchResponse at h ⊢
  by_cases hlt : n.currentEpoch < resp.epoch
  · rw [if_pos hlt] at h
    rcases List.mem_cons.mp h with rfl | h
    · exact ha.elim
    · obtain ⟨p, -, rfl⟩ := List.mem_map.mp h
      exact ha.elim
  by_cases hrole : n.role ≠ .follower
  · rw [if_neg hlt, if_pos hrole] at h
    exact absurd h List.not_mem_nil
  refine ⟨Nat.not_lt.mp hlt, not_not.mp hrole, ?_⟩
  rw [if_neg hlt, if_neg hrole] at h ⊢
  cases hdiv : resp.diverging with
  | some d =>
    rw [hdiv] at h
    exact Or.inl ⟨d, rfl, List.mem_singleton.mp h⟩
  | none =>
    rw [hdiv] at h
    right
    dsimp only at h ⊢
    have happend : a ∉ resp.entries.map Action.appendToLog := by
      rintro hmem
      obtain ⟨e, -, rfl⟩ := List.mem_map.mp hmem
      exact ha
    have hreset : a ∉ [Action.resetElectionTimer] := by
      rintro hmem
      rw [List.mem_singleton.mp hmem] at ha
      exact ha
    by_cases hhw : n.highWatermark < resp.highWatermark
    · rw [if_pos hhw] at h ⊢
      rcases List.mem_append.mp h with h | h
      · rw [List.append_assoc] at h
        rcases List.mem_append.mp h with h | h
        · exact absurd h happend
        · exact ⟨_, rfl, List.mem_cons.mp h⟩
      · exact absurd h hreset
    · rw [if_neg hhw] at h
      rcases List.mem_append.mp h with h | h
      · exact absurd h happend
      · exact absurd h hreset

omit [RaftLog L] in
lemma commit_mem_checkCommittedProposes {p : ℕ}
    (h : Action.commitPropose p ∈ n.checkCommittedProposes.2) :
    ∃ o, (o, p) ∈ n.pendingProposes ∧ o < n.highWatermark := by
  simp only [Node.checkCommittedProposes, splitCommitted_snd, List.mem_map, List.mem_filter,
    decide_eq_true_eq, Action.commitPropose.injEq] at h
  obtain ⟨⟨o, q⟩, ⟨hmem, hlt⟩, rfl⟩ := h
  exact ⟨o, hmem, hlt⟩

lemma commit_of_handleFetchRequest {c : ℕ} {req : FetchRequest} {p : ℕ}
    (h : Action.commitPropose p ∈ (n.handleFetchRequest c req).2) :
    ∃ o, (o, p) ∈ n.pendingProposes ∧ o < (n.handleFetchRequest c req).1.highWatermark := by
  obtain ⟨hepoch, hrole, hdiv, h⟩ := onFetch_of_handleFetchRequest h trivial
  have hpending : (n.credited c req.fetchOffset).pendingProposes = n.pendingProposes := by
    rw [Node.credited_eq]
  rw [Node.handleFetchRequest_serves hepoch hrole hdiv]
  rcases (n.credited c req.fetchOffset).tryAdvanceHighWatermark_cases with
    heq | ⟨hwm, -, -, -, -, heq⟩ <;> rw [heq] at h ⊢
  · exact absurd h List.not_mem_nil
  · simp only [List.mem_cons, reduceCtorEq, false_or] at h
    obtain ⟨o, hmem, hlt⟩ := commit_mem_checkCommittedProposes h
    exact ⟨o, hpending ▸ hmem, hlt⟩

/-- A leader answers that a proposal is committed only while it handles a fetch request. -/
lemma commit_of_handle {ev : Event} {p : ℕ}
    (h : Action.commitPropose p ∈ (n.handle ev).2) (hrole : n.role = .leader) :
    ∃ c req, ev = .fetchRequest c req ∧
      ∃ o, (o, p) ∈ n.pendingProposes ∧ o < (n.handle ev).1.highWatermark := by
  rcases fetch_of_onFetch h trivial with ⟨c, req, rfl⟩ | ⟨c, resp, rfl⟩
  · exact ⟨c, req, rfl, commit_of_handleFetchRequest h⟩
  · obtain ⟨-, hfollower, -⟩ := onFetch_of_handleFetchResponse h trivial
    cases hrole.symm.trans hfollower

lemma pending_of_commit {ev : Event} {p : ℕ}
    (h : Action.commitPropose p ∈ (n.handle ev).2) : n.pendingProposes ≠ [] := by
  rcases fetch_of_onFetch h trivial with ⟨c, req, rfl⟩ | ⟨c, resp, rfl⟩
  · obtain ⟨o, hmem, -⟩ := commit_of_handleFetchRequest h
    exact List.ne_nil_of_mem hmem
  · obtain ⟨-, -, ⟨d, -, hd⟩ | ⟨hwm, -, hadvance | hcommit⟩⟩ :=
      onFetch_of_handleFetchResponse h trivial
    · cases hd
    · cases hadvance
    · obtain ⟨o, hmem, -⟩ := commit_mem_checkCommittedProposes hcommit
      exact List.ne_nil_of_mem hmem

/-- An election message or a fetch request of a later epoch finds no proposal pending. -/
def StepsDownIdle (n : Node L) : Event → Prop
  | .voteRequest _ req => n.currentEpoch < req.epoch → n.pendingProposes = []
  | .voteResponse _ resp => n.currentEpoch < resp.epoch → n.pendingProposes = []
  | .fetchRequest _ req => n.currentEpoch < req.epoch → n.pendingProposes = []
  | _ => True

omit [RaftLog L] in
instance (n : Node L) : (ev : Event) → Decidable (StepsDownIdle n ev)
  | .voteRequest _ _ | .voteResponse _ _ | .fetchRequest _ _ =>
    inferInstanceAs (Decidable (_ → _ = _))
  | .electionTimeout | .heartbeatTimeout | .beginQuorumEpoch _ _ | .endQuorumEpoch _ _
  | .fetchResponse _ _ | .propose _ _ => .isTrue trivial

/-- A leader goes on leading when it handles a fetch request of its own epoch or an older one. -/
lemma handleFetchRequest_role {n : Node L} {c : ℕ} {req : FetchRequest} (hrole : n.role = .leader)
    (hle : req.epoch ≤ n.currentEpoch) : (n.handleFetchRequest c req).1.role = .leader := by
  by_cases hgt : req.epoch < n.currentEpoch
  · simp [Node.handleFetchRequest, Nat.not_lt.mpr hle, hgt, hrole]
  cases hdiv : n.checkDivergence req.fetchOffset req.lastFetchedEpoch with
  | some d => simp [Node.handleFetchRequest, Nat.not_lt.mpr hle, hgt, hrole, hdiv]
  | none =>
    rw [Node.handleFetchRequest_serves (by omega) hrole hdiv]
    obtain ⟨hwm, pending, hserved⟩ := n.served_eq c req.fetchOffset
    rw [hserved]
    exact hrole

/-- A leader that steps down rejects everything that is pending. -/
lemma reject_of_stepsDown {n : Node L} {ev : Event} (hidle : StepsDownIdle n ev)
    (hrole : n.role = .leader) (hdown : (n.handle ev).1.role ≠ .leader) {q : ℕ × ℕ}
    (hq : q ∈ n.pendingProposes) : Action.rejectPropose q.2 ∈ (n.handle ev).2 := by
  have hnot : ∀ {P : Prop}, (P → n.pendingProposes = []) → ¬ P := by
    intro P hP hp
    simp [hP hp] at hq
  cases ev with
  | electionTimeout => simp [Node.handle, Node.handleElectionTimeout, hrole] at hdown
  | heartbeatTimeout => simp [Node.handle, Node.handleHeartbeatTimeout, hrole] at hdown
  | voteRequest c req =>
    simp only [Node.handle, Node.handleVoteRequest, Node.answerVote, if_neg (hnot hidle)] at hdown
    split_ifs at hdown <;> exact absurd hrole hdown
  | voteResponse c resp =>
    simp [Node.handle, Node.handleVoteResponse, if_neg (hnot hidle), hrole] at hdown
  | beginQuorumEpoch c req =>
    simp only [Node.handle, Node.handleBeginQuorumEpoch] at hdown ⊢
    split_ifs at hdown ⊢
    · exact List.mem_append_right _ (List.mem_map.mpr ⟨q, hq, rfl⟩)
    · exact absurd hrole hdown
  | endQuorumEpoch c req =>
    simp only [Node.handle, Node.handleEndQuorumEpoch] at hdown ⊢
    split_ifs at hdown ⊢
    · exact List.mem_append_right _ (List.mem_map.mpr ⟨q, hq, rfl⟩)
    · exact absurd hrole hdown
  | fetchRequest c req =>
    exact absurd (handleFetchRequest_role hrole (Nat.not_lt.mp (hnot hidle))) hdown
  | fetchResponse c resp =>
    by_cases hlt : n.currentEpoch < resp.epoch
    · simp only [Node.handle, Node.handleFetchResponse, if_pos hlt]
      exact List.mem_cons_of_mem _ (List.mem_map.mpr ⟨q, hq, rfl⟩)
    · simp [Node.handle, Node.handleFetchResponse, hlt, hrole] at hdown
  | propose data p => simp [Node.handle, Node.handlePropose, hrole] at hdown

/-- A proposal that is pending after a reaction was pending before, in the same term of the same
leader and with the same log, or it has just been accepted. -/
lemma Reacts.pending {i : ℕ} {n n' : Node L} {ev : Event} {out : List Envelope}
    (h : Reacts i n ev n' out) (hidle : StepsDownIdle n ev)
    (hlead : n.pendingProposes ≠ [] → n.role = .leader) {q : ℕ × ℕ}
    (hq : q ∈ n'.pendingProposes) :
    q ∈ n.pendingProposes ∧ n'.role = .leader ∧ n'.currentEpoch = n.currentEpoch ∧
        n'.log = n.log ∨
      ∃ data proposeId, ev = .propose data proposeId ∧ n.role = .leader ∧
        n' = n.proposed data proposeId := by
  have hfollows : ∀ {P : Prop}, n.role ≠ .leader → q ∈ n.pendingProposes → P := by
    intro P hrole hmem
    exact absurd (hlead (List.ne_nil_of_mem hmem)) hrole
  have hgone : ∀ {P : Prop}, n.pendingProposes = [] → q ∈ n.pendingProposes → P := by
    intro P hnil hmem
    simp [hnil] at hmem
  cases h with
  | ignores | heartbeats | deniesStale | answersEmpty | diverges =>
    exact .inl ⟨hq, hlead (List.ne_nil_of_mem hq), rfl, rfl⟩
  | stands hrole => exact hfollows hrole hq
  | standsAlone hrole => exact hfollows hrole hq
  | denies c req hepoch =>
    unfold Node.joined at hq ⊢
    split_ifs at hq ⊢ with hlt
    · exact hgone (hidle hlt) hq
    · exact .inl ⟨hq, hlead (List.ne_nil_of_mem hq), rfl, rfl⟩
  | grants c req hepoch =>
    unfold Node.joined at hq ⊢
    split_ifs at hq ⊢ with hlt
    · exact hgone (hidle hlt) hq
    · exact .inl ⟨hq, hlead (List.ne_nil_of_mem hq), rfl, rfl⟩
  | outvoted c resp hepoch => exact hgone (hidle hepoch) hq
  | counts c hrole => exact hfollows (by simp [hrole]) hq
  | wins c hrole => exact hfollows (by simp [hrole]) hq
  | follows | released | superseded => simp at hq
  | overtaken c req hepoch => exact hgone (hidle hepoch) hq
  | serves c req hepoch hrole =>
    have hpending : (n.credited c req.fetchOffset).pendingProposes = n.pendingProposes ∧
        (n.credited c req.fetchOffset).role = .leader ∧
        (n.credited c req.fetchOffset).currentEpoch = n.currentEpoch ∧
        (n.credited c req.fetchOffset).log = n.log := by
      rw [Node.credited_eq]
      exact ⟨rfl, hrole, rfl, rfl⟩
    left
    rcases (n.credited c req.fetchOffset).tryAdvanceHighWatermark_cases with
      heq | ⟨hwm, -, -, -, -, heq⟩ <;> rw [heq] at hq ⊢
    · exact ⟨hpending.1 ▸ hq, hpending.2⟩
    · exact ⟨hpending.1 ▸ List.mem_of_mem_filter hq, hpending.2⟩
  | truncates c resp d hepoch hrole => exact hfollows (by simp [hrole]) hq
  | appends c resp hepoch hrole =>
    unfold Node.adopted at hq
    split_ifs at hq
    · exact hfollows (by simp [hrole]) (List.mem_of_mem_filter hq)
    · exact hfollows (by simp [hrole]) hq
  | proposes data proposeId hrole => exact .inr ⟨data, proposeId, rfl, hrole, rfl⟩

lemma Reacts.log_of_fetchRequest {i c : ℕ} {n n' : Node L} {req : FetchRequest}
    {out : List Envelope} (h : Reacts i n (.fetchRequest c req) n' out) : n'.log = n.log := by
  cases h with
  | serves =>
    obtain ⟨hwm, pending, hserved⟩ := n.served_eq c req.fetchOffset
    rw [hserved]
  | _ => rfl

end Handlers

namespace Cluster

/-! ### Files -/

section Files

variable {L : Type*} [RaftLog L] {s : Cluster L}

omit [RaftLog L] in
lemma FilesKept.move (h : s.FilesKept) (i : ℕ) (n : Node L) : (s.move i n).FilesKept := by
  intro j
  rw [Cluster.move, record_quorumFile, record_nodes]
  exact h.put i n j

lemma FilesKept.react (h : s.FilesKept) (i : ℕ) (ev : Event) : (s.react i ev).FilesKept := by
  by_cases hi : i ∈ s.voters
  · obtain ⟨n, out, -, heq⟩ := react_cases hi (h i) ev
    rw [heq]
    exact h.move i n
  · rwa [Cluster.react, if_neg hi]

lemma FilesKept.step (h : s.FilesKept) (inp : Input) : (s.step inp).FilesKept := by
  cases inp with
  | deliver k =>
    simp only [Cluster.step]
    split
    · exact h
    · exact FilesKept.react (s := { s with network := s.network.eraseIdx k }) h _ _
  | electionTimeout i => exact h.react i .electionTimeout
  | heartbeatTimeout i => exact h.react i .heartbeatTimeout
  | propose i data proposeId => exact h.react i (.propose data proposeId)
  | restart i =>
    intro j
    rw [Cluster.step]
    rcases eq_or_ne j i with rfl | hji
    · rw [put_quorumFile_self, put_nodes_self]
      rfl
    · rw [put_quorumFile_of_ne s hji, put_nodes_of_ne s hji]
      exact h j
  | lose | fetch | resign => exact h

end Files

/-! ### Steps of a cluster, seen from one node -/

section Nodes

variable {L : Type*} [RaftLog L]

/-- What node `i` is asked to do in a step. -/
def emits (s : Cluster L) (inp : Input) (i : ℕ) : List Action :=
  match s.trigger inp with
  | some (j, ev) => if j = i ∧ i ∈ s.voters then ((s.nodes i).handle ev).2 else []
  | none => []

lemma trigger_of_mem_emits {s : Cluster L} {inp : Input} {i : ℕ} {a : Action}
    (h : a ∈ s.emits inp i) :
    ∃ ev, s.trigger inp = some (i, ev) ∧ i ∈ s.voters ∧ a ∈ ((s.nodes i).handle ev).2 := by
  unfold emits at h
  split at h
  · split_ifs at h with hi
    · rename_i j ev htrigger
      obtain ⟨rfl, hv⟩ := hi
      exact ⟨ev, htrigger, hv, h⟩
    · simp at h
  · simp at h

lemma emits_of_trigger {s : Cluster L} {inp : Input} {i : ℕ} {ev : Event}
    (h : s.trigger inp = some (i, ev)) (hi : i ∈ s.voters) :
    s.emits inp i = ((s.nodes i).handle ev).2 := by
  simp [emits, h, hi]

lemma react_nodes_of_ne (s : Cluster L) {i j : ℕ} (hji : j ≠ i) (ev : Event) :
    (s.react i ev).nodes j = s.nodes j := by
  by_cases hi : i ∈ s.voters
  · rw [react, if_pos hi, record_nodes, post_nodes, put_nodes_of_ne s hji]
  · rw [react, if_neg hi]

/-- A reaction leaves the node its handler returns, but for the log. -/
lemma react_nodes_self (s : Cluster L) {i : ℕ} (hi : i ∈ s.voters) (ev : Event) :
    ∃ l, (s.react i ev).nodes i = { ((s.nodes i).handle ev).1 with log := l } := by
  have hpass : ∀ (as : List Action) (x : Node L × QuorumState),
      ∃ l, (persistPass x as).1 = { x.1 with log := l } := by
    intro as
    induction as with
    | nil => exact fun x => ⟨x.1.log, rfl⟩
    | cons a as ih =>
      intro x
      obtain ⟨l, hl⟩ := ih (persistAction x a)
      refine ⟨l, ?_⟩
      rw [persistPass_cons, hl]
      cases a <;> rfl
  obtain ⟨l, hl⟩ := hpass ((s.nodes i).handle ev).2 (((s.nodes i).handle ev).1, s.quorumFile i)
  refine ⟨l, ?_⟩
  rw [react, if_pos hi, record_nodes, post_nodes, put_nodes_self]
  exact hl

lemma step_nodes_of_trigger {s : Cluster L} {inp : Input} {i : ℕ} {ev : Event}
    (h : s.trigger inp = some (i, ev)) : (s.step inp).nodes = (s.react i ev).nodes := by
  cases inp with
  | deliver k =>
    simp only [trigger, Option.map_eq_some_iff, Prod.mk.injEq] at h
    obtain ⟨env, hk, rfl, rfl⟩ := h
    simp only [step, hk]
    by_cases hi : env.dst ∈ s.voters
    · rw [react, if_pos hi, react, if_pos hi, record_nodes, record_nodes]
      rfl
    · rw [react, if_neg hi, react, if_neg hi]
  | electionTimeout | heartbeatTimeout | propose =>
    simp only [trigger, Option.some.injEq, Prod.mk.injEq] at h
    obtain ⟨rfl, rfl⟩ := h
    rfl
  | lose | restart | fetch | resign => simp [trigger] at h

/-- A step leaves a node alone, makes it react, or restarts it. -/
lemma step_nodes_cases (s : Cluster L) (inp : Input) (i : ℕ) :
    (s.step inp).nodes i = s.nodes i ∨
      (∃ ev, s.trigger inp = some (i, ev) ∧ i ∈ s.voters ∧
        (s.step inp).nodes i = (s.react i ev).nodes i) ∨
      (s.step inp).nodes i = .new i s.voters (s.quorumFile i) (s.nodes i).log := by
  cases htrigger : s.trigger inp with
  | some t =>
    obtain ⟨j, ev⟩ := t
    rw [step_nodes_of_trigger htrigger]
    rcases eq_or_ne i j with rfl | hij
    · by_cases hi : i ∈ s.voters
      · exact .inr (.inl ⟨ev, rfl, hi, rfl⟩)
      · exact .inl (by rw [react, if_neg hi])
    · exact .inl (react_nodes_of_ne s hij ev)
  | none =>
    cases inp with
    | deliver k =>
      simp only [trigger, Option.map_eq_none_iff] at htrigger
      exact .inl (by simp only [step, htrigger])
    | restart j =>
      rcases eq_or_ne i j with rfl | hij
      · exact .inr (.inr (put_nodes_self s i _ _))
      · exact .inl (put_nodes_of_ne s hij _ _)
    | lose | fetch | resign => exact .inl rfl
    | electionTimeout | heartbeatTimeout | propose => simp [trigger] at htrigger

end Nodes

/-! ### Runs -/

/-- A leader accepts a proposal only where its log holds no entry yet. -/
def AcceptsAtEnd (s : Cluster VecLog) (i : ℕ) : Event → Prop
  | .propose _ _ => (s.nodes i).role = .leader →
    ∀ a ∈ (s.nodes i).log.entries, a.offset < RaftLog.logEndOffset (s.nodes i).log
  | _ => True

instance (s : Cluster VecLog) (i : ℕ) : (ev : Event) → Decidable (s.AcceptsAtEnd i ev)
  | .propose _ _ => inferInstanceAs (Decidable (_ → ∀ a ∈ _, _ < _))
  | .electionTimeout | .heartbeatTimeout | .voteRequest _ _ | .voteResponse _ _
  | .beginQuorumEpoch _ _ | .endQuorumEpoch _ _ | .fetchRequest _ _ | .fetchResponse _ _ =>
    .isTrue trivial

def KeepsProposals (s : Cluster VecLog) (i : ℕ) (ev : Event) : Prop :=
  StepsDownIdle (s.nodes i) ev ∧ s.AcceptsAtEnd i ev

instance (s : Cluster VecLog) (i : ℕ) (ev : Event) : Decidable (s.KeepsProposals i ev) :=
  inferInstanceAs (Decidable (_ ∧ _))

/-- Step `k` of the run has node `i`, leading epoch `e`, accept proposal `p` at offset `o`. -/
def Accepts (s : Cluster VecLog) (is : List Input) (k i p o e : ℕ) (data : List UInt8) : Prop :=
  is[k]? = some (.propose i data p) ∧ (s.run (is.take k)).Leads i e ∧
    RaftLog.logEndOffset ((s.run (is.take k)).nodes i).log = o

/-- Node `n` holds exactly one entry at the offset, the given one. -/
def HoldsOnly (n : Node VecLog) (a : LogEntry) : Prop :=
  n.log.entries.filter (·.offset = a.offset) = [a]

lemma HoldsOnly.mem {n : Node VecLog} {a : LogEntry} (h : HoldsOnly n a) :
    a ∈ n.log.entries := by
  have : a ∈ n.log.entries.filter (·.offset = a.offset) := by
    rw [HoldsOnly] at h
    simp [h]
  exact List.mem_of_mem_filter this

/-- A proposal at a later offset does not touch the entry. -/
lemma HoldsOnly.proposed {n : Node VecLog} {a : LogEntry} (h : HoldsOnly n a)
    (hlt : a.offset < RaftLog.logEndOffset n.log) (data : List UInt8) (proposeId : ℕ) :
    HoldsOnly (n.proposed data proposeId) a := by
  unfold HoldsOnly at h ⊢
  rw [Node.proposed, VecLog.append_entries, List.filter_append, h]
  simp [hlt.ne']

/-- The entry built for a proposal is the only one at its offset. -/
lemma holdsOnly_proposed {n : Node VecLog}
    (hfresh : ∀ a ∈ n.log.entries, a.offset < RaftLog.logEndOffset n.log) (data : List UInt8)
    (proposeId : ℕ) : HoldsOnly (n.proposed data proposeId)
      ⟨n.currentEpoch, RaftLog.logEndOffset n.log, data⟩ := by
  unfold HoldsOnly
  rw [Node.proposed, VecLog.append_entries, List.filter_append]
  have hnil : n.log.entries.filter (·.offset = RaftLog.logEndOffset n.log) = [] := by
    refine List.filter_eq_nil_iff.mpr fun a ha => ?_
    simpa using (hfresh a ha).ne
  simp [hnil]

lemma input_of_trigger_propose {s : Cluster VecLog} {inp : Input} {i p : ℕ} {data : List UInt8}
    (h : s.trigger inp = some (i, .propose data p)) : inp = .propose i data p := by
  cases inp with
  | deliver k =>
    simp only [trigger, Option.map_eq_some_iff, Prod.mk.injEq] at h
    obtain ⟨⟨src, dst, message⟩, -, -, hev⟩ := h
    cases message <;> simp [Envelope.toEvent] at hev
  | propose j d q =>
    simp only [trigger, Option.some.injEq, Prod.mk.injEq, Event.propose.injEq] at h
    obtain ⟨rfl, rfl, rfl⟩ := h
    rfl
  | electionTimeout | heartbeatTimeout => simp [trigger] at h
  | lose | restart | fetch | resign => simp [trigger] at h

/-- What pending proposals stand for, after a run. -/
structure PendingInv (s : Cluster VecLog) (is : List Input) : Prop where
  files : (s.run is).FilesKept
  pending : ∀ i o p, (o, p) ∈ ((s.run is).nodes i).pendingProposes →
    ((s.run is).nodes i).role = .leader ∧ ∃ k < is.length, ∃ data,
      s.Accepts is k i p o ((s.run is).nodes i).currentEpoch data ∧
        HoldsOnly ((s.run is).nodes i) ⟨((s.run is).nodes i).currentEpoch, o, data⟩

lemma Accepts.concat {s : Cluster VecLog} {is : List Input} {k i p o e : ℕ} {data : List UInt8}
    (h : s.Accepts is k i p o e data) (hk : k < is.length) (inp : Input) :
    s.Accepts (is ++ [inp]) k i p o e data := by
  unfold Accepts at h ⊢
  rwa [List.getElem?_append_left hk, List.take_append_of_le_length hk.le]

/-- A step keeps what pending proposals stand for. -/
lemma PendingInv.concat {s : Cluster VecLog} {is : List Input} (h : PendingInv s is) {inp : Input}
    (hok : OnTrigger KeepsProposals (s.run is) inp) : PendingInv s (is ++ [inp]) := by
  have hrun : s.run (is ++ [inp]) = (s.run is).step inp := Run.run_concat step s is inp
  refine ⟨hrun ▸ h.files.step inp, fun i o p hq => ?_⟩
  rw [hrun] at hq ⊢
  rw [List.length_append, List.length_singleton]
  -- what was pending before and is untouched
  have hold : ∀ n : Node VecLog, (o, p) ∈ ((s.run is).nodes i).pendingProposes →
      n.role = .leader → n.currentEpoch = ((s.run is).nodes i).currentEpoch →
      n.log = ((s.run is).nodes i).log → n.role = .leader ∧ ∃ k < is.length + 1, ∃ data,
        s.Accepts (is ++ [inp]) k i p o n.currentEpoch data ∧
          HoldsOnly n ⟨n.currentEpoch, o, data⟩ := by
    intro n hmem hrole hepoch hlog
    obtain ⟨-, k, hk, data, hacc, hholds⟩ := h.pending i o p hmem
    refine ⟨hrole, k, hk.trans (Nat.lt_succ_self _), data, ?_, ?_⟩
    · rw [hepoch]
      exact hacc.concat hk inp
    · unfold HoldsOnly at hholds ⊢
      rw [hlog, hepoch]
      exact hholds
  rcases (s.run is).step_nodes_cases inp i with heq | ⟨ev, htrigger, hi, heq⟩ | heq
  · rw [heq] at hq ⊢
    exact hold _ hq (h.pending i o p hq).1 rfl rfl
  · have hc : (s.run is).KeepsProposals i ev := by
      simpa only [OnTrigger, htrigger] using hok
    obtain ⟨n, out, hreacts, hmove⟩ := react_cases hi (h.files i) ev
    have hnode : ((s.run is).step inp).nodes i = n := by
      rw [heq, hmove, post_nodes, move_nodes_self]
    rw [hnode] at hq ⊢
    have hlead : ((s.run is).nodes i).pendingProposes ≠ [] →
        ((s.run is).nodes i).role = .leader := by
      intro hne
      obtain ⟨⟨o', p'⟩, hmem⟩ := List.exists_mem_of_ne_nil _ hne
      exact (h.pending i o' p' hmem).1
    rcases hreacts.pending hc.1 hlead hq with
      ⟨hmem, hrole, hepoch, hlog⟩ | ⟨data, proposeId, rfl, hrole, rfl⟩
    · exact hold n hmem hrole hepoch hlog
    · -- the proposal this step accepts, and those accepted before it
      have hfresh := hc.2 hrole
      have hinp := input_of_trigger_propose htrigger
      refine ⟨hrole, ?_⟩
      rcases List.mem_append.mp hq with hmem | hmem
      · obtain ⟨-, k, hk, d, hacc, hholds⟩ := h.pending i o p hmem
        refine ⟨k, hk.trans (Nat.lt_succ_self _), d, hacc.concat hk inp, ?_⟩
        exact hholds.proposed (hfresh _ (hholds.mem)) data proposeId
      · obtain ⟨rfl, rfl⟩ := Prod.mk.inj (List.mem_singleton.mp hmem)
        refine ⟨is.length, Nat.lt_succ_self _, data, ⟨?_, ?_, ?_⟩, holdsOnly_proposed hfresh data p⟩
        · rw [List.getElem?_append_right le_rfl, Nat.sub_self, hinp]
          rfl
        · rw [List.take_left]
          exact ⟨hrole, rfl⟩
        · rw [List.take_left]
  · rw [heq] at hq
    simp [Node.new] at hq

/-- A commit is answered for a pending proposal whose entry the log holds, below the watermark. -/
def CommitsTruly (s : Cluster VecLog) (is : List Input) (m : ℕ) (inp : Input) : Prop :=
  ∀ i p, .commitPropose p ∈ (s.run (is.take m)).emits inp i →
    ∃ o, (o, p) ∈ ((s.run (is.take m)).nodes i).pendingProposes ∧
      o < (((s.run (is.take m)).step inp).nodes i).highWatermark ∧
      ∃ k < m, ∃ e data, s.Accepts is k i p o e data ∧
        HoldsOnly (((s.run (is.take m)).step inp).nodes i) ⟨e, o, data⟩

/-- A leader that an event makes step down rejects everything that is pending. -/
def RejectsOnStepDown (s : Cluster VecLog) (inp : Input) : Prop :=
  ∀ i ev, s.trigger inp = some (i, ev) → i ∈ s.voters → (s.nodes i).role = .leader →
    ((s.step inp).nodes i).role ≠ .leader →
      ∀ q ∈ (s.nodes i).pendingProposes, .rejectPropose q.2 ∈ s.emits inp i

/-- Every answer to a proposal in the run is true, and no leader steps down without answering. -/
def ProposalsTruthful (s : Cluster VecLog) (is : List Input) : Prop :=
  ∀ m inp, is[m]? = some inp →
    s.CommitsTruly is m inp ∧ (s.run (is.take m)).RejectsOnStepDown inp

lemma PendingInv.commitsTruly {s : Cluster VecLog} {is : List Input} {m : ℕ} {inp : Input}
    (h : PendingInv s (is.take m)) : s.CommitsTruly is m inp := by
  intro i p hcommit
  obtain ⟨ev, htrigger, hi, hact⟩ := trigger_of_mem_emits hcommit
  have hne := pending_of_commit hact
  obtain ⟨⟨o', p'⟩, hmem'⟩ := List.exists_mem_of_ne_nil _ hne
  obtain ⟨c, req, rfl, o, hmem, hlt⟩ := commit_of_handle hact (h.pending i o' p' hmem').1
  obtain ⟨hrole, k, hk, data, hacc, hholds⟩ := h.pending i o p hmem
  rw [step_nodes_of_trigger htrigger]
  have hkm : k < m := hk.trans_le (List.length_take_le m is)
  refine ⟨o, hmem, ?_, k, hkm, ((s.run (is.take m)).nodes i).currentEpoch, data, ?_, ?_⟩
  · obtain ⟨l, hl⟩ := react_nodes_self _ hi (.fetchRequest c req)
    rw [hl]
    exact hlt
  · unfold Accepts at hacc ⊢
    rwa [List.getElem?_take_of_lt hkm, List.take_take, min_eq_left hkm.le] at hacc
  · obtain ⟨n, out, hreacts, hmove⟩ := react_cases hi (h.files i) (.fetchRequest c req)
    rw [hmove, post_nodes, move_nodes_self, HoldsOnly, hreacts.log_of_fetchRequest]
    exact hholds

/-- Proposals are answered truthfully in every run that keeps them. -/
theorem proposalsTruthful_of_keepsProposals (voters : List ℕ) (is : List Input)
    (hok : Run.Meets step (OnTrigger KeepsProposals) (init voters fun _ => VecLog.new) is) :
    ProposalsTruthful (init voters fun _ => VecLog.new) is := by
  intro m inp hinp
  have hpending : PendingInv (init voters fun _ => VecLog.new) (is.take m) :=
    Run.run_history (P := PendingInv (init voters fun _ => VecLog.new))
      ⟨fun _ => rfl, by simp [init, Node.new]⟩
      (fun _ _ h hok => h.concat hok) (hok.take m)
  refine ⟨hpending.commitsTruly, fun i ev htrigger hi hrole hdown q hq => ?_⟩
  have hstep : OnTrigger KeepsProposals ((init voters fun _ => VecLog.new).run (is.take m)) inp :=
    hok.get hinp
  simp only [OnTrigger, htrigger] at hstep
  rw [step_nodes_of_trigger htrigger] at hdown
  obtain ⟨l, hl⟩ := react_nodes_self _ hi ev
  rw [hl] at hdown
  rw [emits_of_trigger htrigger hi]
  exact reject_of_stepsDown hstep.1 hrole hdown hq

/-- Node 1 is elected, accepts a proposal, and answers it when node 2 has fetched it. -/
theorem proposalsTruthful_one_commit :
    ProposalsTruthful (init [1, 2, 3] fun _ => VecLog.new)
      [.electionTimeout 1, .deliver 0, .deliver 1, .propose 1 [7] 0, .fetch 2 1 ⟨1, 0, 0⟩,
        .deliver 3, .deliver 3, .fetch 2 1 ⟨1, 1, 1⟩, .deliver 3] :=
  proposalsTruthful_of_keepsProposals _ _ (by decide)

/-- Leader 1 hears of epoch 2 from a candidate while its proposal is pending. -/
theorem proposalsTruthful_not_all_runs :
    ¬ ProposalsTruthful (init [1, 2, 3] fun _ => VecLog.new)
      [.electionTimeout 1, .deliver 0, .deliver 1, .propose 1 [7] 0, .electionTimeout 2,
        .deliver 3] := by
  intro h
  have hreject := (h 5 (.deliver 3) rfl).2 1 (.voteRequest 2 ⟨2, 2, 0, 0⟩) (by decide) (by decide)
    (by decide) (by decide) (0, 0) (by decide)
  exact absurd hreject (by decide)

end Cluster

end Musil.Raft
