import Musil.Raft.Reaction

/-!
# Replies to proposals

A runner keeps the reply of every proposal under a fresh id, and its node keeps the ids of the
proposals that it has accepted. The actions of the node are all that holds the two together: a
commit or a rejection takes a reply out. They agree after every event, every answer finds its
reply, and no id is answered twice.
-/

namespace Musil.Raft

variable {L : Type*}

/-- What a runner answers to a proposal; the code has one error. -/
inductive ProposeResult where
  | ok
  | notLeader
  deriving DecidableEq, Repr

structure Answer where
  proposeId : ℕ
  reply : ℕ
  result : ProposeResult
  deriving DecidableEq, Repr

/-- The channels of replies are known by numbers. The last two fields are history variables: the
answers given so far, and the ids that an answer found no reply for. -/
structure ReplyRunner (L : Type*) where
  node : Node L
  quorumFile : QuorumState
  pendingProposes : AList fun _ : ℕ => ℕ
  nextProposeId : ℕ
  answers : List Answer
  missed : List ℕ

/-- What comes in over the channel of a runner: a message of another node, or a proposal. -/
inductive RunnerInput where
  | networkEvent (env : Envelope)
  | propose (data : List UInt8) (reply : ℕ)
  deriving DecidableEq, Repr

/-- The three branches of the loop. -/
inductive RunnerTurn where
  | input (input : RunnerInput)
  | electionTimeout
  | heartbeat
  deriving DecidableEq, Repr

namespace ReplyRunner

def spawn (id : ℕ) (voters : List ℕ) (log : L) (quorumFile : QuorumState) : ReplyRunner L where
  node := .new id voters quorumFile log
  quorumFile := quorumFile
  pendingProposes := ∅
  nextProposeId := 0
  answers := []
  missed := []

/-- A proposal gets the next id. -/
def inputToEvent (s : ReplyRunner L) : RunnerInput → ReplyRunner L × Event
  | .networkEvent env => (s, env.toEvent)
  | .propose data reply =>
    let proposeId := s.nextProposeId
    ({ s with
        nextProposeId := s.nextProposeId + 1
        pendingProposes := s.pendingProposes.insert proposeId reply },
      .propose data proposeId)

/-- Take out the reply of a proposal and send the result there. -/
def answer (s : ReplyRunner L) (proposeId : ℕ) (result : ProposeResult) : ReplyRunner L :=
  match s.pendingProposes.lookup proposeId with
  | some reply =>
    { s with
      pendingProposes := s.pendingProposes.erase proposeId
      answers := s.answers ++ [⟨proposeId, reply, result⟩] }
  | none => { s with missed := s.missed ++ [proposeId] }

/-- An action of the second pass, as far as replies are concerned. -/
def notify (s : ReplyRunner L) : Action → ReplyRunner L
  | .commitPropose proposeId => s.answer proposeId .ok
  | .rejectPropose proposeId => s.answer proposeId .notLeader
  | _ => s

variable [RaftLog L]

def executeActions (s : ReplyRunner L) (actions : List Action) : ReplyRunner L :=
  let (node, quorumFile) := persistPass (s.node, s.quorumFile) actions
  actions.foldl notify { s with node := node, quorumFile := quorumFile }

/-- The node handles an event and its actions are executed. -/
def react (s : ReplyRunner L) (ev : Event) : ReplyRunner L :=
  let (node, actions) := s.node.handle ev
  { s with node := node }.executeActions actions

def step (s : ReplyRunner L) : RunnerTurn → ReplyRunner L
  | .input input =>
    let (s, ev) := s.inputToEvent input
    s.react ev
  | .electionTimeout => s.react .electionTimeout
  | .heartbeat => s.react .heartbeatTimeout

end ReplyRunner

/-! ### What a handler answers -/

/-- The id of the proposal that an action answers. -/
def Action.answered : Action → Option ℕ
  | .commitPropose proposeId | .rejectPropose proposeId => some proposeId
  | _ => none

/-- The id that an event proposes. -/
def Event.proposed : Event → List ℕ
  | .propose _ proposeId => [proposeId]
  | _ => []

namespace Node

variable {n : Node L}

def pendingIds (n : Node L) : List ℕ :=
  n.pendingProposes.map Prod.snd

/-- The ids that are answered and those that stay pending are `ids`. -/
def Accounts (r : Node L × List Action) (ids : List ℕ) : Prop :=
  (r.1.pendingIds ++ r.2.filterMap Action.answered).Perm ids

lemma accounts_of_quiet {n' : Node L} {actions : List Action}
    (hpending : n'.pendingProposes = n.pendingProposes)
    (hquiet : ∀ a ∈ actions, a.answered = none) : Accounts (n', actions) n.pendingIds := by
  rw [Accounts, List.filterMap_eq_nil_iff.mpr hquiet, List.append_nil, pendingIds, hpending]
  exact .refl _

lemma Accounts.append_nil {r : Node L × List Action} {ids : List ℕ} (h : Accounts r ids) :
    Accounts r (ids ++ []) := by
  rwa [List.append_nil]

/-- Actions that answer nothing make no difference. -/
lemma Accounts.append {n' : Node L} {front actions back : List Action} {ids : List ℕ}
    (h : Accounts (n', actions) ids) (hfront : ∀ a ∈ front, a.answered = none)
    (hback : ∀ a ∈ back, a.answered = none) : Accounts (n', front ++ actions ++ back) ids := by
  rw [Accounts, List.filterMap_append, List.filterMap_append,
    List.filterMap_eq_nil_iff.mpr hfront, List.filterMap_eq_nil_iff.mpr hback, List.nil_append,
    List.append_nil]
  exact h

/-- Actions that answer proposals, one each. -/
lemma answered_map {f : ℕ × ℕ → Action} (h : ∀ p, (f p).answered = some p.2)
    (ps : List (ℕ × ℕ)) : (ps.map f).filterMap Action.answered = ps.map Prod.snd := by
  induction ps with
  | nil => rfl
  | cons p ps ih => rw [List.map_cons, List.filterMap_cons_some (h p), ih, List.map_cons]

/-- Rejecting what is pending answers everything. -/
lemma accounts_rejectPendingProposes (n : Node L) :
    Accounts n.rejectPendingProposes n.pendingIds := by
  rw [Accounts, rejectPendingProposes, answered_map fun p => rfl]
  exact .refl _

/-- The scan answers what is below the watermark and keeps the rest. -/
lemma accounts_checkCommittedProposes (n : Node L) :
    Accounts n.checkCommittedProposes n.pendingIds := by
  rw [Accounts, checkCommittedProposes]
  dsimp only
  rw [splitCommitted_fst, splitCommitted_snd, answered_map fun p => rfl, pendingIds,
    ← List.map_append, pendingIds]
  apply List.Perm.map
  have hsplit := List.filter_append_perm (fun p : ℕ × ℕ => decide (n.highWatermark ≤ p.1))
    n.pendingProposes
  have hbelow (p : ℕ × ℕ) :
      (!decide (n.highWatermark ≤ p.1)) = decide (p.1 < n.highWatermark) := by
    rw [← decide_not]
    exact decide_eq_decide.mpr Nat.not_le
  simpa only [hbelow] using hsplit

variable [RaftLog L]

lemma accounts_tryAdvanceHighWatermark (n : Node L) :
    Accounts n.tryAdvanceHighWatermark n.pendingIds := by
  rcases n.tryAdvanceHighWatermark_cases with h | ⟨hwm, -, -, -, -, h⟩
  · rw [h]
    exact accounts_of_quiet rfl (by simp)
  · have hcommitted := accounts_checkCommittedProposes { n with highWatermark := hwm }
    rw [h, ← checkCommittedProposes_fst]
    exact hcommitted

/-! ### The handlers -/

lemma accounts_handleElectionTimeout (n : Node L) :
    Accounts n.handleElectionTimeout n.pendingIds := by
  unfold handleElectionTimeout
  dsimp only
  split_ifs
  · exact accounts_of_quiet rfl (by simp)
  · exact accounts_of_quiet rfl (by simp [becomeLeader, Action.answered])
  · exact accounts_of_quiet rfl (by simp [Action.answered])

lemma accounts_handleHeartbeatTimeout (n : Node L) :
    Accounts n.handleHeartbeatTimeout n.pendingIds := by
  unfold handleHeartbeatTimeout
  split_ifs
  · exact accounts_of_quiet rfl (by simp)
  · exact accounts_of_quiet rfl (by simp [Action.answered])

lemma answerVote_quiet (n : Node L) (c : ℕ) (req : VoteRequest) :
    (n.answerVote c req).1.pendingProposes = n.pendingProposes ∧
      ∀ a ∈ (n.answerVote c req).2, a.answered = none := by
  unfold answerVote
  dsimp only
  split_ifs <;> exact ⟨rfl, by simp [Action.answered]⟩

lemma accounts_handleVoteRequest (n : Node L) (c : ℕ) (req : VoteRequest) :
    Accounts (n.handleVoteRequest c req) n.pendingIds := by
  unfold handleVoteRequest
  split_ifs
  · obtain ⟨hpending, hquiet⟩ := (n.becomeFollower req.epoch none).answerVote_quiet c req
    exact accounts_of_quiet hpending (List.forall_mem_cons.mpr ⟨rfl, hquiet⟩)
  · exact accounts_of_quiet rfl (by simp [Action.answered])
  · obtain ⟨hpending, hquiet⟩ := n.answerVote_quiet c req
    exact accounts_of_quiet hpending hquiet

omit [RaftLog L] in
lemma accounts_handleVoteResponse (n : Node L) (c : ℕ) (resp : VoteResponse) :
    Accounts (n.handleVoteResponse c resp) n.pendingIds := by
  unfold handleVoteResponse
  dsimp only
  split_ifs
  · exact accounts_of_quiet rfl (by simp [Action.answered])
  · exact accounts_of_quiet rfl (by simp)
  · exact accounts_of_quiet rfl (by simp [Action.answered])
  · exact accounts_of_quiet rfl (by simp)
  · exact accounts_of_quiet rfl (by simp)

omit [RaftLog L] in
lemma accounts_handleBeginQuorumEpoch (n : Node L) (req : BeginQuorumEpochRequest) :
    Accounts (n.handleBeginQuorumEpoch req) n.pendingIds := by
  unfold handleBeginQuorumEpoch
  split_ifs
  · have hrejected := accounts_rejectPendingProposes
      (n.becomeFollower req.epoch (some req.leaderId))
    exact hrejected
  · exact accounts_of_quiet rfl (by simp)

omit [RaftLog L] in
lemma accounts_handleEndQuorumEpoch (n : Node L) (req : EndQuorumEpochRequest) :
    Accounts (n.handleEndQuorumEpoch req) n.pendingIds := by
  unfold handleEndQuorumEpoch
  split_ifs
  · exact accounts_rejectPendingProposes (n.becomeFollower req.epoch none)
  · exact accounts_of_quiet rfl (by simp)

lemma accounts_handleFetchRequest (n : Node L) (c : ℕ) (req : FetchRequest) :
    Accounts (n.handleFetchRequest c req) n.pendingIds := by
  by_cases hlt : n.currentEpoch < req.epoch
  · rw [handleFetchRequest, if_pos hlt]
    exact accounts_of_quiet rfl (by simp [Action.answered])
  by_cases hgt : req.epoch < n.currentEpoch
  · rw [handleFetchRequest, if_neg hlt, if_pos hgt]
    exact accounts_of_quiet rfl (by simp [Action.answered])
  by_cases hrole : n.role ≠ .leader
  · rw [handleFetchRequest, if_neg hlt, if_neg hgt, if_pos hrole]
    exact accounts_of_quiet rfl (by simp [Action.answered])
  cases hdiv : n.checkDivergence req.fetchOffset req.lastFetchedEpoch with
  | some d =>
    rw [handleFetchRequest, if_neg hlt, if_neg hgt, if_neg hrole, hdiv]
    exact accounts_of_quiet rfl (by simp [Action.answered])
  | none =>
    have hpending : (n.credited c req.fetchOffset).pendingIds = n.pendingIds := by
      rw [credited_eq, pendingIds, pendingIds]
    have hserved := accounts_tryAdvanceHighWatermark (n.credited c req.fetchOffset)
    rw [handleFetchRequest_serves (by omega) (not_not.mp hrole) hdiv]
    rw [hpending] at hserved
    exact hserved

lemma accounts_handleFetchResponse (n : Node L) (resp : FetchResponse) :
    Accounts (n.handleFetchResponse resp) n.pendingIds := by
  unfold handleFetchResponse
  by_cases hlt : n.currentEpoch < resp.epoch
  · rw [if_pos hlt]
    exact accounts_rejectPendingProposes (n.becomeFollower resp.epoch none)
  rw [if_neg hlt]
  by_cases hrole : n.role ≠ .follower
  · rw [if_pos hrole]
    exact accounts_of_quiet rfl (by simp)
  rw [if_neg hrole]
  cases resp.diverging with
  | some d => exact accounts_of_quiet rfl (by simp [Action.answered])
  | none =>
    have hquiet : ∀ a ∈ resp.entries.map Action.appendToLog, a.answered = none :=
      List.forall_mem_map.mpr fun _ _ => rfl
    dsimp only
    split_ifs
    · set hwm := min resp.highWatermark (RaftLog.logEndOffset n.log)
      have hcommitted := accounts_checkCommittedProposes { n with highWatermark := hwm }
      exact hcommitted.append
        (List.forall_mem_append.mpr ⟨hquiet, List.forall_mem_singleton.mpr rfl⟩)
        (List.forall_mem_singleton.mpr rfl)
    · exact accounts_of_quiet rfl
        (List.forall_mem_append.mpr ⟨hquiet, List.forall_mem_singleton.mpr rfl⟩)

/-- What is pending before an event, and what it proposes, is answered or pending afterwards. -/
theorem accounts_handle (n : Node L) (ev : Event) :
    Accounts (n.handle ev) (n.pendingIds ++ ev.proposed) := by
  cases ev with
  | propose data proposeId =>
    change Accounts (n.handlePropose data proposeId) _
    unfold handlePropose
    split_ifs
    · exact .refl _
    · rw [Accounts, pendingIds, List.map_append]
      exact .of_eq (List.append_nil _)
  | electionTimeout =>
    exact (accounts_handleElectionTimeout n).append_nil
  | heartbeatTimeout =>
    exact (accounts_handleHeartbeatTimeout n).append_nil
  | voteRequest c req =>
    exact (accounts_handleVoteRequest n c req).append_nil
  | voteResponse c resp =>
    exact (accounts_handleVoteResponse n c resp).append_nil
  | beginQuorumEpoch c req =>
    exact (accounts_handleBeginQuorumEpoch n req).append_nil
  | endQuorumEpoch c req =>
    exact (accounts_handleEndQuorumEpoch n req).append_nil
  | fetchRequest c req =>
    exact (accounts_handleFetchRequest n c req).append_nil
  | fetchResponse c resp =>
    exact (accounts_handleFetchResponse n resp).append_nil

end Node

/-! ### One event -/

namespace ReplyRunner

variable {s : ReplyRunner L} {actions : List Action}

/-- An answer takes its reply out and changes nothing else. -/
lemma answer_of_mem {id : ℕ} (h : id ∈ s.pendingProposes) (result : ProposeResult) :
    ∃ reply, s.answer id result = { s with
      pendingProposes := s.pendingProposes.erase id
      answers := s.answers ++ [⟨id, reply, result⟩] } := by
  obtain ⟨reply, hreply⟩ := Option.isSome_iff_exists.mp (AList.lookup_isSome.mpr h)
  exact ⟨reply, by rw [answer, hreply]⟩

/-- What the second pass leaves when it finds all replies. -/
structure Notified (s : ReplyRunner L) (ids : List ℕ) (s' : ReplyRunner L) : Prop where
  node_eq : s'.node = s.node
  nextProposeId_eq : s'.nextProposeId = s.nextProposeId
  missed_eq : s'.missed = s.missed
  mem_iff : ∀ id, id ∈ s'.pendingProposes ↔ id ∈ s.pendingProposes ∧ id ∉ ids
  answers_eq : s'.answers.map Answer.proposeId = s.answers.map Answer.proposeId ++ ids

lemma notified_nil (s : ReplyRunner L) : s.Notified [] s where
  node_eq := rfl
  nextProposeId_eq := rfl
  missed_eq := rfl
  mem_iff _ := ⟨fun h => ⟨h, List.not_mem_nil⟩, fun h => h.1⟩
  answers_eq := (List.append_nil _).symm

lemma notified_answer {id : ℕ} (h : id ∈ s.pendingProposes) (result : ProposeResult) :
    s.Notified [id] (s.answer id result) := by
  obtain ⟨reply, heq⟩ := answer_of_mem h result
  rw [heq]
  refine ⟨rfl, rfl, rfl, fun id' => ?_, List.map_append⟩
  rw [AList.mem_erase, List.mem_singleton, and_comm]

lemma Notified.trans {s' s'' : ReplyRunner L} {ids ids' : List ℕ} (h : s.Notified ids s')
    (h' : s'.Notified ids' s'') : s.Notified (ids ++ ids') s'' where
  node_eq := h'.node_eq.trans h.node_eq
  nextProposeId_eq := h'.nextProposeId_eq.trans h.nextProposeId_eq
  missed_eq := h'.missed_eq.trans h.missed_eq
  mem_iff id := by
    rw [h'.mem_iff, h.mem_iff, List.mem_append, not_or, and_assoc]
  answers_eq := by
    rw [h'.answers_eq, h.answers_eq, List.append_assoc]

/-- The second pass answers the ids of its actions, if each waits and none comes twice. -/
lemma notified_foldl (hnodup : (actions.filterMap Action.answered).Nodup)
    (hmem : ∀ id ∈ actions.filterMap Action.answered, id ∈ s.pendingProposes) :
    s.Notified (actions.filterMap Action.answered) (actions.foldl notify s) := by
  induction actions generalizing s with
  | nil => exact notified_nil s
  | cons a actions ih =>
    cases ha : a.answered with
    | none =>
      have hnotify : s.notify a = s := by
        cases a <;> first | rfl | cases ha
      rw [List.filterMap_cons_none ha] at hnodup hmem ⊢
      rw [List.foldl_cons, hnotify]
      exact ih hnodup hmem
    | some id =>
      have hnotify : ∃ result, s.notify a = s.answer id result := by
        cases a <;> cases ha
        · exact ⟨.ok, rfl⟩
        · exact ⟨.notLeader, rfl⟩
      obtain ⟨result, hnotify⟩ := hnotify
      rw [List.filterMap_cons_some ha, List.nodup_cons] at hnodup
      rw [List.filterMap_cons_some ha, List.forall_mem_cons] at hmem
      have hfirst := notified_answer hmem.1 result
      rw [List.filterMap_cons_some ha, List.foldl_cons, hnotify]
      refine hfirst.trans (ih hnodup.2 fun id' hid' => (hfirst.mem_iff id').mpr ⟨hmem.2 id' hid', ?_⟩)
      rintro hmem'
      obtain rfl := List.mem_singleton.mp hmem'
      exact hnodup.1 hid'

/-- The replies that wait are those of `ids`. Between two events these are the ids that the node
keeps, and before an event also what it proposes. -/
structure InStep (s : ReplyRunner L) (ids : List ℕ) : Prop where
  mem_iff : ∀ id, id ∈ s.pendingProposes ↔ id ∈ ids
  nodup : ids.Nodup
  lt : ∀ id ∈ ids, id < s.nextProposeId
  missed_eq : s.missed = []
  answered_nodup : (s.answers.map Answer.proposeId).Nodup
  answered_lt : ∀ id ∈ s.answers.map Answer.proposeId, id < s.nextProposeId ∧ id ∉ ids

lemma inStep_spawn (id : ℕ) (voters : List ℕ) (log : L) (quorumFile : QuorumState) :
    InStep (spawn id voters log quorumFile) [] where
  mem_iff _ := ⟨fun h => absurd h (AList.notMem_empty _), fun h => absurd h List.not_mem_nil⟩
  nodup := List.nodup_nil
  lt _ h := absurd h List.not_mem_nil
  missed_eq := rfl
  answered_nodup := List.nodup_nil
  answered_lt _ h := absurd h List.not_mem_nil

/-- An event that proposes nothing needs no reply. -/
lemma InStep.ready (h : InStep s s.node.pendingIds) (ev : Event) (hev : ev.proposed = []) :
    InStep s (s.node.pendingIds ++ ev.proposed) := by
  rwa [hev, List.append_nil]

/-- The reply of a proposal is put under the next id before the node hears of it. -/
lemma InStep.ready_propose (h : InStep s s.node.pendingIds) (data : List UInt8) (reply : ℕ) :
    InStep (s.inputToEvent (.propose data reply)).1
      ((s.inputToEvent (.propose data reply)).1.node.pendingIds ++
        (s.inputToEvent (.propose data reply)).2.proposed) where
  mem_iff id := by
    change id ∈ s.pendingProposes.insert s.nextProposeId reply ↔
      id ∈ s.node.pendingIds ++ [s.nextProposeId]
    rw [AList.mem_insert, h.mem_iff, List.mem_append, List.mem_singleton, or_comm]
  nodup := by
    refine List.nodup_append.mpr ⟨h.nodup, List.nodup_singleton _, fun id hid id' hid' => ?_⟩
    obtain rfl := List.mem_singleton.mp hid'
    exact (h.lt id hid).ne
  lt id hid := by
    rcases List.mem_append.mp hid with hid | hid
    · exact Nat.lt_succ_of_lt (h.lt id hid)
    · obtain rfl := List.mem_singleton.mp hid
      exact Nat.lt_succ_self _
  missed_eq := h.missed_eq
  answered_nodup := h.answered_nodup
  answered_lt id hid := by
    obtain ⟨hlt, hnot⟩ := h.answered_lt id hid
    refine ⟨Nat.lt_succ_of_lt hlt, fun hmem => ?_⟩
    rcases List.mem_append.mp hmem with hmem | hmem
    · exact hnot hmem
    · exact absurd (List.mem_singleton.mp hmem) hlt.ne

variable [RaftLog L]

lemma persistPass_pendingProposes (x : Node L × QuorumState) (actions : List Action) :
    (persistPass x actions).1.pendingProposes = x.1.pendingProposes := by
  induction actions generalizing x with
  | nil => rfl
  | cons a actions ih =>
    have ha : (persistAction x a).1.pendingProposes = x.1.pendingProposes := by
      cases a <;> rfl
    rw [persistPass_cons, ih, ha]

/-- Handling an event and executing the actions brings runner and node back in step. -/
lemma InStep.react {ev : Event} (h : InStep s (s.node.pendingIds ++ ev.proposed)) :
    InStep (s.react ev) (s.react ev).node.pendingIds := by
  have haccounts := s.node.accounts_handle ev
  set node := (s.node.handle ev).1 with hnode
  set actions := (s.node.handle ev).2 with hactions
  set ids := actions.filterMap Action.answered with hids
  have hperm : (node.pendingIds ++ ids).Perm (s.node.pendingIds ++ ev.proposed) := haccounts
  have hnodup : (node.pendingIds ++ ids).Nodup := hperm.nodup_iff.mpr h.nodup
  obtain ⟨hkept, hanswered, hdisjoint⟩ := List.nodup_append.mp hnodup
  -- the second pass starts with the state that the first pass leaves
  set persisted : ReplyRunner L := { s with
    node := (persistPass (node, s.quorumFile) actions).1
    quorumFile := (persistPass (node, s.quorumFile) actions).2 } with hpersisted
  have hpending : persisted.node.pendingIds = node.pendingIds := by
    rw [Node.pendingIds, Node.pendingIds, hpersisted, persistPass_pendingProposes]
  have hnotified : persisted.Notified ids (s.react ev) := by
    refine notified_foldl hanswered fun id hid => ?_
    exact (h.mem_iff id).mpr (hperm.mem_iff.mp (List.mem_append_right _ hid))
  have hids : (s.react ev).node.pendingIds = node.pendingIds := by
    rw [hnotified.node_eq, hpending]
  constructor
  · intro id
    have hwaits := (h.mem_iff id).trans hperm.mem_iff.symm
    rw [hids, hnotified.mem_iff]
    constructor
    · rintro ⟨hmem, hnot⟩
      exact (List.mem_append.mp (hwaits.mp hmem)).resolve_right hnot
    · intro hmem
      exact ⟨hwaits.mpr (List.mem_append_left _ hmem), fun hid => hdisjoint id hmem id hid rfl⟩
  · rw [hids]
    exact hkept
  · intro id hid
    rw [hids] at hid
    rw [hnotified.nextProposeId_eq]
    exact h.lt id (hperm.mem_iff.mp (List.mem_append_left _ hid))
  · rw [hnotified.missed_eq]
    exact h.missed_eq
  · rw [hnotified.answers_eq]
    refine List.nodup_append.mpr ⟨h.answered_nodup, hanswered, fun id hid id' hid' heq => ?_⟩
    subst heq
    exact (h.answered_lt id hid).2 (hperm.mem_iff.mp (List.mem_append_right _ hid'))
  · intro id hid
    rw [hnotified.answers_eq] at hid
    rw [hnotified.nextProposeId_eq, hids]
    rcases List.mem_append.mp hid with hid | hid
    · obtain ⟨hlt, hnot⟩ := h.answered_lt id hid
      exact ⟨hlt, fun hmem => hnot (hperm.mem_iff.mp (List.mem_append_left _ hmem))⟩
    · exact ⟨h.lt id (hperm.mem_iff.mp (List.mem_append_right _ hid)),
        fun hmem => hdisjoint id hmem id hid rfl⟩

lemma proposed_toEvent (env : Envelope) : env.toEvent.proposed = [] := by
  obtain ⟨src, dst, message⟩ := env
  cases message <;> rfl

/-- Every turn of the loop keeps runner and node in step. -/
lemma InStep.step (h : InStep s s.node.pendingIds) (turn : RunnerTurn) :
    InStep (s.step turn) (s.step turn).node.pendingIds := by
  cases turn with
  | input input =>
    cases input with
    | networkEvent env => exact (h.ready _ (proposed_toEvent env)).react
    | propose data reply => exact (h.ready_propose data reply).react
  | electionTimeout => exact (h.ready .electionTimeout rfl).react
  | heartbeat => exact (h.ready .heartbeatTimeout rfl).react

/-- After every sequence of proposals, messages and timeouts: the ids that wait for a reply are
those pending in the node, where none occurs twice; every answer has found its reply; and no id
has been answered twice. -/
theorem inStep_of_run (id : ℕ) (voters : List ℕ) (log : L) (quorumFile : QuorumState)
    (turns : List RunnerTurn) :
    let s := Run.run step (spawn id voters log quorumFile) turns
    (∀ proposeId, proposeId ∈ s.pendingProposes ↔
      proposeId ∈ s.node.pendingProposes.map Prod.snd) ∧
    (s.node.pendingProposes.map Prod.snd).Nodup ∧ s.missed = [] ∧
    (s.answers.map Answer.proposeId).Nodup := by
  intro s
  have h : InStep s s.node.pendingIds :=
    Run.run_invariant' (P := fun s : ReplyRunner L => InStep s s.node.pendingIds)
      (fun _ turn h => h.step turn) (inStep_spawn id voters log quorumFile) turns
  exact ⟨h.mem_iff, h.nodup, h.missed_eq, h.answered_nodup⟩

end ReplyRunner

end Musil.Raft
