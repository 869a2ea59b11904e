import Musil.Lib.Run
import Musil.Raft.Node

/-!
# Messages of an earlier epoch

A message whose epoch is behind the node's own comes from a voter that has been overtaken. Five of
the six handlers let such a message do nothing: they drop it, or answer it with the node's own
epoch. The handler of fetch responses compares the epochs the other way only, so a follower still
obeys a leader that has been deposed.
-/

namespace Musil.Raft

variable {L : Type*}

/-- The epoch field of a message; timeouts and proposals have none. -/
def Event.epoch : Event → Option ℕ
  | .voteRequest _ req => some req.epoch
  | .voteResponse _ resp => some resp.epoch
  | .beginQuorumEpoch _ req => some req.epoch
  | .endQuorumEpoch _ req => some req.epoch
  | .fetchRequest _ req => some req.epoch
  | .fetchResponse _ resp => some resp.epoch
  | .electionTimeout | .heartbeatTimeout | .propose _ _ => none

/-- The event carries the answer to a fetch. -/
def Event.IsFetchResponse : Event → Prop
  | .fetchResponse _ _ => True
  | _ => False

namespace Node

/-- The event is a message of an epoch before the node's own. -/
def Stale (n : Node L) (ev : Event) : Prop :=
  ∃ e, ev.epoch = some e ∧ e < n.currentEpoch

/-- The action is a response that carries the node's own epoch and no entries. -/
def IsRefusal (n : Node L) : Action → Prop
  | .sendVoteResponse _ resp => resp.epoch = n.currentEpoch ∧ resp.granted = false
  | .sendFetchResponse _ resp => resp.epoch = n.currentEpoch ∧ resp.entries = []
  | _ => False

variable [RaftLog L]

/-- Handling the event leaves the node as it is, and at most refuses it. -/
def Inert (n : Node L) (ev : Event) : Prop :=
  (n.handle ev).1 = n
    ∧ ((n.handle ev).2 = [] ∨ ∃ a, (n.handle ev).2 = [a] ∧ n.IsRefusal a)

section Inert

variable {n : Node L} {ev : Event}

lemma inert_of_nil (h : n.handle ev = (n, [])) : n.Inert ev := by
  rw [Inert, h]
  exact ⟨rfl, Or.inl rfl⟩

lemma inert_of_refusal {a : Action} (h : n.handle ev = (n, [a])) (ha : n.IsRefusal a) :
    n.Inert ev := by
  rw [Inert, h]
  exact ⟨rfl, Or.inr ⟨a, rfl, ha⟩⟩

/-- What an inert event brings about is neither durable nor a notice for the runner. -/
lemma Inert.isRefusal (h : n.Inert ev) {a : Action} (ha : a ∈ (n.handle ev).2) :
    n.IsRefusal a := by
  rcases h.2 with hnil | ⟨b, hb, hrefusal⟩
  · rw [hnil] at ha
    cases ha
  · rw [hb, List.mem_singleton] at ha
    exact ha ▸ hrefusal

end Inert

/-! ### One handler after the other -/

section Handlers

variable {n : Node L}

lemma inert_voteRequest {sender : ℕ} {req : VoteRequest} (h : req.epoch < n.currentEpoch) :
    n.Inert (.voteRequest sender req) := by
  refine inert_of_refusal (a := .sendVoteResponse sender ⟨n.currentEpoch, false⟩) ?_ ⟨rfl, rfl⟩
  rw [handle, handleVoteRequest, if_neg (Nat.lt_asymm h), if_pos h]

lemma inert_voteResponse {sender : ℕ} {resp : VoteResponse} (h : resp.epoch < n.currentEpoch) :
    n.Inert (.voteResponse sender resp) := by
  apply inert_of_nil
  rw [handle, handleVoteResponse, if_neg (Nat.lt_asymm h), if_pos (Or.inr h.ne)]

lemma inert_beginQuorumEpoch {sender : ℕ} {req : BeginQuorumEpochRequest}
    (h : req.epoch < n.currentEpoch) : n.Inert (.beginQuorumEpoch sender req) := by
  apply inert_of_nil
  rw [handle, handleBeginQuorumEpoch, if_neg (Nat.not_le.mpr h)]

lemma inert_endQuorumEpoch {sender : ℕ} {req : EndQuorumEpochRequest}
    (h : req.epoch < n.currentEpoch) : n.Inert (.endQuorumEpoch sender req) := by
  apply inert_of_nil
  rw [handle, handleEndQuorumEpoch, if_neg (Nat.not_le.mpr h)]

lemma inert_fetchRequest {sender : ℕ} {req : FetchRequest} (h : req.epoch < n.currentEpoch) :
    n.Inert (.fetchRequest sender req) := by
  refine inert_of_refusal (a := .sendFetchResponse sender (n.emptyFetchResponse none)) ?_ ⟨rfl, rfl⟩
  rw [handle, handleFetchRequest, if_neg (Nat.lt_asymm h), if_pos h]

/-- A candidate and a leader drop every response to a fetch that is not of a later epoch. -/
lemma inert_fetchResponse {sender : ℕ} {resp : FetchResponse} (h : resp.epoch < n.currentEpoch)
    (hrole : n.role ≠ .follower) : n.Inert (.fetchResponse sender resp) := by
  apply inert_of_nil
  rw [handle, handleFetchResponse, if_neg (Nat.lt_asymm h), if_pos hrole]

/-- A follower either cuts its log or resets its timer, whatever the epoch of the response. -/
lemma exists_effect_fetchResponse {sender : ℕ} {resp : FetchResponse}
    (h : resp.epoch < n.currentEpoch) (hrole : n.role = .follower) :
    (∃ o, .truncateLog o ∈ (n.handle (.fetchResponse sender resp)).2)
      ∨ .resetElectionTimer ∈ (n.handle (.fetchResponse sender resp)).2 := by
  rw [handle, handleFetchResponse, if_neg (Nat.lt_asymm h), if_neg (not_not.mpr hrole)]
  cases resp.diverging with
  | some d => exact Or.inl ⟨d.endOffset, List.mem_singleton_self _⟩
  | none =>
    right
    dsimp only
    split_ifs
    · exact List.mem_append_right _ (List.mem_singleton_self _)
    · exact List.mem_append_right _ (List.mem_singleton_self _)

lemma not_inert_fetchResponse {sender : ℕ} {resp : FetchResponse}
    (h : resp.epoch < n.currentEpoch) (hrole : n.role = .follower) :
    ¬ n.Inert (.fetchResponse sender resp) := by
  intro hinert
  rcases exists_effect_fetchResponse h hrole with ⟨o, ho⟩ | hreset
  · exact hinert.isRefusal ho
  · exact hinert.isRefusal hreset

end Handlers

variable {n : Node L} {ev : Event}

lemma Stale.inert (h : n.Stale ev) (hev : ¬ (n.role = .follower ∧ ev.IsFetchResponse)) :
    n.Inert ev := by
  obtain ⟨e, hepoch, he⟩ := h
  cases ev with
  | electionTimeout => cases hepoch
  | heartbeatTimeout => cases hepoch
  | propose data proposeId => cases hepoch
  | voteRequest sender req =>
    cases hepoch
    exact inert_voteRequest he
  | voteResponse sender resp =>
    cases hepoch
    exact inert_voteResponse he
  | beginQuorumEpoch sender req =>
    cases hepoch
    exact inert_beginQuorumEpoch he
  | endQuorumEpoch sender req =>
    cases hepoch
    exact inert_endQuorumEpoch he
  | fetchRequest sender req =>
    cases hepoch
    exact inert_fetchRequest he
  | fetchResponse sender resp =>
    cases hepoch
    exact inert_fetchResponse he fun hrole => hev ⟨hrole, trivial⟩

/-- Any number of such messages leaves the node as it is. -/
theorem run_of_stale {evs : List Event}
    (h : ∀ ev ∈ evs, n.Stale ev ∧ ¬ (n.role = .follower ∧ ev.IsFetchResponse)) :
    Run.run (fun n ev => (n.handle ev).1) n evs = n := by
  induction evs with
  | nil => rfl
  | cons ev evs ih =>
    rw [List.forall_mem_cons] at h
    have hev : (n.handle ev).1 = n := (h.1.1.inert h.1.2).1
    change Run.run _ (n.handle ev).1 evs = n
    rw [hev]
    exact ih h.2

/-- A message of an earlier epoch is inert unless it is a fetch response that reaches a follower. -/
theorem inert_iff_of_stale (n : Node L) (ev : Event) (h : n.Stale ev) :
    n.Inert ev ↔ ¬ (n.role = .follower ∧ ev.IsFetchResponse) := by
  constructor
  · rintro hinert ⟨hrole, hresponse⟩
    obtain ⟨e, hepoch, he⟩ := h
    cases ev with
    | fetchResponse sender resp =>
      cases hepoch
      exact not_inert_fetchResponse he hrole hinert
    | _ => exact hresponse
  · exact h.inert

/-- A candidate of epoch 1 refuses a vote in epoch 0. -/
theorem inert_late_vote_request :
    let n := ((new 1 [1, 2, 3] .empty VecLog.new).handle .electionTimeout).1
    n.Inert (.voteRequest 2 ⟨0, 2, 0, 0⟩)
      ↔ ¬ (n.role = .follower ∧ (Event.voteRequest 2 ⟨0, 2, 0, 0⟩).IsFetchResponse) :=
  inert_iff_of_stale _ _ ⟨0, rfl, Nat.zero_lt_one⟩

/-- A follower of the leader of epoch 2 appends what the leader of epoch 1 still sends it. -/
theorem not_inert_deposed_leader :
    ∃ n : Node VecLog, ∃ ev : Event,
      n = ((new 3 [1, 2, 3] .empty VecLog.new).handle (.beginQuorumEpoch 2 ⟨2, 2⟩)).1
        ∧ ev = .fetchResponse 1 ⟨1, 0, [⟨1, 0, [7]⟩], none⟩
        ∧ n.Stale ev ∧ ¬ n.Inert ev
        ∧ (n.handle ev).2 = [.appendToLog ⟨1, 0, [7]⟩, .resetElectionTimer] := by
  refine ⟨_, _, rfl, rfl, ⟨1, rfl, Nat.one_lt_two⟩, fun h => ?_, rfl⟩
  exact h.isRefusal (a := .resetElectionTimer) (List.mem_cons_of_mem _ (List.mem_singleton_self _))

end Node

end Musil.Raft
