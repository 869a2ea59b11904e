import Musil.Raft.Steps

/-!
# What one event can do

`Reacts` lists, branch by branch, the node and the messages that one event leaves behind once its
runner has executed both passes. `Cluster.react_cases` says that there is nothing else. The
invariants of a cluster are proved from this list and never unfold a handler.
-/

namespace Musil.Raft

variable {L : Type*} [RaftLog L]

namespace Node

/-! ### The states a node moves to -/

omit [RaftLog L] in
/-- A candidate of the next epoch. -/
def standing (n : Node L) : Node L :=
  { n with
    currentEpoch := n.currentEpoch + 1
    role := .candidate
    votedFor := some n.id
    votesReceived := {n.id} }

omit [RaftLog L] in
/-- The node after it has seen a request of epoch `e`. -/
def joined (n : Node L) (e : ℕ) : Node L :=
  if n.currentEpoch < e then n.becomeFollower e none else n

omit [RaftLog L] in
/-- The node with one more vote. -/
def counting (n : Node L) (v : ℕ) : Node L :=
  { n with votesReceived := insert v n.votesReceived }

omit [RaftLog L] in
/-- The node with the proposals below `hwm` answered. -/
def committed (n : Node L) (hwm : ℕ) : Node L :=
  { n with
    highWatermark := hwm
    pendingProposes := n.pendingProposes.filter fun p => hwm ≤ p.1 }

omit [RaftLog L] in
/-- The node with a fetch offset noted for `v`. -/
def credited (n : Node L) (v offset : ℕ) : Node L :=
  if v ∈ n.voters then { n with voterFetchOffsets := n.voterFetchOffsets.insert v offset } else n

/-- The high watermark after a fetch response is adopted. -/
def adoptedHighWatermark (n : Node L) (resp : FetchResponse) : ℕ :=
  if n.highWatermark < resp.highWatermark then
    min resp.highWatermark (RaftLog.logEndOffset n.log)
  else n.highWatermark

/-- A follower with the entries of a fetch response appended. -/
def adopted (n : Node L) (resp : FetchResponse) : Node L :=
  { (if n.highWatermark < resp.highWatermark then n.committed (n.adoptedHighWatermark resp)
      else n) with log := resp.entries.foldl RaftLog.append n.log }

/-- The entries a leader sends from `offset` on. -/
def entriesFrom (n : Node L) (offset : ℕ) : List LogEntry :=
  RaftLog.entries n.log offset (RaftLog.logEndOffset n.log)

def proposed (n : Node L) (data : List UInt8) (proposeId : ℕ) : Node L :=
  { n with
    pendingProposes := n.pendingProposes ++ [(RaftLog.logEndOffset n.log, proposeId)]
    log := RaftLog.append n.log ⟨n.currentEpoch, RaftLog.logEndOffset n.log, data⟩ }

/-! ### Messages -/

/-- What a candidate asks the other voters. -/
def voteMessages (n : Node L) (i : ℕ) : List Envelope :=
  n.peers.map fun v => ⟨i, v, .vote
    ⟨n.currentEpoch, n.id, RaftLog.lastEpoch n.log, RaftLog.logEndOffset n.log⟩⟩

omit [RaftLog L] in
/-- What a new leader tells the other voters. -/
def beginMessages (n : Node L) (i : ℕ) : List Envelope :=
  n.peers.map fun v => ⟨i, v, .beginQuorumEpoch ⟨n.currentEpoch, n.id⟩⟩

def heartbeatMessages (n : Node L) (i : ℕ) : List Envelope :=
  n.peers.map fun v => ⟨i, v, .fetchResponse ⟨n.currentEpoch, n.highWatermark,
    n.entriesFrom ((n.voterFetchOffsets.lookup v).getD 0), none⟩⟩

/-! ### Closed forms of the helpers -/

omit [RaftLog L] in
lemma joined_log (n : Node L) (e : ℕ) : (n.joined e).log = n.log := by
  rw [joined]
  split_ifs <;> rfl

omit [RaftLog L] in
lemma joined_currentEpoch {n : Node L} {e : ℕ} (h : n.currentEpoch ≤ e) :
    (n.joined e).currentEpoch = e := by
  rw [joined]
  split_ifs with hlt
  · rfl
  · exact h.antisymm (Nat.not_lt.mp hlt)

omit [RaftLog L] in
lemma credited_eq (n : Node L) (v offset : ℕ) : n.credited v offset
    = { n with voterFetchOffsets := (n.credited v offset).voterFetchOffsets } := by
  rw [credited]
  split_ifs <;> rfl

omit [RaftLog L] in
/-- What is noted after a voter is credited was noted before, or is the voter's new offset. -/
lemma of_lookup_credited {n : Node L} {v offset w f : ℕ}
    (h : (n.credited v offset).voterFetchOffsets.lookup w = some f) :
    n.voterFetchOffsets.lookup w = some f ∨ w = v ∧ v ∈ n.voters ∧ f = offset := by
  rw [credited] at h
  split_ifs at h with hv
  · rcases eq_or_ne w v with rfl | hwv
    · rw [AList.lookup_insert, Option.some.injEq] at h
      exact .inr ⟨rfl, hv, h.symm⟩
    · rw [AList.lookup_insert_ne hwv] at h
      exact .inl h
  · exact .inl h

omit [RaftLog L] in
lemma checkCommittedProposes_fst (n : Node L) (hwm : ℕ) :
    ({ n with highWatermark := hwm }.checkCommittedProposes).1 = n.committed hwm := by
  simp only [checkCommittedProposes, splitCommitted_fst, committed]

omit [RaftLog L] in
lemma checkCommittedProposes_notice (n : Node L) :
    ∀ a ∈ n.checkCommittedProposes.2, a.IsNotice := by
  intro a ha
  simp only [checkCommittedProposes, splitCommitted_snd, List.mem_map] at ha
  obtain ⟨p, -, rfl⟩ := ha
  trivial

omit [RaftLog L] in
lemma rejectPendingProposes_notice (n : Node L) :
    ∀ a ∈ n.rejectPendingProposes.2, a.IsNotice := by
  intro a ha
  obtain ⟨p, -, rfl⟩ := List.mem_map.mp ha
  trivial

omit [RaftLog L] in
/-- A new leader has noted every other voter at offset zero. -/
lemma lookup_becomeLeader (n : Node L) (v : ℕ) :
    n.becomeLeader.1.voterFetchOffsets.lookup v = if v ∈ n.peers then some 0 else none := by
  have key (vs : List ℕ) (m : AList fun _ : ℕ => ℕ) :
      (vs.foldl (fun m v => m.insert v 0) m).lookup v
        = if v ∈ vs then some 0 else m.lookup v := by
    induction vs generalizing m with
    | nil => rfl
    | cons x vs ih =>
      rw [List.foldl_cons, ih]
      by_cases hv : v ∈ vs
      · rw [if_pos hv, if_pos (List.mem_cons_of_mem _ hv)]
      · rcases eq_or_ne v x with rfl | hvx
        · rw [if_neg hv, if_pos List.mem_cons_self, AList.lookup_insert]
        · rw [if_neg hv, if_neg (List.not_mem_cons_of_ne_of_not_mem hvx hv),
            AList.lookup_insert_ne hvx]
  exact (key n.peers ∅).trans (by rw [AList.lookup_empty])

omit [RaftLog L] in
lemma of_lookup_becomeLeader {n : Node L} {v f : ℕ}
    (h : n.becomeLeader.1.voterFetchOffsets.lookup v = some f) : v ∈ n.peers ∧ f = 0 := by
  rw [lookup_becomeLeader] at h
  split_ifs at h with hv
  exact ⟨hv, (Option.some.inj h).symm⟩

/-- The watermark either stays or moves to the offset a majority has reached. -/
lemma tryAdvanceHighWatermark_cases (n : Node L) :
    n.tryAdvanceHighWatermark = (n, []) ∨
      ∃ hwm, n.highWatermark < hwm ∧ n.majority ≤ n.replicaOffsets.length ∧
        hwm = n.replicaOffsets.getD (n.majority - 1) 0 ∧
        (∀ e, RaftLog.epochAt n.log (hwm - 1) = some e → e = n.currentEpoch) ∧
        n.tryAdvanceHighWatermark = (n.committed hwm,
          .advanceHighWatermark hwm :: ({ n with highWatermark := hwm }.checkCommittedProposes).2) := by
  unfold tryAdvanceHighWatermark
  dsimp only
  split_ifs with hlen hle hep
  · exact .inl rfl
  · exact .inl rfl
  · exact .inl rfl
  · refine .inr ⟨_, Nat.not_le.mp hle, Nat.not_lt.mp hlen, rfl, fun e he => ?_, ?_⟩
    · rw [he] at hep
      simpa using hep
    · rw [← checkCommittedProposes_fst]

lemma tryAdvanceHighWatermark_notice (n : Node L) :
    ∀ a ∈ n.tryAdvanceHighWatermark.2, a.IsNotice := by
  rcases n.tryAdvanceHighWatermark_cases with h | ⟨hwm, -, -, -, -, h⟩
  · simp [h]
  · rw [h]
    intro a ha
    rcases List.mem_cons.mp ha with rfl | ha
    · trivial
    · exact checkCommittedProposes_notice _ a ha

/-- Serving a fetch request changes nothing but offsets, watermark and pending proposals. -/
lemma served_eq (n : Node L) (v offset : ℕ) : ∃ hwm pending,
    (n.credited v offset).tryAdvanceHighWatermark.1 = { n with
      voterFetchOffsets := (n.credited v offset).voterFetchOffsets
      highWatermark := hwm
      pendingProposes := pending } := by
  rcases (n.credited v offset).tryAdvanceHighWatermark_cases with h | ⟨hwm, -, -, -, -, h⟩
  · rw [h, credited_eq]
    exact ⟨n.highWatermark, n.pendingProposes, rfl⟩
  · rw [h, credited_eq]
    exact ⟨hwm, _, rfl⟩

/-- The branch of `handle_fetch_request` that serves entries. -/
lemma handleFetchRequest_serves {n : Node L} {c : ℕ} {req : FetchRequest}
    (hepoch : req.epoch = n.currentEpoch) (hrole : n.role = .leader)
    (hdiv : n.checkDivergence req.fetchOffset req.lastFetchedEpoch = none) :
    n.handleFetchRequest c req = ((n.credited c req.fetchOffset).tryAdvanceHighWatermark.1,
      .sendFetchResponse c
        ⟨n.currentEpoch, n.highWatermark, n.entriesFrom req.fetchOffset, none⟩ ::
        (n.credited c req.fetchOffset).tryAdvanceHighWatermark.2) := by
  unfold handleFetchRequest
  rw [if_neg (by omega), if_neg (by omega), if_neg (by simp [hrole]), hdiv]
  rfl

end Node

/-! ### The branches of `Node::handle` -/

/-- `Reacts i n ev n' out`: on `ev` node `i` goes from `n` to `n'` and sends `out`. -/
inductive Reacts (i : ℕ) (n : Node L) : Event → Node L → List Envelope → Prop where
  | ignores (ev : Event) : Reacts i n ev n []
  | stands (hrole : n.role ≠ .leader) (hmaj : ¬ n.majority ≤ 1) :
      Reacts i n .electionTimeout n.standing (n.standing.voteMessages i)
  | standsAlone (hrole : n.role ≠ .leader) (hmaj : n.majority ≤ 1) :
      Reacts i n .electionTimeout n.standing.becomeLeader.1 (n.standing.beginMessages i)
  | heartbeats (hrole : n.role = .leader) :
      Reacts i n .heartbeatTimeout n (n.heartbeatMessages i)
  | deniesStale (c : ℕ) (req : VoteRequest) (hepoch : req.epoch < n.currentEpoch) :
      Reacts i n (.voteRequest c req) n [⟨i, c, .voteResponse ⟨n.currentEpoch, false⟩⟩]
  | denies (c : ℕ) (req : VoteRequest) (hepoch : n.currentEpoch ≤ req.epoch) :
      Reacts i n (.voteRequest c req) (n.joined req.epoch)
        [⟨i, c, .voteResponse ⟨req.epoch, false⟩⟩]
  | grants (c : ℕ) (req : VoteRequest) (hepoch : n.currentEpoch ≤ req.epoch)
      (hvote : (n.joined req.epoch).votedFor = none ∨ (n.joined req.epoch).votedFor = some c)
      (hlog : n.isLogUpToDate req.lastLogEpoch req.lastLogOffset = true) :
      Reacts i n (.voteRequest c req) { n.joined req.epoch with votedFor := some c }
        [⟨i, c, .voteResponse ⟨req.epoch, true⟩⟩]
  | outvoted (c : ℕ) (resp : VoteResponse) (hepoch : n.currentEpoch < resp.epoch) :
      Reacts i n (.voteResponse c resp) (n.becomeFollower resp.epoch none) []
  | counts (c : ℕ) (hrole : n.role = .candidate)
      (hmaj : ¬ n.majority ≤ (insert c n.votesReceived).card) :
      Reacts i n (.voteResponse c ⟨n.currentEpoch, true⟩) (n.counting c) []
  | wins (c : ℕ) (hrole : n.role = .candidate)
      (hmaj : n.majority ≤ (insert c n.votesReceived).card) :
      Reacts i n (.voteResponse c ⟨n.currentEpoch, true⟩) (n.counting c).becomeLeader.1
        ((n.counting c).beginMessages i)
  | follows (c : ℕ) (req : BeginQuorumEpochRequest) (hepoch : n.currentEpoch ≤ req.epoch) :
      Reacts i n (.beginQuorumEpoch c req)
        { n.becomeFollower req.epoch (some req.leaderId) with pendingProposes := [] } []
  | released (c : ℕ) (req : EndQuorumEpochRequest) (hepoch : n.currentEpoch ≤ req.epoch) :
      Reacts i n (.endQuorumEpoch c req)
        { n.becomeFollower req.epoch none with pendingProposes := [] } []
  | overtaken (c : ℕ) (req : FetchRequest) (hepoch : n.currentEpoch < req.epoch) :
      Reacts i n (.fetchRequest c req) (n.becomeFollower req.epoch none)
        [⟨i, c, .fetchResponse ⟨req.epoch, n.highWatermark, [], none⟩⟩]
  | answersEmpty (c : ℕ) (req : FetchRequest) (hepoch : req.epoch ≤ n.currentEpoch)
      (hrole : req.epoch = n.currentEpoch → n.role ≠ .leader) :
      Reacts i n (.fetchRequest c req) n
        [⟨i, c, .fetchResponse ⟨n.currentEpoch, n.highWatermark, [], none⟩⟩]
  | diverges (c : ℕ) (req : FetchRequest) (d : Diverging) (hepoch : req.epoch = n.currentEpoch)
      (hrole : n.role = .leader)
      (hdiv : n.checkDivergence req.fetchOffset req.lastFetchedEpoch = some d) :
      Reacts i n (.fetchRequest c req) n
        [⟨i, c, .fetchResponse ⟨n.currentEpoch, n.highWatermark, [], some d⟩⟩]
  | serves (c : ℕ) (req : FetchRequest) (hepoch : req.epoch = n.currentEpoch)
      (hrole : n.role = .leader)
      (hdiv : n.checkDivergence req.fetchOffset req.lastFetchedEpoch = none) :
      Reacts i n (.fetchRequest c req) (n.credited c req.fetchOffset).tryAdvanceHighWatermark.1
        [⟨i, c, .fetchResponse
          ⟨n.currentEpoch, n.highWatermark, n.entriesFrom req.fetchOffset, none⟩⟩]
  | superseded (c : ℕ) (resp : FetchResponse) (hepoch : n.currentEpoch < resp.epoch) :
      Reacts i n (.fetchResponse c resp)
        { n.becomeFollower resp.epoch none with pendingProposes := [] } []
  | truncates (c : ℕ) (resp : FetchResponse) (d : Diverging)
      (hepoch : resp.epoch ≤ n.currentEpoch) (hrole : n.role = .follower)
      (hdiv : resp.diverging = some d) :
      Reacts i n (.fetchResponse c resp)
        { n with log := RaftLog.truncate n.log d.endOffset } []
  | appends (c : ℕ) (resp : FetchResponse) (hepoch : resp.epoch ≤ n.currentEpoch)
      (hrole : n.role = .follower) (hdiv : resp.diverging = none) :
      Reacts i n (.fetchResponse c resp) (n.adopted resp) []
  | proposes (data : List UInt8) (proposeId : ℕ) (hrole : n.role = .leader) :
      Reacts i n (.propose data proposeId) (n.proposed data proposeId) []

/-- Executing the actions of `r` takes the node and its file where `Reacts` says. -/
def Reaches (i : ℕ) (n : Node L) (ev : Event) (r : Node L × List Action) : Prop :=
  ∃ n', Reacts i n ev n' (sendPass i r.2) ∧
    persistPass (r.1, n.quorumState) r.2 = (n', n'.quorumState)

section Handlers

variable (i : ℕ) (n : Node L)

lemma reaches_nil (ev : Event) : Reaches i n ev (n, []) :=
  ⟨n, .ignores ev, rfl⟩

lemma handleElectionTimeout_reaches :
    Reaches i n .electionTimeout n.handleElectionTimeout := by
  unfold Node.handleElectionTimeout
  split_ifs with hrole
  · exact reaches_nil i n _
  dsimp only
  split_ifs with hmaj
  · refine ⟨n.standing.becomeLeader.1, ?_, rfl⟩
    have hout : sendPass i ([Action.persistQuorumState, .resetElectionTimer] ++
        n.standing.becomeLeader.2) = n.standing.beginMessages i := by
      simp [Node.becomeLeader, Action.sends, Node.beginMessages]
    exact hout ▸ .standsAlone hrole (by simpa [Node.majority] using hmaj)
  · refine ⟨n.standing, ?_, ?_⟩
    · have hout : ∀ req, sendPass i ([Action.persistQuorumState, .resetElectionTimer] ++
          n.standing.peers.map fun v => .sendVote v req)
          = n.standing.peers.map fun v => ⟨i, v, .vote req⟩ := by
        intro req
        rw [sendPass_append, sendPass_map i fun v => rfl]
        rfl
      exact (hout _) ▸ .stands hrole (by simpa [Node.majority] using hmaj)
    · rw [persistPass_append, persistPass_of_volatile]
      · rfl
      · intro a ha
        obtain ⟨v, -, rfl⟩ := List.mem_map.mp ha
        trivial

lemma handleHeartbeatTimeout_reaches :
    Reaches i n .heartbeatTimeout n.handleHeartbeatTimeout := by
  unfold Node.handleHeartbeatTimeout
  split_ifs with hrole
  · exact reaches_nil i n _
  · refine ⟨n, ?_, persistPass_of_volatile _ fun a ha => ?_⟩
    · have hout : sendPass i (.resetHeartbeatTimer :: n.peers.map fun v =>
          .sendFetchResponse v ⟨n.currentEpoch, n.highWatermark,
            n.entriesFrom ((n.voterFetchOffsets.lookup v).getD 0), none⟩)
          = n.heartbeatMessages i := by
        rw [sendPass_cons, sendPass_map i fun v => rfl]
        rfl
      exact hout ▸ .heartbeats (not_not.mp hrole)
    · rcases List.mem_cons.mp ha with rfl | ha
      · trivial
      · obtain ⟨v, -, rfl⟩ := List.mem_map.mp ha
        trivial

lemma answerVote_reaches (c : ℕ) (req : VoteRequest) (hepoch : n.currentEpoch ≤ req.epoch)
    (as : List Action) (has : ∀ a ∈ as, a = .persistQuorumState)
    (hfile : persistPass (n.joined req.epoch, n.quorumState) as
      = (n.joined req.epoch, (n.joined req.epoch).quorumState)) :
    Reaches i n (.voteRequest c req) (((n.joined req.epoch).answerVote c req).1,
      as ++ ((n.joined req.epoch).answerVote c req).2) := by
  have hcur := Node.joined_currentEpoch hepoch
  have hlog : (n.joined req.epoch).isLogUpToDate = n.isLogUpToDate := by
    unfold Node.joined
    split_ifs <;> rfl
  have hsilent : sendPass i as = [] := by
    refine List.flatMap_eq_nil_iff.mpr fun a ha => ?_
    rw [has a ha]
    rfl
  unfold Node.answerVote
  dsimp only
  split_ifs with hvote
  · refine ⟨{ n.joined req.epoch with votedFor := some c }, ?_, ?_⟩
    · have hout : sendPass i (as ++ [.persistQuorumState, .resetElectionTimer,
          .sendVoteResponse c ⟨(n.joined req.epoch).currentEpoch, true⟩])
          = [⟨i, c, .voteResponse ⟨req.epoch, true⟩⟩] := by
        simp [Action.sends, hsilent, hcur]
      exact hout ▸ .grants c req hepoch hvote.1 (hlog ▸ hvote.2)
    · have hkeep : ∀ (m : Node L) (q : QuorumState), (persistPass (m, q) as).1 = m := by
        intro m q
        clear hsilent hfile
        induction as generalizing q with
        | nil => rfl
        | cons a as ih =>
          rw [has a List.mem_cons_self, persistPass_cons]
          exact ih (fun b hb => has b (List.mem_cons_of_mem _ hb)) _
      rw [persistPass_append]
      simp [persistAction, hkeep]
  · refine ⟨n.joined req.epoch, ?_, ?_⟩
    · have hout : sendPass i (as ++
          [.sendVoteResponse c ⟨(n.joined req.epoch).currentEpoch, false⟩])
          = [⟨i, c, .voteResponse ⟨req.epoch, false⟩⟩] := by
        simp [Action.sends, hsilent, hcur]
      exact hout ▸ .denies c req hepoch
    · rw [persistPass_append, hfile]
      rfl

lemma handleVoteRequest_reaches (c : ℕ) (req : VoteRequest) :
    Reaches i n (.voteRequest c req) (n.handleVoteRequest c req) := by
  unfold Node.handleVoteRequest
  split_ifs with hlt hgt
  · have hj : n.joined req.epoch = n.becomeFollower req.epoch none := if_pos hlt
    have := answerVote_reaches i n c req hlt.le [.persistQuorumState] (by simp)
      (by rw [hj]; rfl)
    rwa [hj] at this
  · exact ⟨n, .deniesStale c req hgt, rfl⟩
  · have hj : n.joined req.epoch = n := if_neg hlt
    have := answerVote_reaches i n c req (Nat.not_lt.mp hgt) [] (by simp)
      (by rw [hj]; rfl)
    rwa [hj] at this

lemma handleVoteResponse_reaches (c : ℕ) (resp : VoteResponse) :
    Reaches i n (.voteResponse c resp) (n.handleVoteResponse c resp) := by
  unfold Node.handleVoteResponse
  split_ifs with hlt hrole hgranted
  · exact ⟨n.becomeFollower resp.epoch none, .outvoted c resp hlt, rfl⟩
  · exact reaches_nil i n _
  · push Not at hrole
    obtain ⟨e, g⟩ := resp
    obtain ⟨hcand, rfl⟩ := hrole
    obtain rfl : g = true := hgranted
    dsimp only
    split_ifs with hmaj
    · refine ⟨(n.counting c).becomeLeader.1, ?_, rfl⟩
      have hout : sendPass i (n.counting c).becomeLeader.2 = (n.counting c).beginMessages i := by
        simp [Node.becomeLeader, Action.sends, Node.beginMessages]
      exact hout ▸ .wins c hcand hmaj
    · exact ⟨n.counting c, .counts c hcand hmaj, rfl⟩
  · exact reaches_nil i n _

lemma handleBeginQuorumEpoch_reaches (c : ℕ) (req : BeginQuorumEpochRequest) :
    Reaches i n (.beginQuorumEpoch c req) (n.handleBeginQuorumEpoch req) := by
  unfold Node.handleBeginQuorumEpoch
  split_ifs with hle
  · have hnotice := Node.rejectPendingProposes_notice
      (n.becomeFollower req.epoch (some req.leaderId))
    refine ⟨{ n.becomeFollower req.epoch (some req.leaderId) with pendingProposes := [] }, ?_, ?_⟩
    · have hout : sendPass i ([Action.persistQuorumState, .resetElectionTimer] ++
          (n.becomeFollower req.epoch (some req.leaderId)).rejectPendingProposes.2) = [] := by
        rw [sendPass_append, sendPass_of_notice i hnotice]
        rfl
      exact hout ▸ .follows c req hle
    · rw [persistPass_append, persistPass_of_volatile _ fun a ha => (hnotice a ha).isVolatile]
      rfl
  · exact reaches_nil i n _

lemma handleEndQuorumEpoch_reaches (c : ℕ) (req : EndQuorumEpochRequest) :
    Reaches i n (.endQuorumEpoch c req) (n.handleEndQuorumEpoch req) := by
  unfold Node.handleEndQuorumEpoch
  split_ifs with hle
  · have hnotice := Node.rejectPendingProposes_notice (n.becomeFollower req.epoch none)
    refine ⟨{ n.becomeFollower req.epoch none with pendingProposes := [] }, ?_, ?_⟩
    · have hout : sendPass i ([Action.persistQuorumState, .resetElectionTimer] ++
          (n.becomeFollower req.epoch none).rejectPendingProposes.2) = [] := by
        rw [sendPass_append, sendPass_of_notice i hnotice]
        rfl
      exact hout ▸ .released c req hle
    · rw [persistPass_append, persistPass_of_volatile _ fun a ha => (hnotice a ha).isVolatile]
      rfl
  · exact reaches_nil i n _

lemma handleFetchRequest_reaches (c : ℕ) (req : FetchRequest) :
    Reaches i n (.fetchRequest c req) (n.handleFetchRequest c req) := by
  by_cases hlt : n.currentEpoch < req.epoch
  · rw [Node.handleFetchRequest, if_pos hlt]
    exact ⟨n.becomeFollower req.epoch none, .overtaken c req hlt, rfl⟩
  by_cases hgt : req.epoch < n.currentEpoch
  · rw [Node.handleFetchRequest, if_neg hlt, if_pos hgt]
    exact ⟨n, .answersEmpty c req hgt.le fun h => absurd h hgt.ne, rfl⟩
  by_cases hrole : n.role ≠ .leader
  · rw [Node.handleFetchRequest, if_neg hlt, if_neg hgt, if_pos hrole]
    exact ⟨n, .answersEmpty c req (Nat.not_lt.mp hlt) fun _ => hrole, rfl⟩
  have hepoch : req.epoch = n.currentEpoch :=
    (Nat.not_lt.mp hlt).antisymm (Nat.not_lt.mp hgt)
  cases hdiv : n.checkDivergence req.fetchOffset req.lastFetchedEpoch with
  | some d =>
    rw [Node.handleFetchRequest, if_neg hlt, if_neg hgt, if_neg hrole, hdiv]
    exact ⟨n, .diverges c req d hepoch (not_not.mp hrole) hdiv, rfl⟩
  | none =>
    rw [Node.handleFetchRequest_serves hepoch (not_not.mp hrole) hdiv]
    have hnotice := (n.credited c req.fetchOffset).tryAdvanceHighWatermark_notice
    have hkeep : (n.credited c req.fetchOffset).tryAdvanceHighWatermark.1.quorumState
        = n.quorumState := by
      obtain ⟨hwm, pending, hserved⟩ := n.served_eq c req.fetchOffset
      rw [hserved]
      rfl
    refine ⟨(n.credited c req.fetchOffset).tryAdvanceHighWatermark.1, ?_, ?_⟩
    · have hout := sendPass_of_notice i hnotice
      rw [sendPass_cons, hout]
      exact .serves c req hepoch (not_not.mp hrole) hdiv
    · rw [hkeep]
      refine persistPass_of_volatile _ fun a ha => ?_
      rcases List.mem_cons.mp ha with rfl | ha
      · trivial
      · exact (hnotice a ha).isVolatile

lemma handleFetchResponse_reaches (c : ℕ) (resp : FetchResponse) :
    Reaches i n (.fetchResponse c resp) (n.handleFetchResponse resp) := by
  unfold Node.handleFetchResponse
  by_cases hlt : n.currentEpoch < resp.epoch
  · rw [if_pos hlt]
    have hnotice := Node.rejectPendingProposes_notice (n.becomeFollower resp.epoch none)
    refine ⟨{ n.becomeFollower resp.epoch none with pendingProposes := [] }, ?_, ?_⟩
    · have hout : sendPass i (.persistQuorumState ::
          (n.becomeFollower resp.epoch none).rejectPendingProposes.2) = [] := by
        rw [sendPass_cons, sendPass_of_notice i hnotice]
        rfl
      exact hout ▸ .superseded c resp hlt
    · rw [persistPass_cons, persistPass_of_volatile _ fun a ha => (hnotice a ha).isVolatile]
      rfl
  rw [if_neg hlt]
  by_cases hrole : n.role ≠ .follower
  · rw [if_pos hrole]
    exact reaches_nil i n _
  rw [if_neg hrole]
  rw [not_not] at hrole
  have hle : resp.epoch ≤ n.currentEpoch := Nat.not_lt.mp hlt
  cases hdiv : resp.diverging with
  | some d => exact ⟨_, .truncates c resp d hle hrole hdiv, rfl⟩
  | none =>
    have hsilent : sendPass i (resp.entries.map Action.appendToLog) = [] := by
      simp [sendPass, Action.sends, List.flatMap_map]
    dsimp only
    by_cases hhw : n.highWatermark < resp.highWatermark
    · rw [if_pos hhw]
      set hwm := min resp.highWatermark (RaftLog.logEndOffset n.log) with hhwm
      have hnotice := Node.checkCommittedProposes_notice { n with highWatermark := hwm }
      refine ⟨n.adopted resp, ?_, ?_⟩
      · have hout : sendPass i (resp.entries.map Action.appendToLog ++
            [.advanceHighWatermark hwm] ++
            { n with highWatermark := hwm }.checkCommittedProposes.2 ++
            [.resetElectionTimer]) = [] := by
          simp only [sendPass_append, hsilent, sendPass_of_notice i hnotice]
          rfl
        exact hout ▸ .appends c resp hle hrole hdiv
      · simp only [persistPass_append, persistPass_map_append]
        rw [persistPass_of_volatile _ fun a ha => (hnotice a ha).isVolatile]
        simp [persistAction, Node.checkCommittedProposes_fst, Node.adopted,
          Node.adoptedHighWatermark, hhw, hhwm, Node.committed, Node.quorumState]
    · rw [if_neg hhw]
      refine ⟨n.adopted resp, ?_, ?_⟩
      · have hout : sendPass i (resp.entries.map Action.appendToLog ++
            [.resetElectionTimer]) = [] := by
          rw [sendPass_append, hsilent]
          rfl
        exact hout ▸ .appends c resp hle hrole hdiv
      · simp [persistPass_map_append, persistAction, Node.adopted, hhw, Node.quorumState]

lemma handlePropose_reaches (data : List UInt8) (proposeId : ℕ) :
    Reaches i n (.propose data proposeId) (n.handlePropose data proposeId) := by
  unfold Node.handlePropose
  split_ifs with hrole
  · exact ⟨n, .ignores _, rfl⟩
  · exact ⟨n.proposed data proposeId, .proposes data proposeId (not_not.mp hrole), rfl⟩

/-- Every event takes a node along one of the listed branches. -/
theorem handle_reaches (ev : Event) : Reaches i n ev (n.handle ev) := by
  cases ev with
  | electionTimeout => exact handleElectionTimeout_reaches i n
  | heartbeatTimeout => exact handleHeartbeatTimeout_reaches i n
  | voteRequest c req => exact handleVoteRequest_reaches i n c req
  | voteResponse c resp => exact handleVoteResponse_reaches i n c resp
  | beginQuorumEpoch c req => exact handleBeginQuorumEpoch_reaches i n c req
  | endQuorumEpoch c req => exact handleEndQuorumEpoch_reaches i n c req
  | fetchRequest c req => exact handleFetchRequest_reaches i n c req
  | fetchResponse c resp => exact handleFetchResponse_reaches i n c resp
  | propose data proposeId => exact handlePropose_reaches i n data proposeId

end Handlers

/-- What a reaction does to a cluster whose quorum-state file of node `i` is up to date. -/
theorem Cluster.react_cases {s : Cluster L} {i : ℕ} (hi : i ∈ s.voters)
    (hfile : s.quorumFile i = (s.nodes i).quorumState) (ev : Event) :
    ∃ n out, Reacts i (s.nodes i) ev n out ∧
      s.react i ev = (s.move i n).post out := by
  obtain ⟨n, hreacts, hpersist⟩ := handle_reaches i (s.nodes i) ev
  refine ⟨n, _, hreacts, ?_⟩
  rw [Cluster.react, if_pos hi, hfile, Cluster.move, ← Cluster.record_post]
  dsimp only
  rw [hpersist]

end Musil.Raft
