import Musil.Raft.Basic

/-!
# The node

`Node.handle` is the state machine of `crates/raft`: one handler per event, each returning the new
state and the actions for the runner. The log belongs to the node's state but no handler changes
it: appends and truncations are actions. An epoch is a natural number: that a `u32` epoch wraps is
not modelled.
-/

namespace Musil.Raft

variable {L : Type*}

structure Node (L : Type*) where
  id : ℕ
  voters : List ℕ
  log : L
  currentEpoch : ℕ
  votedFor : Option ℕ
  role : Role
  leaderId : Option ℕ
  votesReceived : Finset ℕ
  voterFetchOffsets : AList fun _ : ℕ => ℕ
  highWatermark : ℕ
  /-- Offsets of the entries waiting for a commit, with the id to answer. -/
  pendingProposes : List (ℕ × ℕ)

namespace Node

def new (id : ℕ) (voters : List ℕ) (qs : QuorumState) (log : L) : Node L where
  id := id
  voters := voters
  log := log
  currentEpoch := qs.currentEpoch
  votedFor := qs.votedFor
  role := .follower
  leaderId := none
  votesReceived := ∅
  voterFetchOffsets := ∅
  highWatermark := 0
  pendingProposes := []

def quorumState (n : Node L) : QuorumState :=
  ⟨n.currentEpoch, n.votedFor⟩

def majority (n : Node L) : ℕ :=
  n.voters.length / 2 + 1

/-- The vote is dropped whether or not `epoch` is a new one. -/
def becomeFollower (n : Node L) (epoch : ℕ) (leaderId : Option ℕ) : Node L :=
  { n with
    currentEpoch := epoch
    role := .follower
    leaderId := leaderId
    votedFor := none
    votesReceived := ∅ }

def rejectPendingProposes (n : Node L) : Node L × List Action :=
  ({ n with pendingProposes := [] }, n.pendingProposes.map fun p => .rejectPropose p.2)

/-- The other voters, in the order of the voter list. -/
def peers (n : Node L) : List ℕ :=
  n.voters.filter fun v => v ≠ n.id

/-! ### Elections -/

def becomeLeader (n : Node L) : Node L × List Action :=
  ({ n with
      role := .leader
      leaderId := some n.id
      voterFetchOffsets := n.peers.foldl (fun m v => m.insert v 0) ∅ },
    [.resetHeartbeatTimer, .sendBeginQuorumEpoch n.peers ⟨n.currentEpoch, n.id⟩])

variable [RaftLog L]

def isLogUpToDate (n : Node L) (candidateEpoch candidateOffset : ℕ) : Bool :=
  if candidateEpoch = RaftLog.lastEpoch n.log then
    RaftLog.logEndOffset n.log ≤ candidateOffset
  else
    RaftLog.lastEpoch n.log < candidateEpoch

def handleElectionTimeout (n : Node L) : Node L × List Action :=
  if n.role = .leader then (n, [])
  else
    let n := { n with
      currentEpoch := n.currentEpoch + 1
      role := .candidate
      votedFor := some n.id
      votesReceived := {n.id} }
    let actions := [Action.persistQuorumState, .resetElectionTimer]
    if n.majority ≤ n.votesReceived.card then
      let (n, won) := n.becomeLeader
      (n, actions ++ won)
    else
      let req : VoteRequest :=
        ⟨n.currentEpoch, n.id, RaftLog.lastEpoch n.log, RaftLog.logEndOffset n.log⟩
      (n, actions ++ n.peers.map fun v => .sendVote v req)

/-- The second half of `handle_vote_request`, where the request is of the node's own epoch. -/
def answerVote (n : Node L) (sender : ℕ) (req : VoteRequest) : Node L × List Action :=
  let canVote := n.votedFor = none ∨ n.votedFor = some sender
  if canVote ∧ n.isLogUpToDate req.lastLogEpoch req.lastLogOffset then
    ({ n with votedFor := some sender },
      [.persistQuorumState, .resetElectionTimer,
        .sendVoteResponse sender ⟨n.currentEpoch, true⟩])
  else
    (n, [.sendVoteResponse sender ⟨n.currentEpoch, false⟩])

def handleVoteRequest (n : Node L) (sender : ℕ) (req : VoteRequest) : Node L × List Action :=
  if n.currentEpoch < req.epoch then
    let (n, actions) := (n.becomeFollower req.epoch none).answerVote sender req
    (n, .persistQuorumState :: actions)
  else if req.epoch < n.currentEpoch then
    (n, [.sendVoteResponse sender ⟨n.currentEpoch, false⟩])
  else
    n.answerVote sender req

omit [RaftLog L] in
def handleVoteResponse (n : Node L) (sender : ℕ) (resp : VoteResponse) :
    Node L × List Action :=
  if n.currentEpoch < resp.epoch then
    (n.becomeFollower resp.epoch none, [.persistQuorumState])
  else if n.role ≠ .candidate ∨ resp.epoch ≠ n.currentEpoch then (n, [])
  else if resp.granted then
    let n := { n with votesReceived := insert sender n.votesReceived }
    if n.majority ≤ n.votesReceived.card then n.becomeLeader else (n, [])
  else (n, [])

omit [RaftLog L] in
def handleBeginQuorumEpoch (n : Node L) (req : BeginQuorumEpochRequest) :
    Node L × List Action :=
  if n.currentEpoch ≤ req.epoch then
    let (n, rejected) := (n.becomeFollower req.epoch (some req.leaderId)).rejectPendingProposes
    (n, [.persistQuorumState, .resetElectionTimer] ++ rejected)
  else (n, [])

omit [RaftLog L] in
def handleEndQuorumEpoch (n : Node L) (req : EndQuorumEpochRequest) : Node L × List Action :=
  if n.currentEpoch ≤ req.epoch then
    let (n, rejected) := (n.becomeFollower req.epoch none).rejectPendingProposes
    (n, [.persistQuorumState, .resetElectionTimer] ++ rejected)
  else (n, [])

/-! ### Replication -/

def checkDivergence (n : Node L) (fetchOffset lastFetchedEpoch : ℕ) : Option Diverging :=
  if fetchOffset = 0 then none
  else if RaftLog.epochAt n.log (fetchOffset - 1) = some lastFetchedEpoch then none
  else some ⟨lastFetchedEpoch, RaftLog.findEpochStart n.log lastFetchedEpoch⟩

/-- The scan of `check_committed_proposes`: what stays pending and what is answered. -/
def splitCommitted (hwm : ℕ) : List (ℕ × ℕ) → List (ℕ × ℕ) × List Action
  | [] => ([], [])
  | (offset, proposeId) :: rest =>
    let (kept, actions) := splitCommitted hwm rest
    if offset < hwm then (kept, .commitPropose proposeId :: actions)
    else ((offset, proposeId) :: kept, actions)

omit [RaftLog L] in
def checkCommittedProposes (n : Node L) : Node L × List Action :=
  let (kept, actions) := splitCommitted n.highWatermark n.pendingProposes
  ({ n with pendingProposes := kept }, actions)

/-- Replica end offsets, the node's own among them, in descending order. -/
def replicaOffsets (n : Node L) : List ℕ :=
  (n.voterFetchOffsets.entries.map (·.2) ++ [RaftLog.logEndOffset n.log]).insertionSort (· ≥ ·)

def tryAdvanceHighWatermark (n : Node L) : Node L × List Action :=
  let offsets := n.replicaOffsets
  if offsets.length < n.majority then (n, [])
  else
    let newHwm := offsets.getD (n.majority - 1) 0
    if newHwm ≤ n.highWatermark then (n, [])
    else if (RaftLog.epochAt n.log (newHwm - 1)).any (· ≠ n.currentEpoch) then (n, [])
    else
      let (n, committed) := { n with highWatermark := newHwm }.checkCommittedProposes
      (n, .advanceHighWatermark newHwm :: committed)

/-- The answer that carries no entries. -/
def emptyFetchResponse (n : Node L) (diverging : Option Diverging) : FetchResponse :=
  ⟨n.currentEpoch, n.highWatermark, [], diverging⟩

def handleFetchRequest (n : Node L) (sender : ℕ) (req : FetchRequest) : Node L × List Action :=
  if n.currentEpoch < req.epoch then
    let n := n.becomeFollower req.epoch none
    (n, [.persistQuorumState, .sendFetchResponse sender (n.emptyFetchResponse none)])
  else if req.epoch < n.currentEpoch then
    (n, [.sendFetchResponse sender (n.emptyFetchResponse none)])
  else if n.role ≠ .leader then
    (n, [.sendFetchResponse sender (n.emptyFetchResponse none)])
  else
    match n.checkDivergence req.fetchOffset req.lastFetchedEpoch with
    | some d => (n, [.sendFetchResponse sender (n.emptyFetchResponse (some d))])
    | none =>
      let entries := RaftLog.entries n.log req.fetchOffset (RaftLog.logEndOffset n.log)
      let resp : FetchResponse := ⟨n.currentEpoch, n.highWatermark, entries, none⟩
      let n :=
        if sender ∈ n.voters then
          { n with voterFetchOffsets := n.voterFetchOffsets.insert sender req.fetchOffset }
        else n
      let (n, actions) := n.tryAdvanceHighWatermark
      (n, .sendFetchResponse sender resp :: actions)

/-- The new high watermark is bounded by the log as it is before the entries are appended. -/
def handleFetchResponse (n : Node L) (resp : FetchResponse) : Node L × List Action :=
  if n.currentEpoch < resp.epoch then
    let (n, rejected) := (n.becomeFollower resp.epoch none).rejectPendingProposes
    (n, .persistQuorumState :: rejected)
  else if n.role ≠ .follower then (n, [])
  else
    match resp.diverging with
    | some d => (n, [.truncateLog d.endOffset])
    | none =>
      let appends := resp.entries.map Action.appendToLog
      if n.highWatermark < resp.highWatermark then
        let newHwm := min resp.highWatermark (RaftLog.logEndOffset n.log)
        let (n, committed) := { n with highWatermark := newHwm }.checkCommittedProposes
        (n, appends ++ [.advanceHighWatermark newHwm] ++ committed ++ [.resetElectionTimer])
      else (n, appends ++ [.resetElectionTimer])

def handleHeartbeatTimeout (n : Node L) : Node L × List Action :=
  if n.role ≠ .leader then (n, [])
  else
    (n, .resetHeartbeatTimer :: n.peers.map fun v =>
      let fetchOffset := (n.voterFetchOffsets.lookup v).getD 0
      .sendFetchResponse v ⟨n.currentEpoch, n.highWatermark,
        RaftLog.entries n.log fetchOffset (RaftLog.logEndOffset n.log), none⟩)

def handlePropose (n : Node L) (data : List UInt8) (proposeId : ℕ) : Node L × List Action :=
  if n.role ≠ .leader then (n, [.rejectPropose proposeId])
  else
    let offset := RaftLog.logEndOffset n.log
    ({ n with pendingProposes := n.pendingProposes ++ [(offset, proposeId)] },
      [.appendToLog ⟨n.currentEpoch, offset, data⟩])

def handle (n : Node L) : Event → Node L × List Action
  | .electionTimeout => n.handleElectionTimeout
  | .heartbeatTimeout => n.handleHeartbeatTimeout
  | .voteRequest sender req => n.handleVoteRequest sender req
  | .voteResponse sender resp => n.handleVoteResponse sender resp
  | .beginQuorumEpoch _ req => n.handleBeginQuorumEpoch req
  | .endQuorumEpoch _ req => n.handleEndQuorumEpoch req
  | .fetchRequest sender req => n.handleFetchRequest sender req
  | .fetchResponse _ resp => n.handleFetchResponse resp
  | .propose data proposeId => n.handlePropose data proposeId

end Node

end Musil.Raft
