import Mathlib.Data.List.Sort
import Mathlib.Data.List.AList
import Mathlib.Data.Finset.Card

/-!
# Data of the Raft state machine

Durable state, roles, log entries, the six RPC messages, and the events and actions through which
a node talks to its runner. Ids are `u16`, epochs `u32` and offsets `u64` in the source; they are
natural numbers here, so a run of the model is a run in which no epoch or offset wraps.
-/

namespace Musil.Raft

/-! ### State -/

/-- The state a node must reload after a crash. -/
structure QuorumState where
  currentEpoch : ℕ
  votedFor : Option ℕ
  deriving DecidableEq, Repr

def QuorumState.empty : QuorumState := ⟨0, none⟩

inductive Role where
  | follower
  | candidate
  | leader
  deriving DecidableEq, Repr

structure LogEntry where
  epoch : ℕ
  offset : ℕ
  data : List UInt8
  deriving DecidableEq, Repr

/-! ### RPC messages -/

structure VoteRequest where
  epoch : ℕ
  candidateId : ℕ
  lastLogEpoch : ℕ
  lastLogOffset : ℕ
  deriving DecidableEq, Repr

structure VoteResponse where
  epoch : ℕ
  granted : Bool
  deriving DecidableEq, Repr

structure FetchRequest where
  epoch : ℕ
  fetchOffset : ℕ
  lastFetchedEpoch : ℕ
  deriving DecidableEq, Repr

structure Diverging where
  epoch : ℕ
  endOffset : ℕ
  deriving DecidableEq, Repr

structure FetchResponse where
  epoch : ℕ
  highWatermark : ℕ
  entries : List LogEntry
  diverging : Option Diverging
  deriving DecidableEq, Repr

structure BeginQuorumEpochRequest where
  epoch : ℕ
  leaderId : ℕ
  deriving DecidableEq, Repr

structure ReplicaState where
  id : ℕ
  logEndOffset : ℕ
  deriving DecidableEq, Repr

structure EndQuorumEpochRequest where
  epoch : ℕ
  leaderId : ℕ
  voters : List ReplicaState
  deriving DecidableEq, Repr

/-! ### Events and actions -/

/-- What a node reacts to. The sender of a message travels beside it. -/
inductive Event where
  | electionTimeout
  | heartbeatTimeout
  | voteRequest (sender : ℕ) (req : VoteRequest)
  | voteResponse (sender : ℕ) (resp : VoteResponse)
  | beginQuorumEpoch (sender : ℕ) (req : BeginQuorumEpochRequest)
  | endQuorumEpoch (sender : ℕ) (req : EndQuorumEpochRequest)
  | fetchRequest (sender : ℕ) (req : FetchRequest)
  | fetchResponse (sender : ℕ) (resp : FetchResponse)
  | propose (data : List UInt8) (proposeId : ℕ)
  deriving DecidableEq, Repr

/-- What a node asks its runner to do, in the order it asks for it. -/
inductive Action where
  | persistQuorumState
  | appendToLog (entry : LogEntry)
  | truncateLog (offset : ℕ)
  | sendVote (dst : ℕ) (req : VoteRequest)
  | sendVoteResponse (dst : ℕ) (resp : VoteResponse)
  | sendBeginQuorumEpoch (targets : List ℕ) (req : BeginQuorumEpochRequest)
  | sendEndQuorumEpoch (targets : List ℕ) (req : EndQuorumEpochRequest)
  | sendFetchResponse (dst : ℕ) (resp : FetchResponse)
  | sendFetchRequest (dst : ℕ) (req : FetchRequest)
  | resetElectionTimer
  | resetHeartbeatTimer
  | advanceHighWatermark (offset : ℕ)
  | commitPropose (proposeId : ℕ)
  | rejectPropose (proposeId : ℕ)
  deriving DecidableEq, Repr

/-! ### Logs -/

/-- The operations a node and its runner use on a log. -/
class RaftLog (L : Type*) where
  logEndOffset : L → ℕ
  epochAt : L → ℕ → Option ℕ
  lastEpoch : L → ℕ
  entries : L → ℕ → ℕ → List LogEntry
  findEpochStart : L → ℕ → ℕ
  append : L → LogEntry → L
  truncate : L → ℕ → L

/-- The reference log: the entries in the order they were appended. -/
structure VecLog where
  entries : List LogEntry
  deriving DecidableEq, Repr

def VecLog.new : VecLog := ⟨[]⟩

instance : RaftLog VecLog where
  logEndOffset l := (l.entries.getLast?.map fun e => e.offset + 1).getD 0
  epochAt l offset := (l.entries.find? fun e => e.offset = offset).map (·.epoch)
  lastEpoch l := (l.entries.getLast?.map (·.epoch)).getD 0
  entries l s e := l.entries.filter fun x => s ≤ x.offset ∧ x.offset < e
  findEpochStart l epoch := ((l.entries.find? fun e => e.epoch = epoch).map (·.offset)).getD 0
  append l entry := ⟨l.entries ++ [entry]⟩
  truncate l offset := ⟨l.entries.filter fun e => e.offset < offset⟩

end Musil.Raft
