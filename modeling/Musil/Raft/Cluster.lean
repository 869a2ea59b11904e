import Musil.Lib.Run
import Musil.Raft.Node
import Mathlib.Logic.Function.Basic

/-!
# Runners and clusters

A runner executes the actions of its node in two passes: first everything durable (the quorum-state
file and the log), then the messages. A cluster is one runner for each voter together with the
messages in flight. A message is delivered at most once; messages may be lost, delayed and
reordered. A crash keeps the quorum-state file and the log and nothing else.
-/

namespace Musil.Raft

variable {L : Type*}

/-! ### The two passes of a runner -/

inductive RaftMessage where
  | vote (req : VoteRequest)
  | voteResponse (resp : VoteResponse)
  | beginQuorumEpoch (req : BeginQuorumEpochRequest)
  | endQuorumEpoch (req : EndQuorumEpochRequest)
  | fetchRequest (req : FetchRequest)
  | fetchResponse (resp : FetchResponse)
  deriving DecidableEq, Repr

structure Envelope where
  src : ℕ
  dst : ℕ
  message : RaftMessage
  deriving DecidableEq, Repr

/-- The event a message becomes at its addressee. -/
def Envelope.toEvent (env : Envelope) : Event :=
  match env.message with
  | .vote req => .voteRequest env.src req
  | .voteResponse resp => .voteResponse env.src resp
  | .beginQuorumEpoch req => .beginQuorumEpoch env.src req
  | .endQuorumEpoch req => .endQuorumEpoch env.src req
  | .fetchRequest req => .fetchRequest env.src req
  | .fetchResponse resp => .fetchResponse env.src resp

/-- One action in the first pass of `execute_actions`, on the node and its quorum-state file. -/
def persistAction [RaftLog L] (s : Node L × QuorumState) : Action → Node L × QuorumState
  | .persistQuorumState => (s.1, s.1.quorumState)
  | .appendToLog entry => ({ s.1 with log := RaftLog.append s.1.log entry }, s.2)
  | .truncateLog offset => ({ s.1 with log := RaftLog.truncate s.1.log offset }, s.2)
  | _ => s

def persistPass [RaftLog L] (s : Node L × QuorumState) (actions : List Action) :
    Node L × QuorumState :=
  actions.foldl persistAction s

/-- The messages one action sends in the second pass. -/
def Action.sends (src : ℕ) : Action → List Envelope
  | .sendVote dst req => [⟨src, dst, .vote req⟩]
  | .sendVoteResponse dst resp => [⟨src, dst, .voteResponse resp⟩]
  | .sendBeginQuorumEpoch targets req => targets.map fun dst => ⟨src, dst, .beginQuorumEpoch req⟩
  | .sendEndQuorumEpoch targets req => targets.map fun dst => ⟨src, dst, .endQuorumEpoch req⟩
  | .sendFetchResponse dst resp => [⟨src, dst, .fetchResponse resp⟩]
  | .sendFetchRequest dst req => [⟨src, dst, .fetchRequest req⟩]
  | _ => []

def sendPass (src : ℕ) (actions : List Action) : List Envelope :=
  actions.flatMap (Action.sends src)

/-! ### Clusters -/

/-- The last three fields are history variables: no step reads them. -/
structure Cluster (L : Type*) where
  voters : List ℕ
  nodes : ℕ → Node L
  quorumFile : ℕ → QuorumState
  network : List Envelope
  /-- Every message ever sent. -/
  sent : List Envelope
  /-- Every pair of an epoch and a node that has led it. -/
  leaders : List (ℕ × ℕ)
  /-- The log of the leader of an epoch, as it was when that leader last led. -/
  leaderLog : ℕ → Option L

/-- What can happen next in a cluster. -/
inductive Input where
  | deliver (k : ℕ)
  | lose (k : ℕ)
  | electionTimeout (i : ℕ)
  | heartbeatTimeout (i : ℕ)
  | propose (i : ℕ) (data : List UInt8) (proposeId : ℕ)
  | restart (i : ℕ)
  /-- No handler sends a fetch request: voters and observers do, outside the state machine. -/
  | fetch (src dst : ℕ) (req : FetchRequest)
  /-- No handler sends a resignation either, but a node must be ready for one. -/
  | resign (src dst : ℕ) (req : EndQuorumEpochRequest)
  deriving DecidableEq, Repr

namespace Cluster

def init (voters : List ℕ) (log : ℕ → L) : Cluster L where
  voters := voters
  nodes i := .new i voters .empty (log i)
  quorumFile _ := .empty
  network := []
  sent := []
  leaders := []
  leaderLog _ := none

def post (s : Cluster L) (out : List Envelope) : Cluster L :=
  { s with network := s.network ++ out, sent := s.sent ++ out }

/-- Node `i` becomes `n` with quorum-state file `q`. -/
def put (s : Cluster L) (i : ℕ) (n : Node L) (q : QuorumState) : Cluster L :=
  { s with
    nodes := Function.update s.nodes i n
    quorumFile := Function.update s.quorumFile i q }

/-- Record that node `i` leads, when it does. -/
def record (s : Cluster L) (i : ℕ) : Cluster L :=
  let n := s.nodes i
  if n.role = .leader then
    { s with
      leaders := (n.currentEpoch, i) :: s.leaders
      leaderLog := Function.update s.leaderLog n.currentEpoch (some n.log) }
  else s

variable [RaftLog L]

/-- Node `i` handles an event and its runner executes the actions. -/
def react (s : Cluster L) (i : ℕ) (ev : Event) : Cluster L :=
  if i ∈ s.voters then
    let (n, actions) := (s.nodes i).handle ev
    let (n, q) := persistPass (n, s.quorumFile i) actions
    ((s.put i n q).post (sendPass i actions)).record i
  else s

def step (s : Cluster L) : Input → Cluster L
  | .deliver k =>
    match s.network[k]? with
    | none => s
    | some env => { s with network := s.network.eraseIdx k }.react env.dst env.toEvent
  | .lose k => { s with network := s.network.eraseIdx k }
  | .electionTimeout i => s.react i .electionTimeout
  | .heartbeatTimeout i => s.react i .heartbeatTimeout
  | .propose i data proposeId => s.react i (.propose data proposeId)
  | .restart i => s.put i (.new i s.voters (s.quorumFile i) (s.nodes i).log) (s.quorumFile i)
  | .fetch src dst req => s.post [⟨src, dst, .fetchRequest req⟩]
  | .resign src dst req => s.post [⟨src, dst, .endQuorumEpoch req⟩]

abbrev run (s : Cluster L) (is : List Input) : Cluster L :=
  Run.run step s is

/-- The node that an input makes react, and to which event. -/
def trigger (s : Cluster L) : Input → Option (ℕ × Event)
  | .deliver k => s.network[k]?.map fun env => (env.dst, env.toEvent)
  | .electionTimeout i => some (i, .electionTimeout)
  | .heartbeatTimeout i => some (i, .heartbeatTimeout)
  | .propose i data proposeId => some (i, .propose data proposeId)
  | _ => none

end Cluster

end Musil.Raft
