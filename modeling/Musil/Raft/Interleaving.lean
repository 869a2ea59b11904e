import Musil.Raft.Runner
import Musil.Raft.VoteBook
import Mathlib.Algebra.BigOperators.Group.Finset.Basic

/-!
# Clusters whose runners take turns

A runner does not react in one step. While it is busy with the actions of an event others go on,
messages wait for it, and it can crash between any two actions. As long as no crash falls between
two entries that it appends, nobody can tell such runners from a cluster in which every reaction is
one step.
-/

namespace Musil.Raft

open Run

variable {L : Type*}

/-! ### What an event makes durable -/

def Action.IsAppend : Action → Prop
  | .appendToLog _ => True
  | _ => False

/-- The log of the node is left to the actions, and what these make durable is the quorum state, or
entries, or a cut of the log. -/
structure Handled (n : Node L) (r : Node L × List Action) : Prop where
  id_eq : r.1.id = n.id
  voters_eq : r.1.voters = n.voters
  log_eq : r.1.log = n.log
  actions : (∀ a ∈ r.2, a.IsVolatile ∨ a = .persistQuorumState) ∨
    (∀ a ∈ r.2, a.IsVolatile ∨ a.IsAppend) ∨ ∃ offset, r.2 = [.truncateLog offset]

section Handled

variable {n : Node L}

lemma handled_of_volatile {r : Node L × List Action} (hid : r.1.id = n.id)
    (hvoters : r.1.voters = n.voters) (hlog : r.1.log = n.log)
    (h : ∀ a ∈ r.2, a.IsVolatile ∨ a = .persistQuorumState) : Handled n r :=
  ⟨hid, hvoters, hlog, .inl h⟩

lemma volatile_of_notice {as : List Action} (h : ∀ a ∈ as, a.IsNotice) :
    ∀ a ∈ as, a.IsVolatile ∨ a = .persistQuorumState :=
  fun a ha => .inl (h a ha).isVolatile

lemma volatile_map {α : Type*} {f : α → Action} (h : ∀ x, (f x).IsVolatile) (xs : List α) :
    ∀ a ∈ xs.map f, a.IsVolatile ∨ a = .persistQuorumState := by
  intro a ha
  obtain ⟨x, -, rfl⟩ := List.mem_map.mp ha
  exact .inl (h x)

lemma becomeLeader_volatile (n : Node L) :
    ∀ a ∈ n.becomeLeader.2, a.IsVolatile ∨ a = .persistQuorumState := by
  simp [Node.becomeLeader, Action.IsVolatile]

lemma follower_handled (epoch : ℕ) (leader : Option ℕ) (as : List Action)
    (has : ∀ a ∈ as, a.IsVolatile ∨ a = .persistQuorumState) :
    Handled n ((n.becomeFollower epoch leader).rejectPendingProposes.1,
      as ++ (n.becomeFollower epoch leader).rejectPendingProposes.2) := by
  refine handled_of_volatile rfl rfl rfl ?_
  rw [List.forall_mem_append]
  exact ⟨has, volatile_of_notice (Node.rejectPendingProposes_notice _)⟩

lemma handleVoteResponse_handled (n : Node L) (c : ℕ) (resp : VoteResponse) :
    Handled n (n.handleVoteResponse c resp) := by
  unfold Node.handleVoteResponse
  split_ifs with hlt hrole hgranted
  · exact handled_of_volatile rfl rfl rfl (by simp)
  · exact handled_of_volatile rfl rfl rfl (by simp)
  · dsimp only
    split_ifs with hmaj
    · exact handled_of_volatile rfl rfl rfl (becomeLeader_volatile _)
    · exact handled_of_volatile rfl rfl rfl (by simp)
  · exact handled_of_volatile rfl rfl rfl (by simp)

lemma handleBeginQuorumEpoch_handled (n : Node L) (req : BeginQuorumEpochRequest) :
    Handled n (n.handleBeginQuorumEpoch req) := by
  unfold Node.handleBeginQuorumEpoch
  split_ifs with hle
  · exact follower_handled req.epoch (some req.leaderId) _ (by simp [Action.IsVolatile])
  · exact handled_of_volatile rfl rfl rfl (by simp)

lemma handleEndQuorumEpoch_handled (n : Node L) (req : EndQuorumEpochRequest) :
    Handled n (n.handleEndQuorumEpoch req) := by
  unfold Node.handleEndQuorumEpoch
  split_ifs with hle
  · exact follower_handled req.epoch none _ (by simp [Action.IsVolatile])
  · exact handled_of_volatile rfl rfl rfl (by simp)

variable [RaftLog L]

lemma answerVote_handled (n : Node L) (c : ℕ) (req : VoteRequest) :
    (n.answerVote c req).1.id = n.id ∧ (n.answerVote c req).1.voters = n.voters ∧
      (n.answerVote c req).1.log = n.log ∧
        ∀ a ∈ (n.answerVote c req).2, a.IsVolatile ∨ a = .persistQuorumState := by
  unfold Node.answerVote
  dsimp only
  split_ifs
  · exact ⟨rfl, rfl, rfl, by simp [Action.IsVolatile]⟩
  · exact ⟨rfl, rfl, rfl, by simp [Action.IsVolatile]⟩

lemma handleElectionTimeout_handled (n : Node L) : Handled n n.handleElectionTimeout := by
  unfold Node.handleElectionTimeout
  split_ifs with hrole
  · exact handled_of_volatile rfl rfl rfl (by simp)
  dsimp only
  split_ifs with hmaj
  · refine handled_of_volatile rfl rfl rfl ?_
    rw [List.forall_mem_append]
    exact ⟨by simp [Action.IsVolatile], becomeLeader_volatile _⟩
  · refine handled_of_volatile rfl rfl rfl ?_
    rw [List.forall_mem_append]
    exact ⟨by simp [Action.IsVolatile], volatile_map (by exact fun _ => trivial) _⟩

lemma handleHeartbeatTimeout_handled (n : Node L) : Handled n n.handleHeartbeatTimeout := by
  unfold Node.handleHeartbeatTimeout
  split_ifs with hrole
  · exact handled_of_volatile rfl rfl rfl (by simp)
  · refine handled_of_volatile rfl rfl rfl ?_
    rw [List.forall_mem_cons]
    exact ⟨.inl trivial, volatile_map (by exact fun _ => trivial) _⟩

lemma handleVoteRequest_handled (n : Node L) (c : ℕ) (req : VoteRequest) :
    Handled n (n.handleVoteRequest c req) := by
  unfold Node.handleVoteRequest
  split_ifs with hlt hgt
  · obtain ⟨hid, hvoters, hlog, hactions⟩ :=
      answerVote_handled (n.becomeFollower req.epoch none) c req
    refine handled_of_volatile hid hvoters hlog ?_
    rw [List.forall_mem_cons]
    exact ⟨.inr rfl, hactions⟩
  · exact handled_of_volatile rfl rfl rfl (by simp [Action.IsVolatile])
  · obtain ⟨hid, hvoters, hlog, hactions⟩ := answerVote_handled n c req
    exact handled_of_volatile hid hvoters hlog hactions

lemma handleFetchRequest_handled (n : Node L) (c : ℕ) (req : FetchRequest) :
    Handled n (n.handleFetchRequest c req) := by
  by_cases hlt : n.currentEpoch < req.epoch
  · rw [Node.handleFetchRequest, if_pos hlt]
    exact handled_of_volatile rfl rfl rfl (by simp [Action.IsVolatile])
  by_cases hgt : req.epoch < n.currentEpoch
  · rw [Node.handleFetchRequest, if_neg hlt, if_pos hgt]
    exact handled_of_volatile rfl rfl rfl (by simp [Action.IsVolatile])
  by_cases hrole : n.role ≠ .leader
  · rw [Node.handleFetchRequest, if_neg hlt, if_neg hgt, if_pos hrole]
    exact handled_of_volatile rfl rfl rfl (by simp [Action.IsVolatile])
  cases hdiv : n.checkDivergence req.fetchOffset req.lastFetchedEpoch with
  | some d =>
    rw [Node.handleFetchRequest, if_neg hlt, if_neg hgt, if_neg hrole, hdiv]
    exact handled_of_volatile rfl rfl rfl (by simp [Action.IsVolatile])
  | none =>
    rw [Node.handleFetchRequest_serves ((Nat.not_lt.mp hlt).antisymm (Nat.not_lt.mp hgt))
      (not_not.mp hrole) hdiv]
    obtain ⟨hwm, pending, hserved⟩ := n.served_eq c req.fetchOffset
    refine handled_of_volatile ?_ ?_ ?_ ?_
    · rw [hserved]
    · rw [hserved]
    · rw [hserved]
    · rw [List.forall_mem_cons]
      exact ⟨.inl trivial, volatile_of_notice (Node.tryAdvanceHighWatermark_notice _)⟩

/-- A response makes a follower cut its log or append to it, never both. -/
lemma handleFetchResponse_handled (n : Node L) (resp : FetchResponse) :
    Handled n (n.handleFetchResponse resp) := by
  unfold Node.handleFetchResponse
  by_cases hlt : n.currentEpoch < resp.epoch
  · rw [if_pos hlt]
    exact follower_handled resp.epoch none [.persistQuorumState] (by simp)
  rw [if_neg hlt]
  by_cases hrole : n.role ≠ .follower
  · rw [if_pos hrole]
    exact handled_of_volatile rfl rfl rfl (by simp)
  rw [if_neg hrole]
  cases hdiv : resp.diverging with
  | some d => exact ⟨rfl, rfl, rfl, .inr (.inr ⟨d.endOffset, rfl⟩)⟩
  | none =>
    have happends : ∀ a ∈ resp.entries.map Action.appendToLog, a.IsVolatile ∨ a.IsAppend := by
      intro a ha
      obtain ⟨e, -, rfl⟩ := List.mem_map.mp ha
      exact .inr trivial
    dsimp only
    split_ifs with hhw
    · refine ⟨rfl, rfl, rfl, .inr (.inl ?_)⟩
      simp only [List.forall_mem_append]
      refine ⟨⟨⟨happends, by simp [Action.IsVolatile]⟩, fun a ha => ?_⟩,
        by simp [Action.IsVolatile]⟩
      exact .inl (Node.checkCommittedProposes_notice _ a ha).isVolatile
    · refine ⟨rfl, rfl, rfl, .inr (.inl ?_)⟩
      rw [List.forall_mem_append]
      exact ⟨happends, by simp [Action.IsVolatile]⟩

lemma handlePropose_handled (n : Node L) (data : List UInt8) (proposeId : ℕ) :
    Handled n (n.handlePropose data proposeId) := by
  unfold Node.handlePropose
  split_ifs with hrole
  · exact handled_of_volatile rfl rfl rfl (by simp [Action.IsVolatile])
  · exact ⟨rfl, rfl, rfl, .inr (.inl (by simp [Action.IsAppend]))⟩

/-- Every handler leaves the log to its actions, and mixes no two kinds of what is durable. -/
theorem handle_handled (n : Node L) (ev : Event) : Handled n (n.handle ev) := by
  cases ev with
  | electionTimeout => exact handleElectionTimeout_handled n
  | heartbeatTimeout => exact handleHeartbeatTimeout_handled n
  | voteRequest c req => exact handleVoteRequest_handled n c req
  | voteResponse c resp => exact handleVoteResponse_handled n c resp
  | beginQuorumEpoch c req => exact handleBeginQuorumEpoch_handled n req
  | endQuorumEpoch c req => exact handleEndQuorumEpoch_handled n req
  | fetchRequest c req => exact handleFetchRequest_handled n c req
  | fetchResponse c resp => exact handleFetchResponse_handled n resp
  | propose data proposeId => exact handlePropose_handled n data proposeId

/-- Persisting the quorum state twice is like persisting it once. -/
lemma persistPass_of_quorum (x : Node L × QuorumState) {as : List Action}
    (h : ∀ a ∈ as, a.IsVolatile ∨ a = .persistQuorumState) :
    (∀ a ∈ as, a.IsVolatile) ∨ persistPass x as = (x.1, x.1.quorumState) := by
  induction as generalizing x with
  | nil => exact .inl fun a ha => absurd ha List.not_mem_nil
  | cons a as ih =>
    rw [List.forall_mem_cons] at h
    obtain ⟨ha, has⟩ := h
    rw [persistPass_cons]
    rcases ha with ha | rfl
    · have hkeep : persistAction x a = x := by
        have hone := persistPass_of_volatile x (List.forall_mem_singleton.mpr ha)
        rwa [persistPass_cons, persistPass_nil] at hone
      rw [hkeep]
      exact (ih x has).imp_left fun hall => List.forall_mem_cons.mpr ⟨ha, hall⟩
    · right
      rcases ih (persistAction x .persistQuorumState) has with hall | hpass
      · rw [persistPass_of_volatile _ hall]
        rfl
      · rw [hpass]
        rfl

/-- Where no entries are parted, either nothing has been made durable so far or nothing is left to
be. -/
lemma volatile_or_complete {ev : Event} {done rest : List Action}
    (h : (n.handle ev).2 = done ++ rest)
    (hcut : (∀ a ∈ done, ¬ a.IsAppend) ∨ ∀ a ∈ rest, ¬ a.IsAppend) (q : QuorumState) :
    (∀ a ∈ done, a.IsVolatile) ∨
      persistPass ((n.handle ev).1, q) (done ++ rest) = persistPass ((n.handle ev).1, q) done := by
  rcases (handle_handled n ev).actions with hquorum | happend | ⟨offset, htruncate⟩
  · rw [h, List.forall_mem_append] at hquorum
    refine (persistPass_of_quorum ((n.handle ev).1, q) hquorum.1).imp_right fun hdone => ?_
    rw [persistPass_append, hdone]
    rcases persistPass_of_quorum ((n.handle ev).1, (n.handle ev).1.quorumState) hquorum.2 with
      hrest | hrest
    · exact persistPass_of_volatile _ hrest
    · exact hrest
  · rw [h, List.forall_mem_append] at happend
    rcases hcut with hcut | hcut
    · exact .inl fun a ha => (happend.1 a ha).resolve_right (hcut a ha)
    · right
      rw [persistPass_append]
      exact persistPass_of_volatile _ fun a ha => (happend.2 a ha).resolve_right (hcut a ha)
  · rw [h] at htruncate
    cases done with
    | nil => exact .inl fun a ha => absurd ha List.not_mem_nil
    | cons a done =>
      obtain ⟨-, hnil⟩ := List.cons.inj htruncate
      right
      rw [(List.append_eq_nil_iff.mp hnil).2, List.append_nil]

end Handled

/-! ### Runners that share a network -/

structure Interleaved (L : Type*) where
  voters : List ℕ
  runners : ℕ → Runner L
  network : List Envelope

def Phase.isWaiting : Phase → Bool
  | .waiting => true
  | _ => false

/-- What goes into the network next. -/
def Phase.outgoing : Phase → List Envelope
  | .sending rest => rest.take 1
  | .waiting | .persisting _ _ => []

namespace Interleaved

inductive Input where
  | deliver (k : ℕ)
  | lose (k : ℕ)
  | electionTimeout (i : ℕ)
  | heartbeatTimeout (i : ℕ)
  | propose (i : ℕ) (data : List UInt8) (proposeId : ℕ)
  | act (i : ℕ)
  | crash (i : ℕ)
  | fetch (src dst : ℕ) (req : FetchRequest)
  | resign (src dst : ℕ) (req : EndQuorumEpochRequest)

def init (voters : List ℕ) (log : ℕ → L) : Interleaved L where
  voters := voters
  runners i := .spawn i voters (log i) none
  network := []

variable [RaftLog L]

/-- Runner `i` reads an input, and `out` goes into the network. -/
def turn (s : Interleaved L) (i : ℕ) (inp : Runner.Input) (out : List Envelope) : Interleaved L :=
  if i ∈ s.voters then
    { s with
      runners := Function.update s.runners i ((s.runners i).step inp)
      network := s.network ++ out }
  else s

/-- A message for a runner that is busy stays in the network. -/
def step (s : Interleaved L) : Input → Interleaved L
  | .deliver k =>
    match s.network[k]? with
    | none => s
    | some env =>
      if (s.runners env.dst).phase.isWaiting then
        { s with network := s.network.eraseIdx k }.turn env.dst (.event env.toEvent) []
      else s
  | .lose k => { s with network := s.network.eraseIdx k }
  | .electionTimeout i => s.turn i (.event .electionTimeout) []
  | .heartbeatTimeout i => s.turn i (.event .heartbeatTimeout) []
  | .propose i data proposeId => s.turn i (.event (.propose data proposeId)) []
  | .act i => s.turn i .act (s.runners i).phase.outgoing
  | .crash i => s.turn i .crash []
  | .fetch src dst req => { s with network := s.network ++ [⟨src, dst, .fetchRequest req⟩] }
  | .resign src dst req => { s with network := s.network ++ [⟨src, dst, .endQuorumEpoch req⟩] }

/-- A crash does not part the entries that a runner appends for one event. -/
def Uncut (s : Interleaved L) : Input → Prop
  | .crash i => ∀ done rest, (s.runners i).phase = .persisting rest (done ++ rest) →
    (∀ a ∈ done, ¬ a.IsAppend) ∨ ∀ a ∈ rest, ¬ a.IsAppend
  | _ => True

/-! ### The cluster that has not reacted yet -/

/-- What makes a cluster handle `ev` at node `i`: a message that is still in its network, or no
message. -/
def Awaits (i : ℕ) (ev : Event) (owed : List Envelope) : Prop :=
  (∃ env : Envelope, env.dst = i ∧ env.toEvent = ev ∧ owed = [env]) ∨
    owed = [] ∧ ∃ inp : Raft.Input, ∀ c : Cluster L, c.step inp = c.react i ev

/-- A runner and its node in a cluster, whose network holds the messages `owed` over and above that
of the runners: the one that the runner is busy with, or those that it is about to send. The node
reacts when the runner has gone through its first pass. -/
def Stands (i : ℕ) (r : Runner L) (n : Node L) (q : QuorumState) (owed : List Envelope) : Prop :=
  match r.phase with
  | .waiting => (r.node, QuorumState.load r.quorumFile) = (n, q)
  | .sending rest => (r.node, QuorumState.load r.quorumFile) = (n, q) ∧ owed = rest
  | .persisting rest actions => ∃ ev done, Awaits (L := L) i ev owed ∧ actions = (n.handle ev).2 ∧
    actions = done ++ rest ∧
      (r.node, QuorumState.load r.quorumFile) = persistPass ((n.handle ev).1, q) done

/-- The messages of the runners and those that are owed are all in the network `net`. -/
def Covered (s : Interleaved L) (owed : ℕ → List Envelope) (net : List Envelope) : Prop :=
  ∀ env, s.network.count env + ∑ i ∈ s.voters.toFinset, (owed i).count env ≤ net.count env

/-- The cluster has done what the runners have done, but for what they are in the middle of. -/
structure Sim (s : Interleaved L) (c : Cluster L) : Prop where
  voters_eq : c.voters = s.voters
  book : VoteBook c
  owed : ∃ owed, s.Covered owed c.network ∧
    ∀ i ∈ s.voters, Stands i (s.runners i) (c.nodes i) (c.quorumFile i) (owed i)

section Sim

variable {s : Interleaved L} {c : Cluster L} {i : ℕ} {owed : ℕ → List Envelope}

lemma sim_init (voters : List ℕ) (log : ℕ → L) : Sim (init voters log) (.init voters log) where
  voters_eq := rfl
  book := VoteBook.init voters log
  owed := ⟨fun _ => [], fun env => by simp [init, Cluster.init], fun _ _ => rfl⟩

omit [RaftLog L] in
/-- Only what is owed to runner `i` changes. -/
lemma sum_owed (owed : ℕ → List Envelope) (hi : i ∈ s.voters) (out : List Envelope)
    (env : Envelope) :
    ∑ j ∈ s.voters.toFinset, (Function.update owed i out j).count env + (owed i).count env
      = ∑ j ∈ s.voters.toFinset, (owed j).count env + out.count env := by
  have hmem : i ∈ s.voters.toFinset := List.mem_toFinset.mpr hi
  have hrest : ∑ j ∈ s.voters.toFinset.erase i, (Function.update owed i out j).count env
      = ∑ j ∈ s.voters.toFinset.erase i, (owed j).count env := by
    refine Finset.sum_congr rfl fun j hj => ?_
    rw [Function.update_of_ne (Finset.ne_of_mem_erase hj)]
  rw [← Finset.add_sum_erase _ _ hmem, ← Finset.add_sum_erase _ (fun j => (owed j).count env) hmem,
    hrest, Function.update_self]
  omega

omit [RaftLog L] in
lemma Covered.owed_le (h : s.Covered owed c.network) (hi : i ∈ s.voters) (env : Envelope) :
    (owed i).count env ≤ c.network.count env := by
  have hsum := sum_owed owed hi [] env
  have hle := h env
  rw [List.count_nil] at hsum
  omega

/-- Runner `i` changes, and the cluster at most at node `i`. The cluster's network makes up for what
is put into that of the runners or owed to runner `i`. -/
lemma Sim.put {c' : Cluster L} {r : Runner L} {net : List Envelope} (out : List Envelope)
    (hi : i ∈ s.voters) (hcovered : s.Covered owed c.network)
    (hstands : ∀ j ∈ s.voters, Stands j (s.runners j) (c.nodes j) (c.quorumFile j) (owed j))
    (hvoters : c'.voters = s.voters) (hbook : VoteBook c')
    (hsame : ∀ j, j ≠ i → c'.nodes j = c.nodes j ∧ c'.quorumFile j = c.quorumFile j)
    (hself : Stands i r (c'.nodes i) (c'.quorumFile i) out)
    (hcount : ∀ env, net.count env + out.count env + c.network.count env
      ≤ s.network.count env + (owed i).count env + c'.network.count env) :
    Sim { s with runners := Function.update s.runners i r, network := net } c' := by
  have hnet : ∀ env, net.count env
      + ∑ j ∈ s.voters.toFinset, (Function.update owed i out j).count env
        ≤ c'.network.count env := by
    intro env
    have hsum := sum_owed owed hi out env
    have hle := hcovered env
    have hcount := hcount env
    omega
  refine ⟨hvoters, hbook, Function.update owed i out, hnet, fun j hj => ?_⟩
  rcases eq_or_ne j i with rfl | hji
  · dsimp only
    rw [Function.update_self, Function.update_self]
    exact hself
  · obtain ⟨hnode, hfile⟩ := hsame j hji
    dsimp only
    rw [Function.update_of_ne hji, Function.update_of_ne hji, hnode, hfile]
    exact hstands j hj

/-- A runner that waits gets an event. The cluster does nothing yet. -/
lemma Sim.event (h : Sim s c) (hi : i ∈ s.voters) (hphase : (s.runners i).phase = .waiting)
    {ev : Event} {net out : List Envelope} (hawaits : Awaits (L := L) i ev out)
    (hnet : ∀ env, net.count env + out.count env ≤ s.network.count env) :
    Sim { s with
      runners := Function.update s.runners i ((s.runners i).step (.event ev))
      network := net } c := by
  obtain ⟨owed, hcovered, hstands⟩ := h.owed
  have hself := hstands i hi
  rw [Stands, hphase] at hself
  obtain ⟨hnode, hfile⟩ := Prod.mk.inj hself
  refine Sim.put out hi hcovered hstands h.voters_eq h.book (fun _ _ => ⟨rfl, rfl⟩) ?_ fun env => ?_
  · rw [Runner.step, hphase, Stands]
    exact ⟨ev, [], hawaits, by rw [hnode], rfl, by rw [← hnode, ← hfile]; rfl⟩
  · have hnet := hnet env
    omega

/-- The cluster handles what it has been waiting for. -/
lemma exists_step_of_awaits {ev : Event} {out : List Envelope} (h : Awaits (L := L) i ev out)
    (hout : ∀ env, out.count env ≤ c.network.count env) : ∃ inp net,
      c.step inp = { c with network := net }.react i ev ∧
        ∀ env, net.count env + out.count env = c.network.count env := by
  rcases h with ⟨env, rfl, rfl, rfl⟩ | ⟨rfl, inp, hinp⟩
  · have hmem : env ∈ c.network := by
      rw [← List.count_pos_iff]
      exact Nat.lt_of_lt_of_le (by simp) (hout env)
    obtain ⟨k, hk⟩ := List.mem_iff_getElem?.mp hmem
    refine ⟨.deliver k, c.network.eraseIdx k, ?_, fun env' => ?_⟩
    · rw [Cluster.step, hk]
    · obtain ⟨hlt, rfl⟩ := List.getElem?_eq_some_iff.mp hk
      have hperm := (List.getElem_cons_eraseIdx_perm hlt).count_eq env'
      rw [List.count_cons] at hperm
      rw [← hperm, List.count_cons]
      simp
  · exact ⟨inp, c.network, hinp c, fun _ => rfl⟩

lemma react_self (hi : i ∈ c.voters) (ev : Event) (net : List Envelope) :
    let x := persistPass (((c.nodes i).handle ev).1, c.quorumFile i) ((c.nodes i).handle ev).2
    let c' := { c with network := net }.react i ev
    (c'.nodes i, c'.quorumFile i) = x ∧
      c'.network = net ++ sendPass i ((c.nodes i).handle ev).2 ∧
        ∀ j, j ≠ i → c'.nodes j = c.nodes j ∧ c'.quorumFile j = c.quorumFile j := by
  dsimp only
  rw [Cluster.react, if_pos hi]
  dsimp only
  rw [Cluster.record_nodes, Cluster.record_quorumFile, Cluster.record_network]
  refine ⟨?_, rfl, fun j hj => ⟨?_, ?_⟩⟩
  · exact Prod.ext (Function.update_self _ _ _) (Function.update_self _ _ _)
  · exact Function.update_of_ne hj _ _
  · exact Function.update_of_ne hj _ _

/-- The cluster reacts at node `i`. -/
lemma Sim.react (h : Sim s c) (hi : i ∈ s.voters) {ev : Event} {out : List Envelope}
    (hawaits : Awaits (L := L) i ev out) (hout : ∀ env, out.count env ≤ c.network.count env) :
    ∃ inp, (c.step inp).voters = s.voters ∧ VoteBook (c.step inp) ∧
      ((c.step inp).nodes i, (c.step inp).quorumFile i)
        = persistPass (((c.nodes i).handle ev).1, c.quorumFile i) ((c.nodes i).handle ev).2 ∧
      (∀ j, j ≠ i → (c.step inp).nodes j = c.nodes j ∧
        (c.step inp).quorumFile j = c.quorumFile j) ∧
      ∀ env, (c.step inp).network.count env + out.count env
        = c.network.count env + (sendPass i ((c.nodes i).handle ev).2).count env := by
  obtain ⟨inp, net, hstep, hcount⟩ := exists_step_of_awaits hawaits hout
  obtain ⟨hnode, hnetwork, hsame⟩ := react_self (h.voters_eq ▸ hi) ev net
  rw [← hstep] at hnode hnetwork hsame
  refine ⟨inp, (Cluster.step_voters c inp).trans h.voters_eq, h.book.step inp, hnode, hsame,
    fun env => ?_⟩
  rw [hnetwork, List.count_append, ← hcount env]
  omega

/-- Runner `i` takes its next action. The cluster reacts when the first pass is over. -/
lemma Sim.act (h : Sim s c) (hi : i ∈ s.voters) : ∃ is, Sim { s with
    runners := Function.update s.runners i ((s.runners i).step .act)
    network := s.network ++ (s.runners i).phase.outgoing } (c.run is) := by
  obtain ⟨owed, hcovered, hstands⟩ := h.owed
  have hself := hstands i hi
  rw [Stands] at hself
  cases hphase : (s.runners i).phase with
  | waiting =>
    refine ⟨[], ?_⟩
    rw [Runner.step, Runner.act, hphase, Function.update_eq_self, Phase.outgoing, List.append_nil]
    exact h
  | sending rest =>
    rw [hphase] at hself
    obtain ⟨hnode, howed⟩ := hself
    cases rest with
    | nil =>
      refine ⟨[], Sim.put [] hi hcovered hstands h.voters_eq h.book (fun _ _ => ⟨rfl, rfl⟩) ?_
        fun env => ?_⟩
      · rw [Runner.step, Runner.act, hphase, Stands]
        exact hnode
      · rw [howed, Phase.outgoing, List.take_nil, List.append_nil]
        exact Nat.le_refl _
    | cons env rest =>
      refine ⟨[], Sim.put rest hi hcovered hstands h.voters_eq h.book (fun _ _ => ⟨rfl, rfl⟩) ?_
        fun env' => ?_⟩
      · rw [Runner.step, Runner.act, hphase, Stands]
        exact ⟨hnode, rfl⟩
      · -- the message goes from what is owed into the network
        have hcons : (env :: rest).count env' = [env].count env' + rest.count env' :=
          (congrArg (List.count env') List.singleton_append.symm).trans List.count_append
        rw [howed, hcons, Phase.outgoing, List.take_succ_cons, List.take_zero, List.count_append]
        show _ ≤ _ + c.network.count env'
        omega
  | persisting rest actions =>
    rw [hphase] at hself
    obtain ⟨ev, done, hawaits, hactions, hsplit, hpass⟩ := hself
    cases rest with
    | nil =>
      obtain ⟨inp, hvoters, hbook, hnode, hsame, hcount⟩ :=
        h.react hi hawaits (hcovered.owed_le hi)
      rw [List.append_nil] at hsplit
      rw [← hsplit, hactions] at hpass
      have hid : (s.runners i).node.id = i := by
        have hfst := congrArg Prod.fst (hpass.trans hnode.symm)
        exact (congrArg Node.id hfst).trans (hbook.id_eq i)
      refine ⟨[inp], Sim.put (sendPass i actions) hi hcovered hstands hvoters hbook hsame ?_
        fun env => ?_⟩
      · rw [Runner.step, Runner.act, hphase, Stands]
        exact ⟨hpass.trans hnode.symm, by rw [hid]⟩
      · have hcount := hcount env
        rw [← hactions] at hcount
        rw [Phase.outgoing, List.append_nil]
        show _ ≤ _ + (c.step inp).network.count env
        omega
    | cons a rest =>
      refine ⟨[], Sim.put (owed i) hi hcovered hstands h.voters_eq h.book
        (fun _ _ => ⟨rfl, rfl⟩) ?_ fun env => ?_⟩
      · have hact : (s.runners i).step .act
            = { (s.runners i).persist a with phase := .persisting rest actions } := by
          rw [Runner.step, Runner.act, hphase]
        rw [hact, Stands]
        refine ⟨ev, done ++ [a], hawaits, hactions, by rw [hsplit, List.append_cons], ?_⟩
        show ((Runner.persist _ a).node, QuorumState.load (Runner.persist _ a).quorumFile) = _
        rw [Runner.persist_eq, hpass, persistPass_append]
        rfl
      · rw [Phase.outgoing, List.append_nil]
        exact Nat.le_refl _

/-- Runner `i` crashes when the cluster has it where it stands. -/
lemma Sim.restart {c' : Cluster L} (hi : i ∈ s.voters) (hcovered : s.Covered owed c.network)
    (hstands : ∀ j ∈ s.voters, Stands j (s.runners j) (c.nodes j) (c.quorumFile j) (owed j))
    (hvoters : c'.voters = s.voters) (hbook : VoteBook c')
    (hsame : ∀ j, j ≠ i → c'.nodes j = c.nodes j ∧ c'.quorumFile j = c.quorumFile j)
    (hid : (s.runners i).node.id = i) (hnodeVoters : (s.runners i).node.voters = s.voters)
    (hlog : (s.runners i).node.log = (c'.nodes i).log)
    (hfile : QuorumState.load (s.runners i).quorumFile = c'.quorumFile i)
    (hcount : ∀ env, c.network.count env ≤ (owed i).count env + c'.network.count env) :
    Sim { s with
      runners := Function.update s.runners i ((s.runners i).step .crash)
      network := s.network ++ [] } (c'.step (.restart i)) := by
  refine Sim.put [] hi hcovered hstands ((Cluster.step_voters c' _).trans hvoters) (hbook.step _)
    (fun j hj => ?_) ?_ fun env => ?_
  · obtain ⟨hnode, hfile⟩ := hsame j hj
    rw [← hnode, ← hfile]
    exact ⟨Function.update_of_ne hj _ _, Function.update_of_ne hj _ _⟩
  · have hput : (c'.step (.restart i)).nodes i
        = .new i c'.voters (c'.quorumFile i) (c'.nodes i).log := Cluster.put_nodes_self _ _ _ _
    have hputFile : (c'.step (.restart i)).quorumFile i = c'.quorumFile i :=
      Cluster.put_quorumFile_self _ _ _ _
    rw [hput, hputFile]
    show (Node.new _ _ _ _, QuorumState.load (s.runners i).quorumFile) = _
    rw [hid, hnodeVoters, hlog, hfile, hvoters]
  · rw [List.append_nil, Nat.add_assoc]
    have hcount := hcount env
    show _ ≤ _ + c'.network.count env
    rw [List.count_nil]
    omega

lemma Sim.crash (h : Sim s c) (hi : i ∈ s.voters) (hcut : s.Uncut (.crash i)) : ∃ is, Sim { s with
    runners := Function.update s.runners i ((s.runners i).step .crash)
    network := s.network ++ [] } (c.run is) := by
  obtain ⟨owed, hcovered, hstands⟩ := h.owed
  have hself := hstands i hi
  rw [Stands] at hself
  have hvotersEq : (c.nodes i).voters = s.voters := (h.book.voters_eq i).trans h.voters_eq
  have hkept : (s.runners i).node.id = i → (s.runners i).node.voters = s.voters →
      (s.runners i).node.log = (c.nodes i).log →
      QuorumState.load (s.runners i).quorumFile = c.quorumFile i → ∃ is, Sim { s with
        runners := Function.update s.runners i ((s.runners i).step .crash)
        network := s.network ++ [] } (c.run is) := by
    intro hid hvoters hlog hfile
    exact ⟨[.restart i], Sim.restart hi hcovered hstands h.voters_eq h.book
      (fun _ _ => ⟨rfl, rfl⟩) hid hvoters hlog hfile fun env => Nat.le_add_left _ _⟩
  cases hphase : (s.runners i).phase with
  | waiting =>
    rw [hphase] at hself
    obtain ⟨hnode, hfile⟩ := Prod.mk.inj hself
    rw [hnode] at hkept
    exact hkept (h.book.id_eq i) hvotersEq rfl hfile
  | sending rest =>
    rw [hphase] at hself
    obtain ⟨hnode, hfile⟩ := Prod.mk.inj hself.1
    rw [hnode] at hkept
    exact hkept (h.book.id_eq i) hvotersEq rfl hfile
  | persisting rest actions =>
    rw [hphase] at hself
    obtain ⟨ev, done, hawaits, hactions, hsplit, hpass⟩ := hself
    rcases volatile_or_complete (hactions.symm.trans hsplit)
      (hcut done rest (hphase.trans (by rw [hsplit]))) (c.quorumFile i) with hdone | hdone
    · -- the crash comes before the reaction
      rw [persistPass_of_volatile _ hdone] at hpass
      obtain ⟨hnode, hfile⟩ := Prod.mk.inj hpass
      obtain ⟨hid, hvoters, hlog, -⟩ := handle_handled (c.nodes i) ev
      rw [hnode] at hkept
      exact hkept (hid.trans (h.book.id_eq i)) (hvoters.trans hvotersEq) hlog hfile
    · -- the crash comes after the reaction
      obtain ⟨inp, hvoters, hbook, hreact, hsame, hcount⟩ :=
        h.react hi hawaits (hcovered.owed_le hi)
      rw [← hactions, hsplit, hdone, ← hpass] at hreact
      obtain ⟨hnode, hfile⟩ := Prod.mk.inj hreact
      refine ⟨[inp, .restart i], Sim.restart hi hcovered hstands hvoters hbook hsame ?_ ?_ ?_
        hfile.symm fun env => ?_⟩
      · rw [← hnode]
        exact hbook.id_eq i
      · rw [← hnode]
        exact (hbook.voters_eq i).trans hvoters
      · rw [← hnode]
      · have hcount := hcount env
        omega

/-- A timer fires, or somebody proposes; a runner that is busy does not notice. -/
lemma Sim.spontaneous (h : Sim s c) (i : ℕ) {ev : Event} (inp : Raft.Input)
    (hinp : ∀ c : Cluster L, c.step inp = c.react i ev) : Sim (s.turn i (.event ev) []) c := by
  rw [turn]
  split_ifs with hi
  · rw [List.append_nil]
    have hbusy : (s.runners i).step (.event ev) = s.runners i → Sim { s with
        runners := Function.update s.runners i ((s.runners i).step (.event ev)) } c := by
      intro hstep
      rw [hstep, Function.update_eq_self]
      exact h
    cases hphase : (s.runners i).phase with
    | waiting => exact h.event hi hphase (.inr ⟨rfl, inp, hinp⟩) fun _ => Nat.le_refl _
    | persisting => exact hbusy (by rw [Runner.step, hphase])
    | sending => exact hbusy (by rw [Runner.step, hphase])
  · exact h

lemma Sim.deliver (h : Sim s c) (k : ℕ) : Sim (s.step (.deliver k)) c := by
  rw [step]
  cases hk : s.network[k]? with
  | none => exact h
  | some env =>
    dsimp only
    obtain ⟨hlt, rfl⟩ := List.getElem?_eq_some_iff.mp hk
    have hcount : ∀ env, (s.network.eraseIdx k).count env + [s.network[k]].count env
        = s.network.count env := by
      intro env
      have hperm := (List.getElem_cons_eraseIdx_perm hlt).count_eq env
      rw [← List.singleton_append, List.count_append] at hperm
      omega
    split_ifs with hwaits
    · rw [turn]
      split_ifs with hi
      · have hphase : (s.runners s.network[k].dst).phase = .waiting := by
          cases hphase : (s.runners s.network[k].dst).phase with
          | waiting => rfl
          | _ =>
            rw [hphase] at hwaits
            cases hwaits
        rw [List.append_nil]
        exact h.event hi hphase (.inl ⟨_, rfl, rfl, rfl⟩) fun env => (hcount env).le
      · -- nobody reads what is sent to others than the voters
        obtain ⟨owed, hcovered, hstands⟩ := h.owed
        refine ⟨h.voters_eq, h.book, owed, fun env => ?_, hstands⟩
        have hle := hcovered env
        have hcount := hcount env
        dsimp only
        omega
    · exact h

/-- What is put into both networks. -/
lemma Sim.send (h : Sim s c) (out : List Envelope) (inp : Raft.Input)
    (hstep : c.step inp = c.post out) :
    Sim { s with network := s.network ++ out } (c.step inp) := by
  obtain ⟨owed, hcovered, hstands⟩ := h.owed
  have hbook := h.book.step inp
  rw [hstep] at hbook ⊢
  refine ⟨h.voters_eq, hbook, owed, fun env => ?_, hstands⟩
  have hle := hcovered env
  rw [Cluster.post_network, List.count_append]
  dsimp only
  rw [List.count_append]
  omega

/-- Whatever the runners do next, the cluster can follow. -/
theorem Sim.step (h : Sim s c) (inp : Input) (hcut : s.Uncut inp) :
    ∃ is, Sim (s.step inp) (c.run is) := by
  cases inp with
  | deliver k => exact ⟨[], h.deliver k⟩
  | lose k =>
    obtain ⟨owed, hcovered, hstands⟩ := h.owed
    refine ⟨[], h.voters_eq, h.book, owed, fun env => ?_, hstands⟩
    have hle := hcovered env
    have hsub := (List.eraseIdx_sublist s.network k).count_le env
    exact (Nat.add_le_add_right hsub _).trans hle
  | electionTimeout i => exact ⟨[], h.spontaneous i (.electionTimeout i) fun _ => rfl⟩
  | heartbeatTimeout i => exact ⟨[], h.spontaneous i (.heartbeatTimeout i) fun _ => rfl⟩
  | propose i data proposeId =>
    exact ⟨[], h.spontaneous i (.propose i data proposeId) fun _ => rfl⟩
  | act i =>
    rw [Interleaved.step, turn]
    split_ifs with hi
    · exact h.act hi
    · exact ⟨[], h⟩
  | crash i =>
    rw [Interleaved.step, turn]
    split_ifs with hi
    · exact h.crash hi hcut
    · exact ⟨[], h⟩
  | fetch src dst req =>
    have hsim : Sim _ (c.step (.fetch src dst req)) := h.send [⟨src, dst, .fetchRequest req⟩] _ rfl
    exact ⟨[.fetch src dst req], hsim⟩
  | resign src dst req =>
    have hsim : Sim _ (c.step (.resign src dst req)) :=
      h.send [⟨src, dst, .endQuorumEpoch req⟩] _ rfl
    exact ⟨[.resign src dst req], hsim⟩

end Sim

/-- The runner is not in the middle of its first pass. -/
def Settled (s : Interleaved L) (i : ℕ) : Prop :=
  ∀ rest actions, (s.runners i).phase ≠ .persisting rest actions

lemma Sim.agrees {s : Interleaved L} {c : Cluster L} (h : Sim s c) :
    (∀ env, s.network.count env ≤ c.network.count env) ∧
      ∀ i ∈ s.voters, s.Settled i → (s.runners i).node = c.nodes i ∧
        QuorumState.load (s.runners i).quorumFile = c.quorumFile i := by
  obtain ⟨owed, hcovered, hstands⟩ := h.owed
  refine ⟨fun env => (Nat.le_add_right _ _).trans (hcovered env), fun i hi hsettled => ?_⟩
  have hself := hstands i hi
  rw [Stands] at hself
  cases hphase : (s.runners i).phase with
  | waiting =>
    rw [hphase] at hself
    exact Prod.mk.inj hself
  | sending rest =>
    rw [hphase] at hself
    exact Prod.mk.inj hself.1
  | persisting rest actions => exact absurd hphase (hsettled rest actions)

lemma sim_of_run (voters : List ℕ) (log : ℕ → L) (is : List Input)
    (his : Meets step Uncut (init voters log) is) :
    ∃ is', Sim (run step (init voters log) is) ((Cluster.init voters log).run is') ∧
      (run step (init voters log) is).voters = voters := by
  obtain ⟨is', hsim⟩ : ∃ is', Sim (run step (init voters log) is)
      ((Cluster.init voters log).run is') := by
    refine run_invariant (P := fun s : Interleaved L => ∃ is',
      Sim s ((Cluster.init voters log).run is')) ?_ ⟨[], sim_init voters log⟩ his
    rintro s inp ⟨is', hsim⟩ hcut
    obtain ⟨is'', hsim'⟩ := hsim.step inp hcut
    refine ⟨is' ++ is'', ?_⟩
    rwa [Cluster.run, run_append]
  refine ⟨is', hsim, ?_⟩
  rw [← hsim.voters_eq, Cluster.run_voters]
  rfl

/-- Runners that take turns do nothing that a cluster cannot do in which they react in one step:
some run of it has the same nodes and files, as far as the runners are not in the middle of their
first passes, and all of their messages in its network. -/
theorem refines_cluster (voters : List ℕ) (log : ℕ → L) (is : List Input)
    (his : Meets step Uncut (init voters log) is) : ∃ is',
      (∀ env, (run step (init voters log) is).network.count env
        ≤ ((Cluster.init voters log).run is').network.count env) ∧
      ∀ i ∈ voters, (run step (init voters log) is).Settled i →
        ((run step (init voters log) is).runners i).node
            = ((Cluster.init voters log).run is').nodes i ∧
          QuorumState.load ((run step (init voters log) is).runners i).quorumFile
            = ((Cluster.init voters log).run is').quorumFile i := by
  obtain ⟨is', hsim, hvoters⟩ := sim_of_run voters log is his
  obtain ⟨hnetwork, hnodes⟩ := hsim.agrees
  exact ⟨is', hnetwork, fun i hi => hnodes i (hvoters.symm ▸ hi)⟩

/-! ### A crash in the middle of an answer -/

section Examples

/-- Node 1 stands and asks node 2, which crashes after the first thing it has written. -/
def interrupted : List Input :=
  (.electionTimeout 1 :: List.replicate 6 (.act 1)) ++ [.deliver 0, .act 2] ++ [.crash 2]

lemma uncut_interrupted :
    Meets step Uncut (init [1, 2, 3] fun _ => VecLog.new) interrupted := by
  rw [interrupted, meets_append]
  refine ⟨.of_forall fun inp hinp s => ?_, fun done rest hphase => ?_, trivial⟩
  · simp only [List.cons_append, List.mem_cons, List.mem_append, List.mem_replicate,
      List.not_mem_nil, or_false] at hinp
    rcases hinp with rfl | ⟨-, rfl⟩ | rfl | rfl <;> trivial
  · obtain ⟨rfl, -⟩ := Phase.persisting.inj hphase
    right
    simp [Action.IsAppend]

theorem refines_cluster_interrupted : ∃ is',
    (∀ env, (run step (init [1, 2, 3] fun _ => VecLog.new) interrupted).network.count env
      ≤ ((Cluster.init [1, 2, 3] fun _ => VecLog.new).run is').network.count env) ∧
    ∀ i ∈ [1, 2, 3], (run step (init [1, 2, 3] fun _ => VecLog.new) interrupted).Settled i →
      ((run step (init [1, 2, 3] fun _ => VecLog.new) interrupted).runners i).node
          = ((Cluster.init [1, 2, 3] fun _ => VecLog.new).run is').nodes i ∧
        QuorumState.load
            ((run step (init [1, 2, 3] fun _ => VecLog.new) interrupted).runners i).quorumFile
          = ((Cluster.init [1, 2, 3] fun _ => VecLog.new).run is').quorumFile i :=
  refines_cluster [1, 2, 3] (fun _ => VecLog.new) interrupted uncut_interrupted

end Examples

end Interleaved

end Musil.Raft
