import Musil.Raft.Election
import Musil.Raft.VoteBook
import Mathlib.Data.Finset.Max
import Mathlib.Data.Prod.Lex

/-!
# Elections can always succeed

Whatever has happened to a cluster before, a few timeouts and deliveries are enough to elect a
leader that all other voters follow: no message has to be lost and no node has to crash for it. A
candidate whose epoch is ahead of everyone's turns the other voters into followers of that epoch,
and gets all votes when its log is ahead as well.

The one state from which no timeout leads anywhere would be one in which every voter leads the
same epoch. It is not reachable, since a voter that has granted its vote in an epoch never leads it.
-/

namespace Musil.Raft

variable {L : Type*}

/-- A timer runs out or a message arrives: nothing fails, and nobody outside the state machines is
needed. -/
def Input.Spontaneous : Input → Prop
  | .deliver _ | .electionTimeout _ | .heartbeatTimeout _ => True
  | _ => False

/-! ### Reactions that are certain -/

section Acts

variable [RaftLog L] {i c : ℕ} {n n' : Node L} {ev : Event} {out : List Envelope}

/-- On `ev` node `i` goes from `n` to `n'` and sends `out`. -/
def Acts (i : ℕ) (n : Node L) (ev : Event) (n' : Node L) (out : List Envelope) : Prop :=
  sendPass i (n.handle ev).2 = out ∧
    persistPass ((n.handle ev).1, n.quorumState) (n.handle ev).2 = (n', n'.quorumState)

lemma Cluster.react_of_acts {s : Cluster L} (hi : i ∈ s.voters)
    (hfile : s.quorumFile i = (s.nodes i).quorumState) (h : Acts i (s.nodes i) ev n' out) :
    s.react i ev = (s.move i n').post out := by
  obtain ⟨hout, hpersist⟩ := h
  rw [Cluster.react, if_pos hi, hfile, Cluster.move, ← Cluster.record_post]
  dsimp only
  rw [hpersist, hout]

lemma acts_electionTimeout (hrole : n.role ≠ .leader) (hmaj : ¬ n.majority ≤ 1) :
    Acts i n .electionTimeout n.standing (n.standing.voteMessages i) := by
  have hhandle : n.handle .electionTimeout = (n.standing,
      [.persistQuorumState, .resetElectionTimer] ++ n.standing.peers.map fun v => .sendVote v
        ⟨n.standing.currentEpoch, n.id, RaftLog.lastEpoch n.log, RaftLog.logEndOffset n.log⟩) := by
    have hcard : ¬ n.standing.majority ≤ n.standing.votesReceived.card := by
      simpa [Node.standing, Node.majority] using hmaj
    rw [Node.handle, Node.handleElectionTimeout, if_neg hrole]
    exact if_neg hcard
  rw [Acts, hhandle]
  constructor
  · rw [sendPass_append, sendPass_map i fun v => rfl]
    rfl
  · rw [persistPass_append, persistPass_of_volatile]
    · rfl
    · intro a ha
      obtain ⟨v, -, rfl⟩ := List.mem_map.mp ha
      trivial

lemma acts_electionTimeout_alone (hrole : n.role ≠ .leader) (hmaj : n.majority ≤ 1) :
    Acts i n .electionTimeout n.standing.becomeLeader.1 (n.standing.beginMessages i) := by
  have hhandle : n.handle .electionTimeout = (n.standing.becomeLeader.1,
      [.persistQuorumState, .resetElectionTimer] ++ n.standing.becomeLeader.2) := by
    have hcard : n.standing.majority ≤ n.standing.votesReceived.card := by
      simpa [Node.standing, Node.majority] using hmaj
    rw [Node.handle, Node.handleElectionTimeout, if_neg hrole]
    exact if_pos hcard
  rw [Acts, hhandle]
  refine ⟨?_, rfl⟩
  simp [Node.becomeLeader, Action.sends, Node.beginMessages]

lemma acts_heartbeatTimeout (hrole : n.role = .leader) :
    Acts i n .heartbeatTimeout n (n.heartbeatMessages i) := by
  have hhandle : n.handle .heartbeatTimeout = (n, .resetHeartbeatTimer :: n.peers.map fun v =>
      .sendFetchResponse v ⟨n.currentEpoch, n.highWatermark,
        n.entriesFrom ((n.voterFetchOffsets.lookup v).getD 0), none⟩) :=
    if_neg (not_not.mpr hrole)
  rw [Acts, hhandle]
  constructor
  · rw [sendPass_cons, sendPass_map i fun v => rfl]
    rfl
  · rw [persistPass_of_volatile]
    intro a ha
    rcases List.mem_cons.mp ha with rfl | ha
    · trivial
    · obtain ⟨v, -, rfl⟩ := List.mem_map.mp ha
      trivial

/-- A voter joins a later epoch, and grants its vote to a log that is not behind its own. -/
lemma acts_voteRequest (req : VoteRequest) (hlt : n.currentEpoch < req.epoch) :
    ∃ granted vote, Acts i n (.voteRequest c req)
        { n.becomeFollower req.epoch none with votedFor := vote }
        [⟨i, c, .voteResponse ⟨req.epoch, granted⟩⟩] ∧
      (n.isLogUpToDate req.lastLogEpoch req.lastLogOffset = true → granted = true) := by
  have hhandle : n.handle (.voteRequest c req)
      = (((n.becomeFollower req.epoch none).answerVote c req).1, .persistQuorumState ::
        ((n.becomeFollower req.epoch none).answerVote c req).2) :=
    if_pos hlt
  by_cases hlog : n.isLogUpToDate req.lastLogEpoch req.lastLogOffset = true
  · refine ⟨true, some c, ?_, fun _ => rfl⟩
    have hanswer : (n.becomeFollower req.epoch none).answerVote c req
        = ({ n.becomeFollower req.epoch none with votedFor := some c },
          [.persistQuorumState, .resetElectionTimer, .sendVoteResponse c ⟨req.epoch, true⟩]) :=
      if_pos ⟨.inl rfl, hlog⟩
    rw [Acts, hhandle, hanswer]
    exact ⟨rfl, rfl⟩
  · refine ⟨false, none, ?_, fun h => absurd h hlog⟩
    have hanswer : (n.becomeFollower req.epoch none).answerVote c req
        = (n.becomeFollower req.epoch none, [.sendVoteResponse c ⟨req.epoch, false⟩]) :=
      if_neg fun h => hlog h.2
    rw [Acts, hhandle, hanswer]
    exact ⟨rfl, rfl⟩

/-- A candidate counts a vote that is granted to it in its epoch, and leads when it has enough; a
leader ignores it. -/
lemma acts_voteResponse (granted : Bool) (hrole : n.role ≠ .follower) :
    ∃ n' out, Acts i n (.voteResponse c ⟨n.currentEpoch, granted⟩) n' out ∧
      n'.currentEpoch = n.currentEpoch ∧ n'.log = n.log ∧ n'.highWatermark = n.highWatermark ∧
      n'.role ≠ .follower ∧
      (n'.role = .candidate → n.role = .candidate ∧ n.votesReceived ⊆ n'.votesReceived ∧
        (granted = true → c ∈ n'.votesReceived)) ∧
      (n'.role = .leader → n' = n ∨
        ∀ v, n'.voterFetchOffsets.lookup v = if v ∈ n.peers then some 0 else none) := by
  by_cases hignored : n.role ≠ .candidate ∨ granted = false
  · have hhandle : n.handle (.voteResponse c ⟨n.currentEpoch, granted⟩) = (n, []) := by
      rw [Node.handle, Node.handleVoteResponse, if_neg (lt_irrefl _)]
      rcases hignored with hrole | rfl
      · rw [if_pos (.inl hrole)]
      · simp
    refine ⟨n, [], ?_, rfl, rfl, rfl, hrole, fun hcand => ?_, fun _ => .inl rfl⟩
    · rw [Acts, hhandle]
      exact ⟨rfl, rfl⟩
    · obtain rfl := hignored.resolve_left (not_not.mpr hcand)
      exact ⟨hcand, Finset.Subset.refl _, nofun⟩
  push Not at hignored
  obtain ⟨hcand, hgranted⟩ := hignored
  obtain rfl : granted = true := by simpa using hgranted
  by_cases hmaj : n.majority ≤ (insert c n.votesReceived).card
  · have hhandle : n.handle (.voteResponse c ⟨n.currentEpoch, true⟩)
        = (n.counting c).becomeLeader := by
      rw [Node.handle, Node.handleVoteResponse, if_neg (lt_irrefl _), if_neg (by simp [hcand]),
        if_pos rfl]
      exact if_pos hmaj
    refine ⟨(n.counting c).becomeLeader.1, (n.counting c).beginMessages i, ?_, rfl, rfl, rfl, nofun,
      nofun, fun _ => .inr (n.counting c).lookup_becomeLeader⟩
    rw [Acts, hhandle]
    refine ⟨?_, rfl⟩
    simp [Node.becomeLeader, Action.sends, Node.beginMessages]
  · have hhandle : n.handle (.voteResponse c ⟨n.currentEpoch, true⟩) = (n.counting c, []) := by
      rw [Node.handle, Node.handleVoteResponse, if_neg (lt_irrefl _), if_neg (by simp [hcand]),
        if_pos rfl]
      exact if_neg hmaj
    refine ⟨n.counting c, [], ?_, rfl, rfl, rfl, hrole, fun _ => ?_, fun hleads => ?_⟩
    · rw [Acts, hhandle]
      exact ⟨rfl, rfl⟩
    · exact ⟨hcand, Finset.subset_insert _ _, fun _ => Finset.mem_insert_self _ _⟩
    · cases hcand.symm.trans hleads

/-- A node that hears of a later epoch from its leader follows. -/
lemma acts_fetchResponse_of_lt (resp : FetchResponse) (hlt : n.currentEpoch < resp.epoch) :
    Acts i n (.fetchResponse c resp)
      { n.becomeFollower resp.epoch none with pendingProposes := [] } [] := by
  have hnotice := Node.rejectPendingProposes_notice (n.becomeFollower resp.epoch none)
  have hhandle : n.handle (.fetchResponse c resp)
      = ((n.becomeFollower resp.epoch none).rejectPendingProposes.1, .persistQuorumState ::
        (n.becomeFollower resp.epoch none).rejectPendingProposes.2) :=
    if_pos hlt
  rw [Acts, hhandle]
  constructor
  · rw [sendPass_cons, sendPass_of_notice i hnotice]
    rfl
  · rw [persistPass_cons, persistPass_of_volatile _ fun a ha => (hnotice a ha).isVolatile]
    rfl

end Acts

/-! ### Votes that were granted -/

/-- Who has granted a vote in an epoch follows as long as it stays there. -/
def Spent (s : Cluster L) : Prop :=
  ∀ v w e, ⟨v, w, .voteResponse ⟨e, true⟩⟩ ∈ s.sent →
    e < (s.nodes v).currentEpoch ∨ (s.nodes v).currentEpoch = e ∧ (s.nodes v).role = .follower

/-- A follower that stays in its epoch stays a follower. -/
lemma Reacts.epoch_lt_or [RaftLog L] {i : ℕ} {n n' : Node L} {ev : Event} {out : List Envelope}
    (h : Reacts i n ev n' out) : n.currentEpoch < n'.currentEpoch ∨
      n'.currentEpoch = n.currentEpoch ∧ (n.role = .follower → n'.role = .follower) := by
  cases h with
  | stands | standsAlone => exact .inl (Nat.lt_succ_self _)
  | denies c req hepoch | grants c req hepoch =>
    have hcur := Node.joined_currentEpoch hepoch
    rcases hepoch.lt_or_eq with hlt | heq
    · exact .inl (hlt.trans_eq hcur.symm)
    · have hjoined : n.joined req.epoch = n := if_neg heq.not_lt
      refine .inr ⟨hcur.trans heq.symm, fun hrole => ?_⟩
      rw [hjoined]
      exact hrole
  | outvoted c resp hepoch | overtaken c req hepoch | superseded c resp hepoch =>
    exact .inl hepoch
  | follows c req hepoch | released c req hepoch =>
    exact hepoch.lt_or_eq.imp id fun heq => ⟨heq.symm, fun _ => rfl⟩
  | counts c hrole | wins c hrole =>
    exact .inr ⟨rfl, fun hfollows => by cases hrole.symm.trans hfollows⟩
  | serves c req hepoch hrole =>
    obtain ⟨hwm, pending, hserved⟩ := n.served_eq c req.fetchOffset
    exact .inr ⟨by rw [hserved], fun hfollows => by cases hrole.symm.trans hfollows⟩
  | appends c resp hepoch hrole =>
    refine .inr ⟨?_, fun _ => ?_⟩ <;> unfold Node.adopted <;> split_ifs <;> first | rfl | exact hrole
  | ignores | heartbeats | deniesStale | answersEmpty | diverges | truncates | proposes =>
    exact .inr ⟨rfl, id⟩

namespace Spent

variable [RaftLog L] {s : Cluster L} {i : ℕ}

lemma react (h : Spent s) (hbook : VoteBook s) (hi : i ∈ s.voters) {ev : Event}
    (hj : s.Justified i ev) : Spent (s.react i ev) := by
  obtain ⟨n, out, hreacts, heq⟩ := Cluster.react_cases hi (hbook.file_eq i) ev
  have hold : Spent (s.move i n) := by
    intro v w e hm
    rw [Cluster.move_sent] at hm
    rcases eq_or_ne v i with rfl | hvi
    · rw [Cluster.move_nodes_self]
      rcases hreacts.epoch_lt_or with hlt | ⟨hepoch, hrole⟩
      · rcases h v w e hm with hpast | ⟨hnow, -⟩
        · exact .inl (hpast.trans hlt)
        · exact .inl (hnow ▸ hlt)
      · rw [hepoch]
        exact (h v w e hm).imp id (And.imp_right hrole)
    · rw [Cluster.move_nodes_of_ne s hvi]
      exact h v w e hm
  rw [heq]
  intro v w e hm
  rw [Cluster.post_sent, List.mem_append, Cluster.move_sent] at hm
  rw [Cluster.post_nodes]
  rcases hm with hm | hm
  · exact hold v w e (by rwa [Cluster.move_sent])
  · -- a vote that is granted now
    cases hreacts with
    | grants c req hepoch hvote hlog =>
      obtain ⟨rfl, rfl, hmessage⟩ := Envelope.mk.inj (List.mem_singleton.mp hm)
      obtain rfl : e = req.epoch :=
        congrArg VoteResponse.epoch (RaftMessage.voteResponse.inj hmessage)
      rw [Cluster.move_nodes_self]
      refine .inr ⟨Node.joined_currentEpoch hepoch, ?_⟩
      by_contra hrole
      unfold Node.joined at hvote hrole
      split_ifs at hvote hrole
      · exact hrole rfl
      · rw [(hbook.booked v hrole).votedFor_eq] at hvote
        rcases hvote with hnone | hsome
        · cases hnone
        · exact hbook.asks_other w v req hj (Option.some.inj hsome)
    | stands | standsAlone | wins | heartbeats =>
      simp [Node.voteMessages, Node.beginMessages, Node.heartbeatMessages] at hm
    | ignores | deniesStale | denies | outvoted | counts | follows | released | overtaken
    | answersEmpty | diverges | serves | superseded | truncates | appends | proposes => simp at hm

/-- Both invariants of the votes hold after every step. -/
lemma step (h : VoteBook s ∧ Spent s) (inp : Input) :
    VoteBook (s.step inp) ∧ Spent (s.step inp) := by
  apply Cluster.step_preserves (P := fun s => VoteBook s ∧ Spent s) (c := fun _ _ _ => True)
  · exact fun _ _ _ _ h => h
  · exact fun _ hs => hs.1.network_sent
  · exact fun _ _ hnet hs => ⟨hs.1.network hnet, hs.2⟩
  · intro s i hs
    rw [hs.1.file_eq i]
    refine ⟨hs.1.put rfl rfl fun hrole => absurd rfl hrole, fun v w e hm => ?_⟩
    rcases eq_or_ne v i with rfl | hvi
    · rw [Cluster.put_nodes_self]
      exact (hs.2 v w e hm).imp id (And.imp_right fun _ => rfl)
    · rw [Cluster.put_nodes_of_ne s hvi]
      exact hs.2 v w e hm
  · exact h
  · unfold Cluster.OnTrigger
    split <;> trivial
  · intro src dst req _
    exact ⟨h.1.post (by simp) (by simp), fun v w e hm => h.2 v w e (by simpa using hm)⟩
  · intro src dst req _
    exact ⟨h.1.post (by simp) (by simp), fun v w e hm => h.2 v w e (by simpa using hm)⟩
  · exact fun _ _ _ hs hi hj _ => ⟨hs.1.react hi hj, hs.2.react hs.1 hi hj⟩

omit [RaftLog L] in
/-- A cluster of more than one voter has one that does not lead the epoch that another leads. -/
lemma exists_not_leading (h : Spent s) (hbook : VoteBook s)
    (hmaj : 1 < (s.nodes i).majority) (hrole : (s.nodes i).role = .leader) :
    ∃ v ∈ s.voters, v ≠ i ∧ ((s.nodes v).currentEpoch = (s.nodes i).currentEpoch →
      (s.nodes v).role ≠ .leader) := by
  have hb := hbook.booked i (by rw [hrole]; exact Role.noConfusion)
  have hcard : 1 < (s.nodes i).votesReceived.card := hmaj.trans_le (hb.leader hrole).1
  obtain ⟨v, hv, hvi⟩ := Finset.exists_mem_ne hcard i
  obtain ⟨hvoter, hgranted⟩ := hb.granted v hv hvi
  refine ⟨v, hvoter, hvi, fun hepoch hleads => ?_⟩
  rcases h v i _ hgranted with hpast | ⟨-, hfollows⟩
  · exact hpast.ne' hepoch
  · cases hfollows.symm.trans hleads

end Spent

/-! ### Deliveries -/

namespace Cluster

variable [RaftLog L] {s t : Cluster L} {i : ℕ} {e : ℕ} {vs : List ℕ} {ok : Cluster L → Input → Prop}

lemma mem_eraseIdx_of_ne {α : Type*} {as : List α} {k : ℕ} {a b : α} (hk : as[k]? = some a)
    (hb : b ∈ as) (hne : b ≠ a) : b ∈ as.eraseIdx k := by
  obtain ⟨m, hm⟩ := List.mem_iff_getElem?.mp hb
  refine List.mem_eraseIdx_iff_getElem?.mpr ⟨m, fun heq => hne ?_, hm⟩
  rw [heq, hk] at hm
  exact (Option.some.inj hm).symm

/-- A message in flight can be delivered; the others stay in flight. -/
lemma exists_deliver (hok : ∀ s k, ok s (.deliver k)) {env : Envelope} (henv : env ∈ s.network) :
    ∃ net, net ⊆ s.network ∧ (∀ env' ∈ s.network, env' ≠ env → env' ∈ net) ∧
      Run.Attains step ok s ({ s with network := net }.react env.dst env.toEvent) := by
  obtain ⟨k, hk⟩ := List.mem_iff_getElem?.mp henv
  refine ⟨s.network.eraseIdx k, List.eraseIdx_subset, fun env' h hne => mem_eraseIdx_of_ne hk h hne, ?_⟩
  have hstep : s.step (.deliver k)
      = { s with network := s.network.eraseIdx k }.react env.dst env.toEvent := by
    simp only [step, hk]
  rw [← hstep]
  exact .single (hok s k)

/-- The node that a message reaches moves; all others stay, and so do the other messages. -/
lemma exists_move (hok : ∀ s k, ok s (.deliver k)) (hbook : VoteBook s) {env : Envelope}
    (henv : env ∈ s.network) (hdst : env.dst ∈ s.voters) {n : Node L} {out : List Envelope}
    (hacts : Acts env.dst (s.nodes env.dst) env.toEvent n out) :
    ∃ t, Run.Attains step ok s t ∧ VoteBook t ∧ t.voters = s.voters ∧ t.nodes env.dst = n ∧
      (∀ v, v ≠ env.dst → t.nodes v = s.nodes v) ∧ (∀ env' ∈ out, env' ∈ t.network) ∧
      ∀ env' ∈ s.network, env' ≠ env → env' ∈ t.network := by
  obtain ⟨net, -, hkeep, hattains⟩ := exists_deliver hok henv
  rw [react_of_acts (s := { s with network := net }) hdst (hbook.file_eq _) hacts] at hattains
  refine ⟨_, hattains, hattains.invariant (P := VoteBook) (fun _ inp hs _ => hs.step inp) hbook,
    ?_, ?_, fun v hv => ?_, fun env' h => ?_, fun env' h hne => ?_⟩
  · rw [post_voters, move_voters]
  · rw [post_nodes, move_nodes_self]
  · rw [post_nodes, move_nodes_of_ne _ hv]
  · rw [post_network]
    exact List.mem_append_right _ h
  · rw [post_network, move_network]
    exact List.mem_append_left _ (hkeep env' h hne)

/-! ### Campaigns -/

/-- What node `i` asks voter `v` when it stands. -/
def ballotRequest (s : Cluster L) (i v : ℕ) : Envelope :=
  ⟨i, v, .vote ⟨(s.nodes i).currentEpoch + 1, i, RaftLog.lastEpoch (s.nodes i).log,
    RaftLog.logEndOffset (s.nodes i).log⟩⟩

/-- The log of node `i` is not behind that of node `v`. -/
def Ahead (s : Cluster L) (i v : ℕ) : Prop :=
  (s.nodes v).isLogUpToDate (RaftLog.lastEpoch (s.nodes i).log)
    (RaftLog.logEndOffset (s.nodes i).log) = true

/-- The logs and the watermarks of the voters are those of before. -/
def LogsKept (s t : Cluster L) : Prop :=
  ∀ v ∈ s.voters, (t.nodes v).log = (s.nodes v).log ∧
    (t.nodes v).highWatermark = (s.nodes v).highWatermark

omit [RaftLog L] in
lemma LogsKept.trans {u : Cluster L} (h : LogsKept s t) (h' : LogsKept t u)
    (hvoters : t.voters = s.voters) : LogsKept s u := by
  intro v hv
  obtain ⟨hlog, hhwm⟩ := h v hv
  obtain ⟨hlog', hhwm'⟩ := h' v (hvoters.symm ▸ hv)
  exact ⟨hlog'.trans hlog, hhwm'.trans hhwm⟩

/-- Node `i` stood in state `s`; in state `t` the voters `vs` have not been asked yet, and all others
have answered. -/
structure Polling (s t : Cluster L) (i : ℕ) (vs : List ℕ) : Prop where
  book : VoteBook t
  voters_eq : t.voters = s.voters
  waiting : ∀ v ∈ vs, t.nodes v = s.nodes v ∧ s.ballotRequest i v ∈ t.network
  joined : ∀ v ∈ s.voters, v ≠ i → v ∉ vs →
    (t.nodes v).role = .follower ∧ (t.nodes v).currentEpoch = (s.nodes i).currentEpoch + 1
  role_ne : (t.nodes i).role ≠ .follower
  epoch_eq : (t.nodes i).currentEpoch = (s.nodes i).currentEpoch + 1
  logs : LogsKept s t
  counted : (t.nodes i).role = .candidate → ∀ v ∈ s.voters, v ≠ i → v ∉ vs → s.Ahead i v →
    v ∈ (t.nodes i).votesReceived
  fresh : (t.nodes i).role = .leader → ∀ v,
    (t.nodes i).voterFetchOffsets.lookup v = if v ∈ s.voters ∧ v ≠ i then some 0 else none

/-- The next voter is asked, and answers. -/
lemma Polling.poll {v : ℕ} (h : Polling s t i (v :: vs)) (hnodup : (v :: vs).Nodup)
    (hi : i ∈ s.voters) (hv : v ∈ s.voters) (hvi : v ≠ i)
    (hle : (s.nodes v).currentEpoch ≤ (s.nodes i).currentEpoch)
    (hok : ∀ s k, ok s (.deliver k)) :
    ∃ t', Run.Attains step ok t t' ∧ Polling s t' i vs := by
  obtain ⟨hvvs, -⟩ := List.nodup_cons.mp hnodup
  obtain ⟨hnode, hasked⟩ := h.waiting v List.mem_cons_self
  -- the request reaches `v`, which joins the epoch
  have hlt : (t.nodes v).currentEpoch < (s.nodes i).currentEpoch + 1 := by
    rw [hnode]
    exact Nat.lt_succ_of_le hle
  obtain ⟨granted, vote, hacts, hgranted⟩ := acts_voteRequest (i := v) (c := i)
    ⟨(s.nodes i).currentEpoch + 1, i, RaftLog.lastEpoch (s.nodes i).log,
      RaftLog.logEndOffset (s.nodes i).log⟩ hlt
  set answer : Envelope :=
    ⟨v, i, .voteResponse ⟨(s.nodes i).currentEpoch + 1, granted⟩⟩ with hanswer
  obtain ⟨asked, hattains, hbook, hvoters, hjoined, hothers, hsent, hkeep⟩ :=
    exists_move hok h.book hasked (h.voters_eq ▸ hv) hacts
  change asked.nodes v = _ at hjoined
  change ∀ w, w ≠ v → asked.nodes w = t.nodes w at hothers
  -- the answer reaches `i`
  obtain ⟨n, out, hacts', hepoch, hlog, hhwm, hrole, hcand, hlead⟩ :=
    acts_voteResponse (i := i) (c := v) (n := t.nodes i) granted h.role_ne
  rw [h.epoch_eq] at hacts' hepoch
  rw [← hothers i hvi.symm] at hacts'
  obtain ⟨t', hattains', hbook', hvoters', hself, hothers', -, hkeep'⟩ :=
    exists_move hok hbook (hsent answer List.mem_cons_self)
      (hvoters.symm ▸ h.voters_eq.symm ▸ hi) hacts'
  change t'.nodes i = n at hself
  change ∀ w, w ≠ i → t'.nodes w = asked.nodes w at hothers'
  refine ⟨t', hattains.trans hattains', hbook', hvoters'.trans (hvoters.trans h.voters_eq),
    fun w hw => ?_, fun w hw hwi hwvs => ?_, hself ▸ hrole, hself ▸ hepoch, fun w hw => ?_,
    fun hcandidate w hw hwi hwvs hahead => ?_, fun hleads w => ?_⟩
  · obtain ⟨hsame, hwaits⟩ := h.waiting w (List.mem_cons_of_mem _ hw)
    have hwv : w ≠ v := fun heq => hvvs (heq ▸ hw)
    have hwi : w ≠ i := h.book.asks_other i w _ (h.book.network_sent hwaits)
    refine ⟨((hothers' w hwi).trans (hothers w hwv)).trans hsame, ?_⟩
    exact hkeep' _ (hkeep _ hwaits fun heq => hwv (congrArg Envelope.dst heq))
      fun heq => hwi (congrArg Envelope.dst heq)
  · rw [hothers' w hwi]
    rcases eq_or_ne w v with rfl | hwv
    · rw [hjoined]
      exact ⟨rfl, rfl⟩
    · rw [hothers w hwv]
      exact h.joined w hw hwi (List.not_mem_cons_of_ne_of_not_mem hwv hwvs)
  · rcases eq_or_ne w i with rfl | hwi
    · rw [hself, hlog, hhwm]
      exact h.logs w hw
    · rw [hothers' w hwi]
      rcases eq_or_ne w v with rfl | hwv
      · rw [hjoined]
        exact h.logs w hw
      · rw [hothers w hwv]
        exact h.logs w hw
  · rw [hself] at hcandidate ⊢
    obtain ⟨hwas, hsub, hcounts⟩ := hcand hcandidate
    rcases eq_or_ne w v with rfl | hwv
    · exact hcounts (hgranted (hnode ▸ hahead))
    · exact hsub (h.counted hwas w hw hwi (List.not_mem_cons_of_ne_of_not_mem hwv hwvs) hahead)
  · rw [hself] at hleads ⊢
    rcases hlead hleads with heq | hfresh
    · rw [heq]
      exact h.fresh (heq ▸ hleads) w
    · have hpeers : w ∈ (t.nodes i).peers ↔ w ∈ s.voters ∧ w ≠ i := by
        rw [h.book.mem_peers, h.voters_eq]
      rw [hfresh]
      exact if_congr hpeers rfl rfl

/-- All voters are asked one after the other. -/
lemma Polling.polls (h : Polling s t i vs) (hnodup : vs.Nodup) (hi : i ∈ s.voters)
    (hvs : ∀ v ∈ vs, v ∈ s.voters ∧ v ≠ i)
    (hle : ∀ v ∈ s.voters, (s.nodes v).currentEpoch ≤ (s.nodes i).currentEpoch)
    (hok : ∀ s k, ok s (.deliver k)) :
    ∃ t', Run.Attains step ok t t' ∧ Polling s t' i [] := by
  induction vs generalizing t with
  | nil => exact ⟨t, .refl t, h⟩
  | cons v vs ih =>
    obtain ⟨hv, hvi⟩ := hvs v List.mem_cons_self
    obtain ⟨u, hu, hpolling⟩ := h.poll hnodup hi hv hvi (hle v hv) hok
    obtain ⟨t', ht', hdone⟩ := ih hpolling (List.nodup_cons.mp hnodup).2 fun w hw =>
      hvs w (List.mem_cons_of_mem _ hw)
    exact ⟨t', hu.trans ht', hdone⟩

/-- A node that does not lead and is behind nobody's epoch stands, and all others join it. -/
lemma exists_campaign (hbook : VoteBook s) (hnodup : s.voters.Nodup) (hi : i ∈ s.voters)
    (hrole : (s.nodes i).role ≠ .leader)
    (hle : ∀ v ∈ s.voters, (s.nodes v).currentEpoch ≤ (s.nodes i).currentEpoch)
    (hok : ∀ s k, ok s (.deliver k)) (hstand : ok s (.electionTimeout i)) :
    ∃ t, Run.Attains step ok s t ∧ Polling s t i [] := by
  have hbook' : VoteBook (s.react i .electionTimeout) := hbook.step (.electionTimeout i)
  have hattains : Run.Attains step ok s (s.react i .electionTimeout) := .single hstand
  have hpeers (v : ℕ) : v ∈ (s.nodes i).peers ↔ v ∈ s.voters ∧ v ≠ i := hbook.mem_peers
  by_cases hmaj : (s.nodes i).majority ≤ 1
  · -- there is no other voter
    have halone : ∀ v ∈ s.voters, v = i := by
      have hlength : s.voters.length ≤ 1 := by
        rw [Node.majority, hbook.voters_eq] at hmaj
        omega
      obtain ⟨v, hv⟩ := List.length_eq_one_iff.mp
        (hlength.antisymm (List.length_pos_of_mem hi))
      rw [hv, List.mem_singleton] at hi
      rw [hv, hi]
      exact fun w hw => List.mem_singleton.mp hw
    have hreact := react_of_acts hi (hbook.file_eq i) (acts_electionTimeout_alone hrole hmaj)
    generalize s.react i .electionTimeout = t at *
    have hself : t.nodes i = (s.nodes i).standing.becomeLeader.1 := by
      rw [hreact, post_nodes, move_nodes_self]
    refine ⟨t, hattains, hbook', ?_, fun _ hv => absurd hv List.not_mem_nil,
      fun v hv hvi => absurd (halone v hv) hvi, ?_, ?_, fun v hv => ?_,
      fun _ v hv hvi => absurd (halone v hv) hvi, ?_⟩
    · rw [hreact, post_voters, move_voters]
    · rw [hself]
      intro heq
      cases heq
    · rw [hself]
      rfl
    · rw [halone v hv, hself]
      exact ⟨rfl, rfl⟩
    · rw [hself]
      intro _ v
      rw [Node.lookup_becomeLeader]
      exact if_congr (hpeers v) rfl rfl
  · have hreact := react_of_acts hi (hbook.file_eq i) (acts_electionTimeout hrole hmaj)
    generalize s.react i .electionTimeout = t at *
    have hself : t.nodes i = (s.nodes i).standing := by
      rw [hreact, post_nodes, move_nodes_self]
    have hpolling : Polling s t i (s.nodes i).peers := by
      refine ⟨hbook', ?_, fun v hv => ?_, fun v hv hvi hnot => ?_, ?_, ?_, fun v hv => ?_,
        fun _ v hv hvi hnot => ?_, ?_⟩
      · rw [hreact, post_voters, move_voters]
      · constructor
        · rw [hreact, post_nodes, move_nodes_of_ne s ((hpeers v).mp hv).2]
        · rw [hreact, post_network]
          apply List.mem_append_right
          have hid : (s.nodes i).standing.id = i := hbook.id_eq i
          apply List.mem_map.mpr
          refine ⟨v, hv, ?_⟩
          rw [hid]
          rfl
      · exact absurd ((hpeers v).mpr ⟨hv, hvi⟩) hnot
      · rw [hself]
        intro heq
        cases heq
      · rw [hself]
        rfl
      · rcases eq_or_ne v i with rfl | hvi
        · rw [hself]
          exact ⟨rfl, rfl⟩
        · rw [hreact, post_nodes, move_nodes_of_ne s hvi]
          exact ⟨rfl, rfl⟩
      · exact absurd ((hpeers v).mpr ⟨hv, hvi⟩) hnot
      · rw [hself]
        intro heq
        cases heq
    have hnodup' : (s.nodes i).peers.Nodup := by
      rw [Node.peers, hbook.voters_eq]
      exact hnodup.filter _
    have hle' : ∀ v ∈ s.voters, (s.nodes v).currentEpoch ≤ (s.nodes i).currentEpoch := hle
    obtain ⟨u, hu, hdone⟩ := hpolling.polls hnodup' hi (fun v hv => (hpeers v).mp hv) hle' hok
    exact ⟨u, hattains.trans hu, hdone⟩

/-- With everyone's vote the candidate leads. -/
lemma Polling.leads (h : Polling s t i []) (hnodup : s.voters.Nodup) (hi : i ∈ s.voters)
    (hahead : ∀ v ∈ s.voters, s.Ahead i v) :
    (t.nodes i).role = .leader := by
  by_contra hrole
  have hcand : (t.nodes i).role = .candidate := by
    cases hr : (t.nodes i).role with
    | leader => exact absurd hr hrole
    | follower => exact absurd hr h.role_ne
    | candidate => rfl
  have hb := h.book.booked i h.role_ne
  have hsub : s.voters.toFinset ⊆ (t.nodes i).votesReceived := by
    intro v hv
    rw [List.mem_toFinset] at hv
    rcases eq_or_ne v i with rfl | hvi
    · exact hb.self_mem
    · exact h.counted hcand v hv hvi List.not_mem_nil (hahead v hv)
  have hcard := Finset.card_le_card hsub
  rw [List.toFinset_card_of_nodup hnodup] at hcard
  have hfew := hb.candidate hcand
  rw [Node.majority, h.book.voters_eq, h.voters_eq] at hfew
  have hpos := List.length_pos_of_mem hi
  omega

/-! ### Elections -/

/-- Node `i` leads epoch `e`, and all other voters follow in it. -/
structure Settled (t : Cluster L) (i e : ℕ) : Prop where
  leads : t.Leads i e
  follows : ∀ v ∈ t.voters, v ≠ i → (t.nodes v).role = .follower ∧ (t.nodes v).currentEpoch = e

/-- Among the voters there is one whose log is not behind any other. -/
lemma exists_ahead (hi : i ∈ s.voters) : ∃ c ∈ s.voters, ∀ v ∈ s.voters, s.Ahead c v := by
  obtain ⟨c, hc, hmax⟩ := s.voters.toFinset.exists_max_image
    (fun v => toLex (RaftLog.lastEpoch (s.nodes v).log, RaftLog.logEndOffset (s.nodes v).log))
    ⟨i, List.mem_toFinset.mpr hi⟩
  refine ⟨c, List.mem_toFinset.mp hc, fun v hv => ?_⟩
  have hle := hmax v (List.mem_toFinset.mpr hv)
  rw [Prod.Lex.toLex_le_toLex] at hle
  rw [Ahead, Node.isLogUpToDate]
  rcases hle with hlt | ⟨heq, hle⟩
  · rw [if_neg hlt.ne']
    exact decide_eq_true hlt
  · rw [if_pos heq.symm]
    exact decide_eq_true hle

omit [RaftLog L] in
/-- There is a voter whose epoch is the latest. -/
lemma exists_latest (hi : i ∈ s.voters) :
    ∃ c ∈ s.voters, ∀ v ∈ s.voters, (s.nodes v).currentEpoch ≤ (s.nodes c).currentEpoch := by
  obtain ⟨c, hc, hmax⟩ := s.voters.toFinset.exists_max_image
    (fun v => (s.nodes v).currentEpoch) ⟨i, List.mem_toFinset.mpr hi⟩
  exact ⟨c, List.mem_toFinset.mp hc, fun v hv => hmax v (List.mem_toFinset.mpr hv)⟩

/-- What an election needs may happen. -/
structure Permits (ok : Cluster L → Input → Prop) : Prop where
  deliver : ∀ s k, ok s (.deliver k)
  electionTimeout : ∀ s i, ok s (.electionTimeout i)
  heartbeatTimeout : ∀ s i, ok s (.heartbeatTimeout i)

/-- A heartbeat brings a voter that is behind into the leader's epoch. -/
lemma exists_overtaken {m c : ℕ} (hbook : VoteBook s) (hm : m ∈ s.voters)
    (hleads : (s.nodes m).role = .leader) (hc : c ∈ s.voters)
    (hlt : (s.nodes c).currentEpoch < (s.nodes m).currentEpoch) (hok : Permits ok) :
    ∃ t, Run.Attains step ok s t ∧ t.voters = s.voters ∧ (∀ v, v ≠ c → t.nodes v = s.nodes v) ∧
      t.nodes c = { (s.nodes c).becomeFollower (s.nodes m).currentEpoch none with
        pendingProposes := [] } := by
  have hcm : c ≠ m := by
    rintro rfl
    exact lt_irrefl _ hlt
  have hbeat := react_of_acts hm (hbook.file_eq m) (acts_heartbeatTimeout hleads)
  have hbook' : VoteBook (s.react m .heartbeatTimeout) := hbook.step (.heartbeatTimeout m)
  have hattains : Run.Attains step ok s (s.react m .heartbeatTimeout) :=
    .single (hok.heartbeatTimeout s m)
  have hvoters : (s.react m .heartbeatTimeout).voters = s.voters := by
    rw [hbeat, post_voters, move_voters]
  have hnodes (v : ℕ) : (s.react m .heartbeatTimeout).nodes v = s.nodes v := by
    rw [hbeat, post_nodes]
    rcases eq_or_ne v m with rfl | hvm
    · exact move_nodes_self s
    · exact move_nodes_of_ne s hvm
  have hmem : (⟨m, c, .fetchResponse ⟨(s.nodes m).currentEpoch, (s.nodes m).highWatermark,
      (s.nodes m).entriesFrom (((s.nodes m).voterFetchOffsets.lookup c).getD 0), none⟩⟩ :
      Envelope) ∈ (s.react m .heartbeatTimeout).network := by
    rw [hbeat, post_network]
    exact List.mem_append_right _ (List.mem_map_of_mem (hbook.mem_peers.mpr ⟨hc, hcm⟩))
  generalize s.react m .heartbeatTimeout = beating at *
  have hacts := acts_fetchResponse_of_lt (i := c) (c := m) (n := s.nodes c)
    ⟨(s.nodes m).currentEpoch, (s.nodes m).highWatermark, (s.nodes m).entriesFrom
      (((s.nodes m).voterFetchOffsets.lookup c).getD 0), none⟩ hlt
  rw [← hnodes c] at hacts
  obtain ⟨t, hdeliver, -, hvoters', hself, hothers, -⟩ :=
    exists_move hok.deliver hbook' hmem (hvoters.symm ▸ hc) hacts
  change t.nodes c = _ at hself
  refine ⟨t, hattains.trans hdeliver, hvoters'.trans hvoters, fun v hv => ?_, ?_⟩
  · exact (hothers v hv).trans (hnodes v)
  · rw [hself, hnodes]

/-- A cluster with several voters comes to a state where one that does not lead can stand. -/
lemma exists_challenger (hbook : VoteBook s) (hspent : Spent s) (hi : i ∈ s.voters)
    (hseveral : 1 < s.voters.length) (hok : Permits ok) :
    ∃ t c, Run.Attains step ok s t ∧ t.voters = s.voters ∧ LogsKept s t ∧ c ∈ s.voters ∧
      (t.nodes c).role ≠ .leader ∧ ∀ v ∈ s.voters, (t.nodes v).currentEpoch ≤
        (t.nodes c).currentEpoch ∧ (s.nodes v).currentEpoch ≤ (t.nodes c).currentEpoch := by
  obtain ⟨m, hm, hlatest⟩ := exists_latest hi
  by_cases hleads : (s.nodes m).role = .leader
  · have hmaj : 1 < (s.nodes m).majority := by
      rw [Node.majority, hbook.voters_eq]
      omega
    obtain ⟨c, hc, -, hnot⟩ := hspent.exists_not_leading hbook hmaj hleads
    by_cases hepoch : (s.nodes c).currentEpoch = (s.nodes m).currentEpoch
    · rw [← hepoch] at hlatest
      exact ⟨s, c, .refl s, rfl, fun _ _ => ⟨rfl, rfl⟩, hc, hnot hepoch, fun v hv =>
        ⟨hlatest v hv, hlatest v hv⟩⟩
    · obtain ⟨t, ht, hvoters, hother, hself⟩ :=
        exists_overtaken hbook hm hleads hc (lt_of_le_of_ne (hlatest c hc) hepoch) hok
      have hcur : (t.nodes c).currentEpoch = (s.nodes m).currentEpoch := by
        rw [hself]
        rfl
      refine ⟨t, c, ht, hvoters, fun v hv => ?_, hc, ?_, fun v hv => ?_⟩
      · rcases eq_or_ne v c with rfl | hvc
        · rw [hself]
          exact ⟨rfl, rfl⟩
        · rw [hother v hvc]
          exact ⟨rfl, rfl⟩
      · rw [hself]
        intro heq
        cases heq
      · rw [hcur]
        refine ⟨?_, hlatest v hv⟩
        rcases eq_or_ne v c with rfl | hvc
        · exact hcur.le
        · rw [hother v hvc]
          exact hlatest v hv
  · exact ⟨s, m, .refl s, rfl, fun _ _ => ⟨rfl, rfl⟩, hm, hleads, fun v hv =>
      ⟨hlatest v hv, hlatest v hv⟩⟩

lemma LogsKept.ahead (h : LogsKept s t) {v : ℕ} (hi : i ∈ s.voters) (hv : v ∈ s.voters)
    (hahead : s.Ahead i v) : t.Ahead i v := by
  rw [Ahead, Node.isLogUpToDate, (h i hi).1, (h v hv).1]
  exact hahead

lemma Polling.settled (h : Polling s t i []) (hnodup : s.voters.Nodup) (hi : i ∈ s.voters)
    (hahead : ∀ v ∈ s.voters, s.Ahead i v) : t.Settled i ((s.nodes i).currentEpoch + 1) where
  leads := ⟨h.leads hnodup hi hahead, h.epoch_eq⟩
  follows v hv hvi := h.joined v (h.voters_eq ▸ hv) hvi List.not_mem_nil

/-- A candidate that nobody is ahead of in epochs makes way for one whose log is ahead of all. -/
lemma exists_settled_of_challenger (hbook : VoteBook s) (hnodup : s.voters.Nodup) (hi : i ∈ s.voters)
    (hrole : (s.nodes i).role ≠ .leader)
    (hle : ∀ v ∈ s.voters, (s.nodes v).currentEpoch ≤ (s.nodes i).currentEpoch) (hok : Permits ok) :
    ∃ t c e, Run.Attains step ok s t ∧ VoteBook t ∧ t.voters = s.voters ∧ LogsKept s t ∧
      c ∈ s.voters ∧ t.Settled c e ∧ (∀ v ∈ s.voters, (s.nodes v).currentEpoch < e) ∧
      ∀ v, (t.nodes c).voterFetchOffsets.lookup v
        = if v ∈ s.voters ∧ v ≠ c then some 0 else none := by
  obtain ⟨t, ht, hpolling⟩ :=
    exists_campaign hbook hnodup hi hrole hle hok.deliver (hok.electionTimeout s i)
  obtain ⟨c, hc, hahead⟩ := exists_ahead hi
  rcases eq_or_ne c i with rfl | hci
  · have hsettled := hpolling.settled hnodup hi hahead
    exact ⟨t, c, _, ht, hpolling.book, hpolling.voters_eq, hpolling.logs, hi, hsettled,
      fun v hv => Nat.lt_succ_of_le (hle v hv), hpolling.fresh hsettled.leads.1⟩
  · -- everyone has joined the epoch of `i`, and `c` stands in the next one
    obtain ⟨hfollows, hepoch⟩ := hpolling.joined c hc hci List.not_mem_nil
    have hc' : c ∈ t.voters := hpolling.voters_eq.symm ▸ hc
    have hnodup' : t.voters.Nodup := hpolling.voters_eq.symm ▸ hnodup
    have hle' : ∀ v ∈ t.voters, (t.nodes v).currentEpoch ≤ (t.nodes c).currentEpoch := by
      intro v hv
      rw [hpolling.voters_eq] at hv
      rw [hepoch]
      rcases eq_or_ne v i with rfl | hvi
      · exact hpolling.epoch_eq.le
      · exact (hpolling.joined v hv hvi List.not_mem_nil).2.le
    obtain ⟨u, hu, hpolling'⟩ := exists_campaign hpolling.book hnodup' hc'
      (by rw [hfollows]; exact nofun) hle' hok.deliver (hok.electionTimeout t c)
    have hsettled := hpolling'.settled hnodup' hc' fun v hv =>
      hpolling.logs.ahead hc (hpolling.voters_eq ▸ hv) (hahead v (hpolling.voters_eq ▸ hv))
    refine ⟨u, c, _, ht.trans hu, hpolling'.book, hpolling'.voters_eq.trans hpolling.voters_eq,
      hpolling.logs.trans hpolling'.logs hpolling.voters_eq, hc, hsettled, fun v hv => ?_, ?_⟩
    · rw [hepoch]
      have := hle v hv
      omega
    · rw [← hpolling.voters_eq]
      exact hpolling'.fresh hsettled.leads.1

/-- Several voters elect a new leader, in an epoch that none has seen. -/
lemma exists_settled (hbook : VoteBook s) (hspent : Spent s) (hnodup : s.voters.Nodup)
    (hseveral : 1 < s.voters.length) (hok : Permits ok) :
    ∃ t c e, Run.Attains step ok s t ∧ VoteBook t ∧ t.voters = s.voters ∧ LogsKept s t ∧
      c ∈ s.voters ∧ t.Settled c e ∧ (∀ v ∈ s.voters, (s.nodes v).currentEpoch < e) ∧
      ∀ v, (t.nodes c).voterFetchOffsets.lookup v
        = if v ∈ s.voters ∧ v ≠ c then some 0 else none := by
  obtain ⟨i, hi⟩ := List.exists_mem_of_length_pos (Nat.zero_lt_of_lt hseveral)
  obtain ⟨t, m, ht, hvoters, hkept, hm, hrole, hlatest⟩ :=
    exists_challenger hbook hspent hi hseveral hok
  have hbook' : VoteBook t :=
    ht.invariant (P := VoteBook) (fun _ inp hs _ => hs.step inp) hbook
  obtain ⟨u, c, e, hu, hbook'', hvoters', hkept', hc, hsettled, hlt, hfresh⟩ :=
    exists_settled_of_challenger hbook' (hvoters.symm ▸ hnodup) (hvoters.symm ▸ hm) hrole
      (fun v hv => (hlatest v (hvoters ▸ hv)).1) hok
  rw [hvoters] at hvoters' hc hlt hfresh
  exact ⟨u, c, e, ht.trans hu, hbook'', hvoters', hkept.trans hkept' hvoters, hc, hsettled,
    fun v hv => (hlatest v hv).2.trans_lt (hlt m hm), hfresh⟩

omit [RaftLog L] in
lemma init_spent (voters : List ℕ) (log : ℕ → L) : VoteBook (init voters log) ∧
    Spent (init voters log) :=
  ⟨.init voters log, fun _ _ _ h => absurd h List.not_mem_nil⟩

/-- Whatever has happened, timeouts and deliveries alone can still bring about a leader that all
other voters follow. -/
theorem electable {voters : List ℕ} {log : ℕ → L} (hnodup : voters.Nodup) (hne : voters ≠ [])
    (is : List Input) :
    ∃ t, Run.Attains step (fun _ inp => inp.Spontaneous) ((init voters log).run is) t ∧
      ∃ i ∈ voters, ∃ e, t.Settled i e := by
  obtain ⟨hbook, hspent⟩ : VoteBook ((init voters log).run is) ∧ Spent ((init voters log).run is) :=
    Run.run_invariant' (P := fun s => VoteBook s ∧ Spent s) (fun _ inp hs => Spent.step hs inp)
      (init_spent voters log) is
  have hvoters : ((init voters log).run is).voters = voters := run_voters _ is
  set s := (init voters log).run is
  have hok : Permits fun (_ : Cluster L) inp => inp.Spontaneous :=
    ⟨fun _ _ => trivial, fun _ _ => trivial, fun _ _ => trivial⟩
  obtain ⟨i, hi⟩ := List.exists_mem_of_ne_nil voters hne
  by_cases hseveral : 1 < voters.length
  · obtain ⟨t, c, e, ht, -, -, -, hc, hsettled, -⟩ := exists_settled hbook hspent
      (hvoters.symm ▸ hnodup) (hvoters.symm ▸ hseveral) hok
    exact ⟨t, ht, c, hvoters ▸ hc, e, hsettled⟩
  · -- the only voter elects itself
    have halone : ∀ v ∈ s.voters, v = i := by
      obtain ⟨w, rfl⟩ := List.length_eq_one_iff.mp
        ((Nat.le_of_not_lt hseveral).antisymm (List.length_pos_of_mem hi))
      rw [hvoters]
      intro v hv
      rw [List.mem_singleton.mp hv, List.mem_singleton.mp hi]
    have hi' : i ∈ s.voters := hvoters.symm ▸ hi
    by_cases hleads : (s.nodes i).role = .leader
    · exact ⟨s, .refl s, i, hi, _, ⟨hleads, rfl⟩, fun v hv hvi => absurd (halone v hv) hvi⟩
    · obtain ⟨t, c, e, ht, -, -, -, hc, hsettled, -⟩ := exists_settled_of_challenger hbook
        (hvoters.symm ▸ hnodup) hi' hleads (fun v hv => (halone v hv).symm ▸ le_rfl) hok
      exact ⟨t, ht, c, hvoters ▸ hc, e, hsettled⟩

/-- The theorem at a cluster in which the leader of epoch 1 has crashed. -/
theorem electable_after_crash :
    [1, 2, 3].Nodup ∧ [1, 2, 3] ≠ [] ∧ ∃ t, Run.Attains step (fun _ inp => inp.Spontaneous)
      ((init [1, 2, 3] fun _ => VecLog.new).run [.electionTimeout 1, .deliver 0, .deliver 1,
        .restart 1]) t ∧ ∃ i ∈ [1, 2, 3], ∃ e, t.Settled i e :=
  ⟨by decide, by decide, electable (by decide) (by decide) _⟩

end Cluster

end Musil.Raft
