import Musil.Lib.Quorum
import Musil.Raft.Reaction

/-!
# Elections

A ballot is a vote given: a granted vote on the wire, or the vote a candidate gives itself. Every
vote a candidate counts is a ballot, and a node that has led an epoch has a majority of ballots for
it. Two leaders of one epoch would need one voter with ballots for both.
-/

namespace Musil.Raft

variable {L : Type*}

namespace Cluster

/-- `v` has voted for `c` in epoch `e`; `stood` holds the candidacies so far. -/
def Ballot (s : Cluster L) (stood : Set (ℕ × ℕ)) (v e c : ℕ) : Prop :=
  ⟨v, c, .voteResponse ⟨e, true⟩⟩ ∈ s.sent ∨ c = v ∧ (v, e) ∈ stood

/-- `v` has said in epoch `e` that it supports somebody other than `c`. -/
def SupportsOther (s : Cluster L) (v e c : ℕ) : Prop :=
  ∃ env ∈ s.sent, env.src = v ∧
    match env.message with
    | .vote req => req.epoch = e ∧ v ≠ c
    | .voteResponse resp => resp = ⟨e, true⟩ ∧ env.dst ≠ c
    | _ => False

instance (s : Cluster L) (v e c : ℕ) : Decidable (s.SupportsOther v e c) :=
  haveI : DecidablePred fun env : Envelope => env.src = v ∧
      match env.message with
      | .vote req => req.epoch = e ∧ v ≠ c
      | .voteResponse resp => resp = ⟨e, true⟩ ∧ env.dst ≠ c
      | _ => False := fun env => by
    rcases env with ⟨src, dst, message⟩
    cases message <;> infer_instance
  List.decidableBEx _ _

/-- A vote request of the voter's own epoch that would be granted on an empty `votedFor` reaches
only a voter whose vote of that epoch has not been wiped. -/
def VoteRemembered [RaftLog L] (s : Cluster L) (v : ℕ) : Event → Prop
  | .voteRequest c req =>
    req.epoch = (s.nodes v).currentEpoch → (s.nodes v).votedFor = none →
      (s.nodes v).isLogUpToDate req.lastLogEpoch req.lastLogOffset = true →
      ¬ s.SupportsOther v req.epoch c
  | _ => True

instance [RaftLog L] (s : Cluster L) (v : ℕ) : (ev : Event) → Decidable (s.VoteRemembered v ev)
  | .voteRequest _ _ => inferInstanceAs (Decidable (_ → _ → _ → ¬ _))
  | .electionTimeout | .heartbeatTimeout | .voteResponse _ _ | .beginQuorumEpoch _ _
  | .endQuorumEpoch _ _ | .fetchRequest _ _ | .fetchResponse _ _ | .propose _ _ => .isTrue trivial

end Cluster

/-- What elections keep true of a cluster. -/
structure ElectionInv (stood : Set (ℕ × ℕ)) (s : Cluster L) : Prop where
  network_sent : s.network ⊆ s.sent
  id_eq : ∀ i, (s.nodes i).id = i
  voters_eq : ∀ i, (s.nodes i).voters = s.voters
  file_eq : ∀ i, s.quorumFile i = (s.nodes i).quorumState
  vote_src : ∀ v w req, ⟨v, w, .vote req⟩ ∈ s.sent → v ∈ s.voters ∧ w ≠ v
  ballot_src : ∀ v e c, s.Ballot stood v e c → v ∈ s.voters ∧ e ≤ (s.nodes v).currentEpoch
  ballot_unique : ∀ v e c c', s.Ballot stood v e c → s.Ballot stood v e c' → c = c'
  stood_asked : ∀ v e, (v, e) ∈ stood → ∀ w ∈ s.voters, w ≠ v →
    ∃ req : VoteRequest, req.epoch = e ∧ ⟨v, w, .vote req⟩ ∈ s.sent
  voted : ∀ i c, (s.nodes i).votedFor = some c → s.Ballot stood i (s.nodes i).currentEpoch c
  backed : ∀ i, (s.nodes i).role ≠ .follower → (i, (s.nodes i).currentEpoch) ∈ stood ∧
    ∀ w ∈ (s.nodes i).votesReceived, s.Ballot stood w (s.nodes i).currentEpoch i
  majority : ∀ i, (s.nodes i).role = .leader →
    (s.nodes i).majority ≤ (s.nodes i).votesReceived.card
  elected : ∀ e i, (e, i) ∈ s.leaders → ∃ Q, IsMajority s.voters Q ∧ ∀ w ∈ Q, s.Ballot stood w e i

namespace ElectionInv

variable {stood : Set (ℕ × ℕ)} {s : Cluster L}

/-- No two nodes have led the same epoch. -/
theorem leaders_unique (h : ElectionInv stood s) {e i j : ℕ} (hi : (e, i) ∈ s.leaders)
    (hj : (e, j) ∈ s.leaders) : i = j := by
  obtain ⟨Q, hQ, hQi⟩ := h.elected e i hi
  obtain ⟨Q', hQ', hQj⟩ := h.elected e j hj
  obtain ⟨v, hv, hv'⟩ := hQ.inter hQ'
  exact h.ballot_unique v e i j (hQi v hv) (hQj v hv')

lemma init (voters : List ℕ) (log : ℕ → L) : ElectionInv ∅ (Cluster.init voters log) where
  network_sent := List.Subset.refl _
  id_eq _ := rfl
  voters_eq _ := rfl
  file_eq _ := rfl
  vote_src v w req hm := by simp [Cluster.init] at hm
  ballot_src v e c hb := by simp [Cluster.init, Cluster.Ballot] at hb
  ballot_unique v e c c' hb := by simp [Cluster.init, Cluster.Ballot] at hb
  stood_asked v e hm := by simp at hm
  voted i c hm := by simp [Cluster.init, Node.new, QuorumState.empty] at hm
  backed i hm := by simp [Cluster.init, Node.new] at hm
  majority i hm := by simp [Cluster.init, Node.new] at hm
  elected e i hm := by simp [Cluster.init] at hm

/-! ### Moves that preserve the invariant -/

lemma network (h : ElectionInv stood s) {net : List Envelope} (hnet : net ⊆ s.network) :
    ElectionInv stood { s with network := net } :=
  { h with network_sent := fun _ he => h.network_sent (hnet he) }

/-- Node `i` moves to a state whose vote and votes are backed by ballots. -/
lemma put (h : ElectionInv stood s) (i : ℕ) {n : Node L} (hid : n.id = i)
    (hvoters : n.voters = s.voters) (hepoch : (s.nodes i).currentEpoch ≤ n.currentEpoch)
    (hvoted : ∀ c, n.votedFor = some c → s.Ballot stood i n.currentEpoch c)
    (hbacked : n.role ≠ .follower → (i, n.currentEpoch) ∈ stood ∧
      ∀ w ∈ n.votesReceived, s.Ballot stood w n.currentEpoch i)
    (hmaj : n.role = .leader → n.majority ≤ n.votesReceived.card) :
    ElectionInv stood (s.put i n n.quorumState) where
  network_sent := h.network_sent
  vote_src := h.vote_src
  ballot_unique := h.ballot_unique
  stood_asked := h.stood_asked
  elected := h.elected
  ballot_src v e c hb := by
    obtain ⟨hv, he⟩ := h.ballot_src v e c hb
    refine ⟨hv, ?_⟩
    rcases eq_or_ne v i with rfl | hvi
    · rw [Cluster.put_nodes_self]
      exact he.trans hepoch
    · rwa [Cluster.put_nodes_of_ne s hvi]
  id_eq := Cluster.forall_put (P := fun j m => m.id = j) hid h.id_eq
  voters_eq := Cluster.forall_put (P := fun _ m => m.voters = s.voters) hvoters h.voters_eq
  file_eq := Cluster.FilesKept.put h.file_eq i n
  voted := Cluster.forall_put
    (P := fun j m => ∀ c, m.votedFor = some c → s.Ballot stood j m.currentEpoch c) hvoted h.voted
  backed := Cluster.forall_put (P := fun j m => m.role ≠ .follower →
    (j, m.currentEpoch) ∈ stood ∧ ∀ w ∈ m.votesReceived, s.Ballot stood w m.currentEpoch j)
    hbacked h.backed
  majority := Cluster.forall_put
    (P := fun _ m => m.role = .leader → m.majority ≤ m.votesReceived.card) hmaj h.majority

/-- Node `i` forgets its vote and follows. -/
lemma put_follower (h : ElectionInv stood s) (i : ℕ) {n : Node L} (hid : n.id = i)
    (hvoters : n.voters = s.voters) (hepoch : (s.nodes i).currentEpoch ≤ n.currentEpoch)
    (hvoted : n.votedFor = none) (hrole : n.role = .follower) :
    ElectionInv stood (s.put i n n.quorumState) :=
  h.put i hid hvoters hepoch (fun c hc => by simp [hvoted] at hc)
    (fun hr => absurd hrole hr) (fun hr => by simp [hrole] at hr)

/-- Node `i` changes nothing that elections look at. -/
lemma put_same (h : ElectionInv stood s) (i : ℕ) {n : Node L} (hid : n.id = (s.nodes i).id)
    (hvoters : n.voters = (s.nodes i).voters)
    (hepoch : n.currentEpoch = (s.nodes i).currentEpoch)
    (hvoted : n.votedFor = (s.nodes i).votedFor) (hrole : n.role = (s.nodes i).role)
    (hvotes : n.votesReceived = (s.nodes i).votesReceived) :
    ElectionInv stood (s.put i n n.quorumState) := by
  refine h.put i (hid.trans (h.id_eq i)) (hvoters.trans (h.voters_eq i)) hepoch.ge ?_ ?_ ?_
  · rw [hvoted, hepoch]
    exact h.voted i
  · rw [hrole, hepoch, hvotes]
    exact h.backed i
  · intro hr
    have := h.majority i (hrole ▸ hr)
    rwa [Node.majority, hvoters, hvotes]

/-- Messages are sent and candidacies noted. Every new ballot is the only one of its voter in its
epoch, which is the voter's current one. -/
lemma grow (h : ElectionInv stood s) {out : List Envelope} {stood' : Set (ℕ × ℕ)}
    (hstood : stood ⊆ stood')
    (hvote : ∀ v w req, ⟨v, w, .vote req⟩ ∈ out → v ∈ s.voters ∧ w ≠ v)
    (hasked : ∀ v e, (v, e) ∈ stood' → (v, e) ∉ stood → ∀ w ∈ s.voters, w ≠ v →
      ∃ req : VoteRequest, req.epoch = e ∧ ⟨v, w, .vote req⟩ ∈ (s.post out).sent)
    (hnew : ∀ v e c, (s.post out).Ballot stood' v e c → s.Ballot stood v e c ∨
      v ∈ s.voters ∧ e = (s.nodes v).currentEpoch ∧
        ∀ c', (s.post out).Ballot stood' v e c' → c' = c) :
    ElectionInv stood' (s.post out) := by
  have hold : ∀ v e c, s.Ballot stood v e c → (s.post out).Ballot stood' v e c := by
    rintro v e c (hm | ⟨hc, hm⟩)
    · exact .inl (List.mem_append_left _ hm)
    · exact .inr ⟨hc, hstood hm⟩
  exact {
    network_sent := by
      intro env he
      rw [Cluster.post_network, List.mem_append] at he
      rw [Cluster.post_sent, List.mem_append]
      exact he.imp_left (fun he => h.network_sent he)
    id_eq := h.id_eq
    voters_eq := h.voters_eq
    file_eq := h.file_eq
    vote_src := by
      intro v w req hm
      rw [Cluster.post_sent, List.mem_append] at hm
      exact hm.elim (h.vote_src v w req) (hvote v w req)
    ballot_src := by
      intro v e c hm
      rcases hnew v e c hm with hm | ⟨hv, he, -⟩
      · exact h.ballot_src v e c hm
      · exact ⟨hv, he.le⟩
    ballot_unique := by
      intro v e c c' hc hc'
      rcases hnew v e c hc with hm | ⟨-, -, honly⟩
      · rcases hnew v e c' hc' with hm' | ⟨-, -, honly⟩
        · exact h.ballot_unique v e c c' hm hm'
        · exact honly c hc
      · exact (honly c' hc').symm
    stood_asked := by
      intro v e hm w hw hwv
      by_cases hve : (v, e) ∈ stood
      · obtain ⟨req, hreq, hsent⟩ := h.stood_asked v e hve w hw hwv
        exact ⟨req, hreq, List.mem_append_left _ hsent⟩
      · exact hasked v e hm hve w hw hwv
    voted := fun i c hc => hold _ _ _ (h.voted i c hc)
    backed := fun i hi => ⟨hstood (h.backed i hi).1,
      fun w hw => hold _ _ _ ((h.backed i hi).2 w hw)⟩
    majority := h.majority
    elected := by
      intro e i hm
      obtain ⟨Q, hQ, hQi⟩ := h.elected e i hm
      exact ⟨Q, hQ, fun w hw => hold _ _ _ (hQi w hw)⟩ }

/-- Messages that give no vote change nothing. -/
lemma post_quiet (h : ElectionInv stood s) {out : List Envelope}
    (hvote : ∀ v w req, ⟨v, w, .vote req⟩ ∈ out → v ∈ s.voters ∧ w ≠ v)
    (hgrant : ∀ v w e, ⟨v, w, .voteResponse ⟨e, true⟩⟩ ∉ out) :
    ElectionInv stood (s.post out) := by
  refine h.grow subset_rfl hvote (fun v e hm hn => absurd hm hn) ?_
  rintro v e c (hm | hm)
  · rw [Cluster.post_sent, List.mem_append] at hm
    exact .inl (.inl (hm.resolve_right (hgrant v c e)))
  · exact .inl (.inr hm)

/-- Voter `v` grants its vote, having no ballot for anybody else. -/
lemma post_grant (h : ElectionInv stood s) {v c : ℕ} (hv : v ∈ s.voters)
    (honly : ∀ c', s.Ballot stood v (s.nodes v).currentEpoch c' → c' = c) :
    ElectionInv stood
      (s.post [⟨v, c, .voteResponse ⟨(s.nodes v).currentEpoch, true⟩⟩]) := by
  set out : List Envelope := [⟨v, c, .voteResponse ⟨(s.nodes v).currentEpoch, true⟩⟩] with hout
  have hb : ∀ w e d, (s.post out).Ballot stood w e d →
      s.Ballot stood w e d ∨ w = v ∧ e = (s.nodes v).currentEpoch ∧ d = c := by
    rintro w e d (hm | hm)
    · rw [Cluster.post_sent, List.mem_append] at hm
      rcases hm with hm | hm
      · exact .inl (.inl hm)
      · right
        simpa [hout, and_comm, and_assoc, and_left_comm] using hm
    · exact .inl (.inr hm)
  refine h.grow subset_rfl (fun w d req hm => by simp [hout] at hm)
    (fun w e hm hn => absurd hm hn) fun w e d hm => ?_
  rcases hb w e d hm with hm | ⟨rfl, rfl, rfl⟩
  · exact .inl hm
  · refine .inr ⟨hv, rfl, fun c' hc' => ?_⟩
    rcases hb _ _ c' hc' with hc' | ⟨-, -, rfl⟩
    · exact honly c' hc'
    · rfl

/-- Voter `v` stands in its epoch, where it has no ballot yet, and has asked everybody. -/
lemma stand (h : ElectionInv stood s) {v : ℕ} (hv : v ∈ s.voters)
    (hnone : ∀ c, ¬ s.Ballot stood v (s.nodes v).currentEpoch c)
    (hasked : ∀ w ∈ s.voters, w ≠ v → ∃ req : VoteRequest,
      req.epoch = (s.nodes v).currentEpoch ∧ ⟨v, w, .vote req⟩ ∈ s.sent) :
    ElectionInv (insert (v, (s.nodes v).currentEpoch) stood) s := by
  have hb : ∀ w e d, s.Ballot (insert (v, (s.nodes v).currentEpoch) stood) w e d →
      s.Ballot stood w e d ∨ w = v ∧ e = (s.nodes v).currentEpoch ∧ d = v := by
    rintro w e d (hm | ⟨rfl, hm⟩)
    · exact .inl (.inl hm)
    · rcases Set.mem_insert_iff.mp hm with heq | hm
      · obtain ⟨rfl, rfl⟩ := Prod.mk.inj heq
        exact .inr ⟨rfl, rfl, rfl⟩
      · exact .inl (.inr ⟨rfl, hm⟩)
  have key : ElectionInv (insert (v, (s.nodes v).currentEpoch) stood) (s.post []) := by
    refine h.grow (Set.subset_insert _ _) (fun w d req hm => by simp at hm) ?_ ?_
    · intro w e hm hn x hx hxw
      rcases Set.mem_insert_iff.mp hm with heq | hm
      · obtain ⟨rfl, rfl⟩ := Prod.mk.inj heq
        simpa using hasked x hx hxw
      · exact absurd hm hn
    · intro w e d hm
      rw [Cluster.post_nil] at hm ⊢
      rcases hb w e d hm with hm | ⟨rfl, rfl, rfl⟩
      · exact .inl hm
      · refine .inr ⟨hv, rfl, fun c' hc' => ?_⟩
        rcases hb _ _ c' hc' with hc' | ⟨-, -, rfl⟩
        · exact absurd hc' (hnone c')
        · rfl
  rwa [Cluster.post_nil] at key

/-- A leader has a majority of ballots. -/
lemma isMajority (h : ElectionInv stood s) {i : ℕ} (hi : (s.nodes i).role = .leader) :
    IsMajority s.voters (s.nodes i).votesReceived := by
  refine ⟨fun w hw => ?_, ?_⟩
  · have hb := (h.backed i (by simp [hi])).2 w hw
    exact List.mem_toFinset.mpr (h.ballot_src _ _ _ hb).1
  · have := h.majority i hi
    rwa [Node.majority, h.voters_eq] at this

/-- A leader is recorded with the majority that elected it. -/
lemma record (h : ElectionInv stood s) (i : ℕ) : ElectionInv stood (s.record i) := by
  unfold Cluster.record
  dsimp only
  split_ifs with hrole
  · refine { h with elected := fun e j hm => ?_ }
    rcases List.mem_cons.mp hm with heq | hm
    · obtain ⟨rfl, rfl⟩ := Prod.mk.inj heq
      exact ⟨_, h.isMajority hrole, (h.backed j (by simp [hrole])).2⟩
    · exact h.elected e j hm
  · exact h

/-! ### Reactions -/

/-- Node `i` forgets its vote, follows, and says nothing about votes. -/
lemma follow (h : ElectionInv stood s) (i : ℕ) {n : Node L} {out : List Envelope}
    (hid : n.id = (s.nodes i).id) (hvoters : n.voters = (s.nodes i).voters)
    (hepoch : (s.nodes i).currentEpoch ≤ n.currentEpoch) (hvoted : n.votedFor = none)
    (hrole : n.role = .follower) (hvote : ∀ v w req, ⟨v, w, .vote req⟩ ∉ out)
    (hgrant : ∀ v w e, ⟨v, w, .voteResponse ⟨e, true⟩⟩ ∉ out) :
    ElectionInv stood ((s.put i n n.quorumState).post out) :=
  (h.put_follower i (hid.trans (h.id_eq i)) (hvoters.trans (h.voters_eq i)) hepoch hvoted
    hrole).post_quiet (fun v w req hm => absurd hm (hvote v w req)) hgrant

/-- Node `i` keeps its part in elections and says nothing about votes. -/
lemma keep (h : ElectionInv stood s) (i : ℕ) {n : Node L} {out : List Envelope}
    (hid : n.id = (s.nodes i).id) (hvoters : n.voters = (s.nodes i).voters)
    (hepoch : n.currentEpoch = (s.nodes i).currentEpoch)
    (hvoted : n.votedFor = (s.nodes i).votedFor) (hrole : n.role = (s.nodes i).role)
    (hvotes : n.votesReceived = (s.nodes i).votesReceived)
    (hvote : ∀ v w req, ⟨v, w, .vote req⟩ ∉ out)
    (hgrant : ∀ v w e, ⟨v, w, .voteResponse ⟨e, true⟩⟩ ∉ out) :
    ElectionInv stood ((s.put i n n.quorumState).post out) :=
  (h.put_same i hid hvoters hepoch hvoted hrole hvotes).post_quiet
    (fun v w req hm => absurd hm (hvote v w req)) hgrant

lemma mem_peers {i v : ℕ} (h : ElectionInv stood s) :
    v ∈ (s.nodes i).peers ↔ v ∈ s.voters ∧ v ≠ i := by
  simp [Node.peers, h.voters_eq, h.id_eq]

/-- A new epoch of one's own: no ballot exists there yet. -/
lemma no_ballot_above (h : ElectionInv stood s) {v e : ℕ} (he : (s.nodes v).currentEpoch < e)
    (c : ℕ) : ¬ s.Ballot stood v e c :=
  fun hb => absurd (h.ballot_src v e c hb).2 (Nat.not_le.mpr he)

/-- A node that stands votes for itself, in an epoch where it has given no vote. -/
lemma stands (h : ElectionInv stood s) {i : ℕ} (hi : i ∈ s.voters) {out : List Envelope}
    (hvote : ∀ v w req, ⟨v, w, .vote req⟩ ∈ out → v ∈ s.voters ∧ w ≠ v)
    (hgrant : ∀ v w e, ⟨v, w, .voteResponse ⟨e, true⟩⟩ ∉ out)
    (hasked : ∀ w ∈ s.voters, w ≠ i → ∃ req : VoteRequest,
      req.epoch = (s.nodes i).currentEpoch + 1 ∧ ⟨i, w, .vote req⟩ ∈ out)
    {n : Node L} (hn : n.id = i ∧ n.voters = s.voters ∧
      n.currentEpoch = (s.nodes i).currentEpoch + 1 ∧ n.votedFor = some i ∧
      n.votesReceived = {i} ∧ (n.role = .leader → n.majority ≤ 1)) :
    ElectionInv (insert (i, (s.nodes i).currentEpoch + 1) stood)
      ((s.put i n n.quorumState).post out) := by
  obtain ⟨hid, hvoters, hepoch, hvoted, hvotes, hmaj⟩ := hn
  let m := (s.nodes i).becomeFollower ((s.nodes i).currentEpoch + 1) none
  have h1 : ElectionInv stood (s.put i m m.quorumState) :=
    h.put_follower i (h.id_eq i) (h.voters_eq i) (Nat.le_succ _) rfl rfl
  have h2 : ElectionInv stood ((s.put i m m.quorumState).post out) :=
    h1.post_quiet hvote hgrant
  have hfresh : ∀ c, ¬ ((s.put i m m.quorumState).post out).Ballot stood i m.currentEpoch c := by
    rintro c (hm | hm)
    · rw [Cluster.post_sent, List.mem_append] at hm
      exact h.no_ballot_above (Nat.lt_succ_self _) c (.inl (hm.resolve_right (hgrant i c _)))
    · exact h.no_ballot_above (Nat.lt_succ_self _) c (.inr hm)
  have hm : ((s.put i m m.quorumState).post out).nodes i = m :=
    Cluster.put_nodes_self s i m m.quorumState
  have h3 := h2.stand (v := i) hi (by rw [hm]; exact hfresh) (by
    rw [hm]
    intro w hw hwi
    obtain ⟨req, hreq, hmem⟩ := hasked w hw hwi
    exact ⟨req, hreq, List.mem_append_right _ hmem⟩)
  rw [hm] at h3
  have hself : ((s.put i m m.quorumState).post out).Ballot
      (insert (i, (s.nodes i).currentEpoch + 1) stood) i n.currentEpoch i :=
    .inr ⟨rfl, by rw [hepoch]; exact Set.mem_insert _ _⟩
  have h4 := h3.put i hid hvoters (by rw [hm, hepoch]; rfl)
    (fun c hc => by
      rw [hvoted, Option.some.injEq] at hc
      subst hc
      exact hself)
    (fun _ => ⟨by rw [hepoch]; exact Set.mem_insert _ _, fun w hw => by
      rw [hvotes, Finset.mem_singleton] at hw
      subst hw
      exact hself⟩)
    (fun hr => by simpa [hvotes] using hmaj hr)
  rwa [Cluster.put_post, Cluster.put_put] at h4

/-- Where a majority is one node there is no other voter to ask. -/
lemma eq_of_alone (h : ElectionInv stood s) {i : ℕ} (hi : i ∈ s.voters)
    (hmaj : (s.nodes i).majority ≤ 1) : ∀ w ∈ s.voters, w = i := by
  intro w hw
  rw [Node.majority, h.voters_eq] at hmaj
  obtain ⟨x, hx⟩ : ∃ x, s.voters = [x] := by
    refine List.length_eq_one_iff.mp ?_
    have := List.length_pos_of_mem hw
    omega
  simp_all

/-- A voter grants the only vote that it gives in the epoch. -/
lemma grant (h : ElectionInv stood s) {i : ℕ} (hi : i ∈ s.voters) {c : ℕ} {req : VoteRequest}
    (hepoch : (s.nodes i).currentEpoch ≤ req.epoch)
    (honly : ∀ c', s.Ballot stood i req.epoch c' → c' = c) {n : Node L}
    (hn : n = { (s.nodes i).joined req.epoch with votedFor := some c }) :
    ElectionInv stood
      ((s.put i n n.quorumState).post [⟨i, c, .voteResponse ⟨req.epoch, true⟩⟩]) := by
  subst hn
  set m := (s.nodes i).joined req.epoch with hm
  have hme : m.currentEpoch = req.epoch := by
    rw [hm, Node.joined]
    split_ifs with hlt
    · rfl
    · exact hepoch.antisymm (Nat.not_lt.mp hlt)
  have h1 : ElectionInv stood (s.put i m m.quorumState) := by
    rw [hm, Node.joined]
    split_ifs with hlt
    · exact h.put_follower i (h.id_eq i) (h.voters_eq i) hlt.le rfl rfl
    · exact h.put_same i rfl rfl rfl rfl rfl rfl
  have hnode : (s.put i m m.quorumState).nodes i = m :=
    Cluster.put_nodes_self s i m m.quorumState
  have h2 := h1.post_grant (v := i) (c := c) hi (by rw [hnode, hme]; exact honly)
  rw [hnode, hme] at h2
  have hin : ((s.put i m m.quorumState).post
      [⟨i, c, .voteResponse ⟨req.epoch, true⟩⟩]).nodes i = m := hnode
  have h3 := h2.put i (n := { m with votedFor := some c })
    (by rw [← hin]; exact h2.id_eq i) (by rw [← hin]; exact h2.voters_eq i)
    (by rw [hin])
    (fun c' hc' => by
      obtain rfl : c = c' := by simpa using hc'
      left
      rw [Cluster.post_sent, List.mem_append]
      right
      simp [hme])
    (fun hr => by simpa only [hin] using h2.backed i (by rw [hin]; exact hr))
    (fun hr => by
      have hmaj := h2.majority i (by rw [hin]; exact hr)
      rw [hin] at hmaj
      exact hmaj)
  rwa [Cluster.put_post, Cluster.put_put] at h3

/-- A vote that has been granted may be counted. -/
lemma backed_insert (h : ElectionInv stood s) {i c : ℕ} (hrole : (s.nodes i).role ≠ .follower)
    (hgranted : s.Ballot stood c (s.nodes i).currentEpoch i) :
    (i, (s.nodes i).currentEpoch) ∈ stood ∧ ∀ w ∈ insert c (s.nodes i).votesReceived,
      s.Ballot stood w (s.nodes i).currentEpoch i := by
  obtain ⟨hstood, hvotes⟩ := h.backed i hrole
  refine ⟨hstood, fun w hw => ?_⟩
  rcases Finset.mem_insert.mp hw with rfl | hw
  · exact hgranted
  · exact hvotes w hw

variable [RaftLog L]

/-- The vote of a voter that has wiped none is its only ballot in the epoch. -/
lemma ballot_only (h : ElectionInv stood s) {v c : ℕ} {req : VoteRequest}
    (hsent : ⟨c, v, .vote req⟩ ∈ s.sent) (hkept : s.VoteRemembered v (.voteRequest c req))
    (hepoch : (s.nodes v).currentEpoch ≤ req.epoch)
    (hvote : ((s.nodes v).joined req.epoch).votedFor = none ∨
      ((s.nodes v).joined req.epoch).votedFor = some c)
    (hlog : (s.nodes v).isLogUpToDate req.lastLogEpoch req.lastLogOffset = true) {c' : ℕ}
    (hb : s.Ballot stood v req.epoch c') : c' = c := by
  rcases hepoch.lt_or_eq with hlt | heq
  · exact absurd hb (h.no_ballot_above hlt c')
  rw [Node.joined, if_neg heq.not_lt] at hvote
  rcases hvote with hnone | hsome
  · by_contra hne
    obtain ⟨hc, hvc⟩ := h.vote_src c v req hsent
    refine hkept heq.symm hnone hlog ?_
    rcases hb with hb | ⟨rfl, hb⟩
    · exact ⟨_, hb, rfl, rfl, hne⟩
    · obtain ⟨req', hreq', hmem⟩ := h.stood_asked c' req.epoch hb c hc (Ne.symm hvc)
      exact ⟨_, hmem, rfl, hreq', hvc⟩
  · exact h.ballot_unique v _ _ _ hb (heq ▸ h.voted v c hsome)

/-- Every reaction of a voter that remembers its votes preserves the invariant. -/
theorem react (h : ElectionInv stood s) {i : ℕ} (hi : i ∈ s.voters) {ev : Event}
    (hj : s.Justified i ev) (hc : s.VoteRemembered i ev) :
    ∃ stood', ElectionInv stood' (s.react i ev) := by
  obtain ⟨n, out, hreacts, heq⟩ := Cluster.react_cases hi (h.file_eq i) ev
  rw [heq, Cluster.move, ← Cluster.record_post]
  suffices ∃ stood', ElectionInv stood' ((s.put i n n.quorumState).post out) from
    this.imp fun _ h' => h'.record i
  cases hreacts with
  | stands hrole hmaj =>
    refine ⟨_, h.stands hi ?_ ?_ ?_
      ⟨h.id_eq i, h.voters_eq i, rfl, congrArg some (h.id_eq i), ?_, fun hr => ?_⟩⟩
    · intro v w req hm
      simp only [Node.voteMessages, List.mem_map, Envelope.mk.injEq] at hm
      obtain ⟨x, hx, rfl, rfl, -⟩ := hm
      exact ⟨hi, (h.mem_peers.mp hx).2⟩
    · intro v w e hm
      simp [Node.voteMessages] at hm
    · intro w hw hwi
      exact ⟨_, rfl, List.mem_map.mpr ⟨w, h.mem_peers.mpr ⟨hw, hwi⟩, rfl⟩⟩
    · simp [Node.standing, h.id_eq]
    · simp [Node.standing] at hr
  | standsAlone hrole hmaj =>
    refine ⟨_, h.stands hi ?_ ?_ ?_
      ⟨h.id_eq i, h.voters_eq i, rfl, congrArg some (h.id_eq i), ?_, fun _ => hmaj⟩⟩
    · intro v w req hm
      simp [Node.beginMessages] at hm
    · intro v w e hm
      simp [Node.beginMessages] at hm
    · exact fun w hw hwi => absurd (h.eq_of_alone hi hmaj w hw) hwi
    · simp [Node.becomeLeader, Node.standing, h.id_eq]
  | denies c req hepoch =>
    refine ⟨stood, ?_⟩
    unfold Node.joined
    split_ifs with hlt
    · exact h.follow i rfl rfl hlt.le rfl rfl (by simp) (by simp)
    · exact h.keep i rfl rfl rfl rfl rfl rfl (by simp) (by simp)
  | grants c req hepoch hvote hlog =>
    exact ⟨stood, h.grant hi hepoch (fun c' => h.ballot_only hj hc hepoch hvote hlog) rfl⟩
  | counts c hrole hmaj =>
    refine ⟨stood, ?_⟩
    rw [Cluster.post_nil]
    refine h.put i (h.id_eq i) (h.voters_eq i) le_rfl (h.voted i)
      (fun hr => h.backed_insert hr (.inl hj)) (fun hr => ?_)
    simp [Node.counting, hrole] at hr
  | wins c hrole hmaj =>
    refine ⟨stood, ?_⟩
    refine (h.put i (n := ((s.nodes i).counting c).becomeLeader.1) (h.id_eq i) (h.voters_eq i)
      le_rfl (h.voted i) (fun _ => h.backed_insert (by simp [hrole]) (.inl hj))
      (fun _ => hmaj)).post_quiet (fun v w req hm => ?_) (fun v w e hm => ?_)
    · simp [Node.beginMessages] at hm
    · simp [Node.beginMessages] at hm
  | outvoted c resp hepoch => exact ⟨stood, h.follow i rfl rfl hepoch.le rfl rfl (by simp) (by simp)⟩
  | follows c req hepoch => exact ⟨stood, h.follow i rfl rfl hepoch rfl rfl (by simp) (by simp)⟩
  | released c req hepoch => exact ⟨stood, h.follow i rfl rfl hepoch rfl rfl (by simp) (by simp)⟩
  | overtaken c req hepoch => exact ⟨stood, h.follow i rfl rfl hepoch.le rfl rfl (by simp) (by simp)⟩
  | superseded c resp hepoch => exact ⟨stood, h.follow i rfl rfl hepoch.le rfl rfl (by simp) (by simp)⟩
  | serves c req hepoch hrole hdiv =>
    refine ⟨stood, ?_⟩
    obtain ⟨hwm, pending, hserved⟩ := (s.nodes i).served_eq c req.fetchOffset
    rw [hserved]
    exact h.keep i rfl rfl rfl rfl rfl rfl (by simp) (by simp)
  | appends c resp hepoch hrole hdiv =>
    refine ⟨stood, ?_⟩
    unfold Node.adopted
    split_ifs <;> exact h.keep i rfl rfl rfl rfl rfl rfl (by simp) (by simp)
  | heartbeats hrole =>
    exact ⟨stood, h.keep i rfl rfl rfl rfl rfl rfl (by simp [Node.heartbeatMessages])
      (by simp [Node.heartbeatMessages])⟩
  | ignores | deniesStale | answersEmpty | diverges | truncates | proposes =>
    exact ⟨stood, h.keep i rfl rfl rfl rfl rfl rfl (by simp) (by simp)⟩

end ElectionInv

/-- The invariant holds after every step of a cluster whose voters remember their votes. -/
theorem ElectionInv.step [RaftLog L] {s : Cluster L} {inp : Input}
    (h : ∃ stood, ElectionInv stood s)
    (hok : Cluster.OnTrigger Cluster.VoteRemembered s inp) :
    ∃ stood, ElectionInv stood (s.step inp) := by
  refine Cluster.step_preserves (P := fun s => ∃ stood, ElectionInv stood s)
    (c := Cluster.VoteRemembered) (fun s net i ev h => ?_) (fun s hs => ?_)
    (fun s net hnet hs => ?_) (fun s i hs => ?_) h hok (fun src dst req _ => ?_)
    (fun src dst req _ => ?_) (fun s i ev hs hi hj hc => ?_)
  · cases ev <;> exact h
  · exact hs.choose_spec.network_sent
  · exact hs.imp fun _ h => h.network hnet
  · obtain ⟨stood, h⟩ := hs
    refine ⟨stood, ?_⟩
    have := h.file_eq i
    rw [this]
    exact h.put i rfl rfl le_rfl (h.voted i) (fun hr => absurd rfl hr)
      (fun hr => by simp [Node.new] at hr)
  · exact h.imp fun _ h => h.post_quiet (by simp) (by simp)
  · exact h.imp fun _ h => h.post_quiet (by simp) (by simp)
  · exact hs.choose_spec.react hi hj hc

/-! ### Leaders over a run -/

namespace Cluster

def Leads (s : Cluster L) (i e : ℕ) : Prop :=
  (s.nodes i).role = .leader ∧ (s.nodes i).currentEpoch = e

instance (s : Cluster L) (i e : ℕ) : Decidable (s.Leads i e) :=
  inferInstanceAs (Decidable (_ ∧ _))

/-- Every leader is on record. -/
def Recorded (s : Cluster L) : Prop :=
  ∀ i e, s.Leads i e → (e, i) ∈ s.leaders

lemma leaders_record (s : Cluster L) (i : ℕ) : s.leaders ⊆ (s.record i).leaders := by
  unfold record
  dsimp only
  split_ifs
  · exact List.subset_cons_self _ _
  · exact List.Subset.refl _

lemma Recorded.record {s : Cluster L} {i : ℕ}
    (h : ∀ j e, j ≠ i → s.Leads j e → (e, j) ∈ s.leaders) : (s.record i).Recorded := by
  intro j e hj
  rw [Leads, record_nodes] at hj
  rcases eq_or_ne j i with rfl | hji
  · obtain ⟨hrole, rfl⟩ := hj
    rw [Cluster.record, if_pos hrole]
    exact List.mem_cons_self
  · exact leaders_record s i (h j e hji hj)

variable [RaftLog L]

lemma leaders_react (s : Cluster L) (i : ℕ) (ev : Event) :
    s.leaders ⊆ (s.react i ev).leaders := by
  by_cases hi : i ∈ s.voters
  · rw [react, if_pos hi]
    exact leaders_record (post (put s i _ _) _) i
  · rw [react, if_neg hi]
    exact List.Subset.refl _

lemma Recorded.react {s : Cluster L} (h : s.Recorded) (i : ℕ) (ev : Event) :
    (s.react i ev).Recorded := by
  by_cases hi : i ∈ s.voters
  · rw [Cluster.react, if_pos hi]
    refine Recorded.record fun j e hji hj => h j e ?_
    rwa [Leads, post_nodes, put_nodes_of_ne s hji] at hj
  · rwa [Cluster.react, if_neg hi]

/-- What has led stays on record. -/
lemma leaders_step (s : Cluster L) (inp : Input) : s.leaders ⊆ (s.step inp).leaders := by
  cases inp with
  | deliver k =>
    simp only [step]
    split
    · exact List.Subset.refl _
    · exact leaders_react { s with network := s.network.eraseIdx k } _ _
  | electionTimeout i => exact leaders_react s i .electionTimeout
  | heartbeatTimeout i => exact leaders_react s i .heartbeatTimeout
  | propose i data proposeId => exact leaders_react s i (.propose data proposeId)
  | lose | restart | fetch | resign => exact List.Subset.refl _

lemma Recorded.step {s : Cluster L} (inp : Input) (h : s.Recorded) : (s.step inp).Recorded := by
  cases inp with
  | deliver k =>
    simp only [Cluster.step]
    split
    · exact h
    · exact Recorded.react (s := { s with network := s.network.eraseIdx k }) h _ _
  | electionTimeout i => exact h.react i .electionTimeout
  | heartbeatTimeout i => exact h.react i .heartbeatTimeout
  | propose i data proposeId => exact h.react i (.propose data proposeId)
  | restart i =>
    intro j e hj
    rcases eq_or_ne j i with rfl | hji
    · simp [Leads, Cluster.step, Node.new] at hj
    · rw [Leads, Cluster.step, put_nodes_of_ne s hji] at hj
      exact h j e hj
  | lose | fetch | resign => exact h

lemma recorded_run (voters : List ℕ) (log : ℕ → L) (is : List Input) :
    ((init voters log).run is).Recorded :=
  Run.run_invariant' (fun _ inp h => h.step inp)
    (fun i e h => by simp [Leads, init, Node.new] at h) is

lemma leaders_run (s : Cluster L) (is : List Input) : s.leaders ⊆ (s.run is).leaders :=
  Run.run_invariant' (P := fun t : Cluster L => s.leaders ⊆ t.leaders)
    (fun t inp h => List.Subset.trans h (leaders_step t inp)) (List.Subset.refl _) is

/-- No two nodes lead the same epoch, at the same moment of the run or at two. -/
def ElectionSafety (s : Cluster L) (is : List Input) : Prop :=
  ∀ m n e i j, (s.run (is.take m)).Leads i e → (s.run (is.take n)).Leads j e → i = j

lemma mem_leaders_of_leads {voters : List ℕ} {log : ℕ → L} {is : List Input} {m i e : ℕ}
    (h : ((init voters log).run (is.take m)).Leads i e) :
    (e, i) ∈ ((init voters log).run is).leaders := by
  have hmem := recorded_run voters log (is.take m) i e h
  rw [← List.take_append_drop m is, run, Run.run_append]
  exact leaders_run _ _ hmem

/-- Elections are safe in every run in which voters remember their votes. -/
theorem electionSafety_of_voteRemembered (voters : List ℕ) (log : ℕ → L) (is : List Input)
    (hok : Run.Meets step (OnTrigger VoteRemembered) (init voters log) is) :
    ElectionSafety (init voters log) is := by
  intro m n e i j hi hj
  obtain ⟨stood, h⟩ : ∃ stood, ElectionInv stood ((init voters log).run is) :=
    Run.run_invariant (P := fun s => ∃ stood, ElectionInv stood s)
      (fun _ _ h hok => ElectionInv.step h hok) ⟨∅, .init voters log⟩ hok
  exact h.leaders_unique (mem_leaders_of_leads hi) (mem_leaders_of_leads hj)

/-- Node 1 is elected, announces itself, and is later replaced by node 2. -/
theorem electionSafety_two_terms :
    ElectionSafety (init [1, 2, 3] fun _ => VecLog.new)
      [.electionTimeout 1, .deliver 0, .deliver 1, .deliver 1, .electionTimeout 2, .deliver 3,
        .deliver 3] :=
  electionSafety_of_voteRemembered _ _ _ (by decide)

/-- An announcement wipes the vote of node 3, which then votes again in the same epoch. -/
theorem electionSafety_not_all_runs :
    ¬ ElectionSafety (init [1, 2, 3] fun _ => VecLog.new)
      [.electionTimeout 1, .electionTimeout 2, .deliver 1, .deliver 3, .deliver 4, .deliver 2,
        .deliver 3] := by
  intro h
  exact absurd (h 7 7 1 1 2 (by decide) (by decide)) (by decide)

end Cluster

end Musil.Raft
