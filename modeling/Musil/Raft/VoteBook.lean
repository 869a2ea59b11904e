import Musil.Raft.Reaction

/-!
# The books of candidates and leaders

A node that is a candidate or a leader has voted for itself, and every other vote it counts was
granted to it in its epoch by a voter. A candidate has too few votes; a leader has enough of them,
names itself, and has noted an offset for every other voter. None of this needs voters to remember
their votes: it is what the counting itself keeps true.
-/

namespace Musil.Raft

variable {L : Type*}

/-- What the state `n` of node `i` says about its votes, if it is no follower. -/
structure Cluster.Booked (s : Cluster L) (i : ℕ) (n : Node L) : Prop where
  votedFor_eq : n.votedFor = some i
  self_mem : i ∈ n.votesReceived
  granted : ∀ w ∈ n.votesReceived, w ≠ i →
    w ∈ s.voters ∧ ⟨w, i, .voteResponse ⟨n.currentEpoch, true⟩⟩ ∈ s.sent
  candidate : n.role = .candidate → n.votesReceived.card < n.majority
  leader : n.role = .leader → n.majority ≤ n.votesReceived.card ∧ n.leaderId = some i ∧
    ∀ v ∈ s.voters, v ≠ i → (n.voterFetchOffsets.lookup v).isSome

/-- Books stay in order while messages are added. -/
lemma Cluster.Booked.mono {s s' : Cluster L} {i : ℕ} {n : Node L} (h : s.Booked i n)
    (hvoters : s'.voters = s.voters) (hsent : s.sent ⊆ s'.sent) : s'.Booked i n where
  votedFor_eq := h.votedFor_eq
  self_mem := h.self_mem
  granted w hw hwi := by
    obtain ⟨hvoter, hvote⟩ := h.granted w hw hwi
    rw [hvoters]
    exact ⟨hvoter, hsent hvote⟩
  candidate := h.candidate
  leader hrole := by
    rw [hvoters]
    exact h.leader hrole

/-- What vote counting keeps true of a cluster. -/
structure VoteBook (s : Cluster L) : Prop where
  network_sent : s.network ⊆ s.sent
  id_eq : ∀ i, (s.nodes i).id = i
  voters_eq : ∀ i, (s.nodes i).voters = s.voters
  file_eq : ∀ i, s.quorumFile i = (s.nodes i).quorumState
  asks_other : ∀ v w req, ⟨v, w, .vote req⟩ ∈ s.sent → w ≠ v
  granted_src : ∀ v w e, ⟨v, w, .voteResponse ⟨e, true⟩⟩ ∈ s.sent → v ∈ s.voters
  booked : ∀ i, (s.nodes i).role ≠ .follower → s.Booked i (s.nodes i)

namespace VoteBook

variable {s : Cluster L} {i : ℕ} {n : Node L} {out : List Envelope}

lemma init (voters : List ℕ) (log : ℕ → L) : VoteBook (Cluster.init voters log) where
  network_sent := List.Subset.refl _
  id_eq _ := rfl
  voters_eq _ := rfl
  file_eq _ := rfl
  asks_other _ _ _ hm := absurd hm List.not_mem_nil
  granted_src _ _ _ hm := absurd hm List.not_mem_nil
  booked _ hrole := absurd rfl hrole

/-! ### Moves that preserve the books -/

lemma network (h : VoteBook s) {net : List Envelope} (hnet : net ⊆ s.network) :
    VoteBook { s with network := net } where
  network_sent := fun _ he => h.network_sent (hnet he)
  id_eq := h.id_eq
  voters_eq := h.voters_eq
  file_eq := h.file_eq
  asks_other := h.asks_other
  granted_src := h.granted_src
  booked i hrole := (h.booked i hrole).mono rfl (List.Subset.refl _)

/-- Node `i` moves to a state with its books in order. -/
lemma put (h : VoteBook s) (hid : n.id = i) (hvoters : n.voters = s.voters)
    (hbooked : n.role ≠ .follower → s.Booked i n) : VoteBook (s.put i n n.quorumState) where
  network_sent := h.network_sent
  asks_other := h.asks_other
  granted_src := h.granted_src
  id_eq := Cluster.forall_put (P := fun j m => m.id = j) hid h.id_eq
  voters_eq := Cluster.forall_put (P := fun _ m => m.voters = s.voters) hvoters h.voters_eq
  file_eq := Cluster.FilesKept.put h.file_eq i n
  booked j hrole := by
    have hput := Cluster.forall_put (q := n.quorumState)
      (P := fun j m => m.role ≠ .follower → s.Booked j m) hbooked h.booked j hrole
    exact hput.mono rfl (List.Subset.refl _)

/-- Messages ask others only, and grant the votes of voters. -/
lemma post (h : VoteBook s) (hask : ∀ v w req, ⟨v, w, .vote req⟩ ∈ out → w ≠ v)
    (hgrant : ∀ v w e, ⟨v, w, .voteResponse ⟨e, true⟩⟩ ∈ out → v ∈ s.voters) :
    VoteBook (s.post out) where
  id_eq := h.id_eq
  voters_eq := h.voters_eq
  file_eq := h.file_eq
  network_sent env he := by
    rw [Cluster.post_network, List.mem_append] at he
    rw [Cluster.post_sent, List.mem_append]
    exact he.imp_left fun he => h.network_sent he
  asks_other v w req hm := by
    rw [Cluster.post_sent, List.mem_append] at hm
    exact hm.elim (h.asks_other v w req) (hask v w req)
  granted_src v w e hm := by
    rw [Cluster.post_sent, List.mem_append] at hm
    exact hm.elim (h.granted_src v w e) (hgrant v w e)
  booked j hrole := (h.booked j hrole).mono rfl (List.subset_append_left _ _)

lemma record (h : VoteBook s) (i : ℕ) : VoteBook (s.record i) := by
  unfold Cluster.record
  dsimp only
  split_ifs
  · exact { h with booked := fun j hrole => (h.booked j hrole).mono rfl (List.Subset.refl _) }
  · exact h

/-! ### Reactions -/

/-- A reaction that neither asks for votes nor grants one. -/
lemma react_quiet (h : VoteBook s) (hid : n.id = (s.nodes i).id)
    (hvoters : n.voters = (s.nodes i).voters) (hbooked : n.role ≠ .follower → s.Booked i n)
    (hask : ∀ v w req, ⟨v, w, .vote req⟩ ∉ out)
    (hgrant : ∀ v w e, ⟨v, w, .voteResponse ⟨e, true⟩⟩ ∉ out) :
    VoteBook ((s.put i n n.quorumState).post out) :=
  (h.put (hid.trans (h.id_eq i)) (hvoters.trans (h.voters_eq i)) hbooked).post
    (fun v w req hm => absurd hm (hask v w req)) fun v w e hm => absurd hm (hgrant v w e)

lemma mem_peers (h : VoteBook s) {v : ℕ} : v ∈ (s.nodes i).peers ↔ v ∈ s.voters ∧ v ≠ i := by
  simp [Node.peers, h.voters_eq, h.id_eq]

/-- A node that stands has its own vote. -/
lemma booked_standing (h : VoteBook s) (hmaj : ¬ (s.nodes i).majority ≤ 1) :
    s.Booked i (s.nodes i).standing where
  votedFor_eq := congrArg some (h.id_eq i)
  self_mem := Finset.mem_singleton.mpr (h.id_eq i).symm
  granted w hw hwi := absurd ((Finset.mem_singleton.mp hw).trans (h.id_eq i)) hwi
  candidate _ := Nat.not_le.mp hmaj
  leader hrole := by cases hrole

/-- A node that has enough votes leads, and notes the other voters. -/
lemma booked_becomeLeader (hid : n.id = i) (hvoters : n.voters = s.voters)
    (hvoted : n.votedFor = some i) (hself : i ∈ n.votesReceived)
    (hgranted : ∀ w ∈ n.votesReceived, w ≠ i →
      w ∈ s.voters ∧ ⟨w, i, .voteResponse ⟨n.currentEpoch, true⟩⟩ ∈ s.sent)
    (hmaj : n.majority ≤ n.votesReceived.card) : s.Booked i n.becomeLeader.1 where
  votedFor_eq := hvoted
  self_mem := hself
  granted := hgranted
  candidate hrole := by cases hrole
  leader _ := by
    refine ⟨hmaj, congrArg some hid, fun v hv hvi => ?_⟩
    have hpeer : v ∈ n.peers := by
      simp [Node.peers, hvoters, hid, hv, hvi]
    rw [Node.lookup_becomeLeader, if_pos hpeer]
    rfl

/-- One more vote that was granted in the epoch. -/
lemma granted_counting (h : VoteBook s) {c : ℕ} (hb : s.Booked i (s.nodes i))
    (hsent : ⟨c, i, .voteResponse ⟨(s.nodes i).currentEpoch, true⟩⟩ ∈ s.sent) :
    ∀ w ∈ ((s.nodes i).counting c).votesReceived, w ≠ i →
      w ∈ s.voters ∧ ⟨w, i, .voteResponse ⟨(s.nodes i).currentEpoch, true⟩⟩ ∈ s.sent := by
  intro w hw hwi
  rcases Finset.mem_insert.mp hw with rfl | hw
  · exact ⟨h.granted_src w i _ hsent, hsent⟩
  · exact hb.granted w hw hwi

lemma isSome_lookup_credited {v w offset : ℕ} (h : (n.voterFetchOffsets.lookup w).isSome) :
    ((n.credited v offset).voterFetchOffsets.lookup w).isSome := by
  rw [Node.credited]
  split_ifs
  · rcases eq_or_ne w v with rfl | hwv
    · rw [AList.lookup_insert]
      rfl
    · rwa [AList.lookup_insert_ne hwv]
  · exact h

/-- Who grants a vote follows: a node that does not has voted for itself, and asks no vote of
itself. -/
lemma react_grants (h : VoteBook s) (hi : i ∈ s.voters) {c : ℕ} {req : VoteRequest}
    (hsent : ⟨c, i, .vote req⟩ ∈ s.sent)
    (hvote : ((s.nodes i).joined req.epoch).votedFor = none ∨
      ((s.nodes i).joined req.epoch).votedFor = some c) {n : Node L}
    (hn : n = { (s.nodes i).joined req.epoch with votedFor := some c }) :
    VoteBook ((s.put i n n.quorumState).post [⟨i, c, .voteResponse ⟨req.epoch, true⟩⟩]) := by
  subst hn
  have hasks : i ≠ c := h.asks_other c i req hsent
  have hid : (((s.nodes i).joined req.epoch).id = i) ∧
      ((s.nodes i).joined req.epoch).voters = s.voters := by
    unfold Node.joined
    split_ifs <;> exact ⟨h.id_eq i, h.voters_eq i⟩
  have hfollows : ((s.nodes i).joined req.epoch).role = .follower := by
    by_contra hrole
    unfold Node.joined at hvote hrole
    split_ifs at hvote hrole
    · exact hrole rfl
    · rw [(h.booked i hrole).votedFor_eq] at hvote
      rcases hvote with hnone | hsome
      · cases hnone
      · exact hasks (Option.some.inj hsome)
  have hput := h.put (n := { (s.nodes i).joined req.epoch with votedFor := some c }) hid.1 hid.2
    fun hrole => absurd hfollows hrole
  apply hput.post
  · simp
  · intro v w e hm
    obtain ⟨rfl, -⟩ := Envelope.mk.inj (List.mem_singleton.mp hm)
    exact hi

variable [RaftLog L]

/-- Every reaction of a voter keeps the books in order. -/
theorem react (h : VoteBook s) (hi : i ∈ s.voters) {ev : Event} (hj : s.Justified i ev) :
    VoteBook (s.react i ev) := by
  obtain ⟨n, out, hreacts, heq⟩ := Cluster.react_cases hi (h.file_eq i) ev
  rw [heq, Cluster.move, ← Cluster.record_post]
  apply record
  have hkeep := h.booked i
  cases hreacts with
  | stands hrole hmaj =>
    have hput := h.put (n := (s.nodes i).standing) (h.id_eq i) (h.voters_eq i) fun _ =>
      h.booked_standing hmaj
    apply hput.post
    · intro v w req hm
      simp only [Node.voteMessages, List.mem_map, Envelope.mk.injEq] at hm
      obtain ⟨x, hx, rfl, rfl, -⟩ := hm
      exact (h.mem_peers.mp hx).2
    · intro v w e hm
      simp [Node.voteMessages] at hm
  | standsAlone hrole hmaj =>
    refine h.react_quiet rfl rfl (fun _ => ?_) (by simp [Node.beginMessages])
      (by simp [Node.beginMessages])
    have hself : i ∈ (s.nodes i).standing.votesReceived :=
      Finset.mem_singleton.mpr (h.id_eq i).symm
    refine booked_becomeLeader (h.id_eq i) (h.voters_eq i) (congrArg some (h.id_eq i)) hself ?_
      hmaj
    exact fun w hw hwi => absurd ((Finset.mem_singleton.mp hw).trans (h.id_eq i)) hwi
  | denies c req hepoch =>
    unfold Node.joined
    split_ifs
    · exact h.react_quiet rfl rfl (fun hrole => absurd rfl hrole) (by simp) (by simp)
    · exact h.react_quiet rfl rfl hkeep (by simp) (by simp)
  | grants c req hepoch hvote hlog =>
    exact h.react_grants hi hj hvote rfl
  | counts c hrole hmaj =>
    have hb := hkeep (by rw [hrole]; exact Role.noConfusion)
    refine h.react_quiet rfl rfl (fun _ => ?_) (by simp) (by simp)
    refine ⟨hb.votedFor_eq, Finset.mem_insert_of_mem hb.self_mem, h.granted_counting hb hj,
      fun _ => Nat.not_le.mp hmaj, fun hleader => ?_⟩
    cases hrole.symm.trans hleader
  | wins c hrole hmaj =>
    have hb := hkeep (by rw [hrole]; exact Role.noConfusion)
    refine h.react_quiet rfl rfl (fun _ => ?_) (by simp [Node.beginMessages])
      (by simp [Node.beginMessages])
    exact booked_becomeLeader (h.id_eq i) (h.voters_eq i) hb.votedFor_eq
      (Finset.mem_insert_of_mem hb.self_mem) (h.granted_counting hb hj) hmaj
  | serves c req hepoch hrole hdiv =>
    have hb := hkeep (by rw [hrole]; exact Role.noConfusion)
    obtain ⟨hwm, pending, hserved⟩ := (s.nodes i).served_eq c req.fetchOffset
    rw [hserved]
    refine h.react_quiet rfl rfl (fun _ => ?_) (by simp) (by simp)
    refine ⟨hb.votedFor_eq, hb.self_mem, hb.granted, hb.candidate, fun hleader => ?_⟩
    obtain ⟨hmaj, hleaderId, hlookup⟩ := hb.leader hleader
    exact ⟨hmaj, hleaderId, fun v hv hvi => isSome_lookup_credited (hlookup v hv hvi)⟩
  | appends c resp hepoch hrole hdiv =>
    unfold Node.adopted
    split_ifs <;>
      exact h.react_quiet rfl rfl (fun hfollows => absurd hrole hfollows) (by simp) (by simp)
  | proposes data proposeId hrole =>
    have hb := hkeep (by rw [hrole]; exact Role.noConfusion)
    refine h.react_quiet rfl rfl (fun _ => ?_) (by simp) (by simp)
    exact ⟨hb.votedFor_eq, hb.self_mem, hb.granted, hb.candidate, hb.leader⟩
  | truncates c resp d hepoch hrole hdiv =>
    exact h.react_quiet rfl rfl (fun hfollows => absurd hrole hfollows) (by simp) (by simp)
  | heartbeats hrole =>
    exact h.react_quiet rfl rfl hkeep (by simp [Node.heartbeatMessages])
      (by simp [Node.heartbeatMessages])
  | outvoted | follows | released | overtaken | superseded =>
    exact h.react_quiet rfl rfl (fun hrole => absurd rfl hrole) (by simp) (by simp)
  | ignores | deniesStale | answersEmpty | diverges =>
    exact h.react_quiet rfl rfl hkeep (by simp) (by simp)

/-- Every step of a cluster keeps the books in order. -/
theorem step (h : VoteBook s) (inp : Input) : VoteBook (s.step inp) := by
  apply Cluster.step_preserves (P := VoteBook) (c := fun _ _ _ => True)
  · exact fun _ _ _ _ h => h
  · exact fun _ hs => hs.network_sent
  · exact fun _ _ hnet hs => hs.network hnet
  · intro s i hs
    have hfile := hs.file_eq i
    rw [hfile]
    exact hs.put rfl rfl fun hrole => absurd rfl hrole
  · exact h
  · unfold Cluster.OnTrigger
    split <;> trivial
  · exact fun _ _ _ _ => h.post (by simp) (by simp)
  · exact fun _ _ _ _ => h.post (by simp) (by simp)
  · exact fun _ _ _ hs hi hj _ => hs.react hi hj

end VoteBook

namespace Cluster

variable [RaftLog L]

/-- In every state of every run, the books of every candidate and leader are in order. -/
theorem booked_of_run (voters : List ℕ) (log : ℕ → L) (is : List Input) (i : ℕ)
    (hrole : (((init voters log).run is).nodes i).role ≠ .follower) :
    ((init voters log).run is).Booked i (((init voters log).run is).nodes i) :=
  (Run.run_invariant' (P := VoteBook) (fun _ inp h => h.step inp) (VoteBook.init voters log) is).booked
    i hrole

/-- Node 1 leads with the vote of node 2. -/
theorem booked_of_run_leader :
    let s := (init [1, 2, 3] fun _ => VecLog.new).run [.electionTimeout 1, .deliver 0, .deliver 1]
    (s.nodes 1).role = .leader ∧ (s.nodes 1).votesReceived = {1, 2} ∧ s.Booked 1 (s.nodes 1) :=
  ⟨by decide, by decide, booked_of_run _ _ _ 1 (by decide)⟩

end Cluster

end Musil.Raft
