import Musil.Raft.Cluster

/-!
# Step rules for clusters

`step_preserves` reduces an invariant of a cluster to five obligations: messages may disappear, a
node may restart, a fetch request or a resignation may be posted, and a node may react to an event
that is a timeout, a proposal or a message sent earlier.
-/

namespace Musil.Raft

variable {L : Type*}

/-! ### The first pass -/

section Passes

variable [RaftLog L]

/-- The action only matters in the second pass. -/
def Action.IsVolatile : Action → Prop
  | .persistQuorumState | .appendToLog _ | .truncateLog _ => False
  | _ => True

/-- The action neither writes nor sends anything. -/
def Action.IsNotice : Action → Prop
  | .commitPropose _ | .rejectPropose _ | .advanceHighWatermark _ | .resetElectionTimer
  | .resetHeartbeatTimer => True
  | _ => False

lemma Action.IsNotice.isVolatile {a : Action} (h : a.IsNotice) : a.IsVolatile := by
  cases a <;> trivial

@[simp] lemma persistPass_nil (x : Node L × QuorumState) : persistPass x [] = x := rfl

@[simp] lemma persistPass_cons (x : Node L × QuorumState) (a : Action) (as : List Action) :
    persistPass x (a :: as) = persistPass (persistAction x a) as := rfl

@[simp] lemma persistPass_append (x : Node L × QuorumState) (as bs : List Action) :
    persistPass x (as ++ bs) = persistPass (persistPass x as) bs :=
  List.foldl_append

lemma persistPass_of_volatile (x : Node L × QuorumState) {as : List Action}
    (h : ∀ a ∈ as, a.IsVolatile) : persistPass x as = x := by
  induction as with
  | nil => rfl
  | cons a as ih =>
    have ha : persistAction x a = x := by
      cases a <;> simp_all [Action.IsVolatile, persistAction]
    rw [persistPass_cons, ha, ih fun b hb => h b (List.mem_cons_of_mem a hb)]

lemma persistPass_map_append (n : Node L) (q : QuorumState) (es : List LogEntry) :
    persistPass (n, q) (es.map .appendToLog)
      = ({ n with log := es.foldl RaftLog.append n.log }, q) := by
  induction es generalizing n with
  | nil => rfl
  | cons e es ih =>
    rw [List.map_cons, persistPass_cons]
    exact ih _

end Passes

@[simp] lemma sendPass_nil (src : ℕ) : sendPass src [] = [] := rfl

@[simp] lemma sendPass_cons (src : ℕ) (a : Action) (as : List Action) :
    sendPass src (a :: as) = a.sends src ++ sendPass src as := rfl

@[simp] lemma sendPass_append (src : ℕ) (as bs : List Action) :
    sendPass src (as ++ bs) = sendPass src as ++ sendPass src bs :=
  List.flatMap_append

/-- Actions that send one message each. -/
lemma sendPass_map {α : Type*} (src : ℕ) {f : α → Action} {g : α → Envelope}
    (h : ∀ x, (f x).sends src = [g x]) (xs : List α) :
    sendPass src (xs.map f) = xs.map g := by
  induction xs with
  | nil => rfl
  | cons x xs ih => rw [List.map_cons, sendPass_cons, h, ih, List.map_cons, List.singleton_append]

lemma sendPass_of_notice (src : ℕ) {as : List Action} (h : ∀ a ∈ as, a.IsNotice) :
    sendPass src as = [] := by
  refine List.flatMap_eq_nil_iff.mpr fun a ha => ?_
  have := h a ha
  cases a <;> simp_all [Action.IsNotice, Action.sends]

/-! ### Scans over the pending proposals -/

lemma splitCommitted_fst (hwm : ℕ) (ps : List (ℕ × ℕ)) :
    (Node.splitCommitted hwm ps).1 = ps.filter fun p => hwm ≤ p.1 := by
  induction ps with
  | nil => rfl
  | cons p ps ih =>
    rcases Nat.lt_or_ge p.1 hwm with hp | hp
    · simp [Node.splitCommitted, hp, ih]
    · simp [Node.splitCommitted, hp, Nat.not_lt.mpr hp, ih]

lemma splitCommitted_snd (hwm : ℕ) (ps : List (ℕ × ℕ)) :
    (Node.splitCommitted hwm ps).2
      = (ps.filter fun p => p.1 < hwm).map fun p => .commitPropose p.2 := by
  induction ps with
  | nil => rfl
  | cons p ps ih =>
    by_cases hp : p.1 < hwm
    · simp [Node.splitCommitted, hp, ih]
    · simp [Node.splitCommitted, hp, ih]

namespace Cluster

/-! ### Fields of an updated cluster -/

@[simp] lemma post_nil (s : Cluster L) : s.post [] = s := by simp [post]

@[simp] lemma put_nodes_self (s : Cluster L) (i : ℕ) (n : Node L) (q : QuorumState) :
    (s.put i n q).nodes i = n := by simp [put]

lemma put_nodes_of_ne (s : Cluster L) {i j : ℕ} (h : j ≠ i) (n : Node L) (q : QuorumState) :
    (s.put i n q).nodes j = s.nodes j := by simp [put, h]

@[simp] lemma put_quorumFile_self (s : Cluster L) (i : ℕ) (n : Node L) (q : QuorumState) :
    (s.put i n q).quorumFile i = q := by simp [put]

lemma put_quorumFile_of_ne (s : Cluster L) {i j : ℕ} (h : j ≠ i) (n : Node L)
    (q : QuorumState) : (s.put i n q).quorumFile j = s.quorumFile j := by simp [put, h]

/-- What is true of every node stays so when it is true of the one that changes. -/
lemma forall_put {s : Cluster L} {i : ℕ} {n : Node L} {q : QuorumState} {P : ℕ → Node L → Prop}
    (hi : P i n) (h : ∀ j, P j (s.nodes j)) (j : ℕ) : P j ((s.put i n q).nodes j) := by
  rcases eq_or_ne j i with rfl | hji
  · rw [put_nodes_self]
    exact hi
  · rw [put_nodes_of_ne s hji]
    exact h j

/-- Every quorum-state file is up to date. -/
def FilesKept (s : Cluster L) : Prop :=
  ∀ i, s.quorumFile i = (s.nodes i).quorumState

lemma FilesKept.put {s : Cluster L} (h : s.FilesKept) (i : ℕ) (n : Node L) :
    (s.put i n n.quorumState).FilesKept := by
  intro j
  rcases eq_or_ne j i with rfl | hji
  · rw [put_quorumFile_self, put_nodes_self]
  · rw [put_quorumFile_of_ne s hji, put_nodes_of_ne s hji]
    exact h j

@[simp] lemma put_voters (s : Cluster L) (i : ℕ) (n : Node L) (q : QuorumState) :
    (s.put i n q).voters = s.voters := rfl

@[simp] lemma put_sent (s : Cluster L) (i : ℕ) (n : Node L) (q : QuorumState) :
    (s.put i n q).sent = s.sent := rfl

@[simp] lemma put_network (s : Cluster L) (i : ℕ) (n : Node L) (q : QuorumState) :
    (s.put i n q).network = s.network := rfl

@[simp] lemma put_leaders (s : Cluster L) (i : ℕ) (n : Node L) (q : QuorumState) :
    (s.put i n q).leaders = s.leaders := rfl

@[simp] lemma put_leaderLog (s : Cluster L) (i : ℕ) (n : Node L) (q : QuorumState) :
    (s.put i n q).leaderLog = s.leaderLog := rfl

@[simp] lemma post_nodes (s : Cluster L) (out : List Envelope) :
    (s.post out).nodes = s.nodes := rfl

@[simp] lemma post_quorumFile (s : Cluster L) (out : List Envelope) :
    (s.post out).quorumFile = s.quorumFile := rfl

@[simp] lemma post_voters (s : Cluster L) (out : List Envelope) :
    (s.post out).voters = s.voters := rfl

@[simp] lemma post_sent (s : Cluster L) (out : List Envelope) :
    (s.post out).sent = s.sent ++ out := rfl

@[simp] lemma post_network (s : Cluster L) (out : List Envelope) :
    (s.post out).network = s.network ++ out := rfl

@[simp] lemma post_leaders (s : Cluster L) (out : List Envelope) :
    (s.post out).leaders = s.leaders := rfl

@[simp] lemma post_leaderLog (s : Cluster L) (out : List Envelope) :
    (s.post out).leaderLog = s.leaderLog := rfl

@[simp] lemma put_put (s : Cluster L) (i : ℕ) (n n' : Node L) (q q' : QuorumState) :
    (s.put i n q).put i n' q' = s.put i n' q' := by simp [put]

@[simp] lemma post_post (s : Cluster L) (out out' : List Envelope) :
    (s.post out).post out' = s.post (out ++ out') := by simp [post]

lemma put_post (s : Cluster L) (i : ℕ) (n : Node L) (q : QuorumState) (out : List Envelope) :
    (s.post out).put i n q = (s.put i n q).post out := rfl

lemma record_nodes (s : Cluster L) (i : ℕ) : (s.record i).nodes = s.nodes := by
  unfold record; dsimp only; split_ifs <;> rfl

lemma record_quorumFile (s : Cluster L) (i : ℕ) : (s.record i).quorumFile = s.quorumFile := by
  unfold record; dsimp only; split_ifs <;> rfl

lemma record_voters (s : Cluster L) (i : ℕ) : (s.record i).voters = s.voters := by
  unfold record; dsimp only; split_ifs <;> rfl

lemma record_sent (s : Cluster L) (i : ℕ) : (s.record i).sent = s.sent := by
  unfold record; dsimp only; split_ifs <;> rfl

lemma record_network (s : Cluster L) (i : ℕ) : (s.record i).network = s.network := by
  unfold record; dsimp only; split_ifs <;> rfl

/-- Node `i` becomes `n`, whose file is up to date, and is recorded if it leads. -/
def move (s : Cluster L) (i : ℕ) (n : Node L) : Cluster L :=
  (s.put i n n.quorumState).record i

section Move

variable (s : Cluster L) {i : ℕ} {n : Node L}

lemma record_post (out : List Envelope) : (s.post out).record i = (s.record i).post out := by
  unfold record
  dsimp only [post_nodes]
  split_ifs <;> rfl

@[simp] lemma move_nodes_self : (s.move i n).nodes i = n := by
  rw [move, record_nodes, put_nodes_self]

lemma move_nodes_of_ne {j : ℕ} (h : j ≠ i) : (s.move i n).nodes j = s.nodes j := by
  rw [move, record_nodes, put_nodes_of_ne s h]

@[simp] lemma move_voters : (s.move i n).voters = s.voters := record_voters _ _

@[simp] lemma move_sent : (s.move i n).sent = s.sent := record_sent _ _

@[simp] lemma move_network : (s.move i n).network = s.network := record_network _ _

lemma move_of_not_leader (h : n.role ≠ .leader) : s.move i n = s.put i n n.quorumState := by
  rw [move, record, put_nodes_self, if_neg h]

lemma move_move {n' : Node L} (h : n.role ≠ .leader) : (s.move i n).move i n' = s.move i n' := by
  rw [move_of_not_leader s h, move, put_put, move]

lemma move_leaders (h : n.role = .leader) :
    (s.move i n).leaders = (n.currentEpoch, i) :: s.leaders := by
  rw [move, record, put_nodes_self, if_pos h, put_leaders]

lemma move_leaderLog (h : n.role = .leader) :
    (s.move i n).leaderLog = Function.update s.leaderLog n.currentEpoch (some n.log) := by
  rw [move, record, put_nodes_self, if_pos h, put_leaderLog]

end Move

/-! ### Conditions on the reacting node -/

/-- The condition `c` on the node an input makes react and on the event, if there is one. -/
def OnTrigger (c : Cluster L → ℕ → Event → Prop) (s : Cluster L) (inp : Input) : Prop :=
  match s.trigger inp with
  | some (i, ev) => c s i ev
  | none => True

instance OnTrigger.decidable (c : Cluster L → ℕ → Event → Prop) [∀ s i ev, Decidable (c s i ev)]
    (s : Cluster L) (inp : Input) : Decidable (OnTrigger c s inp) := by
  unfold OnTrigger; split <;> infer_instance

/-- A message event comes from a message that was sent to the node. -/
def Justified (s : Cluster L) (i : ℕ) : Event → Prop
  | .electionTimeout | .heartbeatTimeout | .propose _ _ => True
  | .voteRequest src req => ⟨src, i, .vote req⟩ ∈ s.sent
  | .voteResponse src resp => ⟨src, i, .voteResponse resp⟩ ∈ s.sent
  | .beginQuorumEpoch src req => ⟨src, i, .beginQuorumEpoch req⟩ ∈ s.sent
  | .endQuorumEpoch src req => ⟨src, i, .endQuorumEpoch req⟩ ∈ s.sent
  | .fetchRequest src req => ⟨src, i, .fetchRequest req⟩ ∈ s.sent
  | .fetchResponse src resp => ⟨src, i, .fetchResponse resp⟩ ∈ s.sent

lemma justified_toEvent {s : Cluster L} {env : Envelope} (h : env ∈ s.sent) :
    s.Justified env.dst env.toEvent := by
  obtain ⟨src, dst, message⟩ := env
  cases message <;> exact h

variable [RaftLog L]

/-- The rule by which every invariant of a cluster is proved. The condition `c` may not read the
network: the message being handled has left it. -/
theorem step_preserves {P : Cluster L → Prop} {c : Cluster L → ℕ → Event → Prop}
    (hc : ∀ s net i ev, c s i ev → c { s with network := net } i ev)
    (hsent : ∀ s, P s → s.network ⊆ s.sent)
    (hnet : ∀ s net, net ⊆ s.network → P s → P { s with network := net })
    (hrestart : ∀ s i, P s → P (s.put i (.new i s.voters (s.quorumFile i) (s.nodes i).log)
      (s.quorumFile i)))
    {s : Cluster L} {inp : Input} (hs : P s) (hinp : OnTrigger c s inp)
    (hfetch : ∀ src dst req, inp = .fetch src dst req →
      P (s.post [⟨src, dst, .fetchRequest req⟩]))
    (hresign : ∀ src dst req, inp = .resign src dst req →
      P (s.post [⟨src, dst, .endQuorumEpoch req⟩]))
    (hreact : ∀ s i ev, P s → i ∈ s.voters → s.Justified i ev → c s i ev → P (s.react i ev)) :
    P (s.step inp) := by
  have hout : ∀ s i ev, P s → s.Justified i ev → c s i ev → P (s.react i ev) := by
    intro s i ev h hj hci
    by_cases hi : i ∈ s.voters
    · exact hreact s i ev h hi hj hci
    · rwa [react, if_neg hi]
  cases inp with
  | deliver k =>
    simp only [step]
    cases hk : s.network[k]? with
    | none => exact hs
    | some env =>
      simp only [OnTrigger, trigger, hk, Option.map_some] at hinp
      have hmem : env ∈ s.network := List.mem_of_getElem? hk
      exact hout _ _ _ (hnet s _ (List.eraseIdx_subset) hs)
        (justified_toEvent (hsent s hs hmem)) (hc s _ _ _ hinp)
  | lose k => exact hnet s _ (List.eraseIdx_subset) hs
  | electionTimeout i => exact hout s i .electionTimeout hs trivial hinp
  | heartbeatTimeout i => exact hout s i .heartbeatTimeout hs trivial hinp
  | propose i data proposeId => exact hout s i (.propose data proposeId) hs trivial hinp
  | restart i => exact hrestart s i hs
  | fetch src dst req => exact hfetch src dst req rfl
  | resign src dst req => exact hresign src dst req rfl

/-! ### The set of voters -/

lemma react_voters (s : Cluster L) (i : ℕ) (ev : Event) : (s.react i ev).voters = s.voters := by
  unfold react
  split_ifs
  · rw [record_voters, post_voters, put_voters]
  · rfl

lemma step_voters (s : Cluster L) (inp : Input) : (s.step inp).voters = s.voters := by
  cases inp with
  | deliver k =>
    simp only [step]
    cases s.network[k]? with
    | none => rfl
    | some env => exact react_voters _ _ _
  | lose | restart | fetch | resign => rfl
  | electionTimeout i | heartbeatTimeout i | propose i data proposeId => exact react_voters s i _

lemma run_voters (s : Cluster L) (is : List Input) : (s.run is).voters = s.voters :=
  Run.run_invariant' (P := fun t : Cluster L => t.voters = s.voters)
    (fun t inp ht => (step_voters t inp).trans ht) rfl is

end Cluster

end Musil.Raft
