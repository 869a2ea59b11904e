import Musil.Raft.Reaction

/-!
# A runner, action by action

A runner hands an event to its node and carries out the actions one by one: what is durable first,
then the messages. It can crash before any of them. The log and the quorum-state file outlive it,
and the file is replaced as a whole.
-/

namespace Musil.Raft

variable {L : Type*}

/-- A file that is missing or cannot be read counts as the empty state. -/
def QuorumState.load (file : Option QuorumState) : QuorumState :=
  file.getD .empty

/-- What a runner is about to do: wait for an event, or the rest of one of the two passes. -/
inductive Phase where
  | waiting
  | persisting (rest actions : List Action)
  | sending (rest : List Envelope)

/-- A message on its way, with the quorum state that its node had when it produced the message, and
what the file held when the message went out. -/
structure Delivery where
  envelope : Envelope
  produced : QuorumState
  stored : QuorumState

/-- The last two fields are history variables: the quorum state of the node after its last event,
and the messages sent so far. -/
structure Runner (L : Type*) where
  node : Node L
  quorumFile : Option QuorumState
  phase : Phase
  produced : QuorumState
  deliveries : List Delivery

namespace Runner

inductive Input where
  | event (ev : Event)
  | act
  | crash

/-- A node that starts with the file as it is. -/
def spawn (id : ℕ) (voters : List ℕ) (log : L) (file : Option QuorumState) : Runner L where
  node := .new id voters (.load file) log
  quorumFile := file
  phase := .waiting
  produced := .load file
  deliveries := []

variable [RaftLog L]

/-- An action of the first pass. -/
def persist (s : Runner L) : Action → Runner L
  | .persistQuorumState => { s with quorumFile := some s.node.quorumState }
  | .appendToLog entry => { s with node := { s.node with log := RaftLog.append s.node.log entry } }
  | .truncateLog offset =>
    { s with node := { s.node with log := RaftLog.truncate s.node.log offset } }
  | _ => s

/-- The next action, or the end of a pass. -/
def act (s : Runner L) : Runner L :=
  match s.phase with
  | .waiting => s
  | .persisting [] actions => { s with phase := .sending (sendPass s.node.id actions) }
  | .persisting (a :: rest) actions => { s.persist a with phase := .persisting rest actions }
  | .sending [] => { s with phase := .waiting }
  | .sending (env :: rest) =>
    { s with
      phase := .sending rest
      deliveries := s.deliveries ++ [⟨env, s.produced, .load s.quorumFile⟩] }

/-- An event is received when the actions of the last one are done. -/
def step (s : Runner L) : Input → Runner L
  | .event ev =>
    match s.phase with
    | .waiting =>
      let (n, actions) := s.node.handle ev
      { s with node := n, phase := .persisting actions actions, produced := n.quorumState }
    | _ => s
  | .act => s.act
  | .crash =>
    { s with
      node := .new s.node.id s.node.voters (.load s.quorumFile) s.node.log
      phase := .waiting }

/-! ### A round without a crash -/

section Round

variable {s : Runner L}

/-- On the node and what can be loaded, the first pass is that of a cluster. -/
lemma persist_eq (s : Runner L) (a : Action) :
    ((s.persist a).node, QuorumState.load (s.persist a).quorumFile)
      = persistAction (s.node, QuorumState.load s.quorumFile) a := by
  cases a <;> rfl

lemma persist_produced (s : Runner L) (a : Action) : (s.persist a).produced = s.produced := by
  cases a <;> rfl

lemma persist_deliveries (s : Runner L) (a : Action) :
    (s.persist a).deliveries = s.deliveries := by
  cases a <;> rfl

/-- The runner after `k` more actions. -/
def acts (s : Runner L) (k : ℕ) : Runner L :=
  Run.run step s (List.replicate k .act)

lemma acts_succ (s : Runner L) (k : ℕ) : s.acts (k + 1) = s.act.acts k := rfl

lemma acts_add (s : Runner L) (j k : ℕ) : s.acts (j + k) = (s.acts j).acts k := by
  rw [acts, List.replicate_add, Run.run_append]
  rfl

lemma acts_persisting {rest actions : List Action} (h : s.phase = .persisting rest actions) :
    ∃ t, s.acts (rest.length + 1) = t ∧
      t.phase = .sending (sendPass t.node.id actions) ∧
      (t.node, QuorumState.load t.quorumFile)
        = persistPass (s.node, QuorumState.load s.quorumFile) rest ∧
      t.produced = s.produced ∧ t.deliveries = s.deliveries := by
  induction rest generalizing s with
  | nil =>
    refine ⟨_, rfl, ?_⟩
    rw [List.length_nil, acts_succ, act, h]
    exact ⟨rfl, rfl, rfl, rfl⟩
  | cons a rest ih =>
    have hact : s.act = { s.persist a with phase := .persisting rest actions } := by
      rw [act, h]
    obtain ⟨t, ht, hphase, hpass, hproduced, hdeliveries⟩ := ih (s := s.act) (by rw [hact])
    refine ⟨t, by rw [List.length_cons, acts_succ, ht], hphase, ?_, ?_, ?_⟩
    · rw [hpass, hact, persistPass_cons, ← persist_eq]
    · rw [hproduced, hact, ← s.persist_produced a]
    · rw [hdeliveries, hact, ← s.persist_deliveries a]

lemma acts_sending {rest : List Envelope} (h : s.phase = .sending rest) :
    s.acts (rest.length + 1) = { s with
      phase := .waiting
      deliveries := s.deliveries
        ++ rest.map fun env => ⟨env, s.produced, .load s.quorumFile⟩ } := by
  induction rest generalizing s with
  | nil =>
    rw [List.length_nil, acts_succ, act, h, List.map_nil, List.append_nil]
    rfl
  | cons env rest ih =>
    have hact : s.act = { s with
        phase := .sending rest
        deliveries := s.deliveries ++ [⟨env, s.produced, .load s.quorumFile⟩] } := by
      rw [act, h]
    rw [List.length_cons, acts_succ, ih (s := s.act) (by rw [hact]), hact, List.map_cons,
      List.append_assoc, List.singleton_append]

/-- An event and its actions, one by one, are a reaction of the node in a cluster: both passes are
carried out, and the messages of the second one are sent in order. -/
theorem round_eq (h : s.phase = .waiting) (ev : Event) : ∃ k t,
    (s.step (.event ev)).acts k = t ∧ t.phase = .waiting ∧
      (t.node, QuorumState.load t.quorumFile)
        = persistPass ((s.node.handle ev).1, QuorumState.load s.quorumFile) (s.node.handle ev).2 ∧
      t.deliveries.map Delivery.envelope
        = s.deliveries.map Delivery.envelope ++ sendPass t.node.id (s.node.handle ev).2 := by
  have hstep : s.step (.event ev) = { s with
      node := (s.node.handle ev).1
      phase := .persisting (s.node.handle ev).2 (s.node.handle ev).2
      produced := (s.node.handle ev).1.quorumState } := by
    rw [step, h]
  obtain ⟨t, ht, hphase, hpass, -, hdeliveries⟩ :=
    acts_persisting (s := s.step (.event ev)) (by rw [hstep])
  have hsent := acts_sending hphase
  refine ⟨(s.node.handle ev).2.length + 1 + ((sendPass t.node.id (s.node.handle ev).2).length + 1),
    _, by rw [acts_add, ht, hsent], rfl, ?_, ?_⟩
  · rw [hpass, hstep]
  · rw [List.map_append, hdeliveries, hstep, List.map_map]
    exact congrArg _ (List.map_id _)

end Round

/-! ### What a message says of its sender -/

/-- A granted vote tells the vote of its sender, a vote request that its sender votes for itself. -/
def Tells (q : QuorumState) (env : Envelope) : Prop :=
  match env.message with
  | .voteResponse ⟨epoch, true⟩ => q = ⟨epoch, some env.dst⟩
  | .vote req => q = ⟨req.epoch, some env.src⟩
  | _ => True

section Tells

variable {i : ℕ} {n n' : Node L} {ev : Event} {out : List Envelope}

/-- What a node sends it says of the state that the event has left it in. -/
lemma tells_of_reacts (h : Reacts n.id n ev n' out) : ∀ env ∈ out, Tells n'.quorumState env := by
  intro env henv
  cases h with
  | stands =>
    obtain ⟨v, -, rfl⟩ := List.mem_map.mp henv
    rfl
  | standsAlone | heartbeats | wins =>
    obtain ⟨v, -, rfl⟩ := List.mem_map.mp henv
    trivial
  | grants c req hepoch =>
    rw [List.mem_singleton] at henv
    subst henv
    exact congrArg (QuorumState.mk · (some c)) (Node.joined_currentEpoch hepoch)
  | deniesStale | denies | overtaken | answersEmpty | diverges | serves =>
    rw [List.mem_singleton] at henv
    subst henv
    trivial
  | ignores | outvoted | counts | follows | released | superseded | truncates | appends | proposes =>
    exact absurd henv List.not_mem_nil

/-- A log that is written to does not change what the node would persist. -/
lemma persistPass_fst (x : Node L × QuorumState) (actions : List Action) :
    (persistPass x actions).1.quorumState = x.1.quorumState ∧
      (persistPass x actions).1.id = x.1.id := by
  induction actions generalizing x with
  | nil => exact ⟨rfl, rfl⟩
  | cons a actions ih =>
    have hstep : (persistAction x a).1.quorumState = x.1.quorumState ∧
        (persistAction x a).1.id = x.1.id := by
      cases a <;> exact ⟨rfl, rfl⟩
    rw [persistPass_cons, (ih _).1, (ih _).2]
    exact hstep

lemma reacts_id (h : Reacts i n ev n' out) : n'.id = n.id := by
  cases h with
  | denies c req =>
    rw [Node.joined]
    split_ifs <;> rfl
  | grants c req =>
    rw [Node.joined]
    split_ifs <;> rfl
  | serves c req =>
    obtain ⟨hwm, pending, hserved⟩ := n.served_eq c req.fetchOffset
    rw [hserved]
  | appends c resp =>
    simp only [Node.adopted]
    split_ifs <;> rfl
  | _ => rfl

/-- An event leaves a node and actions that take the file of the node before it to the node's
quorum state, and whose messages tell that state. -/
lemma handle_persists (n : Node L) (ev : Event) :
    (persistPass ((n.handle ev).1, n.quorumState) (n.handle ev).2).2
        = (n.handle ev).1.quorumState ∧
      ∀ env ∈ sendPass (n.handle ev).1.id (n.handle ev).2,
        Tells (n.handle ev).1.quorumState env := by
  obtain ⟨n', hreacts, hpersist⟩ := handle_reaches n.id n ev
  have hkeep := persistPass_fst ((n.handle ev).1, n.quorumState) (n.handle ev).2
  rw [hpersist] at hkeep ⊢
  refine ⟨hkeep.1, ?_⟩
  rw [← hkeep.2, ← hkeep.1, reacts_id hreacts]
  exact tells_of_reacts hreacts

end Tells

/-! ### Durable before said -/

/-- A runner that waits hands an event to its node and begins the first pass, and every first pass
comes to its end. After it the file holds the epoch and the vote of the node. Every message went out
when the file held what its node had when it produced the message; and a crash right after a
message resumes with that. -/
structure Durable (s : Runner L) : Prop where
  begins : s.phase = .waiting → ∀ ev, (s.step (.event ev)).node = (s.node.handle ev).1 ∧
    (s.step (.event ev)).phase = .persisting (s.node.handle ev).2 (s.node.handle ev).2
  ends : ∀ rest actions, s.phase = .persisting rest actions → ∃ k,
    (s.acts k).phase = .sending (sendPass (s.acts k).node.id actions) ∧
      (s.acts k).node.quorumState = s.node.quorumState ∧
      QuorumState.load (s.acts k).quorumFile = s.node.quorumState
  persisted : (∀ rest actions, s.phase = .persisting rest actions → rest = []) →
    QuorumState.load s.quorumFile = s.node.quorumState
  sent : ∀ m ∈ s.deliveries, m.stored = m.produced ∧ Tells m.stored m.envelope
  resumes : ∀ rest, s.phase = .sending rest →
    s.node.quorumState = s.produced ∧ (s.step .crash).node.quorumState = s.produced

/-- What holds between any two actions. -/
structure Inv (s : Runner L) : Prop where
  produced : s.phase ≠ .waiting → s.node.quorumState = s.produced
  waiting : s.phase = .waiting → QuorumState.load s.quorumFile = s.node.quorumState
  persisting : ∀ rest actions, s.phase = .persisting rest actions →
    (persistPass (s.node, QuorumState.load s.quorumFile) rest).2 = s.produced ∧
      ∀ env ∈ sendPass s.node.id actions, Tells s.produced env
  sending : ∀ rest, s.phase = .sending rest →
    QuorumState.load s.quorumFile = s.produced ∧ ∀ env ∈ rest, Tells s.produced env
  sent : ∀ m ∈ s.deliveries, m.stored = m.produced ∧ Tells m.stored m.envelope

section Inv

variable {s : Runner L}

lemma Inv.durable (h : s.Inv) : s.Durable where
  begins hphase ev := by
    rw [step, hphase]
    exact ⟨rfl, rfl⟩
  ends rest actions hphase := by
    obtain ⟨t, rfl, hsending, hpass, -, -⟩ := acts_persisting hphase
    obtain ⟨hnode, hfile⟩ := Prod.ext_iff.mp hpass
    refine ⟨_, hsending, ?_, ?_⟩
    · rw [show (s.acts (rest.length + 1)).node = _ from hnode]
      exact (persistPass_fst _ _).1
    · refine hfile.trans ((h.persisting rest actions hphase).1.trans ?_)
      exact (h.produced (by rw [hphase]; simp)).symm
  persisted hpass := by
    cases hphase : s.phase with
    | waiting => exact h.waiting hphase
    | persisting rest actions =>
      have hload := (h.persisting rest actions hphase).1
      rw [hpass rest actions hphase, persistPass_nil] at hload
      exact hload.trans (h.produced (by rw [hphase]; simp)).symm
    | sending rest => rw [(h.sending rest hphase).1, h.produced (by rw [hphase]; simp)]
  sent := h.sent
  resumes rest hphase := by
    refine ⟨h.produced (by rw [hphase]; simp), ?_⟩
    exact (h.sending rest hphase).1

lemma inv_spawn (id : ℕ) (voters : List ℕ) (log : L) (file : Option QuorumState) :
    (spawn id voters log file).Inv where
  produced hphase := absurd rfl hphase
  waiting _ := rfl
  persisting := nofun
  sending := nofun
  sent _ hm := absurd hm List.not_mem_nil

lemma Inv.event (h : s.Inv) (ev : Event) : (s.step (.event ev)).Inv := by
  cases hphase : s.phase with
  | persisting | sending =>
    have hstep : s.step (.event ev) = s := by rw [step, hphase]
    exact hstep.symm ▸ h
  | waiting =>
    have hstep : s.step (.event ev) = { s with
        node := (s.node.handle ev).1
        phase := .persisting (s.node.handle ev).2 (s.node.handle ev).2
        produced := (s.node.handle ev).1.quorumState } := by
      rw [step, hphase]
    rw [hstep]
    obtain ⟨hfile, htells⟩ := handle_persists s.node ev
    refine ⟨fun _ => rfl, nofun, ?_, nofun, h.sent⟩
    rintro rest actions ⟨⟩
    rw [h.waiting hphase]
    exact ⟨hfile, htells⟩

lemma persist_quorumState (s : Runner L) (a : Action) :
    (s.persist a).node.quorumState = s.node.quorumState ∧ (s.persist a).node.id = s.node.id := by
  cases a <;> exact ⟨rfl, rfl⟩

lemma Inv.act (h : s.Inv) : s.act.Inv := by
  cases hphase : s.phase with
  | waiting =>
    have hact : s.act = s := by rw [Runner.act, hphase]
    exact hact.symm ▸ h
  | persisting rest actions =>
    have hproduced := h.produced (by rw [hphase]; simp)
    obtain ⟨hload, htells⟩ := h.persisting rest actions hphase
    cases rest with
    | nil =>
      have hact : s.act = { s with phase := .sending (sendPass s.node.id actions) } := by
        rw [Runner.act, hphase]
      rw [hact]
      refine ⟨fun _ => hproduced, nofun, nofun, ?_,
        h.sent⟩
      rintro rest ⟨⟩
      exact ⟨hload, htells⟩
    | cons a rest =>
      have hact : s.act = { s.persist a with phase := .persisting rest actions } := by
        rw [Runner.act, hphase]
      obtain ⟨hsame, hid⟩ := s.persist_quorumState a
      rw [hact]
      refine ⟨fun _ => ?_, nofun, ?_, nofun, ?_⟩
      · rw [s.persist_produced]
        exact hsame.trans hproduced
      · rintro rest' actions' ⟨⟩
        rw [s.persist_produced, hid]
        refine ⟨?_, htells⟩
        rw [s.persist_eq]
        exact hload
      · rw [s.persist_deliveries]
        exact h.sent
  | sending rest =>
    have hproduced := h.produced (by rw [hphase]; simp)
    obtain ⟨hload, htells⟩ := h.sending rest hphase
    cases rest with
    | nil =>
      have hact : s.act = { s with phase := .waiting } := by rw [Runner.act, hphase]
      rw [hact]
      exact ⟨fun hwait => absurd rfl hwait, fun _ => hload.trans hproduced.symm,
        nofun, nofun, h.sent⟩
    | cons env rest =>
      have hact : s.act = { s with
          phase := .sending rest
          deliveries := s.deliveries ++ [⟨env, s.produced, .load s.quorumFile⟩] } := by
        rw [Runner.act, hphase]
      rw [List.forall_mem_cons] at htells
      rw [hact]
      refine ⟨fun _ => hproduced, nofun, nofun, ?_, ?_⟩
      · rintro rest' ⟨⟩
        exact ⟨hload, htells.2⟩
      · intro m hm
        rcases List.mem_append.mp hm with hold | hnew
        · exact h.sent m hold
        · rw [List.mem_singleton.mp hnew]
          exact ⟨hload, hload ▸ htells.1⟩

lemma Inv.crash (h : s.Inv) : (s.step .crash).Inv where
  produced hphase := absurd rfl hphase
  waiting _ := rfl
  persisting := nofun
  sending := nofun
  sent := h.sent

lemma inv_of_run (id : ℕ) (voters : List ℕ) (log : L) (file : Option QuorumState)
    (is : List Input) : (Run.run step (spawn id voters log file) is).Inv := by
  refine Run.run_invariant' (P := Inv) (fun s inp h => ?_) (inv_spawn id voters log file) is
  cases inp with
  | event ev => exact h.event ev
  | act => exact h.act
  | crash => exact h.crash

end Inv

/-- Whatever events a node handles and wherever its runner crashes, its epoch and its vote are
durable before anything is said. -/
theorem durable_of_run (id : ℕ) (voters : List ℕ) (log : L) (file : Option QuorumState)
    (is : List Input) : (Run.run step (spawn id voters log file) is).Durable :=
  (inv_of_run id voters log file is).durable

end Runner

end Musil.Raft
