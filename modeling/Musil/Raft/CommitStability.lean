import Musil.Raft.CommitSafety
import Musil.Raft.Proposals

/-!
# Committed prefixes are stable

A watermark covers a committed prefix of its node's log, which the leader of any later epoch holds.
So a truncation that cuts only what the leader lacks stays behind the watermark, and a watermark
that is bounded by the log can only rise.
-/

namespace Musil.Raft

namespace Cluster

/-- The watermarks that actions announce. -/
def advances (actions : List Action) : List ℕ :=
  actions.filterMap fun a => match a with
    | .advanceHighWatermark offset => some offset
    | _ => none

/-- What node `i` is asked to do in a run. -/
def emitted (s : Cluster VecLog) (i : ℕ) : List Input → List Action
  | [] => []
  | inp :: is => s.emits inp i ++ emitted (s.step inp) i is

/-- While a node is up its watermark does not fall, nor do the watermarks it announces, it keeps
every entry below its watermark, and it is asked to truncate at or above its watermark only. -/
structure CommittedStable (s : Cluster VecLog) (is : List Input) : Prop where
  watermark : ∀ i pre mid, pre ++ mid <+: is → .restart i ∉ mid →
    ((s.run pre).nodes i).highWatermark ≤ ((s.run (pre ++ mid)).nodes i).highWatermark
  kept : ∀ i pre mid, pre ++ mid <+: is → .restart i ∉ mid →
    ∀ a ∈ ((s.run pre).nodes i).log.entries, a.offset < ((s.run pre).nodes i).highWatermark →
      a ∈ ((s.run (pre ++ mid)).nodes i).log.entries
  advanced : ∀ i pre mid, pre ++ mid <+: is → .restart i ∉ mid →
    (advances ((s.run pre).emitted i mid)).Pairwise (· ≤ ·)
  truncated : ∀ i pre inp, pre ++ [inp] <+: is → ∀ o, .truncateLog o ∈ (s.run pre).emits inp i →
    ((s.run pre).nodes i).highWatermark ≤ o

/-! ### What a handler asks for -/

section Handlers

variable {L : Type*} [RaftLog L] {n : Node L}

omit [RaftLog L] in
lemma advance_notMem_checkCommittedProposes (k : ℕ) :
    .advanceHighWatermark k ∉ n.checkCommittedProposes.2 := by
  intro h
  rw [Node.checkCommittedProposes, splitCommitted_snd] at h
  obtain ⟨p, -, hp⟩ := List.mem_map.mp h
  cases hp

/-- A watermark is announced when it has been adopted. -/
lemma advance_of_handle {ev : Event} {k : ℕ} (h : .advanceHighWatermark k ∈ (n.handle ev).2) :
    k = (n.handle ev).1.highWatermark := by
  rcases fetch_of_onFetch h trivial with ⟨c, req, rfl⟩ | ⟨c, resp, rfl⟩
  · obtain ⟨hepoch, hrole, hdiv, h⟩ := onFetch_of_handleFetchRequest h trivial
    change k = (n.handleFetchRequest c req).1.highWatermark
    rw [Node.handleFetchRequest_serves hepoch hrole hdiv]
    rcases (n.credited c req.fetchOffset).tryAdvanceHighWatermark_cases with
      heq | ⟨hwm, -, -, -, -, heq⟩
    · rw [heq] at h
      exact absurd h List.not_mem_nil
    · rw [heq] at h ⊢
      simp only [List.mem_cons, Action.advanceHighWatermark.injEq] at h
      exact h.resolve_right (advance_notMem_checkCommittedProposes k)
  · obtain ⟨-, -, ⟨d, -, hd⟩ | ⟨hwm, hhwm, hadvance | hcommit⟩⟩ :=
      onFetch_of_handleFetchResponse h trivial
    · cases hd
    · cases hadvance
      exact hhwm.symm
    · exact absurd hcommit (advance_notMem_checkCommittedProposes k)

/-- Only a diverging fetch response makes a node truncate, and only a follower. -/
lemma truncate_of_handle {ev : Event} {o : ℕ} (h : .truncateLog o ∈ (n.handle ev).2) :
    ∃ c resp d, ev = .fetchResponse c resp ∧ n.role = .follower ∧
      resp.epoch ≤ n.currentEpoch ∧ resp.diverging = some d ∧ o = d.endOffset := by
  rcases fetch_of_onFetch h trivial with ⟨c, req, rfl⟩ | ⟨c, resp, rfl⟩
  · obtain ⟨-, -, -, h⟩ := onFetch_of_handleFetchRequest h trivial
    exact (Node.tryAdvanceHighWatermark_notice _ _ h).elim
  · obtain ⟨hepoch, hrole, ⟨d, hdiv, hd⟩ | ⟨hwm, -, hadvance | hcommit⟩⟩ :=
      onFetch_of_handleFetchResponse h trivial
    · cases hd
      exact ⟨c, resp, d, rfl, hrole, hepoch, hdiv, rfl⟩
    · cases hadvance
    · exact (Node.checkCommittedProposes_notice _ _ hcommit).elim

end Handlers

/-! ### One step -/

section Step

variable {s : Cluster VecLog} {g : Ghost} {i : ℕ} {n : Node VecLog} {ev : Event}
  {out : List Envelope}

/-- What is committed at the node is not behind the cut. -/
lemma highWatermark_le_of_cut (hM : MatchInv s) (h : CommitInv g s) {o : ℕ}
    (hcut : ∀ a ∈ (s.nodes i).log.entries, o ≤ a.offset →
      (s.leaderLog (s.nodes i).currentEpoch).isSome ∧ a ∉ s.leadOf (s.nodes i).currentEpoch) :
    (s.nodes i).highWatermark ≤ o := by
  by_contra hlt
  have hlt : o < (s.nodes i).highWatermark := Nat.not_le.mp hlt
  obtain ⟨hlen, hc⟩ := h.watermark i
  have ho : o < (s.nodes i).log.entries.length := hlt.trans_le hlen
  obtain ⟨hsome, hnot⟩ := hcut (s.nodes i).log.entries[o] (List.getElem_mem ho)
    ((hM.node_contiguous i).offset_getElem ho).ge
  have hpre : (s.nodes i).log.entries.take (s.nodes i).highWatermark
      <+: s.leadOf (s.nodes i).currentEpoch := h.safe.committed_isPrefix hc hsome
  refine hnot (hpre.subset ?_)
  rw [List.mem_take_iff_getElem]
  exact ⟨o, lt_min hlt ho, rfl⟩

/-- A reaction does not lower the watermark and keeps the log below it. -/
lemma reacts_stable (hM : MatchInv s) (h : CommitInv g s) (hshared : s.KeepsShared i ev)
    (hreacts : Reacts i (s.nodes i) ev n out) :
    (s.nodes i).highWatermark ≤ n.highWatermark ∧
      n.log.entries.take (s.nodes i).highWatermark
        = (s.nodes i).log.entries.take (s.nodes i).highWatermark := by
  have hlen := (h.watermark i).1
  cases hreacts with
  | denies c req | grants c req =>
    simp only [Node.joined]
    split_ifs <;> exact ⟨le_rfl, rfl⟩
  | serves c req =>
    have hsame : ((s.nodes i).credited c req.fetchOffset).highWatermark
          = (s.nodes i).highWatermark ∧
        ((s.nodes i).credited c req.fetchOffset).log = (s.nodes i).log := by
      rw [Node.credited_eq]
      exact ⟨rfl, rfl⟩
    rcases ((s.nodes i).credited c req.fetchOffset).tryAdvanceHighWatermark_cases with
      heq | ⟨hwm, hlt, -, -, -, heq⟩
    · rw [heq, hsame.1, hsame.2]
      exact ⟨le_rfl, rfl⟩
    · rw [heq]
      exact ⟨hsame.1 ▸ hlt.le, congrArg (fun l : VecLog => l.entries.take _) hsame.2⟩
  | truncates c resp d hepoch hrole hdiv =>
    have hcut := highWatermark_le_of_cut hM h (hshared hrole hepoch d hdiv)
    refine ⟨le_rfl, ?_⟩
    rw [VecLog.truncate_entries (hM.node_contiguous i), List.take_take, min_eq_left hcut]
  | appends c resp =>
    have hlog := MatchInv.adopted_log (s.nodes i) resp
    refine ⟨?_, by rw [hlog, List.take_append_of_le_length hlen]⟩
    simp only [Node.adopted]
    split_ifs with hlt
    · rw [show ((s.nodes i).committed _).highWatermark = _ from rfl, Node.adoptedHighWatermark,
        if_pos hlt, VecLog.logEndOffset_eq (hM.node_contiguous i)]
      exact le_min hlt.le hlen
    · exact le_rfl
  | proposes data proposeId =>
    refine ⟨le_rfl, ?_⟩
    rw [Node.proposed, VecLog.append_entries, List.take_append_of_le_length hlen]
  | _ => exact ⟨le_rfl, rfl⟩

/-- While a node does not restart, a step does not lower its watermark and keeps its log below. -/
lemma step_stable (hs : s.Matched) (h : CommitInv g s) {inp : Input}
    (hok : OnTrigger KeepsCommitted s inp) (hinp : inp ≠ .restart i) :
    (s.nodes i).highWatermark ≤ ((s.step inp).nodes i).highWatermark ∧
      ((s.step inp).nodes i).log.entries.take (s.nodes i).highWatermark
        = (s.nodes i).log.entries.take (s.nodes i).highWatermark := by
  cases htrigger : s.trigger inp with
  | none =>
    have hsame : (s.step inp).nodes i = s.nodes i := by
      cases inp with
      | deliver k =>
        simp only [trigger, Option.map_eq_none_iff] at htrigger
        simp only [step, htrigger]
      | restart j => exact put_nodes_of_ne s (fun hij => hinp (congrArg Input.restart hij.symm)) _ _
      | lose | fetch | resign => rfl
      | electionTimeout | heartbeatTimeout | propose => simp [trigger] at htrigger
    rw [hsame]
    exact ⟨le_rfl, rfl⟩
  | some t =>
    obtain ⟨j, ev⟩ := t
    rw [step_nodes_of_trigger htrigger]
    rw [OnTrigger, htrigger] at hok
    by_cases hij : i = j
    · subst hij
      by_cases hi : i ∈ s.voters
      · obtain ⟨n, out, hreacts, heq⟩ := react_cases hi (hs.election.choose_spec.file_eq i) ev
        rw [heq, post_nodes, move_nodes_self]
        exact reacts_stable hs.logs h hok.2.2.1 hreacts
      · rw [react, if_neg hi]
        exact ⟨le_rfl, rfl⟩
    · rw [react_nodes_of_ne s hij]
      exact ⟨le_rfl, rfl⟩

/-- A watermark that a step announces is the one that the node has afterwards. -/
lemma advance_of_emits {inp : Input} {k : ℕ} (h : k ∈ advances (s.emits inp i)) :
    k = ((s.step inp).nodes i).highWatermark := by
  obtain ⟨a, ha, hk⟩ := List.mem_filterMap.mp h
  obtain ⟨ev, htrigger, hi, hmem⟩ := trigger_of_mem_emits ha
  obtain ⟨l, hl⟩ := react_nodes_self s hi ev
  rw [step_nodes_of_trigger htrigger, hl]
  cases a with
  | advanceHighWatermark offset =>
    obtain rfl := Option.some.inj hk
    exact advance_of_handle hmem
  | _ => cases hk

/-- A step asks a node to truncate at or above its watermark only. -/
lemma truncate_of_emits (hs : s.Matched) (h : CommitInv g s) {inp : Input}
    (hok : OnTrigger KeepsCommitted s inp) {o : ℕ} (ho : .truncateLog o ∈ s.emits inp i) :
    (s.nodes i).highWatermark ≤ o := by
  obtain ⟨ev, htrigger, hi, hmem⟩ := trigger_of_mem_emits ho
  rw [OnTrigger, htrigger] at hok
  obtain ⟨c, resp, d, rfl, hrole, hepoch, hdiv, rfl⟩ := truncate_of_handle hmem
  exact highWatermark_le_of_cut hs.logs h (hok.2.2.1 hrole hepoch d hdiv)

end Step

/-! ### Runs -/

section Runs

variable {s : Cluster VecLog} {i : ℕ}

/-- In every state of a run that keeps what is committed, watermarks cover committed prefixes. -/
lemma exists_commitInv {voters : List ℕ} {is pre : List Input}
    (hf : Run.Meets step HonestFetch (init voters fun _ => VecLog.new) is)
    (hok : Run.Meets step (OnTrigger KeepsCommitted) (init voters fun _ => VecLog.new) is)
    (hpre : pre <+: is) :
    ((init voters fun _ => VecLog.new).run pre).Matched ∧
      ∃ g, CommitInv g ((init voters fun _ => VecLog.new).run pre) := by
  obtain ⟨rest, rfl⟩ := hpre
  rw [Run.meets_append] at hf hok
  exact Run.run_invariant (P := fun s : Cluster VecLog => s.Matched ∧ ∃ g, CommitInv g s)
    (fun _ _ h hok => step_commitInv h hok.1 hok.2)
    ⟨matched_init voters, _, .init voters⟩ (hf.1.and hok.1)

/-- What a node does while it stays up, step by step. -/
structure StaysStable (s t : Cluster VecLog) (i : ℕ) (actions : List Action) : Prop where
  watermark : (s.nodes i).highWatermark ≤ (t.nodes i).highWatermark
  kept : (t.nodes i).log.entries.take (s.nodes i).highWatermark
    = (s.nodes i).log.entries.take (s.nodes i).highWatermark
  above : ∀ k ∈ advances actions, (s.nodes i).highWatermark ≤ k
  sorted : (advances actions).Pairwise (· ≤ ·)

lemma staysStable_of_meets (hs : s.Matched ∧ ∃ g, CommitInv g s) {mid : List Input}
    (hf : Run.Meets step HonestFetch s mid)
    (hok : Run.Meets step (OnTrigger KeepsCommitted) s mid) (hup : .restart i ∉ mid) :
    StaysStable s (s.run mid) i (s.emitted i mid) := by
  induction mid generalizing s with
  | nil => exact ⟨le_rfl, rfl, fun _ hk => absurd hk List.not_mem_nil, .nil⟩
  | cons inp mid ih =>
    rw [List.mem_cons, not_or] at hup
    obtain ⟨hmatched, g, hg⟩ := hs
    obtain ⟨hle, htake⟩ := step_stable hmatched hg hok.1 (i := i) (Ne.symm hup.1)
    have hrest := ih (step_commitInv ⟨hmatched, g, hg⟩ hf.1 hok.1) hf.2 hok.2 hup.2
    have hnow : ∀ k ∈ advances (s.emits inp i), k = ((s.step inp).nodes i).highWatermark :=
      fun k hk => advance_of_emits hk
    have hsplit : advances (s.emitted i (inp :: mid))
        = advances (s.emits inp i) ++ advances ((s.step inp).emitted i mid) :=
      List.filterMap_append
    refine ⟨hle.trans hrest.watermark, ?_, ?_, ?_⟩
    · have hkept := congrArg (List.take (s.nodes i).highWatermark) hrest.kept
      rw [List.take_take, List.take_take, min_eq_left hle] at hkept
      exact hkept.trans htake
    · rw [hsplit]
      intro k hk
      rcases List.mem_append.mp hk with hnew | hlater
      · exact hle.trans (hnow k hnew).ge
      · exact hle.trans (hrest.above k hlater)
    · rw [hsplit, List.pairwise_append]
      refine ⟨?_, hrest.sorted, fun k hk k' hk' => (hnow k hk).trans_le (hrest.above k' hk')⟩
      exact List.pairwise_of_forall_mem_list fun k hk k' hk' => ((hnow k hk).trans (hnow k' hk').symm).le

/-- Committed prefixes are stable in every run in which nodes keep what is committed. -/
theorem committedStable_of_keepsCommitted (voters : List ℕ) (is : List Input)
    (hf : Run.Meets step HonestFetch (init voters fun _ => VecLog.new) is)
    (hok : Run.Meets step (OnTrigger KeepsCommitted) (init voters fun _ => VecLog.new) is) :
    (init voters fun _ => VecLog.new).CommittedStable is := by
  have hstable (i : ℕ) (pre mid : List Input) (hrun : pre ++ mid <+: is)
      (hup : .restart i ∉ mid) : StaysStable ((init voters fun _ => VecLog.new).run pre)
        ((init voters fun _ => VecLog.new).run (pre ++ mid)) i
        (((init voters fun _ => VecLog.new).run pre).emitted i mid) := by
    have hinv := exists_commitInv hf hok ((List.prefix_append pre mid).trans hrun)
    obtain ⟨rest, rfl⟩ := hrun
    rw [List.append_assoc, Run.meets_append, Run.meets_append] at hf hok
    rw [show (init voters fun _ => VecLog.new).run (pre ++ mid) = _ from Run.run_append _ _ _ _]
    exact staysStable_of_meets hinv hf.2.1 hok.2.1 hup
  refine ⟨fun i pre mid hrun hup => (hstable i pre mid hrun hup).watermark,
    fun i pre mid hrun hup a ha hlt => ?_, fun i pre mid hrun hup => (hstable i pre mid hrun hup).sorted,
    fun i pre inp hrun o ho => ?_⟩
  · obtain ⟨hmatched, -, -⟩ := exists_commitInv hf hok ((List.prefix_append pre mid).trans hrun)
    have hmem : a ∈ (((init voters fun _ => VecLog.new).run pre).nodes i).log.entries.take
        (((init voters fun _ => VecLog.new).run pre).nodes i).highWatermark := by
      refine List.mem_of_getElem? (i := a.offset) ?_
      rw [List.getElem?_take_of_lt hlt]
      exact (hmatched.logs.node_contiguous i).getElem?_offset ha
    rw [← (hstable i pre mid hrun hup).kept] at hmem
    exact List.mem_of_mem_take hmem
  · obtain ⟨hmatched, g, hg⟩ := exists_commitInv hf hok ((List.prefix_append pre [inp]).trans hrun)
    obtain ⟨rest, rfl⟩ := hrun
    rw [List.append_assoc, Run.meets_append] at hok
    exact truncate_of_emits hmatched hg hok.2.1 ho

/-- Node 1 leads and appends, node 2 fetches and acknowledges, and both learn of the commit. -/
theorem committedStable_one_commit :
    (init [1, 2, 3] fun _ => VecLog.new).CommittedStable
      [.electionTimeout 1, .deliver 0, .deliver 1, .propose 1 [7] 0, .fetch 2 1 ⟨1, 0, 0⟩,
        .deliver 3, .deliver 3, .fetch 2 1 ⟨1, 1, 1⟩, .deliver 3, .deliver 3,
        .fetch 2 1 ⟨1, 1, 1⟩, .deliver 3, .deliver 3] :=
  committedStable_of_keepsCommitted _ _ (by decide) (by decide)

/-- Node 2 leads epoch 2 with an entry of its own, then fetches from leader 1 of epoch 3, whose log
has no entry of epoch 2: node 2 is told to drop all of its log. -/
theorem committedStable_not_all_runs :
    ∃ is, Run.Meets step HonestFetch (init [1, 2, 3] fun _ => VecLog.new) is ∧
      ¬ (init [1, 2, 3] fun _ => VecLog.new).CommittedStable is := by
  refine ⟨[.electionTimeout 1, .deliver 0, .deliver 1, .propose 1 [7] 0, .fetch 2 1 ⟨1, 0, 0⟩,
    .deliver 3, .deliver 3, .fetch 2 1 ⟨1, 1, 1⟩, .deliver 3, .deliver 3, .fetch 2 1 ⟨1, 1, 1⟩,
    .deliver 3, .deliver 3, .electionTimeout 2, .deliver 4, .deliver 4, .propose 2 [8] 1,
    .deliver 3, .electionTimeout 1, .deliver 7, .deliver 7, .deliver 7, .fetch 2 1 ⟨3, 2, 2⟩,
    .deliver 8] ++ [.deliver 8], by decide, fun h => ?_⟩
  exact absurd (h.truncated 2 _ (.deliver 8) (List.prefix_refl _) 0 (by decide)) (by decide)

end Runs

end Cluster

end Musil.Raft
