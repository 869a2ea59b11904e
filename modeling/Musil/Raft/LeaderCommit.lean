import Musil.Lib.Quorum
import Musil.Raft.Proposals

/-!
# The commit rule of a leader

A leader notes the fetch offsets of the other voters and moves its watermark to the largest offset
that a majority has reached, if the entry before it is of its own epoch. What is noted never
exceeds the leader's log, since a fetch offset is only noted when the log has the entry before it.
-/

namespace Musil.Raft

variable {L : Type*} [RaftLog L]

/-- The log has entries at exactly the offsets below its end. -/
def Full (log : L) : Prop :=
  ∀ o, (RaftLog.epochAt log o).isSome ↔ o < RaftLog.logEndOffset log

lemma full_of_contiguous {log : VecLog} (h : Contiguous log.entries) : Full log := by
  intro o
  rw [VecLog.epochAt_eq h, VecLog.logEndOffset_eq h, Option.isSome_map]
  simp

/-- A fetch offset that passes the divergence check is within a full log. -/
lemma Full.fetchOffset_le {n : Node L} (h : Full n.log) {req : FetchRequest}
    (hdiv : n.checkDivergence req.fetchOffset req.lastFetchedEpoch = none) :
    req.fetchOffset ≤ RaftLog.logEndOffset n.log := by
  rw [Node.checkDivergence] at hdiv
  split_ifs at hdiv with hzero hepoch
  · exact hzero ▸ Nat.zero_le _
  · have hlt := (h (req.fetchOffset - 1)).mp (by rw [hepoch]; rfl)
    omega

lemma full_iff {log : VecLog} : Full log ↔
    (∀ a ∈ log.entries, a.offset < RaftLog.logEndOffset log)
      ∧ ∀ o < RaftLog.logEndOffset log, (RaftLog.epochAt log o).isSome := by
  constructor
  · intro h
    refine ⟨fun a ha => (h a.offset).mp ?_, fun o => (h o).mpr⟩
    rw [RaftLog.epochAt, instRaftLogVecLog, Option.isSome_map, List.find?_isSome]
    exact ⟨a, ha, decide_eq_true rfl⟩
  · rintro ⟨hlt, hsome⟩ o
    refine ⟨fun ho => ?_, hsome o⟩
    obtain ⟨e, he⟩ := Option.isSome_iff_exists.mp ho
    obtain ⟨a, ha, rfl, -⟩ := VecLog.mem_of_epochAt he
    exact hlt a ha

instance (log : VecLog) : Decidable (Full log) :=
  decidable_of_iff _ full_iff.symm

/-- A node that leads, and the offset of the last fetch request of each node that it has not
answered with a divergence, or 0. -/
structure Leadership (L : Type*) where
  node : Node L
  fetched : ℕ → ℕ

namespace Leadership

/-- A fetch request of the node's epoch that does not diverge from its log. -/
def Accepts (n : Node L) : Event → Prop
  | .fetchRequest _ req => req.epoch = n.currentEpoch ∧
      n.checkDivergence req.fetchOffset req.lastFetchedEpoch = none
  | _ => False

instance (n : Node L) : (ev : Event) → Decidable (Accepts n ev)
  | .fetchRequest _ _ => inferInstanceAs (Decidable (_ ∧ _))
  | .electionTimeout | .heartbeatTimeout | .voteRequest _ _ | .voteResponse _ _
  | .beginQuorumEpoch _ _ | .endQuorumEpoch _ _ | .fetchResponse _ _ | .propose _ _ =>
    .isFalse not_false

/-- The sender of a fetch request is another node. -/
def FromOther (n : Node L) : Event → Prop
  | .fetchRequest c _ => c ≠ n.id
  | _ => True

omit [RaftLog L] in
/-- A leader at the beginning of its term. -/
def begun (n : Node L) : Leadership L :=
  ⟨n.becomeLeader.1, fun _ => 0⟩

def fetchedAfter (s : Leadership L) : Event → ℕ → ℕ
  | .fetchRequest c req =>
    if Accepts s.node (.fetchRequest c req) then Function.update s.fetched c req.fetchOffset
    else s.fetched
  | _ => s.fetched

/-- The node handles an event, and the actions on its log are executed. -/
def step (s : Leadership L) (ev : Event) : Leadership L :=
  let (n, actions) := s.node.handle ev
  ⟨(persistPass (n, s.node.quorumState) actions).1, s.fetchedAfter ev⟩

/-- How far a voter is: the leader itself at the end of its log. -/
def position (s : Leadership L) (v : ℕ) : ℕ :=
  if v = s.node.id then RaftLog.logEndOffset s.node.log else s.fetched v

/-- `o` is the largest offset that a majority of the voters has reached. -/
def MajorityAt (s : Leadership L) (o : ℕ) : Prop :=
  IsGreatest {x | s.node.majority ≤ (s.node.voters.filter fun v => x ≤ s.position v).length} o

/-- The proposals answered as committed, in the order of the answers. -/
def commits (actions : List Action) : List ℕ :=
  actions.filterMap fun a => match a with
    | .commitPropose proposeId => some proposeId
    | _ => none

/-- What an event does to the watermark and to the pending proposals. -/
structure CommitRule (s : Leadership L) (ev : Event) : Prop where
  keeps : ¬ Accepts s.node ev → (s.step ev).node.highWatermark = s.node.highWatermark
  advances : Accepts s.node ev → ∀ o,
    (s.node.highWatermark ≠ o ∧ (s.step ev).node.highWatermark = o) ↔
      (s.node.highWatermark < o ∧ (s.step ev).MajorityAt o ∧
        RaftLog.epochAt s.node.log (o - 1) = some s.node.currentEpoch)
  commits : (s.step ev).node.highWatermark ≠ s.node.highWatermark →
    (s.step ev).node.highWatermark ≤ RaftLog.logEndOffset s.node.log ∧
      Leadership.commits (s.node.handle ev).2 = (s.node.pendingProposes.filter
        fun p => p.1 < (s.step ev).node.highWatermark).map (·.2)

/-- The node goes on leading, its log has exactly the offsets below its end and loses none, and
fetch requests come from others. -/
def Ok (s : Leadership L) (ev : Event) : Prop :=
  FromOther s.node ev ∧ (s.step ev).node.role = .leader ∧ Full (s.step ev).node.log ∧
    RaftLog.logEndOffset s.node.log ≤ RaftLog.logEndOffset (s.step ev).node.log

/-! ### What is noted -/

/-- The leader has noted the offset of every other voter, which is in its log, and nothing else. -/
structure Inv (s : Leadership L) : Prop where
  leads : s.node.role = .leader
  nodup : s.node.voters.Nodup
  id_mem : s.node.id ∈ s.node.voters
  full : Full s.node.log
  offsets : ∀ v f, s.node.voterFetchOffsets.lookup v = some f ↔
    v ∈ s.node.peers ∧ f = s.fetched v
  fetched_le : ∀ v ∈ s.node.peers, s.fetched v ≤ RaftLog.logEndOffset s.node.log

section Inv

variable {s : Leadership L} {ev : Event}

lemma Inv.begun {n : Node L} (hnodup : n.voters.Nodup) (hid : n.id ∈ n.voters)
    (hfull : Full n.log) : (begun n).Inv where
  leads := rfl
  nodup := hnodup
  id_mem := hid
  full := hfull
  offsets v f := by
    rw [Leadership.begun, Node.lookup_becomeLeader]
    split_ifs with hv
    · exact ⟨fun h => ⟨hv, (Option.some.inj h).symm⟩, fun h => congrArg some h.2.symm⟩
    · exact ⟨nofun, fun h => absurd h.1 hv⟩
  fetched_le _ _ := Nat.zero_le _

/-- What the leader sorts are the positions of the voters. -/
lemma Inv.perm_positions (h : s.Inv) :
    (s.node.voterFetchOffsets.entries.map (·.2) ++ [RaftLog.logEndOffset s.node.log]).Perm
      (s.node.voters.map s.position) := by
  have hkeys : s.node.voterFetchOffsets.keys.Perm s.node.peers := by
    refine (List.perm_ext_iff_of_nodup s.node.voterFetchOffsets.keys_nodup
      (h.nodup.filter _)).mpr fun v => ?_
    rw [← AList.mem_keys, ← AList.lookup_isSome, Option.isSome_iff_exists]
    exact ⟨fun ⟨f, hf⟩ => ((h.offsets v f).mp hf).1,
      fun hv => ⟨s.fetched v, (h.offsets v _).mpr ⟨hv, rfl⟩⟩⟩
  have hvalues : s.node.voterFetchOffsets.entries.map (·.2)
      = s.node.voterFetchOffsets.keys.map s.position := by
    rw [AList.keys, List.keys, List.map_map]
    refine List.map_congr_left fun e he => ?_
    obtain ⟨hpeer, hf⟩ := (h.offsets e.1 e.2).mp (AList.mem_lookup_iff.mpr he)
    have hne : e.1 ≠ s.node.id := of_decide_eq_true (List.mem_filter.mp hpeer).2
    rw [Function.comp_apply, position, if_neg hne]
    exact hf
  have hvoters : s.node.voters.Perm (s.node.peers ++ [s.node.id]) := by
    have hnodup : (s.node.peers ++ [s.node.id]).Nodup := by
      rw [List.nodup_append]
      refine ⟨h.nodup.filter _, List.nodup_singleton _, fun v hv w hw => ?_⟩
      rw [List.mem_singleton.mp hw]
      exact of_decide_eq_true (List.mem_filter.mp hv).2
    refine (List.perm_ext_iff_of_nodup h.nodup hnodup).mpr fun v => ?_
    rw [List.mem_append, List.mem_singleton, Node.peers, List.mem_filter, decide_eq_true_eq]
    refine ⟨fun hv => ?_, fun hv => hv.elim And.left fun hv => hv ▸ h.id_mem⟩
    by_cases hself : v = s.node.id
    · exact .inr hself
    · exact .inl ⟨hv, hself⟩
  rw [hvalues]
  refine ((hkeys.map s.position).append_right _).trans ?_
  have hself : s.position s.node.id = RaftLog.logEndOffset s.node.log := if_pos rfl
  have hmap := (hvoters.map s.position).symm
  rwa [List.map_append, List.map_singleton, hself] at hmap

/-- What stands at the place that decides is the largest offset that a majority has reached. -/
lemma Inv.majorityAt (h : s.Inv) :
    s.node.majority ≤ s.node.replicaOffsets.length ∧
      s.MajorityAt (s.node.replicaOffsets.getD (s.node.majority - 1) 0) := by
  have hperm := h.perm_positions
  have hlen := hperm.length_eq
  rw [List.length_map] at hlen
  have hpos : 0 < s.node.voters.length := List.length_pos_of_mem h.id_mem
  have hmajority : s.node.majority ≤ s.node.voters.length := by
    rw [Node.majority]
    omega
  have hk : s.node.majority - 1 < (s.node.voterFetchOffsets.entries.map (·.2)
      ++ [RaftLog.logEndOffset s.node.log]).length := by
    have hone : 0 < s.node.majority := Nat.succ_pos _
    omega
  refine ⟨?_, ?_⟩
  · rw [Node.replicaOffsets, List.length_insertionSort, hlen]
    exact hmajority
  · have hgreatest := isGreatest_insertionSort _ hk
    have hcount (x : ℕ) : ((s.node.voterFetchOffsets.entries.map (·.2)
        ++ [RaftLog.logEndOffset s.node.log]).filter (x ≤ ·)).length
        = (s.node.voters.filter fun v => x ≤ s.position v).length := by
      rw [(hperm.filter _).length_eq, List.filter_map, List.length_map]
      rfl
    simp only [hcount, Nat.sub_add_cancel (show 1 ≤ s.node.majority from Nat.succ_pos _)]
      at hgreatest
    exact hgreatest

lemma MajorityAt.le (h : s.Inv) {o : ℕ} (ho : s.MajorityAt o) :
    o ≤ RaftLog.logEndOffset s.node.log := by
  have hcount : 0 < (s.node.voters.filter fun v => o ≤ s.position v).length :=
    (Nat.succ_pos _).trans_le ho.1
  obtain ⟨v, hv⟩ := List.exists_mem_of_length_pos hcount
  obtain ⟨hmem, hreach⟩ := List.mem_filter.mp hv
  refine (of_decide_eq_true hreach).trans ?_
  rw [position]
  split_ifs with hself
  · exact le_rfl
  · exact h.fetched_le v (List.mem_filter.mpr ⟨hmem, decide_eq_true hself⟩)

/-! ### One event -/

lemma step_reacts (s : Leadership L) (ev : Event) :
    ∃ out, Reacts s.node.id s.node ev (s.step ev).node out := by
  obtain ⟨n', hreacts, hpersist⟩ := handle_reaches s.node.id s.node ev
  have hnode : (s.step ev).node = n' := congrArg Prod.fst hpersist
  exact ⟨sendPass s.node.id (s.node.handle ev).2, hnode ▸ hreacts⟩

/-- A leader that does not accept a fetch request keeps what it has noted and its watermark. -/
lemma step_of_not_accepts (hrole : s.node.role = .leader) (hacc : ¬ Accepts s.node ev) :
    (s.step ev).node.highWatermark = s.node.highWatermark ∧
      (s.step ev).node.voters = s.node.voters ∧ (s.step ev).node.id = s.node.id ∧
      (s.step ev).node.voterFetchOffsets = s.node.voterFetchOffsets ∧
      (s.step ev).fetched = s.fetched := by
  have hfetched : (s.step ev).fetched = s.fetched := by
    cases ev with
    | fetchRequest c req => exact if_neg hacc
    | _ => rfl
  obtain ⟨out, hreacts⟩ := s.step_reacts ev
  have hleads : ∀ {P : Prop}, s.node.role ≠ .leader → P := fun hne => absurd hrole hne
  generalize (s.step ev).node = n' at hreacts ⊢
  cases hreacts with
  | serves c req hepoch _ hdiv => exact absurd ⟨hepoch, hdiv⟩ hacc
  | stands hne | standsAlone hne => exact hleads hne
  | counts c hcand | wins c hcand => exact hleads (by rw [hcand]; simp)
  | truncates c resp d _ hfollower => exact hleads (by rw [hfollower]; simp)
  | appends c resp _ hfollower => exact hleads (by rw [hfollower]; simp)
  | denies c req | grants c req =>
    simp only [Node.joined]
    split_ifs <;> exact ⟨rfl, rfl, rfl, rfl, hfetched⟩
  | _ => exact ⟨rfl, rfl, rfl, rfl, hfetched⟩

/-- A leader that accepts a fetch request notes its offset and looks for a new watermark. -/
lemma step_of_accepts {c : ℕ} {req : FetchRequest} (hrole : s.node.role = .leader)
    (hacc : Accepts s.node (.fetchRequest c req)) :
    (s.step (.fetchRequest c req)).node
        = (s.node.credited c req.fetchOffset).tryAdvanceHighWatermark.1 ∧
      (s.step (.fetchRequest c req)).fetched = Function.update s.fetched c req.fetchOffset ∧
      commits (s.node.handle (.fetchRequest c req)).2
        = commits (s.node.credited c req.fetchOffset).tryAdvanceHighWatermark.2 := by
  have hserves := Node.handleFetchRequest_serves (c := c) hacc.1 hrole hacc.2
  have hnotice := (s.node.credited c req.fetchOffset).tryAdvanceHighWatermark_notice
  have hnode : (s.step (.fetchRequest c req)).node = (persistPass
      ((s.node.handleFetchRequest c req).1, s.node.quorumState)
      (s.node.handleFetchRequest c req).2).1 := rfl
  refine ⟨?_, if_pos hacc, ?_⟩
  · rw [hnode, hserves, persistPass_of_volatile]
    intro a ha
    rcases List.mem_cons.mp ha with rfl | ha
    · trivial
    · exact (hnotice a ha).isVolatile
  · rw [Node.handle, hserves]
    rfl

lemma Inv.step (h : s.Inv) (hok : s.Ok ev) : (s.step ev).Inv := by
  obtain ⟨hother, hrole, hfull, hle⟩ := hok
  by_cases hacc : Accepts s.node ev
  · cases ev with
    | fetchRequest c req =>
      have hoffset := h.full.fetchOffset_le hacc.2
      obtain ⟨hnode, hfetched, -⟩ := step_of_accepts h.leads hacc
      obtain ⟨hwm, pending, hserved⟩ := s.node.served_eq c req.fetchOffset
      rw [hserved] at hnode
      have hpeers : (s.step (.fetchRequest c req)).node.peers = s.node.peers := by rw [hnode]; rfl
      have hpeer : c ∈ s.node.peers ↔ c ∈ s.node.voters := by
        rw [Node.peers, List.mem_filter, decide_eq_true_eq]
        exact and_iff_left hother
      refine ⟨hrole, ?_, ?_, hfull, fun v f => ?_, fun v hv => ?_⟩
      · rw [hnode]
        exact h.nodup
      · rw [hnode]
        exact h.id_mem
      · rw [hpeers, hfetched, hnode]
        simp only [Node.credited]
        split_ifs with hmem
        · rcases eq_or_ne v c with rfl | hvc
          · rw [AList.lookup_insert, Function.update_self]
            exact ⟨fun hf => ⟨hpeer.mpr hmem, (Option.some.inj hf).symm⟩,
              fun hf => congrArg some hf.2.symm⟩
          · rw [AList.lookup_insert_ne hvc, Function.update_of_ne hvc]
            exact h.offsets v f
        · rw [h.offsets]
          refine and_congr_right fun hv => ?_
          rw [Function.update_of_ne]
          rintro rfl
          exact hmem (hpeer.mp hv)
      · rw [hpeers] at hv
        rw [hfetched]
        refine le_trans ?_ hle
        rcases eq_or_ne v c with rfl | hvc
        · rwa [Function.update_self]
        · rw [Function.update_of_ne hvc]
          exact h.fetched_le v hv
    | _ => exact hacc.elim
  · obtain ⟨-, hvoters, hid, hoffsets, hfetched⟩ := step_of_not_accepts h.leads hacc
    have hpeers : (s.step ev).node.peers = s.node.peers := by
      rw [Node.peers, hvoters, hid]
      rfl
    refine ⟨hrole, hvoters ▸ h.nodup, ?_, hfull, fun v f => ?_, fun v hv => ?_⟩
    · rw [hvoters, hid]
      exact h.id_mem
    · rw [hpeers, hoffsets, hfetched]
      exact h.offsets v f
    · rw [hpeers] at hv
      rw [hfetched]
      exact (h.fetched_le v hv).trans hle

/-! ### The rule -/

omit [RaftLog L] in
lemma commits_checkCommittedProposes (n : Node L) : commits n.checkCommittedProposes.2
    = (n.pendingProposes.filter fun p => p.1 < n.highWatermark).map (·.2) := by
  simp only [Node.checkCommittedProposes, splitCommitted_snd, commits, List.filterMap_map]
  rw [← List.filterMap_eq_map]
  rfl

/-- The watermark moves to the offset at the place that decides, or nothing happens. -/
lemma tryAdvanceHighWatermark_eq (n : Node L) (hlen : n.majority ≤ n.replicaOffsets.length) :
    n.tryAdvanceHighWatermark =
      if n.highWatermark < n.replicaOffsets.getD (n.majority - 1) 0 ∧
          ¬ (RaftLog.epochAt n.log (n.replicaOffsets.getD (n.majority - 1) 0 - 1)).any
            (· ≠ n.currentEpoch) then
        let hwm := n.replicaOffsets.getD (n.majority - 1) 0
        (n.committed hwm,
          .advanceHighWatermark hwm :: ({ n with highWatermark := hwm }.checkCommittedProposes).2)
      else (n, []) := by
  rw [Node.tryAdvanceHighWatermark]
  simp only [if_neg (Nat.not_lt.mpr hlen), ← Node.checkCommittedProposes_fst]
  by_cases hle : n.replicaOffsets.getD (n.majority - 1) 0 ≤ n.highWatermark
  · rw [if_pos hle, if_neg fun hand => absurd hand.1 (Nat.not_lt.mpr hle)]
  · rw [if_neg hle]
    split_ifs with hepoch hand hand
    · exact absurd hepoch hand.2
    · rfl
    · rfl
    · exact absurd ⟨Nat.not_le.mp hle, hepoch⟩ hand

lemma Inv.ok_of_accepts (h : s.Inv) {c : ℕ} {req : FetchRequest} (hother : c ≠ s.node.id)
    (hacc : Accepts s.node (.fetchRequest c req)) : s.Ok (.fetchRequest c req) := by
  obtain ⟨hnode, -, -⟩ := step_of_accepts h.leads hacc
  obtain ⟨hwm, pending, hserved⟩ := s.node.served_eq c req.fetchOffset
  rw [hserved] at hnode
  refine ⟨hother, ?_, ?_, ?_⟩
  · rw [hnode]
    exact h.leads
  · rw [hnode]
    exact h.full
  · rw [hnode]

lemma Inv.commitRule_of_accepts (h : s.Inv) {c : ℕ} {req : FetchRequest} (hother : c ≠ s.node.id)
    (hacc : Accepts s.node (.fetchRequest c req)) : s.CommitRule (.fetchRequest c req) := by
  have hinv := h.step (h.ok_of_accepts hother hacc)
  obtain ⟨hnode, -, hcommits⟩ := step_of_accepts h.leads hacc
  obtain ⟨hwm, pending, hserved⟩ := s.node.served_eq c req.fetchOffset
  have hcredited := s.node.credited_eq c req.fetchOffset
  set m := s.node.credited c req.fetchOffset with hm
  -- after the step the offsets are those that the leader has just sorted
  have hoffsets : (s.step (.fetchRequest c req)).node.replicaOffsets = m.replicaOffsets := by
    rw [hnode, hserved]
    conv_rhs => rw [hcredited]
    rfl
  have hmajority : (s.step (.fetchRequest c req)).node.majority = m.majority := by
    rw [hnode, hserved]
    conv_rhs => rw [hcredited]
    rfl
  have hlog : (s.step (.fetchRequest c req)).node.log = s.node.log := by rw [hnode, hserved]
  obtain ⟨hlen, hat⟩ := hinv.majorityAt
  have hle := hat.le hinv
  rw [hoffsets, hmajority] at hlen hat hle
  rw [hlog] at hle
  have heq := tryAdvanceHighWatermark_eq m hlen
  set w := m.replicaOffsets.getD (m.majority - 1) 0 with hw
  have hmsame : m.highWatermark = s.node.highWatermark ∧ m.log = s.node.log ∧
      m.currentEpoch = s.node.currentEpoch ∧ m.pendingProposes = s.node.pendingProposes := by
    rw [hcredited]
    exact ⟨rfl, rfl, rfl, rfl⟩
  obtain ⟨hmhw, hmlog, hmepoch, hmpending⟩ := hmsame
  rw [hmhw, hmlog, hmepoch] at heq
  have hepoch (hlt : s.node.highWatermark < w) :
      (¬ (RaftLog.epochAt s.node.log (w - 1)).any (· ≠ s.node.currentEpoch)) ↔
        RaftLog.epochAt s.node.log (w - 1) = some s.node.currentEpoch := by
    obtain ⟨e, he⟩ := Option.isSome_iff_exists.mp ((h.full (w - 1)).mpr (by omega))
    rw [he]
    simp
  have hunique (o : ℕ) (ho : (s.step (.fetchRequest c req)).MajorityAt o) : o = w := ho.unique hat
  refine ⟨fun hnot => absurd hacc hnot, fun _ o => ?_, fun hchanged => ?_⟩
  · split_ifs at heq with hcond
    · have hnew : (s.step (.fetchRequest c req)).node.highWatermark = w := by rw [hnode, heq]; rfl
      rw [hnew]
      constructor
      · rintro ⟨-, rfl⟩
        exact ⟨hcond.1, hat, (hepoch hcond.1).mp hcond.2⟩
      · rintro ⟨hlt, ho, -⟩
        exact ⟨hlt.ne, (hunique o ho).symm⟩
    · have hold : (s.step (.fetchRequest c req)).node.highWatermark = s.node.highWatermark := by
        rw [hnode, heq, hmhw]
      rw [hold]
      constructor
      · rintro ⟨hne, heq⟩
        exact absurd heq hne
      · rintro ⟨hlt, ho, hown⟩
        obtain rfl := hunique o ho
        exact absurd ⟨hlt, (hepoch hlt).mpr hown⟩ hcond
  · split_ifs at heq with hcond
    · have hnew : (s.step (.fetchRequest c req)).node.highWatermark = w := by rw [hnode, heq]; rfl
      rw [hnew, hcommits, heq]
      refine ⟨hle, ?_⟩
      rw [← hmpending]
      exact commits_checkCommittedProposes { m with
        highWatermark := w, log := s.node.log, currentEpoch := s.node.currentEpoch }
    · exact absurd (by rw [hnode, heq, hmhw]) hchanged

lemma Inv.commitRule (h : s.Inv) (hother : FromOther s.node ev) : s.CommitRule ev := by
  by_cases hacc : Accepts s.node ev
  · cases ev with
    | fetchRequest c req => exact h.commitRule_of_accepts hother hacc
    | _ => exact hacc.elim
  · have hkeeps := (step_of_not_accepts h.leads hacc).1
    exact ⟨fun _ => hkeeps, fun hyes => absurd hyes hacc, fun hne => absurd hkeeps hne⟩

end Inv

/-- In every leadership every event moves the watermark by the rule. -/
theorem commitRule_of_run (n : Node L) (hnodup : n.voters.Nodup) (hid : n.id ∈ n.voters)
    (hfull : Full n.log) (evs : List Event) (hok : Run.Meets step Ok (begun n) evs) (ev : Event)
    (hother : FromOther (Run.run step (begun n) evs).node ev) :
    (Run.run step (begun n) evs).CommitRule ev :=
  (Run.run_invariant (P := Inv) (fun _ _ h hop => h.step hop) (.begun hnodup hid hfull)
    hok).commitRule hother

/-- Node 2 fetches behind the first proposal of node 1. -/
theorem commitRule_first_proposal :
    (Run.run step (begun (Node.new 1 [1, 2, 3] ⟨1, some 1⟩ VecLog.new))
      [.propose [7] 0]).CommitRule (.fetchRequest 2 ⟨1, 1, 1⟩) :=
  commitRule_of_run _ (by decide) (by decide) (full_of_contiguous (by decide)) [.propose [7] 0]
    ⟨⟨trivial, rfl, full_of_contiguous (by decide), by decide⟩, trivial⟩ _
    (show 2 ≠ 1 by decide)

end Leadership

end Musil.Raft
