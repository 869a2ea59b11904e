import Musil.Raft.CommitSafety
import Musil.Raft.Progress
import Musil.Raft.Proposals

/-!
# Commits can always succeed

A leader brings every follower to its own log: the answer to a fetch request that does not fit cuts
the follower's log by an entry at least, and the answer to one that fits completes it. When all
followers have said that their logs are complete, the leader's watermark covers what was proposed to
it, and the proposal is answered.
-/

namespace Musil.Raft

open EpochLog

/-! ### Fetches -/

section Acts

variable {L : Type*} [RaftLog L] {i c : ℕ} {n : Node L}

lemma acts_fetchRequest_diverges {req : FetchRequest} {d : Diverging}
    (hepoch : req.epoch = n.currentEpoch) (hrole : n.role = .leader)
    (hdiv : n.checkDivergence req.fetchOffset req.lastFetchedEpoch = some d) :
    Acts i n (.fetchRequest c req) n
      [⟨i, c, .fetchResponse ⟨n.currentEpoch, n.highWatermark, [], some d⟩⟩] := by
  have hhandle : n.handle (.fetchRequest c req)
      = (n, [.sendFetchResponse c ⟨n.currentEpoch, n.highWatermark, [], some d⟩]) := by
    rw [Node.handle, Node.handleFetchRequest, if_neg hepoch.not_gt, if_neg hepoch.not_lt,
      if_neg (not_not.mpr hrole), hdiv]
    rfl
  rw [Acts, hhandle]
  exact ⟨rfl, rfl⟩

lemma acts_fetchRequest_serves (req : FetchRequest) (hepoch : req.epoch = n.currentEpoch)
    (hrole : n.role = .leader)
    (hdiv : n.checkDivergence req.fetchOffset req.lastFetchedEpoch = none) :
    Acts i n (.fetchRequest c req) (n.credited c req.fetchOffset).tryAdvanceHighWatermark.1
      [⟨i, c, .fetchResponse
        ⟨n.currentEpoch, n.highWatermark, n.entriesFrom req.fetchOffset, none⟩⟩] := by
  have hnotice := (n.credited c req.fetchOffset).tryAdvanceHighWatermark_notice
  have hkeep : (n.credited c req.fetchOffset).tryAdvanceHighWatermark.1.quorumState
      = n.quorumState := by
    obtain ⟨hwm, pending, hserved⟩ := n.served_eq c req.fetchOffset
    rw [hserved]
    rfl
  rw [Acts, show n.handle (.fetchRequest c req) = n.handleFetchRequest c req from rfl,
    Node.handleFetchRequest_serves hepoch hrole hdiv]
  constructor
  · rw [sendPass_cons, sendPass_of_notice i hnotice]
    rfl
  · rw [hkeep]
    apply persistPass_of_volatile
    intro a ha
    rcases List.mem_cons.mp ha with rfl | ha
    · trivial
    · exact (hnotice a ha).isVolatile

lemma acts_fetchResponse_truncates {resp : FetchResponse} {d : Diverging}
    (hepoch : resp.epoch ≤ n.currentEpoch) (hrole : n.role = .follower)
    (hdiv : resp.diverging = some d) :
    Acts i n (.fetchResponse c resp) { n with log := RaftLog.truncate n.log d.endOffset } [] := by
  have hhandle : n.handle (.fetchResponse c resp) = (n, [.truncateLog d.endOffset]) := by
    rw [Node.handle, Node.handleFetchResponse, if_neg hepoch.not_gt, if_neg (not_not.mpr hrole),
      hdiv]
  rw [Acts, hhandle]
  exact ⟨rfl, rfl⟩

/-- A follower appends the entries; nothing else of it matters here. -/
lemma acts_fetchResponse_appends (resp : FetchResponse) (hepoch : resp.epoch ≤ n.currentEpoch)
    (hrole : n.role = .follower) (hdiv : resp.diverging = none) :
    ∃ n', Acts i n (.fetchResponse c resp) n' [] ∧ n'.role = .follower ∧
      n'.currentEpoch = n.currentEpoch ∧ n'.log = resp.entries.foldl RaftLog.append n.log := by
  have hsilent : sendPass i (resp.entries.map Action.appendToLog) = [] := by
    simp [sendPass, Action.sends, List.flatMap_map]
  have hhandle : n.handle (.fetchResponse c resp) = n.handleFetchResponse resp := rfl
  rw [Node.handleFetchResponse, if_neg hepoch.not_gt, if_neg (not_not.mpr hrole), hdiv] at hhandle
  by_cases hhw : n.highWatermark < resp.highWatermark
  · set hwm := min resp.highWatermark (RaftLog.logEndOffset n.log) with hhwm
    have hnotice := Node.checkCommittedProposes_notice { n with highWatermark := hwm }
    refine ⟨{ n.committed hwm with log := resp.entries.foldl RaftLog.append n.log }, ?_, hrole, rfl,
      rfl⟩
    rw [Acts, hhandle]
    dsimp only
    rw [if_pos hhw]
    constructor
    · simp only [sendPass_append, hsilent, sendPass_of_notice i hnotice]
      rfl
    · simp only [persistPass_append, persistPass_map_append]
      rw [persistPass_of_volatile _ fun a ha => (hnotice a ha).isVolatile]
      simp [persistAction, Node.checkCommittedProposes_fst, Node.committed, Node.quorumState]
  · refine ⟨{ n with log := resp.entries.foldl RaftLog.append n.log }, ?_, hrole, rfl, rfl⟩
    rw [Acts, hhandle]
    dsimp only
    rw [if_neg hhw]
    constructor
    · rw [sendPass_append, hsilent]
      rfl
    · simp [persistPass_map_append, persistAction, Node.quorumState]

lemma acts_propose {data : List UInt8} {proposeId : ℕ} (hrole : n.role = .leader) :
    Acts i n (.propose data proposeId) (n.proposed data proposeId) [] := by
  rw [Acts, Node.handle, Node.handlePropose, if_neg (not_not.mpr hrole)]
  exact ⟨rfl, rfl⟩

/-! ### Replica offsets -/

lemma Node.mem_replicaOffsets {f : ℕ} : f ∈ n.replicaOffsets ↔
    (∃ v, n.voterFetchOffsets.lookup v = some f) ∨ f = RaftLog.logEndOffset n.log := by
  unfold Node.replicaOffsets
  rw [List.mem_insertionSort, List.mem_append, List.mem_singleton]
  apply or_congr_left
  constructor
  · intro h
    obtain ⟨p, hp, rfl⟩ := List.mem_map.mp h
    exact ⟨p.1, AList.mem_lookup_iff.mpr hp⟩
  · rintro ⟨v, hv⟩
    exact List.mem_map.mpr ⟨⟨v, f⟩, AList.mem_lookup_iff.mp hv, rfl⟩

/-- The offset that decides on the watermark is one of them. -/
lemma Node.getD_mem_replicaOffsets (h : n.majority ≤ n.replicaOffsets.length) :
    n.replicaOffsets.getD (n.majority - 1) 0 ∈ n.replicaOffsets := by
  have hpos : 0 < n.majority := Nat.succ_pos _
  have hindex : n.majority - 1 < n.replicaOffsets.length := by omega
  rw [← List.getElem_eq_getD (h := hindex)]
  exact List.getElem_mem hindex

end Acts

/-- The offset at which a diverging log is cut lies inside it. -/
lemma VecLog.findEpochStart_lt {l : VecLog} {lead : ℕ → List LogEntry} {X : List LogEntry}
    (hcont : Contiguous l.entries) (hl : Grounded LogEntry.epoch lead l.entries)
    (hX : Grounded LogEntry.epoch lead X) (hne : X ≠ []) :
    RaftLog.findEpochStart l (lastEp LogEntry.epoch X) < X.length := by
  change ((l.entries.find? fun e => e.epoch = lastEp LogEntry.epoch X).map (·.offset)).getD 0 < _
  cases hfind : l.entries.find? fun e => e.epoch = lastEp LogEntry.epoch X with
  | none => exact List.length_pos_of_ne_nil hne
  | some a =>
    obtain ⟨hep, Z, W, hsplit, hfirst⟩ := List.find?_eq_some_iff_append.mp hfind
    rw [hsplit] at hcont
    change a.offset < X.length
    rw [hcont.offset_of_append]
    refine hX.lt_length_of_first hne hl (Z := Z) (a := a) ?_ (by simpa using hep) fun b hb => ?_
    · rw [hsplit]
      exact ⟨W, (List.append_cons Z a W).symm⟩
    · simpa using hfirst b hb

namespace Cluster

/-! ### Rounds of a fetch -/

/-- Nothing fails, and the fetch requests are those that followers send. -/
def Undisturbed (s : Cluster VecLog) : Input → Prop
  | .fetch src dst req => s.HonestFetch (.fetch src dst req)
  | inp => inp.Spontaneous

lemma permits_undisturbed : Permits Undisturbed :=
  ⟨fun _ _ => trivial, fun _ _ => trivial, fun _ _ => trivial⟩

variable {s t : Cluster VecLog} {c v : ℕ}

/-- What follower `v` asks for. -/
def fetchOf (s : Cluster VecLog) (v : ℕ) : FetchRequest :=
  ⟨(s.nodes v).currentEpoch, RaftLog.logEndOffset (s.nodes v).log, RaftLog.lastEpoch (s.nodes v).log⟩

/-- The message posted last can be the next one delivered. -/
lemma step_deliver_post (s : Cluster VecLog) (env : Envelope) :
    (s.post [env]).step (.deliver s.network.length)
      = { s with sent := s.sent ++ [env] }.react env.dst env.toEvent := by
  have hget : (s.post [env]).network[s.network.length]? = some env := List.getElem?_concat_length
  have hnet : (s.post [env]).network.eraseIdx s.network.length = s.network := by
    rw [post_network, List.eraseIdx_append_of_length_le le_rfl, Nat.sub_self]
    exact List.append_nil _
  simp only [step, hget, hnet]
  rfl

lemma trigger_deliver_post (s : Cluster VecLog) (env : Envelope) :
    (s.post [env]).trigger (.deliver s.network.length) = some (env.dst, env.toEvent) := by
  have hget : (s.post [env]).network[s.network.length]? = some env := List.getElem?_concat_length
  simp only [trigger, hget, Option.map_some]

/-- A fetch request is answered, and the answer arrives. -/
lemma exists_round {n m : Node VecLog} {resp : FetchResponse} (hbook : VoteBook s)
    (hc : c ∈ s.voters) (hv : v ∈ s.voters) (hvc : v ≠ c)
    (hserve : Acts c (s.nodes c) (.fetchRequest v (s.fetchOf v)) n [⟨c, v, .fetchResponse resp⟩])
    (hadopt : Acts v (s.nodes v) (.fetchResponse c resp) m []) :
    ∃ t, Run.Attains step Undisturbed s t ∧ t.voters = s.voters ∧ t.nodes c = n ∧
      t.nodes v = m ∧ ∀ w, w ≠ c → w ≠ v → t.nodes w = s.nodes w := by
  have hfetch : s.Undisturbed (.fetch v c (s.fetchOf v)) := rfl
  have hasked : Run.Attains step Undisturbed s (s.post [⟨v, c, .fetchRequest (s.fetchOf v)⟩]) :=
    .single hfetch
  have hbook' := hasked.invariant (P := VoteBook) (fun _ inp hs _ => hs.step inp) hbook
  -- the request reaches the leader
  have hreach := hasked.tail (permits_undisturbed.deliver _ s.network.length)
  rw [step_deliver_post] at hreach
  generalize hs' : ({ s with sent := s.sent ++ [⟨v, c, .fetchRequest (s.fetchOf v)⟩] } :
    Cluster VecLog) = s' at hreach
  have hnodes : s'.nodes = s.nodes := hs' ▸ rfl
  have hvoters : s'.voters = s.voters := hs' ▸ rfl
  have hfile : s'.quorumFile = s.quorumFile := hs' ▸ rfl
  rw [react_of_acts (hvoters ▸ hc) (by rw [hfile, hnodes]; exact hbook.file_eq c)
    (hnodes ▸ hserve)] at hreach
  -- the answer reaches the follower
  have hdone := hreach.tail (permits_undisturbed.deliver _ (s'.move c n).network.length)
  rw [step_deliver_post] at hdone
  generalize hs'' : ({ s'.move c n with sent := (s'.move c n).sent ++
    [⟨c, v, .fetchResponse resp⟩] } : Cluster VecLog) = s'' at hdone
  have hnodes' : s''.nodes = (s'.move c n).nodes := hs'' ▸ rfl
  have hvoters' : s''.voters = s.voters := by
    rw [← hs'']
    exact (move_voters s').trans hvoters
  have hsame : s''.nodes v = s.nodes v := by
    rw [hnodes', move_nodes_of_ne s' hvc, hnodes]
  have hbook'' : s''.quorumFile v = (s''.nodes v).quorumState := by
    have := (hreach.invariant (P := VoteBook) (fun _ inp hs _ => hs.step inp) hbook).file_eq v
    rw [hnodes', ← hs'']
    exact this
  have hreact := react_of_acts (hvoters'.symm ▸ hv) hbook'' (hsame.symm ▸ hadopt)
  rw [show s''.react (⟨c, v, .fetchResponse resp⟩ : Envelope).dst
    (⟨c, v, .fetchResponse resp⟩ : Envelope).toEvent = s''.react v (.fetchResponse c resp) from rfl,
    hreact, post_nil] at hdone
  refine ⟨_, hdone, ?_, ?_, move_nodes_self s'', fun w hwc hwv => ?_⟩
  · rw [move_voters, hvoters']
  · rw [move_nodes_of_ne s'' hvc.symm, hnodes', move_nodes_self]
  · rw [move_nodes_of_ne s'' hwv, hnodes', move_nodes_of_ne s' hwc, hnodes]

/-! ### Replicating an entry -/

/-- A continuation in which node `c` answers proposal `proposeId` and all of `Z` is committed. -/
def Answerable (t : Cluster VecLog) (c proposeId : ℕ) (Z : List LogEntry) : Prop :=
  ∃ u inp, Run.Attains step Undisturbed t u ∧ u.Undisturbed inp ∧
    .commitPropose proposeId ∈ u.emits inp c ∧ ((u.step inp).nodes c).log.entries = Z ∧
    ((u.step inp).nodes c).highWatermark = Z.length

lemma Answerable.of_attains {proposeId : ℕ} {Z : List LogEntry}
    (ht : Run.Attains step Undisturbed s t) (h : t.Answerable c proposeId Z) :
    s.Answerable c proposeId Z := by
  obtain ⟨u, inp, hu, hrest⟩ := h
  exact ⟨u, inp, ht.trans hu, hrest⟩

/-- Entry `a` is the first one of its epoch's leader, and follows `Y`. -/
structure Heads (lead : ℕ → List LogEntry) (Y : List LogEntry) (a : LogEntry) : Prop where
  contiguous : Contiguous (Y ++ [a])
  grounded : Grounded LogEntry.epoch lead (Y ++ [a])
  first : ∀ b ∈ Y, b.epoch ≠ a.epoch

/-- Leader `c` replicates `a`, its first entry; the voters `vs` have not acknowledged it yet. -/
structure Replicating (t : Cluster VecLog) (lead : ℕ → List LogEntry) (Y : List LogEntry)
    (a : LogEntry) (c proposeId : ℕ) (vs : List ℕ) : Prop where
  book : VoteBook t
  nodup : t.voters.Nodup
  mem : c ∈ t.voters
  settled : t.Settled c a.epoch
  log_eq : (t.nodes c).log.entries = Y ++ [a]
  logs : ∀ v ∈ t.voters, Contiguous (t.nodes v).log.entries ∧
    Grounded LogEntry.epoch lead (t.nodes v).log.entries
  uncommitted : (t.nodes c).highWatermark ≤ Y.length
  pending : (Y.length, proposeId) ∈ (t.nodes c).pendingProposes
  credit : ∀ v f, (t.nodes c).voterFetchOffsets.lookup v = some f →
    v ∈ t.voters ∧ v ≠ c ∧ f ≤ Y.length + 1
  credited : ∀ v ∈ t.voters, v ≠ c → ∃ f, (t.nodes c).voterFetchOffsets.lookup v = some f
  acknowledged : ∀ v ∈ t.voters, v ≠ c → v ∉ vs → (t.nodes v).log.entries = Y ++ [a] ∧
    (t.nodes c).voterFetchOffsets.lookup v = some (Y.length + 1)

section Replicating

variable {lead : ℕ → List LogEntry} {Y : List LogEntry} {a : LogEntry} {proposeId : ℕ} {vs : List ℕ}

/-- The new entry is the only one of its epoch. -/
lemma Heads.length_of_epochAt (ha : Heads lead Y a) {l : VecLog} (hl : l.entries = Y ++ [a]) {k : ℕ}
    (hk : k < Y.length + 1) (hepoch : ∀ e, RaftLog.epochAt l k = some e → e = a.epoch) :
    k = Y.length := by
  have hcont : Contiguous l.entries := hl ▸ ha.contiguous
  rw [VecLog.epochAt_eq hcont, hl] at hepoch
  by_contra hne
  have hlt : k < Y.length := by omega
  rw [List.getElem?_append_left hlt, List.getElem?_eq_getElem hlt] at hepoch
  exact ha.first _ (List.getElem_mem hlt) (hepoch _ rfl)

/-- Where the watermark moves while the entry is replicated. -/
lemma tryAdvance_of_heads {m : Node VecLog} (ha : Heads lead Y a) (hlog : m.log.entries = Y ++ [a])
    (hepoch : m.currentEpoch = a.epoch) (hpending : (Y.length, proposeId) ∈ m.pendingProposes)
    (hcredit : ∀ v f, m.voterFetchOffsets.lookup v = some f → f ≤ Y.length + 1) :
    m.tryAdvanceHighWatermark = (m, []) ∨
      .commitPropose proposeId ∈ m.tryAdvanceHighWatermark.2 ∧
        m.tryAdvanceHighWatermark.1.log = m.log ∧
        m.tryAdvanceHighWatermark.1.highWatermark = Y.length + 1 := by
  rcases m.tryAdvanceHighWatermark_cases with heq | ⟨hwm, hlt, hmaj, hrank, hep, heq⟩
  · exact .inl heq
  right
  have hend : RaftLog.logEndOffset m.log = Y.length + 1 := by
    rw [VecLog.logEndOffset_eq (hlog ▸ ha.contiguous), hlog, List.length_append,
      List.length_singleton]
  have hle : hwm ≤ Y.length + 1 := by
    rw [hrank]
    rcases Node.mem_replicaOffsets.mp (Node.getD_mem_replicaOffsets hmaj) with ⟨v, hv⟩ | hself
    · exact hcredit v _ hv
    · exact (hself.trans hend).le
  rw [hepoch] at hep
  have hpos : hwm = Y.length + 1 := by
    have := ha.length_of_epochAt hlog (k := hwm - 1) (by omega) hep
    omega
  rw [heq]
  refine ⟨List.mem_cons_of_mem _ ?_, rfl, hpos⟩
  rw [Node.checkCommittedProposes, splitCommitted_snd]
  apply List.mem_map.mpr
  exact ⟨(Y.length, proposeId), List.mem_filter.mpr ⟨hpending, by simp [hpos]⟩, rfl⟩

namespace Replicating

/-- A round in which the leader only notes an offset for the follower `v`. -/
lemma round (h : Replicating t lead Y a c proposeId vs) (hv : v ∈ t.voters) (hvc : v ≠ c)
    {offsets : AList fun _ : ℕ => ℕ} {m : Node VecLog} {resp : FetchResponse} {f : ℕ}
    (hserve : Acts c (t.nodes c) (.fetchRequest v (t.fetchOf v))
      { t.nodes c with voterFetchOffsets := offsets } [⟨c, v, .fetchResponse resp⟩])
    (hadopt : Acts v (t.nodes v) (.fetchResponse c resp) m [])
    (hsame : ∀ w, w ≠ v → offsets.lookup w = (t.nodes c).voterFetchOffsets.lookup w)
    (hnoted : offsets.lookup v = some f) (hf : f ≤ Y.length + 1)
    (hfull : v ∉ vs → m.log.entries = Y ++ [a] ∧ f = Y.length + 1)
    (hrole : m.role = .follower) (hepoch : m.currentEpoch = a.epoch)
    (hlog : Contiguous m.log.entries ∧ Grounded LogEntry.epoch lead m.log.entries) :
    ∃ t', Run.Attains step Undisturbed t t' ∧ t'.voters = t.voters ∧
      Replicating t' lead Y a c proposeId vs ∧ t'.nodes v = m ∧
      t'.nodes c = { t.nodes c with voterFetchOffsets := offsets } := by
  obtain ⟨t', ht', hvoters, hself, hm, hother⟩ :=
    exists_round h.book h.mem hv hvc hserve hadopt
  refine ⟨t', ht', hvoters, ?_, hm, hself⟩
  constructor
  · exact ht'.invariant (P := VoteBook) (fun _ inp hs _ => hs.step inp) h.book
  · rw [hvoters]
    exact h.nodup
  · rw [hvoters]
    exact h.mem
  · constructor
    · rw [Leads, hself]
      exact h.settled.leads
    · intro w hw hwc
      rcases eq_or_ne w v with rfl | hwv
      · rw [hm]
        exact ⟨hrole, hepoch⟩
      · rw [hother w hwc hwv]
        exact h.settled.follows w (hvoters ▸ hw) hwc
  · rw [hself]
    exact h.log_eq
  · intro w hw
    rcases eq_or_ne w v with rfl | hwv
    · rw [hm]
      exact hlog
    rcases eq_or_ne w c with rfl | hwc
    · rw [hself]
      exact h.logs w h.mem
    · rw [hother w hwc hwv]
      exact h.logs w (hvoters ▸ hw)
  · rw [hself]
    exact h.uncommitted
  · rw [hself]
    exact h.pending
  · intro w k hk
    rw [hself] at hk
    rw [hvoters]
    rcases eq_or_ne w v with rfl | hwv
    · rw [hnoted] at hk
      exact ⟨hv, hvc, Option.some.inj hk ▸ hf⟩
    · rw [hsame w hwv] at hk
      exact h.credit w k hk
  · intro w hw hwc
    rw [hself]
    rcases eq_or_ne w v with rfl | hwv
    · exact ⟨f, hnoted⟩
    · rw [hsame w hwv]
      exact h.credited w (hvoters ▸ hw) hwc
  · intro w hw hwc hwvs
    rw [hself]
    rcases eq_or_ne w v with rfl | hwv
    · obtain ⟨hmlog, rfl⟩ := hfull hwvs
      rw [hm]
      exact ⟨hmlog, hnoted⟩
    · rw [hother w hwc hwv, hsame w hwv]
      exact h.acknowledged w (hvoters ▸ hw) hwc hwvs

/-- The log of a follower whose fetch request fits is a part of the leader's. -/
lemma isPrefix_of_check (h : Replicating t lead Y a c proposeId vs) (hv : v ∈ t.voters)
    (hdiv : (t.nodes c).checkDivergence (t.fetchOf v).fetchOffset (t.fetchOf v).lastFetchedEpoch
      = none) : (t.nodes v).log.entries <+: Y ++ [a] := by
  obtain ⟨hcont, hground⟩ := h.logs v hv
  obtain ⟨hcont', hground'⟩ := h.logs c h.mem
  rcases eq_or_ne (t.nodes v).log.entries [] with hnil | hne
  · rw [hnil]
    exact List.nil_prefix
  rw [fetchOf, VecLog.logEndOffset_eq hcont, VecLog.lastEpoch_eq, Node.checkDivergence,
    VecLog.epochAt_eq hcont', h.log_eq] at hdiv
  rw [h.log_eq] at hground'
  obtain ⟨W, b, hW⟩ := exists_concat_of_ne_nil hne
  rw [hW] at hground
  rw [hW, List.length_append, List.length_singleton, if_neg (Nat.succ_ne_zero _),
    Nat.add_sub_cancel, lastEp_concat] at hdiv
  split_ifs at hdiv with hcheck
  obtain ⟨x, hx, hep⟩ := Option.map_eq_some_iff.mp hcheck
  obtain ⟨hlt, rfl⟩ := List.getElem?_eq_some_iff.mp hx
  have htake : (Y ++ [a]).take W.length ++ [(Y ++ [a])[W.length]] <+: Y ++ [a] := by
    rw [List.take_concat_get']
    exact List.take_prefix _ _
  rw [hW, hground.matching (hground'.of_isPrefix htake) (List.length_take_of_le hlt.le).symm hep.symm]
  exact htake

/-- A follower that holds the leader's log passes the check. -/
lemma check_of_log_eq (h : Replicating t lead Y a c proposeId vs) (hv : v ∈ t.voters)
    (hlog : (t.nodes v).log.entries = Y ++ [a]) :
    (t.nodes c).checkDivergence (t.fetchOf v).fetchOffset (t.fetchOf v).lastFetchedEpoch = none := by
  obtain ⟨hcont, -⟩ := h.logs v hv
  obtain ⟨hcont', -⟩ := h.logs c h.mem
  rw [fetchOf, VecLog.logEndOffset_eq hcont, VecLog.lastEpoch_eq, Node.checkDivergence,
    VecLog.epochAt_eq hcont', h.log_eq, hlog, List.length_append, List.length_singleton,
    if_neg (Nat.succ_ne_zero _), Nat.add_sub_cancel, lastEp_concat, List.getElem?_concat_length,
    Option.map_some, if_pos rfl]

/-- A follower whose fetch request does not fit loses an entry at least. -/
lemma diverges (h : Replicating t lead Y a c proposeId vs) (hv : v ∈ t.voters) (hvc : v ≠ c)
    (hvs : v ∈ vs) {d : Diverging} (hdiv : (t.nodes c).checkDivergence (t.fetchOf v).fetchOffset
      (t.fetchOf v).lastFetchedEpoch = some d) :
    ∃ t', Run.Attains step Undisturbed t t' ∧ t'.voters = t.voters ∧
      Replicating t' lead Y a c proposeId vs ∧
      (t'.nodes v).log.entries.length < (t.nodes v).log.entries.length := by
  obtain ⟨hcont, hground⟩ := h.logs v hv
  obtain ⟨hcont', hground'⟩ := h.logs c h.mem
  obtain ⟨hrole, hepoch⟩ := h.settled.follows v hv hvc
  obtain ⟨hleads, hcur⟩ := h.settled.leads
  have hlt : d.endOffset < (t.nodes v).log.entries.length := by
    have hdiv' := hdiv
    rw [fetchOf, VecLog.logEndOffset_eq hcont, VecLog.lastEpoch_eq, Node.checkDivergence] at hdiv'
    split_ifs at hdiv' with hzero
    rw [← Option.some.inj hdiv']
    exact VecLog.findEpochStart_lt hcont' hground' hground fun hnil =>
      hzero (List.length_eq_zero_iff.mpr hnil)
  obtain ⟨f, hf⟩ := h.credited v hv hvc
  have hcut := VecLog.truncate_entries hcont d.endOffset
  obtain ⟨t', ht', hvoters, hrep, hm, -⟩ := h.round hv hvc
    (acts_fetchRequest_diverges (hepoch.trans hcur.symm) hleads hdiv)
    (acts_fetchResponse_truncates (hcur.trans hepoch.symm).le hrole rfl) (fun _ _ => rfl) hf
    (h.credit v f hf).2.2 (absurd hvs) hrole hepoch
    (hcut ▸ ⟨hcont.take _, hground.of_isPrefix (List.take_prefix _ _)⟩)
  refine ⟨t', ht', hvoters, hrep, ?_⟩
  rw [hm, hcut, List.length_take_of_le hlt.le]
  exact hlt

/-- Where noting the follower's offset commits the entry, its fetch request is the next step. -/
lemma answerable_of_commits (h : Replicating t lead Y a c proposeId vs)
    (hepoch : (t.fetchOf v).epoch = (t.nodes c).currentEpoch) (hleads : (t.nodes c).role = .leader)
    (hdiv : (t.nodes c).checkDivergence (t.fetchOf v).fetchOffset (t.fetchOf v).lastFetchedEpoch
      = none) {m : Node VecLog}
    (hm : m = ((t.nodes c).credited v (t.fetchOf v).fetchOffset).tryAdvanceHighWatermark.1)
    (hanswer : .commitPropose proposeId ∈
      ((t.nodes c).credited v (t.fetchOf v).fetchOffset).tryAdvanceHighWatermark.2)
    (hlog : m.log = (t.nodes c).log) (hhwm : m.highWatermark = Y.length + 1) :
    t.Answerable c proposeId (Y ++ [a]) := by
  have hfetch : t.Undisturbed (.fetch v c (t.fetchOf v)) := rfl
  refine ⟨t.post [⟨v, c, .fetchRequest (t.fetchOf v)⟩], .deliver t.network.length,
    .single hfetch, trivial, ?_, ?_⟩
  · rw [emits, trigger_deliver_post]
    dsimp only
    rw [if_pos ⟨rfl, h.mem⟩, post_nodes]
    change _ ∈ ((t.nodes c).handleFetchRequest v (t.fetchOf v)).2
    rw [Node.handleFetchRequest_serves hepoch hleads hdiv]
    exact List.mem_cons_of_mem _ hanswer
  · have hacts := acts_fetchRequest_serves (i := c) (c := v) (n := t.nodes c) (t.fetchOf v)
      hepoch hleads hdiv
    have hreact := react_of_acts
      (s := { t with sent := t.sent ++ [⟨v, c, .fetchRequest (t.fetchOf v)⟩] })
      h.mem (h.book.file_eq c) hacts
    have hnode : ((t.post [⟨v, c, .fetchRequest (t.fetchOf v)⟩]).step
        (.deliver t.network.length)).nodes c = m := by
      rw [step_deliver_post, hm]
      exact (congrArg (fun u : Cluster VecLog => u.nodes c) hreact).trans (move_nodes_self _)
    rw [hnode, hhwm, hlog, List.length_append, List.length_singleton]
    exact ⟨h.log_eq, rfl⟩

/-- A follower whose fetch request fits gets the rest of the leader's log, and is noted, unless
noting it commits the entry. -/
lemma serves (h : Replicating t lead Y a c proposeId vs) (ha : Heads lead Y a) (hv : v ∈ t.voters)
    (hvc : v ≠ c) (hdiv : (t.nodes c).checkDivergence (t.fetchOf v).fetchOffset
      (t.fetchOf v).lastFetchedEpoch = none) :
    t.Answerable c proposeId (Y ++ [a]) ∨ ∃ t', Run.Attains step Undisturbed t t' ∧
      t'.voters = t.voters ∧ Replicating t' lead Y a c proposeId vs ∧
      (t'.nodes v).log.entries = Y ++ [a] ∧
      (t'.nodes c).voterFetchOffsets.lookup v = some (t.nodes v).log.entries.length ∧
      (t'.nodes c).tryAdvanceHighWatermark.2 = [] := by
  obtain ⟨hcont, hground⟩ := h.logs v hv
  obtain ⟨hcont', hground'⟩ := h.logs c h.mem
  obtain ⟨hrole, hepoch⟩ := h.settled.follows v hv hvc
  obtain ⟨hleads, hcur⟩ := h.settled.leads
  have hpre := h.isPrefix_of_check hv hdiv
  have hoffset : (t.fetchOf v).fetchOffset = (t.nodes v).log.entries.length :=
    VecLog.logEndOffset_eq hcont
  have hlen : (t.nodes v).log.entries.length ≤ Y.length + 1 := by
    simpa using hpre.length_le
  have hvoter : v ∈ (t.nodes c).voters := by
    rw [h.book.voters_eq]
    exact hv
  have hacts := acts_fetchRequest_serves (i := c) (c := v) (n := t.nodes c) (t.fetchOf v)
    (hepoch.trans hcur.symm) hleads hdiv
  rw [hoffset] at hacts
  have hcredited : (t.nodes c).credited v (t.nodes v).log.entries.length
      = { t.nodes c with voterFetchOffsets :=
          (t.nodes c).voterFetchOffsets.insert v (t.nodes v).log.entries.length } := by
    rw [Node.credited, if_pos hvoter]
  rcases tryAdvance_of_heads (m := (t.nodes c).credited v (t.nodes v).log.entries.length) ha
    (by rw [hcredited]; exact h.log_eq) (by rw [hcredited]; exact hcur)
    (by rw [hcredited]; exact h.pending)
    (fun w f hf => by
      rcases Node.of_lookup_credited hf with hf | ⟨-, -, rfl⟩
      · exact (h.credit w f hf).2.2
      · exact hlen) with hstay | ⟨hanswer, hlog, hhwm⟩
  · right
    rw [hcredited] at hstay
    rw [hcredited, hstay] at hacts
    obtain ⟨m, hadopt, hmrole, hmepoch, hmlog⟩ := acts_fetchResponse_appends (i := v) (c := c)
      (n := t.nodes v) ⟨(t.nodes c).currentEpoch, (t.nodes c).highWatermark,
        (t.nodes c).entriesFrom (t.nodes v).log.entries.length, none⟩
      (hcur.trans hepoch.symm).le hrole rfl
    -- the entries are the rest of the log
    have hwhole : m.log.entries = Y ++ [a] := by
      rw [hmlog, VecLog.foldl_append_entries, Node.entriesFrom, VecLog.entries_eq hcont',
        VecLog.logEndOffset_eq hcont', List.take_length, h.log_eq]
      obtain ⟨Z, hZ⟩ := hpre
      rw [← hZ, List.drop_left]
    have hfull : v ∉ vs → m.log.entries = Y ++ [a] ∧
        (t.nodes v).log.entries.length = Y.length + 1 := by
      intro hvs
      rw [(h.acknowledged v hv hvc hvs).1, List.length_append, List.length_singleton]
      exact ⟨hwhole, rfl⟩
    have hmlogs : Contiguous m.log.entries ∧ Grounded LogEntry.epoch lead m.log.entries := by
      rw [hwhole, ← h.log_eq]
      exact ⟨hcont', hground'⟩
    obtain ⟨t', ht', hvoters, hrep, hm, hself⟩ := h.round hv hvc hacts hadopt
      (fun w hw => AList.lookup_insert_ne hw) (AList.lookup_insert _) hlen hfull hmrole
      (hmepoch.trans hepoch) hmlogs
    refine ⟨t', ht', hvoters, hrep, hm ▸ hwhole, ?_, ?_⟩
    · rw [hself, AList.lookup_insert]
    · rw [hself, hstay]
  · rw [← hoffset] at hanswer hlog hhwm
    refine .inl (h.answerable_of_commits (hepoch.trans hcur.symm) hleads hdiv rfl hanswer ?_ hhwm)
    rw [hlog, hoffset, hcredited]

/-- A follower is brought to the leader's log. -/
lemma catchUp (h : Replicating t lead Y a c proposeId vs) (ha : Heads lead Y a) (hv : v ∈ t.voters)
    (hvc : v ≠ c) (hvs : v ∈ vs) :
    t.Answerable c proposeId (Y ++ [a]) ∨ ∃ t', Run.Attains step Undisturbed t t' ∧
      t'.voters = t.voters ∧ Replicating t' lead Y a c proposeId vs ∧
      (t'.nodes v).log.entries = Y ++ [a] := by
  induction hk : (t.nodes v).log.entries.length using Nat.strong_induction_on generalizing t with
  | _ k ih =>
  cases hdiv : (t.nodes c).checkDivergence (t.fetchOf v).fetchOffset
      (t.fetchOf v).lastFetchedEpoch with
  | none =>
    rcases h.serves ha hv hvc hdiv with hdone | ⟨t', ht', hvoters, hrep, hlog, -⟩
    · exact .inl hdone
    · exact .inr ⟨t', ht', hvoters, hrep, hlog⟩
  | some d =>
    obtain ⟨u, hu, hvoters, hrep, hlt⟩ := h.diverges hv hvc hvs hdiv
    rcases ih _ (hk ▸ hlt) hrep (hvoters.symm ▸ hv) rfl with
      hdone | ⟨t', ht', hvoters', hrep', hlog⟩
    · exact .inl (hdone.of_attains hu)
    · exact .inr ⟨t', hu.trans ht', hvoters'.trans hvoters, hrep', hlog⟩

/-- All followers are brought to the leader's log and acknowledge it. -/
lemma acknowledgeAll (h : Replicating t lead Y a c proposeId vs) (ha : Heads lead Y a)
    (hvs : ∀ v ∈ vs, v ∈ t.voters ∧ v ≠ c) :
    t.Answerable c proposeId (Y ++ [a]) ∨ ∃ t', Run.Attains step Undisturbed t t' ∧
      t'.voters = t.voters ∧ Replicating t' lead Y a c proposeId [] := by
  induction vs generalizing t with
  | nil => exact .inr ⟨t, .refl t, rfl, h⟩
  | cons v vs ih =>
    obtain ⟨hv, hvc⟩ := hvs v List.mem_cons_self
    rcases h.catchUp ha hv hvc List.mem_cons_self with hdone | ⟨u, hu, hvoters, hrep, hlog⟩
    · exact .inl hdone
    have hv' : v ∈ u.voters := hvoters.symm ▸ hv
    rcases hrep.serves ha hv' hvc (hrep.check_of_log_eq hv' hlog) with
      hdone | ⟨w, hw, hvoters', hrep', hlog', hnoted, -⟩
    · exact .inl (hdone.of_attains hu)
    rw [hlog, List.length_append, List.length_singleton] at hnoted
    have hfewer : Replicating w lead Y a c proposeId vs :=
      { hrep' with
        acknowledged := fun x hx hxc hxvs => by
          rcases eq_or_ne x v with rfl | hxv
          · exact ⟨hlog', hnoted⟩
          · exact hrep'.acknowledged x hx hxc (List.not_mem_cons_of_ne_of_not_mem hxv hxvs) }
    have heq := hvoters'.trans hvoters
    rcases ih hfewer (fun x hx => heq ▸ hvs x (List.mem_cons_of_mem v hx)) with
      hdone | ⟨t', ht', hvoters'', hrep''⟩
    · exact .inl ((hdone.of_attains hw).of_attains hu)
    · exact .inr ⟨t', (hu.trans hw).trans ht', hvoters''.trans heq, hrep''⟩

/-- The leader has noted an offset for as many voters as there are beside it. -/
lemma length_le_replicaOffsets (h : Replicating t lead Y a c proposeId vs) :
    t.voters.length ≤ (t.nodes c).replicaOffsets.length := by
  have hkeys : t.voters.erase c ⊆ (t.nodes c).voterFetchOffsets.keys := by
    intro v hv
    obtain ⟨hvc, hv⟩ := (h.nodup.mem_erase_iff).mp hv
    obtain ⟨f, hf⟩ := h.credited v hv hvc
    exact AList.mem_keys.mpr (AList.lookup_isSome.mp (by rw [hf]; rfl))
  have hle := ((h.nodup.erase c).subperm hkeys).length_le
  rw [List.length_erase_of_mem h.mem] at hle
  unfold Node.replicaOffsets
  rw [List.length_insertionSort, List.length_append, List.length_map, List.length_singleton]
  have hlen : (t.nodes c).voterFetchOffsets.keys.length
      = (t.nodes c).voterFetchOffsets.entries.length := List.length_map ..
  omega

/-- When all have acknowledged, the watermark moves. -/
lemma tryAdvance_ne_nil (h : Replicating t lead Y a c proposeId []) :
    (t.nodes c).tryAdvanceHighWatermark.2 ≠ [] := by
  have hpos := List.length_pos_of_mem h.mem
  have hmaj : (t.nodes c).majority ≤ (t.nodes c).replicaOffsets.length := by
    apply le_trans _ h.length_le_replicaOffsets
    rw [Node.majority, h.book.voters_eq]
    omega
  have hend : RaftLog.logEndOffset (t.nodes c).log = Y.length + 1 := by
    rw [VecLog.logEndOffset_eq (h.logs c h.mem).1, h.log_eq, List.length_append,
      List.length_singleton]
  have hrank : (t.nodes c).replicaOffsets.getD ((t.nodes c).majority - 1) 0 = Y.length + 1 := by
    rcases Node.mem_replicaOffsets.mp (Node.getD_mem_replicaOffsets hmaj) with ⟨v, hv⟩ | hself
    · obtain ⟨hvoter, hvc, -⟩ := h.credit v _ hv
      rw [(h.acknowledged v hvoter hvc List.not_mem_nil).2] at hv
      exact (Option.some.inj hv).symm
    · exact hself.trans hend
  have hepoch : RaftLog.epochAt (t.nodes c).log Y.length = some a.epoch := by
    rw [VecLog.epochAt_eq (h.logs c h.mem).1, h.log_eq, List.getElem?_concat_length, Option.map_some]
  rw [Node.tryAdvanceHighWatermark, if_neg (Nat.not_lt.mpr hmaj), hrank]
  have hlt := h.uncommitted
  rw [if_neg (by omega), Nat.add_sub_cancel, hepoch, if_neg (by simp [h.settled.leads.2])]
  exact List.cons_ne_nil _ _

/-- The entry can be committed. -/
theorem answerable (h : Replicating t lead Y a c proposeId vs) (ha : Heads lead Y a)
    (hvs : ∀ v ∈ vs, v ∈ t.voters ∧ v ≠ c) (hseveral : 1 < t.voters.length) :
    t.Answerable c proposeId (Y ++ [a]) := by
  rcases h.acknowledgeAll ha hvs with hdone | ⟨u, hu, hvoters, hrep⟩
  · exact hdone
  -- one more request makes the leader look at the offsets again
  obtain ⟨v, hv⟩ := List.exists_mem_of_length_pos (l := u.voters.erase c) (by
    rw [List.length_erase_of_mem hrep.mem, hvoters]
    omega)
  obtain ⟨hvc, hv⟩ := (hrep.nodup.mem_erase_iff).mp hv
  obtain ⟨hlog, -⟩ := hrep.acknowledged v hv hvc List.not_mem_nil
  rcases hrep.serves ha hv hvc (hrep.check_of_log_eq hv hlog) with
    hdone | ⟨w, -, -, hrep', -, -, hstays⟩
  · exact hdone.of_attains hu
  · exact absurd hstays hrep'.tryAdvance_ne_nil

end Replicating

end Replicating

/-- A new leader that all follow replicates what is proposed to it. -/
lemma Settled.replicating {e : ℕ} (hbook : VoteBook t) (hnodup : t.voters.Nodup) (hc : c ∈ t.voters)
    (hsettled : t.Settled c e) {lead : ℕ → List LogEntry}
    (hlogs : ∀ v ∈ t.voters, Contiguous (t.nodes v).log.entries ∧
      Grounded LogEntry.epoch lead (t.nodes v).log.entries)
    (hnew : ∀ v ∈ t.voters, ∀ b ∈ (t.nodes v).log.entries, b.epoch ≠ e)
    (hhwm : (t.nodes c).highWatermark ≤ (t.nodes c).log.entries.length)
    (hfresh : ∀ v, (t.nodes c).voterFetchOffsets.lookup v
      = if v ∈ t.voters ∧ v ≠ c then some 0 else none) (data : List UInt8) (proposeId : ℕ) :
    ∃ lead', Heads lead' (t.nodes c).log.entries ⟨e, (t.nodes c).log.entries.length, data⟩ ∧
      Replicating (t.step (.propose c data proposeId)) lead' (t.nodes c).log.entries
        ⟨e, (t.nodes c).log.entries.length, data⟩ c proposeId (t.voters.erase c) := by
  obtain ⟨hleads, hcur⟩ := hsettled.leads
  obtain ⟨hcont, hground⟩ := hlogs c hc
  set Y := (t.nodes c).log.entries with hY
  set a : LogEntry := ⟨e, Y.length, data⟩ with ha
  have hbook' : VoteBook (t.step (.propose c data proposeId)) := hbook.step _
  have hreact : t.step (.propose c data proposeId)
      = t.move c ((t.nodes c).proposed data proposeId) := by
    have hacts : Acts c (t.nodes c) (.propose data proposeId)
        ((t.nodes c).proposed data proposeId) [] := acts_propose hleads
    have := react_of_acts hc (hbook.file_eq c) hacts
    rw [post_nil] at this
    exact this
  have hlog : ((t.nodes c).proposed data proposeId).log.entries = Y ++ [a] := by
    rw [Node.proposed, VecLog.append_entries, VecLog.logEndOffset_eq hcont, hcur]
  have hheads : Heads (Function.update lead e (Y ++ [a])) Y a := by
    refine ⟨hcont.concat rfl, ?_, hnew c hc⟩
    apply (hground.update (hnew c hc) (Y ++ [a])).concat
    rw [Function.update_self]
  refine ⟨_, hheads, ?_⟩
  rw [hreact] at hbook' ⊢
  constructor
  · exact hbook'
  · rw [move_voters]
    exact hnodup
  · rw [move_voters]
    exact hc
  · constructor
    · rw [Leads, move_nodes_self]
      exact ⟨hleads, hcur⟩
    · intro v hv hvc
      rw [move_voters] at hv
      rw [move_nodes_of_ne t hvc]
      exact hsettled.follows v hv hvc
  · rw [move_nodes_self]
    exact hlog
  · intro v hv
    rw [move_voters] at hv
    rcases eq_or_ne v c with rfl | hvc
    · rw [move_nodes_self, hlog]
      exact ⟨hheads.contiguous, hheads.grounded⟩
    · rw [move_nodes_of_ne t hvc]
      exact ⟨(hlogs v hv).1, (hlogs v hv).2.update (hnew v hv) _⟩
  · rw [move_nodes_self]
    exact hhwm
  · rw [move_nodes_self, Node.proposed, VecLog.logEndOffset_eq hcont]
    exact List.mem_append_right _ List.mem_cons_self
  · intro v f hf
    rw [move_nodes_self] at hf
    rw [move_voters]
    have hf : (t.nodes c).voterFetchOffsets.lookup v = some f := hf
    rw [hfresh] at hf
    split_ifs at hf with hv
    exact ⟨hv.1, hv.2, Option.some.inj hf ▸ Nat.zero_le _⟩
  · intro v hv hvc
    rw [move_voters] at hv
    rw [move_nodes_self]
    exact ⟨0, (hfresh v).trans (if_pos ⟨hv, hvc⟩)⟩
  · intro v hv hvc hnot
    rw [move_voters] at hv
    exact absurd ((hnodup.mem_erase_iff).mpr ⟨hvc, hv⟩) hnot

/-- Whatever has happened, as long as nodes keep what is committed, several voters can still commit:
without another failure one of them comes to lead, answers what is then proposed to it, and has it
below its watermark. -/
theorem committable {voters : List ℕ} (hnodup : voters.Nodup) (hseveral : 1 < voters.length)
    {is : List Input} (hf : Run.Meets step HonestFetch (init voters fun _ => VecLog.new) is)
    (hok : Run.Meets step (OnTrigger KeepsCommitted) (init voters fun _ => VecLog.new) is)
    (data : List UInt8) (proposeId : ℕ) :
    ∃ t c, Run.Attains step Undisturbed ((init voters fun _ => VecLog.new).run is) t ∧
      c ∈ voters ∧ (t.nodes c).role = .leader ∧
      (t.step (.propose c data proposeId)).Answerable c proposeId ((t.nodes c).log.entries ++
        [⟨(t.nodes c).currentEpoch, (t.nodes c).log.entries.length, data⟩]) := by
  obtain ⟨hmatched, g, hcommit⟩ := commitInv_run (init_commitInv voters) hf hok
  obtain ⟨hbook, hspent⟩ : VoteBook ((init voters fun _ => VecLog.new).run is) ∧
      Spent ((init voters fun _ => VecLog.new).run is) :=
    Run.run_invariant' (P := fun s => VoteBook s ∧ Spent s) (fun _ inp hs => Spent.step hs inp)
      (init_spent voters fun _ => VecLog.new) is
  have hvoters : ((init voters fun _ => VecLog.new).run is).voters = voters := run_voters _ is
  set s := (init voters fun _ => VecLog.new).run is
  obtain ⟨t, c, e, ht, hbook', hvoters', hkept, hc, hsettled, hlt, hfresh⟩ := exists_settled hbook
    hspent (hvoters.symm ▸ hnodup) (hvoters.symm ▸ hseveral) permits_undisturbed
  have hM := hmatched.logs
  have heq : t.voters = voters := hvoters'.trans hvoters
  have hcur : (t.nodes c).currentEpoch = e := hsettled.leads.2
  have hlogs : ∀ v ∈ t.voters, Contiguous (t.nodes v).log.entries ∧
      Grounded LogEntry.epoch s.leadOf (t.nodes v).log.entries := by
    intro v hv
    rw [(hkept v (hvoters' ▸ hv)).1]
    exact ⟨hM.node_contiguous v, hM.logs.node v⟩
  have hnew : ∀ v ∈ t.voters, ∀ b ∈ (t.nodes v).log.entries, b.epoch ≠ e := by
    intro v hv b hb
    rw [(hkept v (hvoters' ▸ hv)).1] at hb
    exact ((hM.logs.node_le v b hb).trans_lt (hlt v (hvoters' ▸ hv))).ne
  have hhwm : (t.nodes c).highWatermark ≤ (t.nodes c).log.entries.length := by
    rw [(hkept c hc).1, (hkept c hc).2]
    exact (hcommit.watermark c).1
  obtain ⟨lead, hheads, hrep⟩ := hsettled.replicating hbook' (heq.symm ▸ hnodup) (hvoters'.symm ▸ hc)
    hlogs hnew hhwm (hvoters'.symm ▸ hfresh) data proposeId
  have hstep : (t.step (.propose c data proposeId)).voters = voters := (step_voters t _).trans heq
  refine ⟨t, c, ht, hvoters ▸ hc, hsettled.leads.1, ?_⟩
  rw [hcur]
  apply hrep.answerable hheads
  · intro v hv
    rw [hstep, ← heq]
    exact ((heq.symm ▸ hnodup : t.voters.Nodup).mem_erase_iff.mp hv).symm
  · rw [hstep]
    exact hseveral

/-- The theorem at a cluster whose leader has crashed before its entry was replicated. -/
theorem committable_after_crash :
    ∃ t c, Run.Attains step Undisturbed ((init [1, 2, 3] fun _ => VecLog.new).run
        [.electionTimeout 1, .deliver 0, .deliver 1, .propose 1 [7] 0, .restart 1]) t ∧
      c ∈ [1, 2, 3] ∧ (t.nodes c).role = .leader ∧
      (t.step (.propose c [8] 1)).Answerable c 1 ((t.nodes c).log.entries ++
        [⟨(t.nodes c).currentEpoch, (t.nodes c).log.entries.length, [8]⟩]) :=
  committable (by decide) (by decide) (by decide) (by decide) [8] 1

end Cluster

end Musil.Raft
