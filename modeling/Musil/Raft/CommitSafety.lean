import Musil.Lib.Committed
import Musil.Raft.LogMatching

/-!
# Committed prefixes agree

The cluster refines the epoch-log machine: a granted vote is a ballot for the candidate's log, a
fetch request that ends in its own epoch acknowledges its sender's log, and a watermark covers a
committed prefix. Leader completeness then makes any two watermarks cover the same entries.
-/

namespace Musil.Raft

open EpochLog

namespace Cluster

variable {s : Cluster VecLog}

/-! ### Ghosts -/

def Ghost.vote (g : Ghost) (v e : ℕ) (X : List LogEntry) : Ghost :=
  { g with ballots := insert (v, e, X) g.ballots }

def Ghost.elect (g : Ghost) (e : ℕ) (X : List LogEntry) : Ghost :=
  { g with base := Function.update g.base e X }

/-- Node `v` acknowledges the first `k` entries of leader `e`, and fewer. -/
def Ghost.ack (g : Ghost) (v e k : ℕ) : Ghost :=
  { g with acked := g.acked ∪ {p | p.1 = v ∧ p.2.1 = e ∧ p.2.2 ≤ k} }

/-! ### Conditions -/

/-- Below the watermark it adopts, a follower holds what the sender of the response holds. -/
def AdoptsAgreed (s : Cluster VecLog) (i : ℕ) : Event → Prop
  | .fetchResponse src resp =>
    (s.nodes i).role = .follower → resp.epoch ≤ (s.nodes i).currentEpoch →
      resp.diverging = none → (s.nodes i).highWatermark < resp.highWatermark →
        RaftLog.entries (s.nodes i).log 0 ((s.nodes i).adoptedHighWatermark resp)
          = RaftLog.entries (s.nodes src).log 0 ((s.nodes i).adoptedHighWatermark resp)
  | _ => True

instance (s : Cluster VecLog) (i : ℕ) : (ev : Event) → Decidable (s.AdoptsAgreed i ev)
  | .fetchResponse _ _ => inferInstanceAs (Decidable (_ → _ → _ → _ → _ = _))
  | .electionTimeout | .heartbeatTimeout | .voteRequest _ _ | .voteResponse _ _
  | .beginQuorumEpoch _ _ | .endQuorumEpoch _ _ | .fetchRequest _ _ | .propose _ _ =>
    .isTrue trivial

/-- A truncation cuts off no entry that the leader of the node's epoch holds. -/
def KeepsShared (s : Cluster VecLog) (i : ℕ) : Event → Prop
  | .fetchResponse _ resp =>
    (s.nodes i).role = .follower → resp.epoch ≤ (s.nodes i).currentEpoch →
      ∀ d ∈ resp.diverging, ∀ a ∈ (s.nodes i).log.entries, d.endOffset ≤ a.offset →
        (s.leaderLog (s.nodes i).currentEpoch).isSome ∧
          a ∉ s.leadOf (s.nodes i).currentEpoch
  | _ => True

instance (s : Cluster VecLog) (i : ℕ) : (ev : Event) → Decidable (s.KeepsShared i ev)
  | .fetchResponse _ _ => inferInstanceAs (Decidable (_ → _ → ∀ d ∈ _, ∀ a ∈ _, _ → _ ∧ _))
  | .electionTimeout | .heartbeatTimeout | .voteRequest _ _ | .voteResponse _ _
  | .beginQuorumEpoch _ _ | .endQuorumEpoch _ _ | .fetchRequest _ _ | .propose _ _ =>
    .isTrue trivial

/-- No leader counts a fetch request of its own. -/
def FetchesFromOther (s : Cluster VecLog) (i : ℕ) : Event → Prop
  | .fetchRequest c _ => (s.nodes i).role = .leader → c ≠ i
  | _ => True

instance (s : Cluster VecLog) (i : ℕ) : (ev : Event) → Decidable (s.FetchesFromOther i ev)
  | .fetchRequest _ _ => inferInstanceAs (Decidable (_ → _ ≠ _))
  | .electionTimeout | .heartbeatTimeout | .voteRequest _ _ | .voteResponse _ _
  | .beginQuorumEpoch _ _ | .endQuorumEpoch _ _ | .fetchResponse _ _ | .propose _ _ =>
    .isTrue trivial

def KeepsCommitted (s : Cluster VecLog) (i : ℕ) (ev : Event) : Prop :=
  s.KeepsLogs i ev ∧ s.AdoptsAgreed i ev ∧ s.KeepsShared i ev ∧ s.FetchesFromOther i ev

instance (s : Cluster VecLog) (i : ℕ) (ev : Event) : Decidable (s.KeepsCommitted i ev) :=
  inferInstanceAs (Decidable (_ ∧ _))

/-! ### Views of a moved cluster -/

variable {i : ℕ} {n : Node VecLog}

lemma view_move_of_not_leader (g : Ghost) (hr : n.role ≠ .leader) :
    (s.move i n).view g = (s.view g).write i n.currentEpoch n.log.entries := by
  rw [move_of_not_leader s hr]
  simp only [view, State.write, State.mk.injEq, and_true]
  refine ⟨?_, ?_, rfl, rfl⟩ <;> funext j <;> rcases eq_or_ne j i with rfl | hji
  · simp
  · simp [put_nodes_of_ne s hji, hji]
  · simp
  · simp [put_nodes_of_ne s hji, hji]

/-- A new leader, seen from its election. -/
lemma view_move_of_leader (g : Ghost) (hr : n.role = .leader) :
    (s.move i n).view g = { (s.view g).write i n.currentEpoch n.log.entries with
      lead := Function.update s.leadOf n.currentEpoch n.log.entries
      elected := insert n.currentEpoch {e | (s.leaderLog e).isSome} } := by
  simp only [view, State.write, MatchInv.leadOf_move_of_leader hr, move_leaderLog s hr,
    State.mk.injEq, and_true, true_and]
  refine ⟨?_, ?_, ?_⟩
  · funext j
    rcases eq_or_ne j i with rfl | hji
    · simp
    · simp [move_nodes_of_ne s hji, hji]
  · funext j
    rcases eq_or_ne j i with rfl | hji
    · simp
    · simp [move_nodes_of_ne s hji, hji]
  · ext e
    rcases eq_or_ne e n.currentEpoch with rfl | he
    · simp
    · simp [he]

end Cluster

/-- What commitment keeps true of a cluster. -/
structure CommitInv (g : Cluster.Ghost) (s : Cluster VecLog) : Prop where
  safe : SafeInv LogEntry.epoch s.voters (s.view g)
  watermark : ∀ i, (s.nodes i).highWatermark ≤ (s.nodes i).log.entries.length ∧
    Committed s.voters (s.view g) (s.nodes i).currentEpoch
      ((s.nodes i).log.entries.take (s.nodes i).highWatermark)
  candidate : ∀ i, (s.nodes i).role = .candidate → ∀ w ∈ (s.nodes i).votesReceived,
    (w, (s.nodes i).currentEpoch, (s.nodes i).log.entries) ∈ g.ballots
  credit : ∀ i v f, (s.nodes i).role = .leader → (s.nodes i).voterFetchOffsets.lookup v = some f →
    v ≠ i ∧ v ∈ s.voters ∧ f ≤ (s.leadOf (s.nodes i).currentEpoch).length ∧
      ((g.base (s.nodes i).currentEpoch).length < f → (v, (s.nodes i).currentEpoch, f) ∈ g.acked)
  asked : ∀ c w req, ⟨c, w, .vote req⟩ ∈ s.sent → req.epoch ≤ (s.nodes c).currentEpoch ∧
    ∃ X, Grounded LogEntry.epoch s.leadOf X ∧ (∀ a ∈ X, a.epoch ≤ req.epoch) ∧
      lastEp LogEntry.epoch X = req.lastLogEpoch ∧ X.length = req.lastLogOffset ∧
      ((s.nodes c).currentEpoch = req.epoch → (s.nodes c).role = .candidate →
        (s.nodes c).log.entries = X)
  granted : ∀ v c e, ⟨v, c, .voteResponse ⟨e, true⟩⟩ ∈ s.sent → e ≤ (s.nodes c).currentEpoch ∧
    ((s.nodes c).currentEpoch = e → (s.nodes c).role = .candidate →
      (v, e, (s.nodes c).log.entries) ∈ g.ballots)
  fetched : ∀ v w req, ⟨v, w, .fetchRequest req⟩ ∈ s.sent → req.fetchOffset ≠ 0 →
    req.lastFetchedEpoch = req.epoch → (v, req.epoch, req.fetchOffset) ∈ g.acked
  answered : ∀ v w resp, ⟨v, w, .fetchResponse resp⟩ ∈ s.sent →
    resp.epoch ≤ (s.nodes v).currentEpoch ∧
      resp.highWatermark ≤ (s.nodes v).log.entries.length ∧
      Committed s.voters (s.view g) resp.epoch
        ((s.nodes v).log.entries.take resp.highWatermark)

namespace CommitInv

open Cluster MatchInv

variable {s : Cluster VecLog} {g g' : Ghost} {i : ℕ} {n : Node VecLog}

/-- The reaction of a node, as far as commitment is concerned. -/
structure CommitMove (s : Cluster VecLog) (g : Ghost) (i : ℕ) (n : Node VecLog) (g' : Ghost) :
    Prop where
  logs : LogMove s i n
  safe : SafeInv LogEntry.epoch s.voters ((s.move i n).view g')
  grows : Grows (s.view g) ((s.move i n).view g')
  ballots : g.ballots ⊆ g'.ballots
  candidate_log : n.role = .candidate → (s.nodes i).currentEpoch = n.currentEpoch →
    n.log = (s.nodes i).log
  keeps : ∀ X E, E ≤ (s.nodes i).currentEpoch → Committed s.voters (s.view g) E X →
    X <+: (s.nodes i).log.entries → X <+: n.log.entries
  watermark : n.highWatermark ≤ n.log.entries.length ∧
    Committed s.voters ((s.move i n).view g') n.currentEpoch
      (n.log.entries.take n.highWatermark)
  candidate : n.role = .candidate → ∀ w ∈ n.votesReceived,
    (w, n.currentEpoch, n.log.entries) ∈ g'.ballots
  credit : n.role = .leader → ∀ v f, n.voterFetchOffsets.lookup v = some f →
    v ≠ i ∧ v ∈ s.voters ∧ f ≤ ((s.move i n).leadOf n.currentEpoch).length ∧
      ((g'.base n.currentEpoch).length < f → (v, n.currentEpoch, f) ∈ g'.acked)

/-- A committed prefix of the node's log stays committed and stays there. -/
lemma CommitMove.take_committed (h : CommitInv g s) (hm : CommitMove s g i n g') {k E : ℕ}
    (hk : k ≤ (s.nodes i).log.entries.length) (hE : E ≤ (s.nodes i).currentEpoch)
    (hc : Committed s.voters (s.view g) E ((s.nodes i).log.entries.take k)) :
    k ≤ n.log.entries.length ∧
      Committed s.voters ((s.move i n).view g') E (n.log.entries.take k) := by
  have hpre := hm.keeps _ E hE hc (List.take_prefix _ _)
  have hlen : ((s.nodes i).log.entries.take k).length = k := List.length_take_of_le hk
  have heq : n.log.entries.take k = (s.nodes i).log.entries.take k := by
    rw [List.prefix_iff_eq_take.mp hpre, hlen]
  refine ⟨hlen ▸ hpre.length_le, ?_⟩
  rw [heq]
  exact h.safe.committed_grows hm.grows hc

/-- Every reaction of this kind preserves the invariant. -/
theorem move (h : CommitInv g s) (hM : MatchInv s) (hm : CommitMove s g i n g') :
    CommitInv g' (s.move i n) where
  safe := by
    rw [move_voters]
    exact hm.safe
  watermark j := by
    rw [move_voters]
    rcases eq_or_ne j i with rfl | hji
    · rw [move_nodes_self]
      exact hm.watermark
    · rw [move_nodes_of_ne s hji]
      exact ⟨(h.watermark j).1, h.safe.committed_grows hm.grows (h.watermark j).2⟩
  candidate j hj w hw := by
    rcases eq_or_ne j i with rfl | hji
    · rw [move_nodes_self] at hj hw ⊢
      exact hm.candidate hj w hw
    · rw [move_nodes_of_ne s hji] at hj hw ⊢
      exact hm.ballots (h.candidate j hj w hw)
  credit j v f hj hf := by
    rw [move_voters]
    rcases eq_or_ne j i with rfl | hji
    · rw [move_nodes_self] at hj hf ⊢
      exact hm.credit hj v f hf
    · rw [move_nodes_of_ne s hji] at hj hf ⊢
      obtain ⟨hvj, hv, hlen, hack⟩ := h.credit j v f hj hf
      have hel : (s.nodes j).currentEpoch ∈ (s.view g).elected := by
        simp [view, hM.leading j hj]
      have hbase : g'.base (s.nodes j).currentEpoch = g.base (s.nodes j).currentEpoch :=
        hm.grows.base _ hel
      refine ⟨hvj, hv, hlen.trans (hm.grows.lead _).length_le, ?_⟩
      rw [hbase]
      exact fun hlt => hm.grows.acked (hack hlt)
  asked c w req hsent := by
    rw [move_sent] at hsent
    obtain ⟨hle, X, hX, hbound, hep, hlen, hlog⟩ := h.asked c w req hsent
    rcases eq_or_ne c i with rfl | hci
    · rw [move_nodes_self]
      refine ⟨hle.trans hm.logs.epoch, X, hX.mono hm.grows.lead, hbound, hep, hlen, ?_⟩
      intro he hr
      have heq := hm.logs.epoch.antisymm (he.symm ▸ hle)
      rw [hm.candidate_log hr heq]
      exact hlog (heq.trans he) (hm.logs.candidate hr heq)
    · rw [move_nodes_of_ne s hci]
      exact ⟨hle, X, hX.mono hm.grows.lead, hbound, hep, hlen, hlog⟩
  granted v c e hsent := by
    rw [move_sent] at hsent
    obtain ⟨hle, hlog⟩ := h.granted v c e hsent
    rcases eq_or_ne c i with rfl | hci
    · rw [move_nodes_self]
      refine ⟨hle.trans hm.logs.epoch, fun he hr => ?_⟩
      have heq := hm.logs.epoch.antisymm (he.symm ▸ hle)
      rw [hm.candidate_log hr heq]
      exact hm.ballots (hlog (heq.trans he) (hm.logs.candidate hr heq))
    · rw [move_nodes_of_ne s hci]
      exact ⟨hle, fun he hr => hm.ballots (hlog he hr)⟩
  fetched v w req hsent hpos he := by
    rw [move_sent] at hsent
    exact hm.grows.acked (h.fetched v w req hsent hpos he)
  answered v w resp hsent := by
    rw [move_sent] at hsent
    rw [move_voters]
    obtain ⟨hle, hlen, hc⟩ := h.answered v w resp hsent
    rcases eq_or_ne v i with rfl | hvi
    · rw [move_nodes_self]
      exact ⟨hle.trans hm.logs.epoch, CommitMove.take_committed h hm hlen hle hc⟩
    · rw [move_nodes_of_ne s hvi]
      exact ⟨hle, hlen, h.safe.committed_grows hm.grows hc⟩

/-- What a message adds to the invariant when it is sent. -/
def Accounted (g : Ghost) (s : Cluster VecLog) (env : Envelope) : Prop :=
  match env.message with
  | .vote req => req.epoch ≤ (s.nodes env.src).currentEpoch ∧
    ∃ X, Grounded LogEntry.epoch s.leadOf X ∧ (∀ a ∈ X, a.epoch ≤ req.epoch) ∧
      lastEp LogEntry.epoch X = req.lastLogEpoch ∧ X.length = req.lastLogOffset ∧
      ((s.nodes env.src).currentEpoch = req.epoch → (s.nodes env.src).role = .candidate →
        (s.nodes env.src).log.entries = X)
  | .voteResponse ⟨e, true⟩ => e ≤ (s.nodes env.dst).currentEpoch ∧
    ((s.nodes env.dst).currentEpoch = e → (s.nodes env.dst).role = .candidate →
      (env.src, e, (s.nodes env.dst).log.entries) ∈ g.ballots)
  | .fetchRequest req => req.fetchOffset ≠ 0 → req.lastFetchedEpoch = req.epoch →
    (env.src, req.epoch, req.fetchOffset) ∈ g.acked
  | .fetchResponse resp => resp.epoch ≤ (s.nodes env.src).currentEpoch ∧
      resp.highWatermark ≤ (s.nodes env.src).log.entries.length ∧
      Committed s.voters (s.view g) resp.epoch
        ((s.nodes env.src).log.entries.take resp.highWatermark)
  | _ => True

lemma post (h : CommitInv g s) {out : List Envelope} (hout : ∀ env ∈ out, Accounted g s env) :
    CommitInv g (s.post out) where
  safe := h.safe
  watermark := h.watermark
  candidate := h.candidate
  credit := h.credit
  asked c w req hm := by
    rw [post_sent, List.mem_append] at hm
    exact hm.elim (h.asked c w req) (hout _)
  granted v c e hm := by
    rw [post_sent, List.mem_append] at hm
    exact hm.elim (h.granted v c e) (hout _)
  fetched v w req hm := by
    rw [post_sent, List.mem_append] at hm
    exact hm.elim (h.fetched v w req) (hout _)
  answered v w resp hm := by
    rw [post_sent, List.mem_append] at hm
    exact hm.elim (h.answered v w resp) (hout _)

/-- A fetch response that carries the watermark the node had. -/
lemma accounted_response (h : CommitInv g s) (hm : CommitMove s g i n g') (w : ℕ)
    {resp : FetchResponse} (hlow : (s.nodes i).currentEpoch ≤ resp.epoch)
    (hhigh : resp.epoch ≤ n.currentEpoch)
    (hwm : resp.highWatermark = (s.nodes i).highWatermark) :
    Accounted g' (s.move i n) ⟨i, w, .fetchResponse resp⟩ := by
  obtain ⟨hlen, hc⟩ := h.watermark i
  obtain ⟨hlen', hc'⟩ := CommitMove.take_committed h hm hlen le_rfl hc
  simp only [Accounted, move_nodes_self, move_voters, hwm]
  exact ⟨hhigh, hlen', hc'.mono hlow⟩

/-! ### The moves of single nodes -/

/-- A node that keeps what is committed and raises its watermark over committed entries only. -/
lemma CommitMove.of_keeps (h : CommitInv g s) (hlogs : LogMove s i n)
    (hsafe : SafeInv LogEntry.epoch s.voters ((s.move i n).view g'))
    (hgrows : Grows (s.view g) ((s.move i n).view g')) (hballots : g.ballots ⊆ g'.ballots)
    (hlog : n.role = .candidate → (s.nodes i).currentEpoch = n.currentEpoch →
      n.log = (s.nodes i).log)
    (hkeeps : ∀ X E, E ≤ (s.nodes i).currentEpoch → Committed s.voters (s.view g) E X →
      X <+: (s.nodes i).log.entries → X <+: n.log.entries)
    (hwm : n.highWatermark ≤ (s.nodes i).highWatermark ∨
      n.highWatermark ≤ n.log.entries.length ∧
        Committed s.voters ((s.move i n).view g') n.currentEpoch
          (n.log.entries.take n.highWatermark))
    (hcand : n.role = .candidate → ∀ w ∈ n.votesReceived,
      (w, n.currentEpoch, n.log.entries) ∈ g'.ballots)
    (hcredit : n.role = .leader → ∀ v f, n.voterFetchOffsets.lookup v = some f →
      v ≠ i ∧ v ∈ s.voters ∧ f ≤ ((s.move i n).leadOf n.currentEpoch).length ∧
        ((g'.base n.currentEpoch).length < f → (v, n.currentEpoch, f) ∈ g'.acked)) :
    CommitMove s g i n g' where
  logs := hlogs
  safe := hsafe
  grows := hgrows
  ballots := hballots
  candidate_log := hlog
  keeps := hkeeps
  candidate := hcand
  credit := hcredit
  watermark := by
    refine hwm.elim (fun hwm => ?_) id
    obtain ⟨hlen, hc⟩ := h.watermark i
    have hpre := hkeeps _ _ le_rfl hc (List.take_prefix _ _)
    have hcut : ((s.nodes i).log.entries.take (s.nodes i).highWatermark).length
        = (s.nodes i).highWatermark := List.length_take_of_le hlen
    have htake : n.log.entries.take n.highWatermark
        <+: (s.nodes i).log.entries.take (s.nodes i).highWatermark := by
      refine List.prefix_of_prefix_length_le (List.take_prefix _ _) hpre ?_
      rw [hcut]
      exact (List.length_take_le _ _).trans hwm
    exact ⟨hwm.trans (hcut ▸ hpre.length_le),
      ((h.safe.committed_grows hgrows hc).of_isPrefix htake).mono hlogs.epoch⟩

/-- The view of a cluster whose node changed nothing that the epoch-log machine sees. -/
lemma view_move_same (hM : MatchInv s) (g : Ghost) (hlog : n.log = (s.nodes i).log)
    (hepoch : n.currentEpoch = (s.nodes i).currentEpoch)
    (hrole : n.role = .leader → (s.nodes i).role = .leader) : (s.move i n).view g = s.view g := by
  have hwrite : (s.view g).write i n.currentEpoch n.log.entries = s.view g := by
    simp only [State.write, hlog, hepoch, view, State.mk.injEq, and_true]
    exact ⟨Function.update_eq_self_iff.mpr rfl, Function.update_eq_self_iff.mpr rfl⟩
  by_cases hr : n.role = .leader
  · rw [view_move_of_leader g hr, hwrite, hlog, hepoch, ← hM.leadOf_leading (hrole hr),
      Function.update_eq_self, Set.insert_eq_of_mem]
    · rfl
    · simp [hM.leading i (hrole hr)]
  · rw [view_move_of_not_leader g hr, hwrite]

/-- A node that stays where it is. -/
lemma CommitMove.stay (h : CommitInv g s) (hM : MatchInv s) (hlogs : LogMove s i n)
    (hlog : n.log = (s.nodes i).log) (hepoch : n.currentEpoch = (s.nodes i).currentEpoch)
    (hrole : n.role = (s.nodes i).role) (hwm : n.highWatermark = (s.nodes i).highWatermark)
    (hoffsets : n.voterFetchOffsets = (s.nodes i).voterFetchOffsets)
    (hvotes : ∀ w ∈ n.votesReceived, w ∉ (s.nodes i).votesReceived →
      (s.nodes i).role = .candidate →
        (w, (s.nodes i).currentEpoch, (s.nodes i).log.entries) ∈ g.ballots) :
    CommitMove s g i n g := by
  have hview := view_move_same hM g hlog hepoch (fun hr => hrole ▸ hr)
  refine .of_keeps h hlogs (by rw [hview]; exact h.safe) (by rw [hview]; exact .refl _)
    subset_rfl (fun _ _ => hlog) (fun X E _ _ hX => hlog ▸ hX) (.inl hwm.le) ?_ ?_
  · intro hr w hw
    rw [hrole] at hr
    rw [hepoch, hlog]
    by_cases hold : w ∈ (s.nodes i).votesReceived
    · exact h.candidate i hr w hold
    · exact hvotes w hw hold hr
  · intro hr v f hf
    rw [hrole] at hr
    rw [hoffsets] at hf
    have hlead : (s.move i n).leadOf = s.leadOf := congrArg State.lead hview
    rw [hlead, hepoch]
    exact h.credit i v f hr hf

/-- A node that follows. -/
lemma CommitMove.follow (h : CommitInv g s) (hM : MatchInv s) (hlogs : LogMove s i n)
    (hlog : n.log = (s.nodes i).log) (hrole : n.role = .follower)
    (hwm : n.highWatermark ≤ (s.nodes i).highWatermark) : CommitMove s g i n g := by
  have hview := view_move_of_not_leader (s := s) (i := i) (n := n) g (by simp [hrole])
  refine .of_keeps h hlogs ?_ ?_ subset_rfl (fun hr => by simp [hrole] at hr)
    (fun X E _ _ hX => hlog ▸ hX) (.inl hwm) (fun hr => by simp [hrole] at hr)
    (fun hr => by simp [hrole] at hr)
  · rw [hview, hlog]
    exact h.safe.write hlogs.epoch (hM.logs.node i)
      (fun a ha => (hM.logs.node_le i a ha).trans hlogs.epoch) fun Y hY _ => hY
  · rw [hview]
    exact grows_write hlogs.epoch _

/-- A voter that grants its vote to a candidate with log `X`. -/
lemma CommitMove.vote (hm : CommitMove s g i n g) {X : List LogEntry}
    (hX : Grounded LogEntry.epoch s.leadOf X) (hle : ∀ a ∈ X, a.epoch ≤ n.currentEpoch)
    (hup : UpToDate LogEntry.epoch X n.log.entries) :
    CommitMove s g i n (g.vote i n.currentEpoch X) :=
  { hm with
    safe := by
      have hepoch : ((s.move i n).view g).epoch i = n.currentEpoch := by simp [view]
      have hlog : ((s.move i n).view g).log i = n.log.entries := by simp [view]
      have := hm.safe.vote (n := i) (hX.mono hm.grows.lead) (by rwa [hepoch]) (by rwa [hlog])
      rwa [hepoch] at this
    grows := ⟨hm.grows.epoch, hm.grows.lead, hm.grows.elected, hm.grows.base, hm.grows.acked,
      hm.grows.fresh⟩
    ballots := Set.subset_insert _ _
    candidate := fun hr w hw => Set.mem_insert_of_mem _ (hm.candidate hr w hw) }

/-- A node that stands in the next epoch. -/
lemma CommitMove.stand (h : CommitInv g s) (hM : MatchInv s) (hlogs : LogMove s i n)
    (hlog : n.log = (s.nodes i).log) (hrole : n.role = .candidate)
    (hwm : n.highWatermark = (s.nodes i).highWatermark) (hvotes : n.votesReceived = {i}) :
    CommitMove s g i n (g.vote i n.currentEpoch n.log.entries) := by
  have hview := view_move_of_not_leader (s := s) (i := i) (n := n)
    (g.vote i n.currentEpoch n.log.entries) (by simp [hrole])
  have hwrite := h.safe.write (n := i) (e := n.currentEpoch) (X := n.log.entries) hlogs.epoch
    (by rw [hlog]; exact hM.logs.node i) hlogs.bounded fun Y hY _ => by rw [hlog]; exact hY
  have hsafe := hwrite.vote (n := i) (X := n.log.entries)
    (by rw [hlog]; exact hM.logs.node i)
    (by simpa [State.write] using hlogs.bounded) (by simp [UpToDate, State.write])
  refine .of_keeps h hlogs ?_ ?_ (Set.subset_insert _ _) (fun _ _ => hlog)
    (fun X E _ _ hX => hlog ▸ hX) (.inl hwm.le) (fun _ w hw => ?_)
    (fun hr => by simp [hrole] at hr)
  · rw [hview]
    simpa [State.write, State.vote, Ghost.vote, view] using hsafe
  · rw [hview]
    have hg := grows_write (s := s.view g) (n := i) hlogs.epoch n.log.entries
    exact ⟨hg.epoch, hg.lead, hg.elected, hg.base, hg.acked, hg.fresh⟩
  · rw [hvotes, Finset.mem_singleton] at hw
    exact hw ▸ Set.mem_insert _ _

/-- A node that a majority has voted for. -/
lemma CommitMove.elect (h : CommitInv g s) (hM : MatchInv s) (hlogs : LogMove s i n)
    (hlog : n.log = (s.nodes i).log) (hrole : n.role = .leader)
    (hnew : s.leaderLog n.currentEpoch = none)
    (hwm : n.highWatermark = (s.nodes i).highWatermark) {Q : Finset ℕ}
    (hQ : IsMajority s.voters Q) (hvotes : ∀ v ∈ Q, (v, n.currentEpoch, n.log.entries) ∈ g.ballots)
    (hpeers : ∀ v f, n.voterFetchOffsets.lookup v = some f → v ≠ i ∧ v ∈ s.voters ∧ f = 0) :
    CommitMove s g i n (g.elect n.currentEpoch n.log.entries) := by
  have hground : Grounded LogEntry.epoch s.leadOf n.log.entries := by
    rw [hlog]
    exact hM.logs.node i
  have hwrite := h.safe.write (n := i) (e := n.currentEpoch) (X := n.log.entries) hlogs.epoch
    hground hlogs.bounded fun Y hY _ => by rw [hlog]; exact hY
  have hfree : n.currentEpoch ∉ (s.view g).elected := by simp [view, hnew]
  have hnil : (s.view g).lead n.currentEpoch = [] := by simp [view, leadOf, hnew]
  have hview : (s.move i n).view (g.elect n.currentEpoch n.log.entries)
      = ((s.view g).write i n.currentEpoch n.log.entries).elect n.currentEpoch n.log.entries :=
    view_move_of_leader _ hrole
  refine .of_keeps h hlogs ?_ ?_ subset_rfl (fun hr => by simp [hrole] at hr)
    (fun X E _ _ hX => hlog ▸ hX) (.inl hwm.le) (fun hr => by simp [hrole] at hr) ?_
  · rw [hview]
    exact hwrite.elect hfree hground hlogs.bounded hQ hvotes
  · rw [hview]
    exact (grows_write hlogs.epoch n.log.entries).trans
      (grows_elect (s := (s.view g).write i n.currentEpoch n.log.entries) hfree hnil _)
  · intro _ v f hf
    obtain ⟨hvi, hv, rfl⟩ := hpeers v f hf
    exact ⟨hvi, hv, Nat.zero_le _, fun hlt => absurd hlt (Nat.not_lt_zero _)⟩

/-- A follower that cuts only what its leader lacks. -/
lemma CommitMove.truncate (h : CommitInv g s) (hM : MatchInv s) {o : ℕ}
    (hlogs : LogMove s i { s.nodes i with log := RaftLog.truncate (s.nodes i).log o })
    (hrole : (s.nodes i).role = .follower)
    (hcut : ∀ a ∈ (s.nodes i).log.entries, o ≤ a.offset →
      (s.leaderLog (s.nodes i).currentEpoch).isSome ∧ a ∉ s.leadOf (s.nodes i).currentEpoch) :
    CommitMove s g i { s.nodes i with log := RaftLog.truncate (s.nodes i).log o } g := by
  have hcont := hM.node_contiguous i
  have htake : (RaftLog.truncate (s.nodes i).log o).entries = (s.nodes i).log.entries.take o :=
    VecLog.truncate_entries hcont o
  -- what the leader of the node's epoch holds is not cut
  have hkeep : ∀ Y, Y <+: (s.nodes i).log.entries →
      ((s.leaderLog (s.nodes i).currentEpoch).isSome →
        Y <+: s.leadOf (s.nodes i).currentEpoch) →
      Y <+: (RaftLog.truncate (s.nodes i).log o).entries := by
    intro Y hY hlead
    rw [htake, List.prefix_take_iff]
    refine ⟨hY, ?_⟩
    by_contra hlen
    have hlen : o < Y.length := Nat.not_le.mp hlen
    have hmem : Y[o] ∈ (s.nodes i).log.entries := hY.subset (List.getElem_mem hlen)
    have hoff : Y[o].offset = o := (hcont.of_isPrefix hY).offset_getElem hlen
    obtain ⟨hsome, hnot⟩ := hcut _ hmem hoff.ge
    exact hnot ((hlead hsome).subset (List.getElem_mem hlen))
  have hview := view_move_of_not_leader (s := s) (i := i)
    (n := { s.nodes i with log := RaftLog.truncate (s.nodes i).log o }) g (by simp [hrole])
  have hpre : (RaftLog.truncate (s.nodes i).log o).entries <+: (s.nodes i).log.entries := by
    rw [htake]
    exact List.take_prefix _ _
  refine .of_keeps h hlogs ?_ ?_ subset_rfl (fun hr => by simp [hrole] at hr) ?_ (.inl le_rfl)
    (fun hr => by simp [hrole] at hr) (fun hr => by simp [hrole] at hr)
  · rw [hview]
    exact h.safe.write le_rfl ((hM.logs.node i).of_isPrefix hpre)
      (fun a ha => hM.logs.node_le i a (hpre.subset ha)) hkeep
  · rw [hview]
    exact grows_write le_rfl _
  · intro X E hE hc hX
    exact hkeep X hX fun hsome => h.safe.committed_isPrefix (hc.mono hE) hsome

/-- A follower that appends in place and adopts a watermark over what the sender holds too. -/
lemma CommitMove.append (h : CommitInv g s) (hM : MatchInv s) {c : ℕ} {resp : FetchResponse}
    (hlogs : LogMove s i ((s.nodes i).adopted resp)) (hrole : (s.nodes i).role = .follower)
    (hepoch : resp.epoch ≤ (s.nodes i).currentEpoch)
    (hsent : ⟨c, i, .fetchResponse resp⟩ ∈ s.sent)
    (hagreed : (s.nodes i).highWatermark < resp.highWatermark →
      RaftLog.entries (s.nodes i).log 0 ((s.nodes i).adoptedHighWatermark resp)
        = RaftLog.entries (s.nodes c).log 0 ((s.nodes i).adoptedHighWatermark resp)) :
    CommitMove s g i ((s.nodes i).adopted resp) g := by
  have hsame : ((s.nodes i).adopted resp).currentEpoch = (s.nodes i).currentEpoch ∧
      ((s.nodes i).adopted resp).role = .follower ∧ ((s.nodes i).adopted resp).highWatermark
        = (s.nodes i).adoptedHighWatermark resp := by
    unfold Node.adopted Node.adoptedHighWatermark
    split_ifs <;> exact ⟨rfl, hrole, rfl⟩
  obtain ⟨he, hr, hwm⟩ := hsame
  have hlog := adopted_log (s.nodes i) resp
  have hpre : (s.nodes i).log.entries <+: ((s.nodes i).adopted resp).log.entries := by
    rw [hlog]
    exact List.prefix_append _ _
  have hview := view_move_of_not_leader (s := s) (i := i) (n := (s.nodes i).adopted resp) g
    (by simp [hr])
  have hground : Grounded LogEntry.epoch s.leadOf ((s.nodes i).adopted resp).log.entries := by
    have := hlogs.grounded
    rwa [leadOf_move_of_not_leader (by simp [hr])] at this
  have hgrows : Grows (s.view g) ((s.move i ((s.nodes i).adopted resp)).view g) := by
    rw [hview]
    exact grows_write hlogs.epoch _
  refine .of_keeps h hlogs ?_ hgrows subset_rfl (fun hc => by simp [hr] at hc)
    (fun X E _ _ hX => hX.trans hpre) ?_ (fun hc => by simp [hr] at hc)
    (fun hc => by simp [hr] at hc)
  · rw [hview]
    exact h.safe.write hlogs.epoch hground hlogs.bounded fun Y hY _ => hY.trans hpre
  · rw [hwm, he]
    by_cases hlt : (s.nodes i).highWatermark < resp.highWatermark
    swap
    · exact .inl (by rw [Node.adoptedHighWatermark, if_neg hlt])
    right
    have hagreed := hagreed hlt
    set m := (s.nodes i).adoptedHighWatermark resp with hm
    rw [Node.adoptedHighWatermark, if_pos hlt, VecLog.logEndOffset_eq (hM.node_contiguous i)] at hm
    have hmlen : m ≤ (s.nodes i).log.entries.length := hm ▸ min_le_right _ _
    have hmhw : m ≤ resp.highWatermark := hm ▸ min_le_left _ _
    rw [VecLog.entries_eq (hM.node_contiguous i), VecLog.entries_eq (hM.node_contiguous c),
      List.drop_zero, List.drop_zero] at hagreed
    obtain ⟨-, -, hc⟩ := h.answered c i resp hsent
    have hshort : (s.nodes c).log.entries.take m
        <+: (s.nodes c).log.entries.take resp.highWatermark := by
      rw [← min_eq_left hmhw, ← List.take_take]
      exact List.take_prefix _ _
    refine ⟨hmlen.trans hpre.length_le, ?_⟩
    rw [hlog, List.take_append_of_le_length hmlen, hagreed]
    exact h.safe.committed_grows hgrows ((hc.of_isPrefix hshort).mono hepoch)

/-- A leader that appends an entry of its own. -/
lemma CommitMove.propose (h : CommitInv g s) (hM : MatchInv s) {data : List UInt8}
    {proposeId : ℕ} (hlogs : LogMove s i ((s.nodes i).proposed data proposeId))
    (hrole : (s.nodes i).role = .leader) :
    CommitMove s g i ((s.nodes i).proposed data proposeId) g := by
  have hsome : (s.nodes i).currentEpoch ∈ (s.view g).elected := by
    simp [view, hM.leading i hrole]
  have hlead : (s.view g).lead (s.nodes i).currentEpoch = (s.nodes i).log.entries :=
    hM.leadOf_leading hrole
  have hpre : (s.view g).lead (s.nodes i).currentEpoch
      <+: ((s.nodes i).proposed data proposeId).log.entries := by
    rw [hlead]
    exact List.prefix_append _ _
  have hview : (s.move i ((s.nodes i).proposed data proposeId)).view g
      = ((s.view g).extend (s.nodes i).currentEpoch
          ((s.nodes i).proposed data proposeId).log.entries).write i (s.nodes i).currentEpoch
          ((s.nodes i).proposed data proposeId).log.entries := by
    rw [view_move_of_leader (n := (s.nodes i).proposed data proposeId) g hrole]
    have : insert (s.nodes i).currentEpoch (s.view g).elected = (s.view g).elected :=
      Set.insert_eq_of_mem hsome
    exact congrArg (fun E => { (s.view g).write i (s.nodes i).currentEpoch
      ((s.nodes i).proposed data proposeId).log.entries with
        lead := Function.update s.leadOf (s.nodes i).currentEpoch
          ((s.nodes i).proposed data proposeId).log.entries
        elected := E }) this
  have hextend := h.safe.extend (a := ⟨(s.nodes i).currentEpoch,
    RaftLog.logEndOffset (s.nodes i).log, data⟩) hsome rfl
  rw [hlead] at hextend
  have hgrows : Grows (s.view g) ((s.move i ((s.nodes i).proposed data proposeId)).view g) := by
    rw [hview]
    exact (grows_extend _ hpre).trans (grows_write le_rfl _)
  refine .of_keeps h hlogs ?_ hgrows subset_rfl (fun hr => absurd (hrole.symm.trans hr) (by simp))
    (fun X E _ _ hX => hX.trans (List.prefix_append _ _)) (.inl le_rfl)
    (fun hr => absurd (hrole.symm.trans hr) (by simp)) ?_
  · rw [hview]
    refine hextend.write le_rfl ?_ hlogs.bounded fun Y hY _ => hY.trans (List.prefix_append _ _)
    have := hlogs.grounded
    rwa [leadOf_move_of_leader (n := (s.nodes i).proposed data proposeId) hrole] at this
  · intro _ v f hf
    obtain ⟨hvi, hv, hlen, hack⟩ := h.credit i v f hrole hf
    exact ⟨hvi, hv, hlen.trans (hgrows.lead _).length_le, hack⟩

/-- The voters whose fetch offsets reach the new watermark, and the leader itself. -/
lemma majority_of_offsets {m : Node VecLog} {voters : List ℕ} (hi : i ∈ voters)
    (hvoters : m.voters = voters) (hmaj : m.majority ≤ m.replicaOffsets.length)
    (hcredit : ∀ v f, m.voterFetchOffsets.lookup v = some f → v ≠ i ∧ v ∈ voters ∧
      f ≤ RaftLog.logEndOffset m.log) :
    m.replicaOffsets.getD (m.majority - 1) 0 ≤ RaftLog.logEndOffset m.log ∧
      ∃ Q, IsMajority voters Q ∧ ∀ v ∈ Q, v = i ∨
        ∃ f, m.voterFetchOffsets.lookup v = some f ∧
          m.replicaOffsets.getD (m.majority - 1) 0 ≤ f := by
  set hwm := m.replicaOffsets.getD (m.majority - 1) 0 with hhwm
  set counted := m.voterFetchOffsets.entries.filter fun p => hwm ≤ p.2 with hcounted
  have hpos : 0 < m.majority := Nat.succ_pos _
  have hmem : ∀ p ∈ counted, m.voterFetchOffsets.lookup p.1 = some p.2 ∧ hwm ≤ p.2 := by
    intro p hp
    obtain ⟨hp, hle⟩ := List.mem_filter.mp hp
    exact ⟨AList.mem_lookup_iff.mpr hp, by simpa using hle⟩
  have hlen : m.majority ≤ counted.length +
      ([RaftLog.logEndOffset m.log].filter (hwm ≤ ·)).length := by
    have hsort := le_length_filter_insertionSort
      (m.voterFetchOffsets.entries.map (·.2) ++ [RaftLog.logEndOffset m.log])
      (k := m.majority - 1) (by
        have : m.replicaOffsets.length = (m.voterFetchOffsets.entries.map (·.2) ++
          [RaftLog.logEndOffset m.log]).length := List.length_insertionSort _ _
        omega)
    rw [List.filter_append, List.length_append, List.filter_map, List.length_map,
      Nat.sub_add_cancel hpos] at hsort
    exact hsort
  have hself : hwm ≤ RaftLog.logEndOffset m.log := by
    by_contra hnot
    have hnil : [RaftLog.logEndOffset m.log].filter (hwm ≤ ·) = [] := by simpa using hnot
    rw [hnil, List.length_nil, Nat.add_zero] at hlen
    obtain ⟨p, hp⟩ := List.exists_mem_of_length_pos (hpos.trans_le hlen)
    obtain ⟨hlook, hle⟩ := hmem p hp
    exact hnot (hle.trans (hcredit _ _ hlook).2.2)
  refine ⟨hself, insert i (counted.map (·.1)).toFinset, ⟨?_, ?_⟩, ?_⟩
  · intro v hv
    rw [List.mem_toFinset]
    rcases Finset.mem_insert.mp hv with rfl | hv
    · exact hi
    · obtain ⟨p, hp, rfl⟩ := List.mem_map.mp (List.mem_toFinset.mp hv)
      exact (hcredit _ _ (hmem p hp).1).2.1
  · have hnodup : (counted.map (·.1)).Nodup :=
      (List.Sublist.map Sigma.fst List.filter_sublist).nodup m.voterFetchOffsets.nodupKeys
    have hnot : i ∉ (counted.map (·.1)).toFinset := by
      intro hv
      obtain ⟨p, hp, hpi⟩ := List.mem_map.mp (List.mem_toFinset.mp hv)
      exact (hcredit _ _ (hmem p hp).1).1 hpi
    rw [Finset.card_insert_of_notMem hnot, List.toFinset_card_of_nodup hnodup, List.length_map]
    have hone : ([RaftLog.logEndOffset m.log].filter (hwm ≤ ·)).length ≤ 1 :=
      List.length_filter_le _ _
    rw [Node.majority, hvoters] at hlen
    omega
  · intro v hv
    rcases Finset.mem_insert.mp hv with rfl | hv
    · exact .inl rfl
    · obtain ⟨p, hp, rfl⟩ := List.mem_map.mp (List.mem_toFinset.mp hv)
      exact .inr ⟨p.2, hmem p hp⟩

/-- What a request that passes the divergence check tells the leader. -/
lemma acked_of_check (h : CommitInv g s) (hM : MatchInv s) {c : ℕ} {req : FetchRequest}
    (hsent : ⟨c, i, .fetchRequest req⟩ ∈ s.sent) (hrole : (s.nodes i).role = .leader)
    (hepoch : req.epoch = (s.nodes i).currentEpoch)
    (hdiv : (s.nodes i).checkDivergence req.fetchOffset req.lastFetchedEpoch = none) :
    req.fetchOffset ≤ (s.nodes i).log.entries.length ∧
      ((g.base (s.nodes i).currentEpoch).length < req.fetchOffset →
        (c, (s.nodes i).currentEpoch, req.fetchOffset) ∈ g.acked) := by
  rcases Nat.eq_zero_or_pos req.fetchOffset with hzero | hpos
  · rw [hzero]
    exact ⟨Nat.zero_le _, fun hlt => absurd hlt (Nat.not_lt_zero _)⟩
  unfold Node.checkDivergence at hdiv
  rw [if_neg hpos.ne'] at hdiv
  split_ifs at hdiv with hcheck
  rw [VecLog.epochAt_eq (hM.node_contiguous i), Option.map_eq_some_iff] at hcheck
  obtain ⟨a, ha, hep⟩ := hcheck
  obtain ⟨hlt, rfl⟩ := List.getElem?_eq_some_iff.mp ha
  refine ⟨by omega, fun hbase => ?_⟩
  have hlead := hM.leadOf_leading hrole
  have htake : (s.nodes i).log.entries.take (req.fetchOffset - 1) ++
      [(s.nodes i).log.entries[req.fetchOffset - 1]] <+: s.leadOf (s.nodes i).currentEpoch := by
    rw [hlead, List.take_concat_get']
    exact List.take_prefix _ _
  have hown := h.safe.own (s.nodes i).currentEpoch (by simp [view, hM.leading i hrole]) _ _ htake
    (by
      rw [List.length_take_of_le hlt.le]
      exact Nat.le_sub_one_of_lt hbase)
  rw [hown, ← hepoch] at hep
  rw [← hepoch]
  exact h.fetched c i req hsent hpos.ne' hep.symm

/-- What a leader that notes an offset knows of the offsets of the others. -/
lemma credits_of_check (h : CommitInv g s) (hM : MatchInv s) {c : ℕ} {req : FetchRequest}
    (hvoters : (s.nodes i).voters = s.voters) (hsent : ⟨c, i, .fetchRequest req⟩ ∈ s.sent)
    (hother : c ≠ i) (hrole : (s.nodes i).role = .leader)
    (hepoch : req.epoch = (s.nodes i).currentEpoch)
    (hdiv : (s.nodes i).checkDivergence req.fetchOffset req.lastFetchedEpoch = none) {v f : ℕ}
    (hf : ((s.nodes i).credited c req.fetchOffset).voterFetchOffsets.lookup v = some f) :
    v ≠ i ∧ v ∈ s.voters ∧ f ≤ (s.nodes i).log.entries.length ∧
      ((g.base (s.nodes i).currentEpoch).length < f →
        (v, (s.nodes i).currentEpoch, f) ∈ g.acked) := by
  have hold : (s.nodes i).voterFetchOffsets.lookup v = some f → _ := h.credit i v f hrole
  rw [hM.leadOf_leading hrole] at hold
  rcases Node.of_lookup_credited hf with hf | ⟨rfl, hc, rfl⟩
  · exact hold hf
  · obtain ⟨hlen, hack⟩ := acked_of_check h hM hsent hrole hepoch hdiv
    exact ⟨hother, hvoters ▸ hc, hlen, hack⟩

/-- An entry of the leader's own epoch is behind the log with which it was elected. -/
lemma base_length_lt (h : CommitInv g s) (hM : MatchInv s) (hrole : (s.nodes i).role = .leader)
    {hwm : ℕ} (hle : hwm ≤ (s.nodes i).log.entries.length) (hpos : 0 < hwm)
    (hep : ∀ e ∈ RaftLog.epochAt (s.nodes i).log (hwm - 1), e = (s.nodes i).currentEpoch) :
    (g.base (s.nodes i).currentEpoch).length < hwm := by
  by_contra hbase
  have hlt : hwm - 1 < (s.nodes i).log.entries.length := by omega
  rw [VecLog.epochAt_eq (hM.node_contiguous i), List.getElem?_eq_getElem hlt] at hep
  have hsome : (s.nodes i).currentEpoch ∈ (s.view g).elected := by
    simp [view, hM.leading i hrole]
  have hpre : g.base (s.nodes i).currentEpoch <+: (s.nodes i).log.entries := by
    rw [← hM.leadOf_leading hrole]
    exact h.safe.base_isPrefix _ hsome
  have hmem : (s.nodes i).log.entries[hwm - 1] ∈ g.base (s.nodes i).currentEpoch := by
    rw [List.prefix_iff_eq_take.mp hpre, List.mem_take_iff_getElem]
    exact ⟨hwm - 1, by omega, rfl⟩
  exact absurd (hep _ rfl) (h.safe.base_lt _ hsome _ hmem).ne

/-- A leader that answers a fetch request, and may commit. -/
lemma CommitMove.serve (h : CommitInv g s) (hM : MatchInv s) (hi : i ∈ s.voters)
    (hvoters : (s.nodes i).voters = s.voters) {c : ℕ} {req : FetchRequest}
    (hlogs : LogMove s i ((s.nodes i).credited c req.fetchOffset).tryAdvanceHighWatermark.1)
    (hsent : ⟨c, i, .fetchRequest req⟩ ∈ s.sent) (hother : c ≠ i)
    (hrole : (s.nodes i).role = .leader) (hepoch : req.epoch = (s.nodes i).currentEpoch)
    (hdiv : (s.nodes i).checkDivergence req.fetchOffset req.lastFetchedEpoch = none) :
    CommitMove s g i ((s.nodes i).credited c req.fetchOffset).tryAdvanceHighWatermark.1
      (g.ack i (s.nodes i).currentEpoch (s.nodes i).log.entries.length) := by
  set g' := g.ack i (s.nodes i).currentEpoch (s.nodes i).log.entries.length with hg'
  set m := (s.nodes i).credited c req.fetchOffset with hm
  have hlead := hM.leadOf_leading hrole
  have hmsame : m.log = (s.nodes i).log ∧ m.currentEpoch = (s.nodes i).currentEpoch ∧
      m.role = .leader ∧ m.highWatermark = (s.nodes i).highWatermark ∧ m.voters = s.voters := by
    rw [hm, Node.credited_eq]
    exact ⟨rfl, rfl, hrole, rfl, hvoters⟩
  obtain ⟨hmlog, hmepoch, hmrole, hmwm, hmvoters⟩ := hmsame
  have hend : RaftLog.logEndOffset m.log = (s.nodes i).log.entries.length := by
    rw [hmlog, VecLog.logEndOffset_eq (hM.node_contiguous i)]
  have hcredit : ∀ v f, m.voterFetchOffsets.lookup v = some f → v ≠ i ∧ v ∈ s.voters ∧
      f ≤ RaftLog.logEndOffset m.log ∧ ((g.base (s.nodes i).currentEpoch).length < f →
        (v, (s.nodes i).currentEpoch, f) ∈ g.acked) := by
    intro v f hf
    rw [hend]
    exact credits_of_check h hM hvoters hsent hother hrole hepoch hdiv hf
  have hack : SafeInv LogEntry.epoch s.voters (s.view g') := h.safe.ack (n := i)
    (by simp [view, hM.leading i hrole])
    (by
      have : (s.nodes i).log.entries <+: s.leadOf (s.nodes i).currentEpoch := by rw [hlead]
      exact this)
  have hgrows : Grows (s.view g) (s.view g') := grows_ack i
  -- both outcomes keep everything but the watermark
  have key : ∀ n : Node VecLog, LogMove s i n → n.log = m.log →
      n.currentEpoch = m.currentEpoch → n.role = m.role →
      n.voterFetchOffsets = m.voterFetchOffsets →
      (n.highWatermark ≤ (s.nodes i).highWatermark ∨
        n.highWatermark ≤ (s.nodes i).log.entries.length ∧
          Committed s.voters (s.view g') (s.nodes i).currentEpoch
            ((s.nodes i).log.entries.take n.highWatermark)) → CommitMove s g i n g' := by
    intro n hlogs hnlog hnepoch hnrole hnoffsets hnwm
    rw [hmlog] at hnlog
    rw [hmepoch] at hnepoch
    rw [hmrole] at hnrole
    have hview := view_move_same hM g' hnlog hnepoch fun _ => hrole
    refine .of_keeps h hlogs (by rw [hview]; exact hack) (by rw [hview]; exact hgrows) subset_rfl
      (fun _ _ => hnlog) (fun X E _ _ hX => hnlog ▸ hX) ?_ (fun hr => by simp [hnrole] at hr) ?_
    · rw [hview, hnlog, hnepoch]
      exact hnwm
    · intro _ v f hf
      rw [hnoffsets] at hf
      obtain ⟨hvi, hv, hlen, hacked⟩ := hcredit v f hf
      have hsame : (s.move i n).leadOf = s.leadOf := congrArg State.lead hview
      rw [hsame, hnepoch, hlead]
      exact ⟨hvi, hv, hend ▸ hlen, fun hlt => .inl (hacked hlt)⟩
  rcases m.tryAdvanceHighWatermark_cases with heq | ⟨hwm, hlt, hmaj, hhwm, hep, heq⟩
  · rw [heq] at hlogs ⊢
    exact key m hlogs rfl rfl rfl rfl (.inl hmwm.le)
  rw [heq] at hlogs ⊢
  refine key _ hlogs rfl rfl rfl rfl (.inr ?_)
  obtain ⟨hle, Q, hQ, hreach⟩ := majority_of_offsets hi hmvoters hmaj
    fun v f hf => ⟨(hcredit v f hf).1, (hcredit v f hf).2.1, (hcredit v f hf).2.2.1⟩
  rw [← hhwm, hend] at hle
  rw [← hhwm] at hreach
  rw [hmlog, hmepoch] at hep
  have hpast := base_length_lt h hM hrole hle (Nat.zero_lt_of_lt hlt) hep
  refine ⟨hle, .inr ⟨(s.nodes i).currentEpoch, hwm, le_rfl, ⟨hpast, Q, hQ, fun v hv => ?_⟩, ?_⟩⟩
  · rcases hreach v hv with rfl | ⟨f, hf, hfle⟩
    · exact .inr ⟨rfl, rfl, hle⟩
    · exact .inl (h.safe.acked_le _ _ _ _ ((hcredit v f hf).2.2.2 (hpast.trans_le hfle)) hfle)
  · change (s.nodes i).log.entries.take hwm <+: (s.leadOf (s.nodes i).currentEpoch).take hwm
    rw [hlead]

/-- A node that has seen a request of its own or a later epoch. -/
lemma CommitMove.join (h : CommitInv g s) (hM : MatchInv s) {e : ℕ} {v : Option ℕ}
    (hlogs : LogMove s i { (s.nodes i).joined e with votedFor := v }) :
    CommitMove s g i { (s.nodes i).joined e with votedFor := v } g := by
  unfold Node.joined at hlogs ⊢
  split_ifs at hlogs ⊢ with hlt
  · exact .follow h hM hlogs rfl rfl le_rfl
  · exact .stay h hM hlogs rfl rfl rfl rfl rfl fun w hw hn => absurd hw hn

lemma upToDate_of_isLogUpToDate {m : Node VecLog} (hm : Contiguous m.log.entries)
    {X : List LogEntry} (h : m.isLogUpToDate (lastEp LogEntry.epoch X) X.length = true) :
    UpToDate LogEntry.epoch X m.log.entries := by
  simp only [Node.isLogUpToDate, VecLog.lastEpoch_eq, VecLog.logEndOffset_eq hm] at h
  unfold UpToDate
  split_ifs at h ⊢ with heq <;> exact of_decide_eq_true h

/-- A candidate that counts itself as a majority. -/
lemma CommitMove.electAlone (h : CommitInv g s) (hM : MatchInv s) (hi : i ∈ s.voters)
    (hid : (s.nodes i).id = i) (hvoters : (s.nodes i).voters = s.voters)
    (hmaj : (s.nodes i).majority ≤ 1)
    (hlogs : LogMove s i (s.nodes i).standing.becomeLeader.1)
    (hnew : s.leaderLog ((s.nodes i).currentEpoch + 1) = none) :
    ∃ g', CommitInv g' (s.move i (s.nodes i).standing.becomeLeader.1) ∧
      Grows (s.view g) ((s.move i (s.nodes i).standing.becomeLeader.1).view g') := by
  set m := (s.nodes i).standing with hm
  have hmr : m.role ≠ .leader := by simp [hm, Node.standing]
  have hlogs₁ : LogMove s i m :=
    .follow hM (Nat.le_succ _) rfl hmr fun _ he => absurd he (Nat.succ_ne_self _).symm
  have hmove₁ := CommitMove.stand h hM hlogs₁ rfl rfl rfl (by simp [hm, Node.standing, hid])
  have h₁ := h.move hM hmove₁
  have hM₁ := hM.move hlogs₁
  have hnode : (s.move i m).nodes i = m := move_nodes_self s
  have hlog₁ : (s.move i m).leaderLog = s.leaderLog := by
    rw [move_of_not_leader s hmr]
    rfl
  have hpeers : ∀ v f, m.becomeLeader.1.voterFetchOffsets.lookup v = some f →
      v ≠ i ∧ v ∈ s.voters ∧ f = 0 := by
    intro v f hf
    obtain ⟨hv, rfl⟩ := Node.of_lookup_becomeLeader hf
    simp only [Node.peers, hm, Node.standing, hid, hvoters, List.mem_filter,
      decide_eq_true_eq] at hv
    exact ⟨hv.2, hv.1, rfl⟩
  have hlogs₂ : LogMove (s.move i m) i m.becomeLeader.1 := by
    refine .of_leader hM₁ (by rw [hnode]; exact le_rfl) (by rw [hnode]; rfl) rfl ?_
      (.inl (by rw [hlog₁]; exact hnew)) fun v f hf => .inl (hpeers v f hf).2.2
    intro j hji hj
    rw [move_nodes_of_ne s hji] at hj ⊢
    exact hlogs.alone rfl j hji hj
  have hQ : IsMajority (s.move i m).voters {i} := by
    rw [move_voters]
    refine ⟨by simpa using hi, ?_⟩
    rwa [Node.majority, hvoters] at hmaj
  have hmove₂ := CommitMove.elect h₁ hM₁ hlogs₂ (by rw [hnode]; rfl) rfl
    (by rw [hlog₁]; exact hnew) (by rw [hnode]; rfl) hQ
    (fun v hv => by
      rw [Finset.mem_singleton.mp hv]
      exact Set.mem_insert _ _)
    (by rw [move_voters]; exact hpeers)
  have h₂ := h₁.move hM₁ hmove₂
  have hgrows₂ := hmove₂.grows
  rw [move_move s hmr] at h₂ hgrows₂
  exact ⟨_, h₂, hmove₁.grows.trans hgrows₂⟩

lemma CommitMove.idle (h : CommitInv g s) (hM : MatchInv s) (hlogs : LogMove s i (s.nodes i)) :
    CommitMove s g i (s.nodes i) g :=
  .stay h hM hlogs rfl rfl rfl rfl rfl fun _ hw hn => absurd hw hn

/-- A granted vote, noted with the log that the candidate had when it asked. -/
lemma CommitMove.grant (h : CommitInv g s) (hM : MatchInv s) {c : ℕ} {req : VoteRequest}
    (hlogs : LogMove s i { (s.nodes i).joined req.epoch with votedFor := some c })
    (hsent : ⟨c, i, .vote req⟩ ∈ s.sent) (hci : c ≠ i)
    (hepoch : (s.nodes i).currentEpoch ≤ req.epoch)
    (hlog : (s.nodes i).isLogUpToDate req.lastLogEpoch req.lastLogOffset = true) :
    ∃ g', CommitMove s g i { (s.nodes i).joined req.epoch with votedFor := some c } g' ∧
      Accounted g' (s.move i { (s.nodes i).joined req.epoch with votedFor := some c })
        ⟨i, c, .voteResponse ⟨req.epoch, true⟩⟩ := by
  obtain ⟨hle, X, hX, hbound, hep, hlen, hXlog⟩ := h.asked c i req hsent
  have hcur := Node.joined_currentEpoch hepoch
  have hkeep := (s.nodes i).joined_log req.epoch
  rw [← hep, ← hlen] at hlog
  have hup := upToDate_of_isLogUpToDate (hM.node_contiguous i) hlog
  refine ⟨_, (CommitMove.join h hM hlogs).vote hX (by rw [hcur]; exact hbound)
    (by rw [hkeep]; exact hup), ?_⟩
  simp only [Accounted]
  rw [move_nodes_of_ne s hci]
  refine ⟨hle, fun he hr => ?_⟩
  rw [hXlog he hr]
  exact .inl (by rw [hcur])

/-- The votes that make a candidate the leader are those of a majority. -/
lemma isMajority_of_wins {stood : Set (ℕ × ℕ)} {c : ℕ} {out : List Envelope}
    (hE : ElectionInv stood
      ((s.move i ((s.nodes i).counting c).becomeLeader.1).post out)) :
    IsMajority s.voters (insert c (s.nodes i).votesReceived) := by
  have hnode : ((s.move i ((s.nodes i).counting c).becomeLeader.1).post out).nodes i
      = ((s.nodes i).counting c).becomeLeader.1 := move_nodes_self s
  have hmaj := hE.isMajority (i := i) (by rw [hnode]; rfl)
  rw [hnode, post_voters, move_voters] at hmaj
  exact hmaj

/-- Every reaction under the conditions preserves the invariant and lets leader logs only grow. -/
theorem react (h : CommitInv g s) (hmatched : s.Matched) (hi : i ∈ s.voters) {ev : Event}
    (hj : s.Justified i ev) (hc : s.KeepsCommitted i ev) :
    ∃ g', CommitInv g' (s.react i ev) ∧ Grows (s.view g) ((s.react i ev).view g') := by
  obtain ⟨n, out, hreacts, heq, ⟨stood', hE'⟩, hnew, hmove⟩ := hmatched.react_cases hi hj hc.1
  obtain ⟨stood, hE⟩ := hmatched.election
  have hM := hmatched.logs
  rw [heq] at hE' ⊢
  obtain ⟨-, hagreed, hshared, hother⟩ := hc
  -- a move and what it sends
  have hdone : ∀ {g'}, CommitMove s g i n g' → (∀ env ∈ out, Accounted g' (s.move i n) env) →
      ∃ g', CommitInv g' ((s.move i n).post out) ∧
        Grows (s.view g) (((s.move i n).post out).view g') :=
    fun hm hout => ⟨_, (h.move hM hm).post hout, hm.grows⟩
  cases hreacts with
  | ignores =>
    exact hdone (.idle h hM hmove) (by simp)
  | stands hrole hmaj =>
    refine hdone (.stand h hM hmove rfl rfl rfl (by simp [Node.standing, hE.id_eq])) ?_
    intro env henv
    obtain ⟨v, hv, rfl⟩ := List.mem_map.mp henv
    simp only [Accounted, move_nodes_self]
    refine ⟨le_rfl, (s.nodes i).log.entries, hmove.grounded, hmove.bounded, rfl,
      (VecLog.logEndOffset_eq (hM.node_contiguous i)).symm, fun _ _ => rfl⟩
  | standsAlone hrole hmaj =>
    have hfree := (hnew rfl).resolve_right fun hl => hrole hl.1
    obtain ⟨g', h', hgrows⟩ :=
      CommitMove.electAlone h hM hi (hE.id_eq i) (hE.voters_eq i) hmaj hmove hfree
    exact ⟨g', h'.post (by simp [Node.beginMessages, Accounted]), hgrows⟩
  | heartbeats hrole =>
    have hm := CommitMove.idle h hM hmove
    refine hdone hm fun env henv => ?_
    obtain ⟨v, hv, rfl⟩ := List.mem_map.mp henv
    exact accounted_response h hm v le_rfl le_rfl rfl
  | deniesStale c req hepoch =>
    exact hdone (.idle h hM hmove) (by simp [Accounted])
  | denies c req hepoch =>
    exact hdone (.join h hM (v := ((s.nodes i).joined req.epoch).votedFor) hmove)
      (by simp [Accounted])
  | grants c req hepoch hvote hlog =>
    obtain ⟨-, hci⟩ := hE.vote_src c i req hj
    obtain ⟨g', hm, hvote⟩ := CommitMove.grant h hM hmove hj hci.symm hepoch hlog
    exact hdone hm (List.forall_mem_singleton.mpr hvote)
  | outvoted c resp hepoch => exact hdone (.follow h hM hmove rfl rfl le_rfl) (by simp)
  | counts c hrole hmaj =>
    refine hdone (.stay h hM hmove rfl rfl rfl rfl rfl fun w hw hn hr => ?_) (by simp)
    obtain rfl := (Finset.mem_insert.mp hw).resolve_right hn
    exact (h.granted w i _ hj).2 rfl hr
  | wins c hrole hmaj =>
    have hfree := (hnew rfl).resolve_right fun hl => by simp [hrole] at hl
    refine hdone (.elect h hM hmove rfl rfl hfree rfl (isMajority_of_wins hE') (fun v hv => ?_)
      fun v f hf => ?_)
      (by simp [Node.beginMessages, Accounted])
    · rcases Finset.mem_insert.mp hv with rfl | hv
      · exact (h.granted v i _ hj).2 rfl hrole
      · exact h.candidate i hrole v hv
    · obtain ⟨hv, rfl⟩ := Node.of_lookup_becomeLeader hf
      obtain ⟨hv, hvi⟩ := hE.mem_peers.mp hv
      exact ⟨hvi, hv, rfl⟩
  | follows c req hepoch => exact hdone (.follow h hM hmove rfl rfl le_rfl) (by simp)
  | released c req hepoch => exact hdone (.follow h hM hmove rfl rfl le_rfl) (by simp)
  | overtaken c req hepoch =>
    have hm : CommitMove s g i ((s.nodes i).becomeFollower req.epoch none) g :=
      .follow h hM hmove rfl rfl le_rfl
    exact hdone hm (List.forall_mem_singleton.mpr
      (accounted_response h hm c hepoch.le le_rfl rfl))
  | answersEmpty c req hepoch hrole =>
    have hm := CommitMove.idle h hM hmove
    exact hdone hm (List.forall_mem_singleton.mpr (accounted_response h hm c le_rfl le_rfl rfl))
  | diverges c req d hepoch hrole hdiv =>
    have hm := CommitMove.idle h hM hmove
    exact hdone hm (List.forall_mem_singleton.mpr (accounted_response h hm c le_rfl le_rfl rfl))
  | serves c req hepoch hrole hdiv =>
    have hm := CommitMove.serve h hM hi (hE.voters_eq i) hmove hj (hother hrole) hrole hepoch hdiv
    exact hdone hm (List.forall_mem_singleton.mpr
      (accounted_response h hm c le_rfl hmove.epoch rfl))
  | superseded c resp hepoch => exact hdone (.follow h hM hmove rfl rfl le_rfl) (by simp)
  | truncates c resp d hepoch hrole hdiv =>
    exact hdone (.truncate h hM hmove hrole (hshared hrole hepoch d hdiv)) (by simp)
  | appends c resp hepoch hrole hdiv =>
    exact hdone (.append h hM hmove hrole hepoch hj (hagreed hrole hepoch hdiv)) (by simp)
  | proposes data proposeId hrole => exact hdone (.propose h hM hmove hrole) (by simp)

/-- A follower whose log is a part of its leader's acknowledges it. -/
lemma ack (h : CommitInv g s) {v : ℕ} (he : (s.leaderLog (s.nodes v).currentEpoch).isSome)
    (hlog : (s.nodes v).log.entries <+: s.leadOf (s.nodes v).currentEpoch) :
    CommitInv (g.ack v (s.nodes v).currentEpoch (s.nodes v).log.entries.length) s := by
  have hgrows : Grows (s.view g)
      (s.view (g.ack v (s.nodes v).currentEpoch (s.nodes v).log.entries.length)) := grows_ack v
  exact {
    safe := h.safe.ack (n := v) he hlog
    watermark := fun i => ⟨(h.watermark i).1, h.safe.committed_grows hgrows (h.watermark i).2⟩
    candidate := h.candidate
    credit := fun i v f hi hf =>
      have ⟨hvi, hv, hlen, hack⟩ := h.credit i v f hi hf
      ⟨hvi, hv, hlen, fun hlt => .inl (hack hlt)⟩
    asked := h.asked
    granted := h.granted
    fetched := fun v w req hm hpos heq => .inl (h.fetched v w req hm hpos heq)
    answered := fun v w resp hm =>
      have ⟨hle, hlen, hc⟩ := h.answered v w resp hm
      ⟨hle, hlen, h.safe.committed_grows hgrows hc⟩ }

/-- A fetch request acknowledges its sender's log when that ends in the sender's epoch. -/
lemma fetch (h : CommitInv g s) (hM : MatchInv s) {src dst : ℕ} {req : FetchRequest}
    (hf : s.HonestFetch (.fetch src dst req)) :
    ∃ g', CommitInv g' (s.post [⟨src, dst, .fetchRequest req⟩]) ∧
      Grows (s.view g) ((s.post [⟨src, dst, .fetchRequest req⟩]).view g') := by
  obtain rfl : req = _ := hf
  rw [VecLog.logEndOffset_eq (hM.node_contiguous src), VecLog.lastEpoch_eq]
  by_cases hack : (s.nodes src).log.entries ≠ [] ∧
      lastEp LogEntry.epoch (s.nodes src).log.entries = (s.nodes src).currentEpoch
  · obtain ⟨hne, hlast⟩ := hack
    have hpre := (hM.logs.node src).prefix_lead hne
    change (s.nodes src).log.entries
      <+: s.leadOf (lastEp LogEntry.epoch (s.nodes src).log.entries) at hpre
    rw [hlast] at hpre
    have hsome : (s.leaderLog (s.nodes src).currentEpoch).isSome := by
      by_contra hnone
      rw [leadOf, Option.not_isSome_iff_eq_none.mp hnone] at hpre
      exact hne (List.prefix_nil.mp hpre)
    refine ⟨_, (h.ack hsome hpre).post fun env henv => ?_, grows_ack src⟩
    rw [List.mem_singleton.mp henv]
    exact fun _ _ => .inr ⟨rfl, rfl, le_rfl⟩
  · refine ⟨g, h.post fun env henv => ?_, Grows.refl _⟩
    rw [List.mem_singleton.mp henv]
    exact fun hpos heq => absurd ⟨fun hnil => hpos (by simp [hnil]), heq⟩ hack

lemma init (voters : List ℕ) :
    CommitInv Ghost.none (Cluster.init voters fun _ => VecLog.new) where
  safe := {
    toLogInv := (MatchInv.init voters).logs
    lead_nil := fun _ _ => rfl
    base_isPrefix := fun _ _ => List.nil_prefix
    base_lt := fun _ _ a ha => by simp [view, Ghost.none] at ha
    own := fun _ he => by simp [view, Cluster.init] at he
    acked_elected := fun _ _ _ hm => by simp [view, Ghost.none] at hm
    acked_le := fun _ _ _ _ hm => by simp [view, Ghost.none] at hm
    acked_kept := fun _ _ _ hm => by simp [view, Ghost.none] at hm
    ballot := fun _ _ _ hm => by simp [view, Ghost.none] at hm
    quorum := fun _ he => by simp [view, Cluster.init] at he }
  watermark _ := ⟨le_rfl, .inl rfl⟩
  candidate _ hr := by simp [Cluster.init, Node.new] at hr
  credit _ _ _ hr := by simp [Cluster.init, Node.new] at hr
  asked _ _ _ hm := by simp [Cluster.init] at hm
  granted _ _ _ hm := by simp [Cluster.init] at hm
  fetched _ _ _ hm := by simp [Cluster.init] at hm
  answered _ _ _ hm := by simp [Cluster.init] at hm

end CommitInv

/-! ### Runs -/

namespace Cluster

variable {s : Cluster VecLog}

/-- State `t` keeps the invariant, and its leader logs have grown out of those of a state `v`. -/
def Descends (v : EpochLog.State ℕ LogEntry) (t : Cluster VecLog) : Prop :=
  t.Matched ∧ ∃ g, CommitInv g t ∧ Grows v (t.view g)

lemma step_descends {v : EpochLog.State ℕ LogEntry} (h : s.Descends v) {inp : Input}
    (hf : s.HonestFetch inp) (hok : OnTrigger KeepsCommitted s inp) : (s.step inp).Descends v := by
  refine step_preserves (P := Descends v) (c := KeepsCommitted)
    (fun s net i ev h => ?_) (fun s hs => hs.1.election.choose_spec.network_sent)
    (fun s net hnet hs => ?_) (fun s i hs => ?_) h hok (fun src dst req heq => ?_)
    (fun src dst req heq => ?_) (fun s i ev hs hi hj hc => ?_)
  · cases ev <;> exact h
  · refine ⟨⟨hs.1.election.imp fun _ hE => hE.network hnet, hs.1.recorded,
      hs.1.logs.network net⟩, hs.2.imp fun g h => ⟨?_, h.2⟩⟩
    have h := h.1
    exact ⟨h.safe, h.watermark, h.candidate, h.credit, h.asked, h.granted, h.fetched, h.answered⟩
  · refine ⟨hs.1.restart i, hs.2.imp fun g h => ?_⟩
    obtain ⟨h, hgrows⟩ := h
    obtain ⟨stood, hE⟩ := hs.1.election
    rw [hE.file_eq i]
    have hlogs := MatchInv.LogMove.follow (i := i) hs.1.logs
      (n := .new i s.voters (s.nodes i).quorumState (s.nodes i).log) le_rfl rfl
      (by simp [Node.new]) (by simp [Node.new])
    have hmove := CommitInv.CommitMove.follow h hs.1.logs hlogs rfl rfl (Nat.zero_le _)
    have := And.intro (h.move hs.1.logs hmove) (hgrows.trans hmove.grows)
    rwa [move_of_not_leader s (by simp [Node.new])] at this
  · subst heq
    obtain ⟨hmatched, g, hg, hgrows⟩ := h
    obtain ⟨g', hg', hgrows'⟩ := hg.fetch hmatched.logs hf
    exact ⟨hmatched.fetch hf, g', hg', hgrows.trans hgrows'⟩
  · subst heq
    refine ⟨h.1.step hf trivial, h.2.imp fun g hg => ⟨hg.1.post fun env henv => ?_, hg.2⟩⟩
    rw [List.mem_singleton.mp henv]
    trivial
  · obtain ⟨hmatched, g, hg, hgrows⟩ := hs
    obtain ⟨g', hg', hgrows'⟩ := hg.react hmatched hi hj hc
    exact ⟨hmatched.react hi hj hc.1, g', hg', hgrows.trans hgrows'⟩

theorem step_commitInv (h : s.Matched ∧ ∃ g, CommitInv g s) {inp : Input}
    (hf : s.HonestFetch inp) (hok : OnTrigger KeepsCommitted s inp) :
    (s.step inp).Matched ∧ ∃ g, CommitInv g (s.step inp) := by
  obtain ⟨hmatched, g, hg⟩ := h
  obtain ⟨hmatched', g', hg', -⟩ := step_descends ⟨hmatched, g, hg, Grows.refl (s.view g)⟩ hf hok
  exact ⟨hmatched', g', hg'⟩

lemma commitInv_run (h : s.Matched ∧ ∃ g, CommitInv g s) {is : List Input}
    (hf : Run.Meets step HonestFetch s is) (hok : Run.Meets step (OnTrigger KeepsCommitted) s is) :
    (s.run is).Matched ∧ ∃ g, CommitInv g (s.run is) :=
  Run.run_invariant (P := fun s : Cluster VecLog => s.Matched ∧ ∃ g, CommitInv g s)
    (fun _ _ h hok => step_commitInv h hok.1 hok.2) h (hf.and hok)

lemma init_commitInv (voters : List ℕ) : (init voters fun _ => VecLog.new).Matched ∧
    ∃ g, CommitInv g (init voters fun _ => VecLog.new) :=
  ⟨matched_init voters, _, .init voters⟩

/-- Both logs hold exactly one entry at `o`, with the same epoch and data. -/
def SameEntryAt (o : ℕ) (l l' : VecLog) : Prop :=
  ∃ a b, l.entries.filter (·.offset = o) = [a] ∧ l'.entries.filter (·.offset = o) = [b] ∧
    a.epoch = b.epoch ∧ a.data = b.data

/-- Any two nodes hold the same entries below both their watermarks. -/
def CommittedAgree (s : Cluster VecLog) : Prop :=
  ∀ i j o, o < (s.nodes i).highWatermark → o < (s.nodes j).highWatermark →
    SameEntryAt o (s.nodes i).log (s.nodes j).log

lemma committedAgree_of_commitInv (hM : MatchInv s) {g : Ghost} (h : CommitInv g s) :
    s.CommittedAgree := by
  intro i j o hi hj
  obtain ⟨hleni, hci⟩ := h.watermark i
  obtain ⟨hlenj, hcj⟩ := h.watermark j
  have hget : ∀ k, o < (s.nodes k).highWatermark →
      ((s.nodes k).log.entries.take (s.nodes k).highWatermark)[o]? = (s.nodes k).log.entries[o]? :=
    fun k hk => List.getElem?_take_of_lt hk
  have hpre : ∀ {X Y : List LogEntry}, X <+: Y → o < X.length → X[o]? = Y[o]? := by
    rintro X Y ⟨Z, rfl⟩ hlt
    rw [List.getElem?_append_left hlt]
  have heq : (s.nodes i).log.entries[o]? = (s.nodes j).log.entries[o]? := by
    rw [← hget i hi, ← hget j hj]
    rcases h.safe.committed_comparable hci hcj with hle | hle
    · exact hpre hle (by rwa [List.length_take_of_le hleni])
    · exact (hpre hle (by rwa [List.length_take_of_le hlenj])).symm
  obtain ⟨a, ha⟩ : ∃ a, (s.nodes i).log.entries[o]? = some a :=
    ⟨_, List.getElem?_eq_getElem (hi.trans_le hleni)⟩
  refine ⟨a, a, ?_, ?_, rfl, rfl⟩
  · rw [(hM.node_contiguous i).filter_eq, ha]
    rfl
  · rw [(hM.node_contiguous j).filter_eq, ← heq, ha]
    rfl

/-- Committed prefixes agree in every run in which nodes keep what is committed. -/
theorem committedAgree_of_keepsCommitted (voters : List ℕ) (is : List Input)
    (hf : Run.Meets step HonestFetch (init voters fun _ => VecLog.new) is)
    (hok : Run.Meets step (OnTrigger KeepsCommitted) (init voters fun _ => VecLog.new) is) :
    ((init voters fun _ => VecLog.new).run is).CommittedAgree := by
  have h := Run.run_invariant (P := fun s : Cluster VecLog => s.Matched ∧ ∃ g, CommitInv g s)
    (fun _ _ h hok => step_commitInv h hok.1 hok.2)
    ⟨matched_init voters, _, .init voters⟩ (hf.and hok)
  exact committedAgree_of_commitInv h.1.logs h.2.choose_spec

/-- Node 1 leads and appends, node 2 fetches and acknowledges, and both learn of the commit. -/
theorem committedAgree_one_commit :
    ((init [1, 2, 3] fun _ => VecLog.new).run
      [.electionTimeout 1, .deliver 0, .deliver 1, .propose 1 [7] 0, .fetch 2 1 ⟨1, 0, 0⟩,
        .deliver 3, .deliver 3, .fetch 2 1 ⟨1, 1, 1⟩, .deliver 3, .deliver 3,
        .fetch 2 1 ⟨1, 1, 1⟩, .deliver 3, .deliver 3]).CommittedAgree :=
  committedAgree_of_keepsCommitted _ _ (by decide) (by decide)

/-- A heartbeat of leader 2 reaches node 1, which still holds an entry of its own lost epoch. -/
theorem committedAgree_not_all_runs :
    ¬ ((init [1, 2, 3] fun _ => VecLog.new).run
      [.electionTimeout 1, .deliver 0, .deliver 1, .propose 1 [7] 0, .electionTimeout 2,
        .deliver 4, .deliver 4, .propose 2 [8] 1, .deliver 4, .fetch 3 2 ⟨2, 0, 0⟩, .deliver 5,
        .deliver 5, .fetch 3 2 ⟨2, 1, 2⟩, .deliver 5, .heartbeatTimeout 2,
        .deliver 6]).CommittedAgree := by
  intro h
  obtain ⟨a, b, ha, hb, -, -⟩ := h 1 2 0 (by decide) (by decide)
  have : ([⟨1, 0, [7]⟩, ⟨2, 0, [8]⟩] : List LogEntry) = [a] := ha
  simp at this

end Cluster

end Musil.Raft
