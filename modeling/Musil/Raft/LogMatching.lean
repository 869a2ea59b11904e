import Musil.Raft.Election
import Musil.Raft.VecLog

/-!
# Log matching

The log of the leader of an epoch is kept in the cluster's history, and every node's log is grounded
in these. The messages that move entries carry slices of a leader's log; a slice that starts where
the receiver's log ends extends it along that leader's log.
-/

namespace Musil.Raft

open EpochLog

namespace Cluster

/-- The log of the leader of epoch `e`, empty when there is none. -/
def leadOf (s : Cluster VecLog) (e : ℕ) : List LogEntry :=
  ((s.leaderLog e).map (·.entries)).getD []

/-- What the cluster does not record of an epoch-log state. -/
structure Ghost where
  base : ℕ → List LogEntry
  acked : Set (ℕ × ℕ × ℕ)
  ballots : Set (ℕ × ℕ × List LogEntry)

def Ghost.none : Ghost := ⟨fun _ => [], ∅, ∅⟩

def view (s : Cluster VecLog) (g : Ghost) : EpochLog.State ℕ LogEntry where
  epoch i := (s.nodes i).currentEpoch
  log i := (s.nodes i).log.entries
  lead := s.leadOf
  elected := {e | (s.leaderLog e).isSome}
  base := g.base
  acked := g.acked
  ballots := g.ballots

/-! ### Conditions -/

/-- A fetch request carries its sender's epoch, log end offset and last epoch. -/
def HonestFetch (s : Cluster VecLog) : Input → Prop
  | .fetch src _ req => req = ⟨(s.nodes src).currentEpoch,
      RaftLog.logEndOffset (s.nodes src).log, RaftLog.lastEpoch (s.nodes src).log⟩
  | _ => True

instance (s : Cluster VecLog) (inp : Input) : Decidable (s.HonestFetch inp) := by
  cases inp <;> unfold HonestFetch <;> infer_instance

/-- The entries a follower appends are of its own epoch's leader and start where its log ends. -/
def AppendsInPlace (s : Cluster VecLog) (i : ℕ) : Event → Prop
  | .fetchResponse _ resp =>
    (s.nodes i).role = .follower → resp.epoch ≤ (s.nodes i).currentEpoch →
      resp.diverging = none → ∀ a ∈ resp.entries.head?,
        resp.epoch = (s.nodes i).currentEpoch ∧
          a.offset = RaftLog.logEndOffset (s.nodes i).log
  | _ => True

instance (s : Cluster VecLog) (i : ℕ) : (ev : Event) → Decidable (s.AppendsInPlace i ev)
  | .fetchResponse _ _ => inferInstanceAs (Decidable (_ → _ → _ → ∀ a ∈ _, _ ∧ _))
  | .electionTimeout | .heartbeatTimeout | .voteRequest _ _ | .voteResponse _ _
  | .beginQuorumEpoch _ _ | .endQuorumEpoch _ _ | .fetchRequest _ _ | .propose _ _ =>
    .isTrue trivial

/-! ### The invariant -/

/-- Node `v` has reached epoch `e`, and while it is there its log is a part of that leader's. -/
def Aligned (s : Cluster VecLog) (v e : ℕ) : Prop :=
  e ≤ (s.nodes v).currentEpoch ∧
    ((s.nodes v).currentEpoch = e → (s.nodes v).log.entries <+: s.leadOf e)

/-- `F` is the log with which `v` sent the fetch request `req`. -/
structure Snapshot (s : Cluster VecLog) (v : ℕ) (req : FetchRequest) (F : List LogEntry) :
    Prop where
  grounded : Grounded LogEntry.epoch s.leadOf F
  length : F.length = req.fetchOffset
  last : lastEp LogEntry.epoch F = req.lastFetchedEpoch
  reached : req.epoch ≤ (s.nodes v).currentEpoch
  kept : (s.nodes v).currentEpoch = req.epoch →
    (s.nodes v).log.entries <+: F ∨ (s.nodes v).log.entries <+: s.leadOf req.epoch

/-- The entries of a fetch response are a slice of the leader's log that the receiver can use. -/
def Slice (s : Cluster VecLog) (w : ℕ) (resp : FetchResponse) : Prop :=
  resp.entries = [] ∨ ∃ f m, resp.entries = ((s.leadOf resp.epoch).take m).drop f ∧
    (f = 0 ∨ s.Aligned w resp.epoch)

/-- A request that passes the divergence check was sent with a part of the leader's log. -/
lemma Snapshot.prefix_of_check {s : Cluster VecLog} {v : ℕ} {req : FetchRequest}
    {F : List LogEntry} (hF : s.Snapshot v req F) {l : VecLog} (hcont : Contiguous l.entries)
    (hl : Grounded LogEntry.epoch s.leadOf l.entries) (hpos : req.fetchOffset ≠ 0)
    (hcheck : RaftLog.epochAt l (req.fetchOffset - 1) = some req.lastFetchedEpoch) :
    F <+: l.entries := by
  rw [VecLog.epochAt_eq hcont, Option.map_eq_some_iff] at hcheck
  obtain ⟨a, ha, hep⟩ := hcheck
  have hlen : req.fetchOffset ≤ l.entries.length := by
    have := (List.getElem?_eq_some_iff.mp ha).1
    omega
  have htake : l.entries.take req.fetchOffset = l.entries.take (req.fetchOffset - 1) ++ [a] := by
    have := List.take_add_one (i := req.fetchOffset - 1) (l := l.entries)
    rw [ha, Nat.sub_add_cancel (Nat.pos_of_ne_zero hpos)] at this
    exact this
  have heq : F = l.entries.take req.fetchOffset := by
    refine hF.grounded.eq_of_last (hl.of_isPrefix (List.take_prefix _ _)) ?_ ?_
    · rw [hF.length, List.length_take_of_le hlen]
    · rw [hF.last, htake, lastEp_concat, hep]
  rw [heq]
  exact List.take_prefix _ _

end Cluster

structure MatchInv (s : Cluster VecLog) : Prop where
  logs : LogInv LogEntry.epoch (s.view .none)
  node_contiguous : ∀ i, Contiguous (s.nodes i).log.entries
  leader_contiguous : ∀ e, Contiguous (s.leadOf e)
  led : ∀ e i, (e, i) ∈ s.leaders →
    e ≤ (s.nodes i).currentEpoch ∧ ((s.nodes i).currentEpoch = e → (s.nodes i).role ≠ .candidate)
  led_by : ∀ e, (s.leaderLog e).isSome → ∃ i, (e, i) ∈ s.leaders
  leading : ∀ i, (s.nodes i).role = .leader →
    s.leaderLog (s.nodes i).currentEpoch = some (s.nodes i).log
  request : ∀ v w req, ⟨v, w, .fetchRequest req⟩ ∈ s.sent → ∃ F, s.Snapshot v req F
  credit : ∀ i v f, (s.nodes i).role = .leader → (s.nodes i).voterFetchOffsets.lookup v = some f →
    f = 0 ∨ s.Aligned v (s.nodes i).currentEpoch
  response : ∀ v w resp, ⟨v, w, .fetchResponse resp⟩ ∈ s.sent → s.Slice w resp

namespace MatchInv

variable {s : Cluster VecLog}

lemma leadOf_leading (h : MatchInv s) {i : ℕ} (hi : (s.nodes i).role = .leader) :
    s.leadOf (s.nodes i).currentEpoch = (s.nodes i).log.entries := by
  simp [Cluster.leadOf, h.leading i hi]

lemma init (voters : List ℕ) : MatchInv (Cluster.init voters fun _ => VecLog.new) where
  logs := ⟨fun _ => grounded_nil, fun _ => grounded_nil,
    fun _ _ ha => by simp [Cluster.view, Cluster.init, Node.new, VecLog.new] at ha,
    fun _ _ ha => by simp [Cluster.view, Cluster.leadOf, Cluster.init] at ha⟩
  node_contiguous _ := contiguous_nil
  leader_contiguous _ := contiguous_nil
  led _ _ hm := by simp [Cluster.init] at hm
  led_by _ hm := by simp [Cluster.init] at hm
  leading _ hr := by simp [Cluster.init, Node.new] at hr
  request _ _ _ hm := by simp [Cluster.init] at hm
  credit _ _ _ hr := by simp [Cluster.init, Node.new] at hr
  response _ _ _ hm := by simp [Cluster.init] at hm

/-! ### Moves that preserve the invariant -/

section Move

variable {i : ℕ} {n : Node VecLog}

lemma leadOf_move_of_leader (hr : n.role = .leader) :
    (s.move i n).leadOf = Function.update s.leadOf n.currentEpoch n.log.entries := by
  funext e
  rw [Cluster.leadOf, Cluster.move_leaderLog s hr]
  rcases eq_or_ne e n.currentEpoch with rfl | he
  · simp
  · simp [he, Cluster.leadOf]

lemma leadOf_move_of_not_leader (hr : n.role ≠ .leader) : (s.move i n).leadOf = s.leadOf := by
  rw [Cluster.move_of_not_leader s hr]
  rfl

lemma leadOf_move_cases (e : ℕ) :
    (s.move i n).leadOf e = n.log.entries ∧ n.role = .leader ∧ e = n.currentEpoch ∨
      (s.move i n).leadOf e = s.leadOf e := by
  by_cases hr : n.role = .leader
  · rw [leadOf_move_of_leader hr]
    rcases eq_or_ne e n.currentEpoch with rfl | he
    · exact .inl ⟨Function.update_self _ _ _, hr, rfl⟩
    · exact .inr (Function.update_of_ne he _ _)
  · exact .inr (by rw [leadOf_move_of_not_leader hr])

/-- Leaders' logs only grow. -/
lemma leadOf_move (hpre : n.role = .leader → s.leadOf n.currentEpoch <+: n.log.entries) (e : ℕ) :
    s.leadOf e <+: (s.move i n).leadOf e := by
  by_cases hr : n.role = .leader
  · rw [leadOf_move_of_leader hr]
    exact LogInv.prefix_update (hpre hr) e
  · rw [leadOf_move_of_not_leader hr]

/-- The reaction of a node, as far as logs are concerned. Within an epoch a log shrinks, or it is a
part of that leader's log. -/
structure LogMove (s : Cluster VecLog) (i : ℕ) (n : Node VecLog) : Prop where
  epoch : (s.nodes i).currentEpoch ≤ n.currentEpoch
  candidate : n.role = .candidate → (s.nodes i).currentEpoch = n.currentEpoch →
    (s.nodes i).role = .candidate
  extends_lead : n.role = .leader → s.leadOf n.currentEpoch <+: n.log.entries
  alone : n.role = .leader → ∀ j ≠ i, (s.nodes j).role = .leader →
    (s.nodes j).currentEpoch ≠ n.currentEpoch
  grounded : Grounded LogEntry.epoch (s.move i n).leadOf n.log.entries
  bounded : ∀ a ∈ n.log.entries, a.epoch ≤ n.currentEpoch
  contiguous : Contiguous n.log.entries
  within : (s.nodes i).currentEpoch = n.currentEpoch →
    n.log.entries <+: (s.nodes i).log.entries ∨
      n.log.entries <+: (s.move i n).leadOf n.currentEpoch
  credit : n.role = .leader → ∀ v f, n.voterFetchOffsets.lookup v = some f →
    f = 0 ∨ s.Aligned v n.currentEpoch

lemma LogMove.aligned (hm : LogMove s i n) {v e : ℕ} (h : s.Aligned v e) :
    (s.move i n).Aligned v e := by
  obtain ⟨hle, hlog⟩ := h
  rcases eq_or_ne v i with rfl | hvi
  · rw [Cluster.Aligned, Cluster.move_nodes_self]
    refine ⟨hle.trans hm.epoch, ?_⟩
    rintro rfl
    have heq := hm.epoch.antisymm hle
    rcases hm.within heq with hsub | hsub
    · exact hsub.trans ((hlog heq).trans (leadOf_move hm.extends_lead _))
    · exact hsub
  · rw [Cluster.Aligned, Cluster.move_nodes_of_ne s hvi]
    exact ⟨hle, fun he => (hlog he).trans (leadOf_move hm.extends_lead e)⟩

lemma LogMove.snapshot (hm : LogMove s i n) {v : ℕ} {req : FetchRequest} {F : List LogEntry}
    (h : s.Snapshot v req F) : (s.move i n).Snapshot v req F := by
  have hgrows := leadOf_move (i := i) hm.extends_lead
  rcases eq_or_ne v i with rfl | hvi
  · refine ⟨h.grounded.mono hgrows, h.length, h.last, ?_, ?_⟩
    · rw [Cluster.move_nodes_self]
      exact h.reached.trans hm.epoch
    · rw [Cluster.move_nodes_self]
      intro he
      have heq := hm.epoch.antisymm (he ▸ h.reached)
      rcases hm.within heq with hsub | hsub
      · exact (h.kept (heq.trans he)).imp hsub.trans fun hl => hsub.trans (hl.trans (hgrows _))
      · exact .inr (he ▸ hsub)
  · refine ⟨h.grounded.mono hgrows, h.length, h.last, ?_, ?_⟩
    · rw [Cluster.move_nodes_of_ne s hvi]
      exact h.reached
    · rw [Cluster.move_nodes_of_ne s hvi]
      exact fun he => (h.kept he).imp_right fun hl => hl.trans (hgrows _)

lemma take_drop_of_isPrefix {X Y : List LogEntry} (h : X <+: Y) (m f : ℕ) :
    (X.take m).drop f = (Y.take (min m X.length)).drop f := by
  obtain ⟨Z, rfl⟩ := h
  rw [List.take_append_of_le_length (min_le_right _ _), ← List.take_eq_take_min]

lemma LogMove.slice (hm : LogMove s i n) {w : ℕ} {resp : FetchResponse} (h : s.Slice w resp) :
    (s.move i n).Slice w resp := by
  rcases h with h | ⟨f, m, h, hal⟩
  · exact .inl h
  · refine .inr ⟨f, min m (s.leadOf resp.epoch).length, ?_, hal.imp_right hm.aligned⟩
    rw [h, take_drop_of_isPrefix (leadOf_move hm.extends_lead resp.epoch)]

lemma LogMove.logs (hm : LogMove s i n) (h : LogInv LogEntry.epoch (s.view .none)) :
    LogInv LogEntry.epoch ((s.move i n).view .none) where
  node j := by
    change Grounded LogEntry.epoch (s.move i n).leadOf ((s.move i n).nodes j).log.entries
    rcases eq_or_ne j i with rfl | hji
    · rw [Cluster.move_nodes_self]
      exact hm.grounded
    · rw [Cluster.move_nodes_of_ne s hji]
      exact (h.node j).mono (leadOf_move hm.extends_lead)
  leader e := by
    change Grounded LogEntry.epoch (s.move i n).leadOf ((s.move i n).leadOf e)
    rcases leadOf_move_cases (s := s) (i := i) (n := n) e with ⟨heq, -⟩ | heq
    · rw [heq]
      exact hm.grounded
    · rw [heq]
      exact (h.leader e).mono (leadOf_move hm.extends_lead)
  node_le j a ha := by
    change a ∈ ((s.move i n).nodes j).log.entries at ha
    change a.epoch ≤ ((s.move i n).nodes j).currentEpoch
    rcases eq_or_ne j i with rfl | hji
    · rw [Cluster.move_nodes_self] at ha ⊢
      exact hm.bounded a ha
    · rw [Cluster.move_nodes_of_ne s hji] at ha ⊢
      exact h.node_le j a ha
  leader_le e a ha := by
    change a ∈ (s.move i n).leadOf e at ha
    rcases leadOf_move_cases (s := s) (i := i) (n := n) e with ⟨heq, -, rfl⟩ | heq
    · rw [heq] at ha
      exact hm.bounded a ha
    · rw [heq] at ha
      exact h.leader_le e a ha

/-- Whoever has led an epoch is no candidate in it. -/
lemma LogMove.led (hm : LogMove s i n) (h : MatchInv s) {e j : ℕ}
    (hj : (e, j) ∈ (s.move i n).leaders) : e ≤ ((s.move i n).nodes j).currentEpoch ∧
      (((s.move i n).nodes j).currentEpoch = e →
        ((s.move i n).nodes j).role ≠ .candidate) := by
  have hj : (e, j) ∈ s.leaders ∨ n.role = .leader ∧ e = n.currentEpoch ∧ j = i := by
    by_cases hr : n.role = .leader
    · rw [Cluster.move_leaders s hr, List.mem_cons, Prod.mk.injEq] at hj
      exact hj.symm.imp_right fun hj => ⟨hr, hj⟩
    · rw [Cluster.move_of_not_leader s hr] at hj
      exact .inl hj
  rcases hj with hj | ⟨hr, rfl, rfl⟩
  · obtain ⟨hle, hcand⟩ := h.led e j hj
    rcases eq_or_ne j i with rfl | hji
    · rw [Cluster.move_nodes_self]
      refine ⟨hle.trans hm.epoch, ?_⟩
      rintro rfl hc
      have heq := hm.epoch.antisymm hle
      exact hcand heq (hm.candidate hc heq)
    · rw [Cluster.move_nodes_of_ne s hji]
      exact ⟨hle, hcand⟩
  · rw [Cluster.move_nodes_self]
    exact ⟨le_rfl, fun _ => by simp [hr]⟩

lemma LogMove.leading (hm : LogMove s i n) (h : MatchInv s) {j : ℕ}
    (hj : ((s.move i n).nodes j).role = .leader) :
    (s.move i n).leaderLog ((s.move i n).nodes j).currentEpoch
      = some ((s.move i n).nodes j).log := by
  rcases eq_or_ne j i with rfl | hji
  · rw [Cluster.move_nodes_self] at hj ⊢
    rw [Cluster.move_leaderLog s hj, Function.update_self]
  · rw [Cluster.move_nodes_of_ne s hji] at hj ⊢
    by_cases hr : n.role = .leader
    · rw [Cluster.move_leaderLog s hr, Function.update_of_ne (hm.alone hr j hji hj)]
      exact h.leading j hj
    · rw [Cluster.move_of_not_leader s hr]
      exact h.leading j hj

/-- Every reaction of this kind preserves the invariant. -/
theorem move (h : MatchInv s) (hm : LogMove s i n) : MatchInv (s.move i n) where
  logs := hm.logs h.logs
  node_contiguous j := by
    rcases eq_or_ne j i with rfl | hji
    · rw [Cluster.move_nodes_self]
      exact hm.contiguous
    · rw [Cluster.move_nodes_of_ne s hji]
      exact h.node_contiguous j
  leader_contiguous e := by
    rcases leadOf_move_cases (s := s) (i := i) (n := n) e with ⟨heq, -⟩ | heq
    · rw [heq]
      exact hm.contiguous
    · rw [heq]
      exact h.leader_contiguous e
  led e j hj := hm.led h hj
  led_by e he := by
    by_cases hr : n.role = .leader
    · rw [Cluster.move_leaderLog s hr] at he
      rw [Cluster.move_leaders s hr]
      rcases eq_or_ne e n.currentEpoch with rfl | hne
      · exact ⟨i, List.mem_cons_self⟩
      · rw [Function.update_of_ne hne] at he
        exact (h.led_by e he).imp fun j hj => List.mem_cons_of_mem _ hj
    · rw [Cluster.move_of_not_leader s hr] at he ⊢
      exact h.led_by e he
  leading j hj := hm.leading h hj
  request v w req hsent := by
    rw [Cluster.move_sent] at hsent
    exact (h.request v w req hsent).imp fun F hF => hm.snapshot hF
  credit j v f hj hf := by
    rcases eq_or_ne j i with rfl | hji
    · rw [Cluster.move_nodes_self] at hj hf ⊢
      exact (hm.credit hj v f hf).imp_right hm.aligned
    · rw [Cluster.move_nodes_of_ne s hji] at hj hf ⊢
      exact (h.credit j v f hj hf).imp_right hm.aligned
  response v w resp hsent := by
    rw [Cluster.move_sent] at hsent
    exact hm.slice (h.response v w resp hsent)

end Move

lemma post (h : MatchInv s) {out : List Envelope}
    (hreq : ∀ v w req, ⟨v, w, .fetchRequest req⟩ ∈ out → ∃ F, s.Snapshot v req F)
    (hresp : ∀ v w resp, ⟨v, w, .fetchResponse resp⟩ ∈ out → s.Slice w resp) :
    MatchInv (s.post out) :=
  { h with
    logs := h.logs
    request := fun v w req hm => by
      rw [Cluster.post_sent, List.mem_append] at hm
      exact (hm.elim (h.request v w req) (hreq v w req)).imp fun F hF =>
        ⟨hF.grounded, hF.length, hF.last, hF.reached, hF.kept⟩
    response := fun v w resp hm => by
      rw [Cluster.post_sent, List.mem_append] at hm
      exact hm.elim (h.response v w resp) (hresp v w resp) }

lemma network (h : MatchInv s) (net : List Envelope) : MatchInv { s with network := net } :=
  { h with
    logs := h.logs
    request := fun v w req hm => (h.request v w req hm).imp fun _ hF =>
      ⟨hF.grounded, hF.length, hF.last, hF.reached, hF.kept⟩ }

/-! ### The reactions are such moves -/

section Reactions

variable {i : ℕ} {n : Node VecLog}

/-- A node that does not lead. -/
lemma LogMove.of_not_leader (hepoch : (s.nodes i).currentEpoch ≤ n.currentEpoch)
    (hrole : n.role ≠ .leader)
    (hcand : n.role = .candidate → (s.nodes i).currentEpoch = n.currentEpoch →
      (s.nodes i).role = .candidate)
    (hgrounded : Grounded LogEntry.epoch s.leadOf n.log.entries)
    (hbounded : ∀ a ∈ n.log.entries, a.epoch ≤ n.currentEpoch)
    (hcontiguous : Contiguous n.log.entries)
    (hwithin : n.log.entries <+: (s.nodes i).log.entries ∨
      n.log.entries <+: s.leadOf n.currentEpoch) : LogMove s i n where
  epoch := hepoch
  candidate := hcand
  extends_lead hr := absurd hr hrole
  alone hr := absurd hr hrole
  grounded := by rwa [leadOf_move_of_not_leader hrole]
  bounded := hbounded
  contiguous := hcontiguous
  within _ := by rwa [leadOf_move_of_not_leader hrole]
  credit hr := absurd hr hrole

/-- A node that keeps its log and does not lead. -/
lemma LogMove.follow (h : MatchInv s) (hepoch : (s.nodes i).currentEpoch ≤ n.currentEpoch)
    (hlog : n.log = (s.nodes i).log) (hrole : n.role ≠ .leader)
    (hcand : n.role = .candidate → (s.nodes i).currentEpoch = n.currentEpoch →
      (s.nodes i).role = .candidate) : LogMove s i n := by
  refine .of_not_leader hepoch hrole hcand ?_ ?_ ?_ ?_ <;> rw [hlog]
  · exact h.logs.node i
  · exact fun a ha => (h.logs.node_le i a ha).trans hepoch
  · exact h.node_contiguous i
  · exact .inl (List.prefix_refl _)

/-- A leader that keeps its log: the leader's log of its epoch is a part of it. -/
lemma LogMove.lead (h : MatchInv s) (hepoch : (s.nodes i).currentEpoch ≤ n.currentEpoch)
    (hlog : n.log = (s.nodes i).log) (hrole : n.role = .leader)
    (hpre : s.leadOf n.currentEpoch <+: n.log.entries)
    (halone : ∀ j ≠ i, (s.nodes j).role = .leader → (s.nodes j).currentEpoch ≠ n.currentEpoch)
    (hcredit : ∀ v f, n.voterFetchOffsets.lookup v = some f →
      f = 0 ∨ s.Aligned v n.currentEpoch) : LogMove s i n where
  epoch := hepoch
  candidate hr := by simp [hrole] at hr
  extends_lead _ := hpre
  alone _ := halone
  grounded := by
    have := (h.logs.node i).mono (leadOf_move (i := i) fun _ => hpre)
    rw [hlog]
    exact this
  bounded a ha := by
    rw [hlog] at ha
    exact (h.logs.node_le i a ha).trans hepoch
  contiguous := hlog ▸ h.node_contiguous i
  within _ := .inl (hlog ▸ List.prefix_refl _)
  credit _ := hcredit

/-- Two logs agree up to the offset where a follower appends. -/
lemma append_slice {X Y es : List LogEntry} {f m : ℕ} (hY : Contiguous Y)
    (hes : es = (Y.take m).drop f) {a : LogEntry} (ha : a ∈ es.head?)
    (hoff : a.offset = X.length) (hX : f = 0 ∨ X <+: Y) : X ++ es = Y.take m := by
  have hf : a.offset = f := by
    rw [hes, List.head?_drop, Option.mem_def] at ha
    obtain ⟨hlt, rfl⟩ := List.getElem?_eq_some_iff.mp ha
    exact (hY.take m).offset_getElem hlt
  have hlen : X.length = f := hoff.symm.trans hf
  have htake : X = (Y.take m).take f := by
    rcases hX with rfl | hX
    · rw [List.length_eq_zero_iff.mp hlen, List.take_zero]
    · have hfm : f < (Y.take m).length := by
        rw [hes, List.head?_drop, Option.mem_def] at ha
        exact (List.getElem?_eq_some_iff.mp ha).1
      rw [List.length_take] at hfm
      rw [List.take_take, min_eq_left (by omega), ← hlen]
      exact List.prefix_iff_eq_take.mp hX
  rw [hes, htake]
  exact List.take_append_drop f _

lemma adopted_log (m : Node VecLog) (resp : FetchResponse) :
    (m.adopted resp).log.entries = m.log.entries ++ resp.entries :=
  VecLog.foldl_append_entries m.log resp.entries

/-- A follower that appends in place. -/
lemma LogMove.appends (h : MatchInv s) {resp : FetchResponse} (hslice : s.Slice i resp)
    (hrole : (s.nodes i).role = .follower)
    (hplace : ∀ a ∈ resp.entries.head?, resp.epoch = (s.nodes i).currentEpoch ∧
      a.offset = RaftLog.logEndOffset (s.nodes i).log) :
    LogMove s i ((s.nodes i).adopted resp) := by
  have hepoch : ((s.nodes i).adopted resp).currentEpoch = (s.nodes i).currentEpoch := by
    unfold Node.adopted
    split_ifs <;> rfl
  have hnrole : ((s.nodes i).adopted resp).role = .follower := by
    unfold Node.adopted
    split_ifs <;> exact hrole
  -- either nothing is appended, or the log becomes a part of the leader's
  have hlog : ((s.nodes i).adopted resp).log.entries = (s.nodes i).log.entries ∨
      ∃ m, ((s.nodes i).adopted resp).log.entries
        = (s.leadOf (s.nodes i).currentEpoch).take m := by
    rw [adopted_log]
    rcases hslice with hnil | ⟨f, m, hes, hal⟩
    · exact .inl (by rw [hnil, List.append_nil])
    · cases hhead : resp.entries.head? with
      | none => exact .inl (by rw [List.head?_eq_none_iff.mp hhead, List.append_nil])
      | some a =>
        obtain ⟨he, hoff⟩ := hplace a hhead
        rw [VecLog.logEndOffset_eq (h.node_contiguous i)] at hoff
        rw [he] at hes hal
        exact .inr ⟨m, append_slice (h.leader_contiguous _) hes hhead hoff
          (hal.imp_right fun hal => hal.2 rfl)⟩
  refine .of_not_leader hepoch.ge (by simp [hnrole]) (fun hr => by simp [hnrole] at hr) ?_ ?_ ?_ ?_
  · rcases hlog with hlog | ⟨m, hlog⟩ <;> rw [hlog]
    · exact h.logs.node i
    · exact (h.logs.leader _).of_isPrefix (List.take_prefix _ _)
  · intro a ha
    rw [hepoch]
    rcases hlog with hlog | ⟨m, hlog⟩ <;> rw [hlog] at ha
    · exact h.logs.node_le i a ha
    · exact h.logs.leader_le _ a (List.mem_of_mem_take ha)
  · rcases hlog with hlog | ⟨m, hlog⟩ <;> rw [hlog]
    · exact h.node_contiguous i
    · exact (h.leader_contiguous _).take m
  · rcases hlog with hlog | ⟨m, hlog⟩ <;> rw [hlog]
    · exact .inl (List.prefix_refl _)
    · rw [hepoch]
      exact .inr (List.take_prefix _ _)

/-- A follower that cuts its log. -/
lemma LogMove.truncates (h : MatchInv s) (o : ℕ) (hrole : (s.nodes i).role = .follower) :
    LogMove s i { s.nodes i with log := RaftLog.truncate (s.nodes i).log o } := by
  have hlog : (RaftLog.truncate (s.nodes i).log o).entries <+: (s.nodes i).log.entries := by
    rw [VecLog.truncate_entries (h.node_contiguous i)]
    exact List.take_prefix _ _
  exact .of_not_leader le_rfl (by simp [hrole]) (fun hr _ => hr)
    ((h.logs.node i).of_isPrefix hlog) (fun a ha => h.logs.node_le i a (hlog.subset ha))
    ((h.node_contiguous i).of_isPrefix hlog) (.inl hlog)

/-- A leader that appends an entry of its own. -/
lemma LogMove.proposes (h : MatchInv s) (data : List UInt8) (proposeId : ℕ)
    (hrole : (s.nodes i).role = .leader)
    (halone : ∀ j ≠ i, (s.nodes j).role = .leader →
      (s.nodes j).currentEpoch ≠ (s.nodes i).currentEpoch) :
    LogMove s i ((s.nodes i).proposed data proposeId) := by
  have hpre : s.leadOf (s.nodes i).currentEpoch
      <+: ((s.nodes i).proposed data proposeId).log.entries := by
    rw [h.leadOf_leading hrole]
    exact List.prefix_append _ _
  have hlead : (s.move i ((s.nodes i).proposed data proposeId)).leadOf (s.nodes i).currentEpoch
      = ((s.nodes i).proposed data proposeId).log.entries := by
    rw [leadOf_move_of_leader (n := (s.nodes i).proposed data proposeId) hrole]
    exact Function.update_self _ _ _
  exact {
    epoch := le_rfl
    candidate := fun hr _ => hr
    extends_lead := fun _ => hpre
    alone := fun _ => halone
    credit := fun hr v f => h.credit i v f hr
    grounded := by
      have hmono := (h.logs.node i).mono
        (leadOf_move (i := i) (n := (s.nodes i).proposed data proposeId) fun _ => hpre)
      exact hmono.concat (hlead ▸ List.prefix_refl _)
    bounded := fun a ha => by
      rcases List.mem_append.mp ha with ha | ha
      · exact h.logs.node_le i a ha
      · rw [List.mem_singleton.mp ha]
        exact le_rfl
    contiguous := (h.node_contiguous i).concat
      (VecLog.logEndOffset_eq (h.node_contiguous i))
    within := fun _ => .inr (hlead ▸ List.prefix_refl _) }

/-- A leader that has just been elected, or one that only notes where its followers are. -/
lemma LogMove.of_leader (h : MatchInv s) (hepoch : (s.nodes i).currentEpoch ≤ n.currentEpoch)
    (hlog : n.log = (s.nodes i).log) (hrole : n.role = .leader)
    (halone : ∀ j ≠ i, (s.nodes j).role = .leader → (s.nodes j).currentEpoch ≠ n.currentEpoch)
    (hnew : s.leaderLog n.currentEpoch = none ∨
      (s.nodes i).role = .leader ∧ n.currentEpoch = (s.nodes i).currentEpoch)
    (hcredit : ∀ v f, n.voterFetchOffsets.lookup v = some f →
      f = 0 ∨ s.Aligned v n.currentEpoch) : LogMove s i n := by
  refine .lead h hepoch hlog hrole ?_ halone hcredit
  rcases hnew with hnone | ⟨hlead, heq⟩
  · simp [Cluster.leadOf, hnone]
  · rw [heq, h.leadOf_leading hlead, hlog]

/-- What the divergence check lets through comes from a follower in line with the leader. -/
lemma aligned_of_check (h : MatchInv s) {c : ℕ} {req : FetchRequest}
    (hsent : ⟨c, i, .fetchRequest req⟩ ∈ s.sent) (hrole : (s.nodes i).role = .leader)
    (hepoch : req.epoch = (s.nodes i).currentEpoch)
    (hdiv : (s.nodes i).checkDivergence req.fetchOffset req.lastFetchedEpoch = none) :
    req.fetchOffset = 0 ∨ s.Aligned c (s.nodes i).currentEpoch := by
  refine or_iff_not_imp_left.mpr fun hpos => ?_
  unfold Node.checkDivergence at hdiv
  rw [if_neg hpos] at hdiv
  split_ifs at hdiv with hcheck
  obtain ⟨F, hF⟩ := h.request c i req hsent
  have hpre := hF.prefix_of_check (h.node_contiguous i) (h.logs.node i) hpos hcheck
  rw [← h.leadOf_leading hrole] at hpre
  rw [← hepoch] at hpre ⊢
  exact ⟨hF.reached, fun he => (hF.kept he).elim (fun hl => hl.trans hpre) id⟩

/-- Every reaction moves logs in the way described. -/
theorem logMove_of_reacts (h : MatchInv s) {ev : Event} {out : List Envelope}
    (hj : s.Justified i ev) (hc : s.AppendsInPlace i ev)
    (hreacts : Reacts i (s.nodes i) ev n out)
    (halone : n.role = .leader → ∀ j ≠ i, (s.nodes j).role = .leader →
      (s.nodes j).currentEpoch ≠ n.currentEpoch)
    (hnew : n.role = .leader → s.leaderLog n.currentEpoch = none ∨
      (s.nodes i).role = .leader ∧ n.currentEpoch = (s.nodes i).currentEpoch) :
    LogMove s i n := by
  -- reactions that leave epoch, role, log and fetch offsets alone
  have hkeep : ∀ m : Node VecLog, m.currentEpoch = (s.nodes i).currentEpoch →
      m.role = (s.nodes i).role → m.log = (s.nodes i).log →
      (∀ v f, (s.nodes i).role = .leader → m.voterFetchOffsets.lookup v = some f →
        f = 0 ∨ s.Aligned v (s.nodes i).currentEpoch) →
      (m.role = .leader → ∀ j ≠ i, (s.nodes j).role = .leader →
        (s.nodes j).currentEpoch ≠ m.currentEpoch) → LogMove s i m := by
    intro m he hr hl hcredit halone
    by_cases hlead : m.role = .leader
    · exact .of_leader h he.ge hl hlead (halone hlead) (.inr ⟨hr ▸ hlead, he⟩)
        fun v f hf => he ▸ hcredit v f (hr ▸ hlead) hf
    · exact .follow h he.ge hl hlead fun hm _ => hr ▸ hm
  have hdown : ∀ {m : Node VecLog}, (s.nodes i).currentEpoch ≤ m.currentEpoch →
      m.role = .follower → m.log = (s.nodes i).log → LogMove s i m := by
    intro m he hr hl
    exact .follow h he hl (by simp [hr]) fun hc => by simp [hr] at hc
  cases hreacts with
  | ignores | heartbeats | deniesStale | answersEmpty | diverges | counts =>
    exact hkeep _ rfl rfl rfl (fun v f => h.credit i v f) halone
  | stands =>
    exact .follow h (Nat.le_succ _) rfl (by simp [Node.standing])
      fun _ he => absurd he (Nat.succ_ne_self _).symm
  | standsAlone =>
    exact .of_leader h (Nat.le_succ _) rfl rfl (halone rfl) (hnew rfl)
      fun v f hf => .inl (Node.of_lookup_becomeLeader hf).2
  | wins =>
    exact .of_leader h le_rfl rfl rfl (halone rfl) (hnew rfl)
      fun v f hf => .inl (Node.of_lookup_becomeLeader hf).2
  | denies c req hepoch =>
    unfold Node.joined at halone ⊢
    split_ifs at halone ⊢ with hlt
    · exact hdown hlt.le rfl rfl
    · exact hkeep _ rfl rfl rfl (fun v f => h.credit i v f) halone
  | grants c req hepoch hvote hlog =>
    unfold Node.joined at halone ⊢
    split_ifs at halone ⊢ with hlt
    · exact hdown hlt.le rfl rfl
    · exact hkeep _ rfl rfl rfl (fun v f => h.credit i v f) halone
  | outvoted c resp hepoch => exact hdown hepoch.le rfl rfl
  | follows c req hepoch => exact hdown hepoch rfl rfl
  | released c req hepoch => exact hdown hepoch rfl rfl
  | overtaken c req hepoch => exact hdown hepoch.le rfl rfl
  | superseded c resp hepoch => exact hdown hepoch.le rfl rfl
  | serves c req hepoch hrole hdiv =>
    obtain ⟨hwm, pending, hserved⟩ := (s.nodes i).served_eq c req.fetchOffset
    rw [hserved] at halone ⊢
    refine hkeep _ rfl rfl rfl (fun v f _ hf => ?_) halone
    rcases Node.of_lookup_credited hf with hf | ⟨rfl, -, rfl⟩
    · exact h.credit i v f hrole hf
    · exact h.aligned_of_check hj hrole hepoch hdiv
  | truncates c resp d hepoch hrole hdiv => exact .truncates h d.endOffset hrole
  | appends c resp hepoch hrole hdiv =>
    exact .appends h (h.response c i resp hj) hrole (hc hrole hepoch hdiv)
  | proposes data proposeId hrole => exact .proposes h data proposeId hrole (halone hrole)

/-- The entries a reaction sends are slices of the leader's log, and it sends no fetch request. -/
theorem messages_of_reacts (h : MatchInv s) {ev : Event} {out : List Envelope}
    (hj : s.Justified i ev) (hreacts : Reacts i (s.nodes i) ev n out) :
    (∀ v w req, ⟨v, w, .fetchRequest req⟩ ∉ out) ∧
      ∀ v w resp, ⟨v, w, .fetchResponse resp⟩ ∈ out → s.Slice w resp := by
  have hslice : (s.nodes i).role = .leader → ∀ f w hwm, f = 0 ∨
      s.Aligned w (s.nodes i).currentEpoch → s.Slice w
        ⟨(s.nodes i).currentEpoch, hwm, (s.nodes i).entriesFrom f, none⟩ := by
    intro hrole f w hwm hf
    refine .inr ⟨f, RaftLog.logEndOffset (s.nodes i).log, ?_, hf⟩
    rw [h.leadOf_leading hrole]
    exact VecLog.entries_eq (h.node_contiguous i) f _
  cases hreacts with
  | serves c req hepoch hrole hdiv =>
    refine ⟨by simp, fun v w resp hm => ?_⟩
    simp only [List.mem_singleton, Envelope.mk.injEq, RaftMessage.fetchResponse.injEq] at hm
    obtain ⟨-, rfl, rfl⟩ := hm
    exact hslice hrole _ _ _ (h.aligned_of_check hj hrole hepoch hdiv)
  | heartbeats hrole =>
    refine ⟨by simp [Node.heartbeatMessages], fun v w resp hm => ?_⟩
    simp only [Node.heartbeatMessages, List.mem_map, Envelope.mk.injEq,
      RaftMessage.fetchResponse.injEq] at hm
    obtain ⟨x, -, -, rfl, rfl⟩ := hm
    refine hslice hrole _ _ _ ?_
    cases hx : (s.nodes i).voterFetchOffsets.lookup x with
    | none => exact .inl rfl
    | some f => exact h.credit i x f hrole hx
  | overtaken | answersEmpty | diverges =>
    refine ⟨by simp, fun v w resp hm => ?_⟩
    simp only [List.mem_singleton, Envelope.mk.injEq, RaftMessage.fetchResponse.injEq] at hm
    obtain ⟨-, -, rfl⟩ := hm
    exact .inl rfl
  | _ => simp [Node.voteMessages, Node.beginMessages]

end Reactions

end MatchInv

/-! ### Runs -/

/-- A leader was one already, or has just been elected. -/
lemma Reacts.leader_cases {L : Type*} [RaftLog L] {i : ℕ} {n n' : Node L} {ev : Event}
    {out : List Envelope} (h : Reacts i n ev n' out) (hr : n'.role = .leader) :
    n.role = .leader ∧ n'.currentEpoch = n.currentEpoch ∨
      n.role = .candidate ∧ n'.currentEpoch = n.currentEpoch ∨
      n.currentEpoch < n'.currentEpoch := by
  cases h with
  | standsAlone => exact .inr (.inr (Nat.lt_succ_self _))
  | wins c hrole => exact .inr (.inl ⟨hrole, rfl⟩)
  | denies c req hepoch =>
    unfold Node.joined at hr ⊢
    split_ifs at hr ⊢ with hlt
    · exact .inr (.inr hlt)
    · exact .inl ⟨hr, rfl⟩
  | grants c req hepoch =>
    unfold Node.joined at hr ⊢
    split_ifs at hr ⊢ with hlt
    · exact .inr (.inr hlt)
    · exact .inl ⟨hr, rfl⟩
  | serves c req hepoch hrole =>
    refine .inl ⟨hrole, ?_⟩
    obtain ⟨hwm, pending, hserved⟩ := n.served_eq c req.fetchOffset
    rw [hserved]
  | appends c resp hepoch hrole =>
    unfold Node.adopted at hr
    split_ifs at hr <;> simp [Node.committed, hrole] at hr
  | stands => simp [Node.standing] at hr
  | outvoted | follows | released | overtaken | superseded => simp [Node.becomeFollower] at hr
  | _ => exact .inl ⟨hr, rfl⟩

namespace Cluster

variable {s : Cluster VecLog}

/-- The invariants on which log matching rests. -/
structure Matched (s : Cluster VecLog) : Prop where
  election : ∃ stood, ElectionInv stood s
  recorded : s.Recorded
  logs : MatchInv s

/-- Voters remember their votes and followers append in place. -/
def KeepsLogs (s : Cluster VecLog) (i : ℕ) (ev : Event) : Prop :=
  s.VoteRemembered i ev ∧ s.AppendsInPlace i ev

instance (s : Cluster VecLog) (i : ℕ) (ev : Event) : Decidable (s.KeepsLogs i ev) :=
  inferInstanceAs (Decidable (_ ∧ _))

lemma matched_init (voters : List ℕ) : Matched (init voters fun _ => VecLog.new) where
  election := ⟨∅, .init voters _⟩
  recorded i e h := by simp [Leads, init, Node.new] at h
  logs := .init voters

/-- A reaction of a matched cluster, with what the moves of the reacting node need to know. -/
lemma Matched.react_cases (h : s.Matched) {i : ℕ} (hi : i ∈ s.voters) {ev : Event}
    (hj : s.Justified i ev) (hc : s.KeepsLogs i ev) :
    ∃ n out, Reacts i (s.nodes i) ev n out ∧ s.react i ev = (s.move i n).post out ∧
      (∃ stood, ElectionInv stood (s.react i ev)) ∧
      (n.role = .leader → s.leaderLog n.currentEpoch = none ∨
        (s.nodes i).role = .leader ∧ n.currentEpoch = (s.nodes i).currentEpoch) ∧
      MatchInv.LogMove s i n := by
  obtain ⟨stood, hE⟩ := h.election
  obtain ⟨n, out, hreacts, heq⟩ := Cluster.react_cases hi (hE.file_eq i) ev
  obtain ⟨stood', hE'⟩ := hE.react hi hj hc.1
  have hleads : n.role = .leader → (n.currentEpoch, i) ∈ (s.react i ev).leaders := by
    intro hr
    rw [heq, post_leaders, move_leaders s hr]
    exact List.mem_cons_self
  have halone : n.role = .leader → ∀ j ≠ i, (s.nodes j).role = .leader →
      (s.nodes j).currentEpoch ≠ n.currentEpoch := by
    intro hr j hji hrj hcur
    have hmem := leaders_react s i ev (h.recorded j n.currentEpoch ⟨hrj, hcur⟩)
    exact hji (hE'.leaders_unique hmem (hleads hr))
  have hnew : n.role = .leader → s.leaderLog n.currentEpoch = none ∨
      (s.nodes i).role = .leader ∧ n.currentEpoch = (s.nodes i).currentEpoch := by
    intro hr
    rw [or_iff_not_imp_left, ← ne_eq, Option.ne_none_iff_isSome]
    intro hsome
    obtain ⟨j, hj'⟩ := h.logs.led_by _ hsome
    obtain rfl := hE'.leaders_unique (leaders_react s i ev hj') (hleads hr)
    obtain ⟨hle, hcand⟩ := h.logs.led _ _ hj'
    rcases hreacts.leader_cases hr with hlead | ⟨hc, he⟩ | hlt
    · exact hlead
    · exact absurd hc (hcand he.symm)
    · exact absurd hle (Nat.not_le.mpr hlt)
  exact ⟨n, out, hreacts, heq, ⟨stood', hE'⟩, hnew,
    h.logs.logMove_of_reacts hj hc.2 hreacts halone hnew⟩

theorem Matched.react (h : s.Matched) {i : ℕ} (hi : i ∈ s.voters) {ev : Event}
    (hj : s.Justified i ev) (hc : s.KeepsLogs i ev) : (s.react i ev).Matched := by
  obtain ⟨n, out, hreacts, heq, hE', -, hmove⟩ := h.react_cases hi hj hc
  refine ⟨hE', h.recorded.react i ev, ?_⟩
  obtain ⟨hreq, hresp⟩ := h.logs.messages_of_reacts hj hreacts
  rw [heq]
  exact (h.logs.move hmove).post (fun v w req hm => absurd hm (hreq v w req))
    fun v w resp hm => hmove.slice (hresp v w resp hm)

lemma Matched.fetch (h : s.Matched) {src dst : ℕ} {req : FetchRequest}
    (hf : s.HonestFetch (.fetch src dst req)) :
    (s.post [⟨src, dst, .fetchRequest req⟩]).Matched := by
  refine ⟨h.election.imp fun _ hE => hE.post_quiet (by simp) (by simp), h.recorded, ?_⟩
  refine h.logs.post (fun v w req' hm => ?_) (by simp)
  simp only [List.mem_singleton, Envelope.mk.injEq, RaftMessage.fetchRequest.injEq] at hm
  obtain ⟨rfl, -, rfl⟩ := hm
  obtain rfl : req' = _ := hf
  exact ⟨(s.nodes v).log.entries, h.logs.logs.node v,
    (VecLog.logEndOffset_eq (h.logs.node_contiguous v)).symm, rfl, le_rfl,
    fun _ => .inl (List.prefix_refl _)⟩

lemma Matched.restart (h : s.Matched) (i : ℕ) :
    (s.put i (.new i s.voters (s.quorumFile i) (s.nodes i).log) (s.quorumFile i)).Matched := by
  obtain ⟨stood, hE⟩ := h.election
  have hstep : ∃ stood, ElectionInv stood (s.step (.restart i)) :=
    ElectionInv.step ⟨stood, hE⟩ trivial
  have hrec := h.recorded.step (.restart i)
  refine ⟨hstep, hrec, ?_⟩
  rw [hE.file_eq i]
  have hmove := MatchInv.LogMove.follow (i := i) h.logs
    (n := .new i s.voters (s.nodes i).quorumState (s.nodes i).log) le_rfl rfl
    (by simp [Node.new]) (by simp [Node.new])
  have := h.logs.move hmove
  rwa [move_of_not_leader s (by simp [Node.new])] at this

theorem Matched.step (h : s.Matched) {inp : Input} (hf : s.HonestFetch inp)
    (hok : OnTrigger KeepsLogs s inp) : (s.step inp).Matched := by
  refine step_preserves (P := Matched) (c := KeepsLogs) (fun s net i ev h => ?_)
    (fun s hs => hs.election.choose_spec.network_sent) (fun s net hnet hs => ?_)
    (fun s i hs => hs.restart i) h hok (fun src dst req heq => ?_) (fun src dst req heq => ?_)
    (fun s i ev hs hi hj hc => hs.react hi hj hc)
  · cases ev <;> exact h
  · exact ⟨hs.election.imp fun _ hE => hE.network hnet, hs.recorded, hs.logs.network net⟩
  · subst heq
    exact h.fetch hf
  · exact ⟨h.election.imp fun _ hE => hE.post_quiet (by simp) (by simp), h.recorded,
      h.logs.post (by simp) (by simp)⟩

/-- Each log holds one entry for each offset below its end, and a shared entry makes all that
precedes it shared. -/
def LogsMatch (s : Cluster VecLog) : Prop :=
  (∀ i, (s.nodes i).log.entries.map (·.offset)
      = List.range (RaftLog.logEndOffset (s.nodes i).log)) ∧
    ∀ i j, ∀ a ∈ (s.nodes i).log.entries, ∀ b ∈ (s.nodes j).log.entries,
      a.offset = b.offset → a.epoch = b.epoch →
        RaftLog.entries (s.nodes i).log 0 (a.offset + 1)
          = RaftLog.entries (s.nodes j).log 0 (a.offset + 1)

lemma logsMatch_of_matchInv (h : MatchInv s) : s.LogsMatch := by
  have htake : ∀ i, ∀ a ∈ (s.nodes i).log.entries,
      RaftLog.entries (s.nodes i).log 0 (a.offset + 1)
        = (s.nodes i).log.entries.take a.offset ++ [a] ∧
      a.offset < (s.nodes i).log.entries.length := by
    intro i a ha
    have hcont := h.node_contiguous i
    refine ⟨?_, hcont.offset_lt ha⟩
    rw [VecLog.entries_eq hcont, List.drop_zero, List.take_add_one, hcont.getElem?_offset ha]
    rfl
  refine ⟨fun i => ?_, fun i j a ha b hb hoff hep => ?_⟩
  · rw [VecLog.logEndOffset_eq (h.node_contiguous i)]
    exact h.node_contiguous i
  · obtain ⟨hta, hla⟩ := htake i a ha
    obtain ⟨htb, hlb⟩ := htake j b hb
    rw [hta, hoff, htb]
    have hpa : (s.nodes i).log.entries.take a.offset ++ [a] <+: (s.nodes i).log.entries := by
      rw [← hta, VecLog.entries_eq (h.node_contiguous i), List.drop_zero]
      exact List.take_prefix _ _
    have hpb : (s.nodes j).log.entries.take b.offset ++ [b] <+: (s.nodes j).log.entries := by
      rw [← htb, VecLog.entries_eq (h.node_contiguous j), List.drop_zero]
      exact List.take_prefix _ _
    rw [← hoff] at hpb hlb ⊢
    exact ((h.logs.node i).of_isPrefix hpa).matching ((h.logs.node j).of_isPrefix hpb)
      (by rw [List.length_take_of_le hla.le, List.length_take_of_le hlb.le]) hep

lemma matched_run (voters : List ℕ) (is : List Input)
    (hf : Run.Meets step HonestFetch (init voters fun _ => VecLog.new) is)
    (hok : Run.Meets step (OnTrigger KeepsLogs) (init voters fun _ => VecLog.new) is) :
    ((init voters fun _ => VecLog.new).run is).Matched :=
  Run.run_invariant (P := Matched) (fun _ _ h hok => h.step hok.1 hok.2) (matched_init voters)
    (hf.and hok)

/-- Logs match in every run in which voters remember their votes and followers append in place. -/
theorem logsMatch_of_keepsLogs (voters : List ℕ) (is : List Input)
    (hf : Run.Meets step HonestFetch (init voters fun _ => VecLog.new) is)
    (hok : Run.Meets step (OnTrigger KeepsLogs) (init voters fun _ => VecLog.new) is) :
    ((init voters fun _ => VecLog.new).run is).LogsMatch :=
  logsMatch_of_matchInv (matched_run voters is hf hok).logs

/-- Node 1 is elected, appends an entry, and node 2 fetches it. -/
theorem logsMatch_one_fetch :
    ((init [1, 2, 3] fun _ => VecLog.new).run
      [.electionTimeout 1, .deliver 0, .deliver 1, .propose 1 [7] 0, .fetch 2 1 ⟨1, 0, 0⟩,
        .deliver 3, .deliver 3]).LogsMatch :=
  logsMatch_of_keepsLogs _ _ (by decide) (by decide)

/-- Two heartbeats carry the same entry, and node 2 appends it twice. -/
theorem logsMatch_not_all_runs :
    ¬ ((init [1, 2, 3] fun _ => VecLog.new).run
      [.electionTimeout 1, .deliver 0, .deliver 1, .propose 1 [7] 0, .heartbeatTimeout 1,
        .deliver 3, .heartbeatTimeout 1, .deliver 4]).LogsMatch := by
  intro h
  exact absurd (h.1 2) (by decide)

end Cluster

end Musil.Raft
