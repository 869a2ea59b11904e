import Musil.Lib.CommonPrefix
import Musil.Raft.CommitStability
import Musil.Storage.LogRefinement

/-!
# Diverging logs

A follower asks its leader for what comes behind its last entry. When the leader has no entry of
that epoch at that offset, it answers with an offset at which the follower is to cut its log: the
start of that epoch in the leader's log. The first entry of an epoch that both logs have is shared,
so the cut drops it; an epoch that the leader does not have starts at offset zero in the reference
log and at the log end in the log on disk. A log that is cut is asked about again, until the answer
is no divergence.
-/

namespace Musil.Storage.Divergence

open List EpochLog Proto Raft

section Node

variable {A : Type*} [RaftLog A]

/-- All entries of a log. -/
def shown (l : A) : List LogEntry :=
  RaftLog.entries l 0 (RaftLog.logEndOffset l)

/-- The fetch request of follower `g`. -/
def nextFetch (g : Node A) : FetchRequest :=
  ⟨g.currentEpoch, RaftLog.logEndOffset g.log, lastEp LogEntry.epoch (shown g.log)⟩

/-- When node `n` answers node `g` such that it truncates its log, then that log gets shorter and
keeps all entries at its beginning that both logs share. -/
def Resolves (n g : Node A) : Prop :=
  ∀ c resp o, .sendFetchResponse c resp ∈ (n.handleFetchRequest c (nextFetch g)).2 →
    .truncateLog o ∈ (g.handleFetchResponse resp).2 →
      RaftLog.logEndOffset (RaftLog.truncate g.log o) < RaftLog.logEndOffset g.log ∧
        commonPrefix (shown n.log) (shown g.log) <+: shown (RaftLog.truncate g.log o)

/-- The answer among the actions of a node that was asked. -/
def responseOf : Action → Option FetchResponse
  | .sendFetchResponse _ resp => some resp
  | _ => none

/-- The offset at which an action cuts the log. -/
def cutOf : Action → Option ℕ
  | .truncateLog o => some o
  | _ => none

/-- A round: the follower asks the other node and cuts its log as the answer says. There is no round
any more when the answer is not a divergence. -/
def round (s : Node A × Node A) : Option (Node A × Node A) :=
  let (n, answer) := s.1.handleFetchRequest s.2.id (nextFetch s.2)
  (answer.findSome? responseOf).bind fun resp =>
    let (g, out) := s.2.handleFetchResponse resp
    (out.findSome? cutOf).map fun o => (n, { g with log := RaftLog.truncate g.log o })

/-- Any number of rounds. -/
def Rounds : Node A × Node A → Node A × Node A → Prop :=
  Relation.ReflTransGen fun s t => round s = some t

/-- Node `n` answers a fetch of node `g` from its log, and `g` executes the answer. -/
def Leads (n g : Node A) : Prop :=
  n.role = .leader ∧ g.role = .follower ∧ g.currentEpoch = n.currentEpoch

/-- However many rounds there have been, the next one resolves a divergence, and no shared entry
has been dropped; the rounds end with a log that the leader's log begins with. -/
structure Converges (n g : Node A) : Prop where
  resolves : ∀ t, Rounds (n, g) t → Resolves t.1 t.2
  shared : ∀ t, Rounds (n, g) t → commonPrefix (shown n.log) (shown g.log) <+: shown t.2.log
  ends : ∃ t, Rounds (n, g) t ∧ round t = none ∧ (Leads n g → shown t.2.log <+: shown n.log)

/-! ### The answer -/

lemma mem_handleFetchRequest_of_diverges {n : Node A} {req : FetchRequest} {d : Diverging} (c : ℕ)
    (hrole : n.role = .leader) (hepoch : req.epoch = n.currentEpoch)
    (hdiv : n.checkDivergence req.fetchOffset req.lastFetchedEpoch = some d) :
    .sendFetchResponse c (n.emptyFetchResponse (some d)) ∈ (n.handleFetchRequest c req).2 := by
  rw [Node.handleFetchRequest, if_neg hepoch.not_gt, if_neg hepoch.not_lt,
    if_neg (not_not.mpr hrole), hdiv]
  exact List.mem_singleton_self _

lemma diverges_of_mem_handleFetchRequest {n : Node A} {c dst : ℕ} {req : FetchRequest}
    {resp : FetchResponse} {d : Diverging}
    (h : .sendFetchResponse dst resp ∈ (n.handleFetchRequest c req).2)
    (hresp : resp.diverging = some d) : n.role = .leader ∧ req.epoch = n.currentEpoch ∧
      n.checkDivergence req.fetchOffset req.lastFetchedEpoch = some d := by
  have hempty : resp ≠ n.emptyFetchResponse none := by
    rintro rfl
    cases hresp
  by_cases hlt : n.currentEpoch < req.epoch
  · rw [Node.handleFetchRequest, if_pos hlt] at h
    simp only [List.mem_cons, reduceCtorEq, false_or, List.not_mem_nil, or_false,
      Action.sendFetchResponse.injEq] at h
    rw [h.2] at hresp
    cases hresp
  by_cases hgt : req.epoch < n.currentEpoch
  · rw [Node.handleFetchRequest, if_neg hlt, if_pos hgt] at h
    simp only [List.mem_singleton, Action.sendFetchResponse.injEq] at h
    exact absurd h.2 hempty
  by_cases hrole : n.role = .leader
  swap
  · rw [Node.handleFetchRequest, if_neg hlt, if_neg hgt, if_pos hrole] at h
    simp only [List.mem_singleton, Action.sendFetchResponse.injEq] at h
    exact absurd h.2 hempty
  have hepoch : req.epoch = n.currentEpoch := (Nat.not_lt.mp hlt).antisymm (Nat.not_lt.mp hgt)
  refine ⟨hrole, hepoch, ?_⟩
  cases hdiv : n.checkDivergence req.fetchOffset req.lastFetchedEpoch with
  | some d' =>
    rw [Node.handleFetchRequest, if_neg hlt, if_neg hgt, if_neg (not_not.mpr hrole), hdiv] at h
    simp only [List.mem_singleton, Action.sendFetchResponse.injEq] at h
    rw [h.2] at hresp
    exact hresp
  | none =>
    rw [Node.handleFetchRequest_serves hepoch hrole hdiv] at h
    rcases List.mem_cons.mp h with heq | hmem
    · simp only [Action.sendFetchResponse.injEq] at heq
      rw [heq.2] at hresp
      cases hresp
    · exact absurd ((n.credited c req.fetchOffset).tryAdvanceHighWatermark_notice _ hmem) id

lemma truncateLog_mem_handleFetchResponse {g : Node A} {resp : FetchResponse} {d : Diverging}
    (hrole : g.role = .follower) (hepoch : resp.epoch ≤ g.currentEpoch)
    (hdiv : resp.diverging = some d) :
    .truncateLog d.endOffset ∈ (g.handleFetchResponse resp).2 := by
  rw [Node.handleFetchResponse, if_neg hepoch.not_gt, if_neg (not_not.mpr hrole), hdiv]
  exact List.mem_singleton_self _

lemma round_of_diverges {n g : Node A} {d : Diverging} (h : Leads n g)
    (hdiv : n.checkDivergence (nextFetch g).fetchOffset (nextFetch g).lastFetchedEpoch = some d) :
    round (n, g) = some (n, { g with log := RaftLog.truncate g.log d.endOffset }) := by
  obtain ⟨hrole, hfollower, hepoch⟩ := h
  have hanswer : n.handleFetchRequest g.id (nextFetch g)
      = (n, [.sendFetchResponse g.id (n.emptyFetchResponse (some d))]) := by
    have hreq : (nextFetch g).epoch = n.currentEpoch := hepoch
    rw [Node.handleFetchRequest, if_neg hreq.not_gt, if_neg hreq.not_lt,
      if_neg (not_not.mpr hrole), hdiv]
  have hcut : g.handleFetchResponse (n.emptyFetchResponse (some d))
      = (g, [.truncateLog d.endOffset]) := by
    have hresp : (n.emptyFetchResponse (some d)).epoch = g.currentEpoch := hepoch.symm
    rw [Node.handleFetchResponse, if_neg hresp.not_gt, if_neg (not_not.mpr hfollower)]
    rfl
  rw [round, hanswer]
  simp only [List.findSome?_cons, responseOf, Option.bind_some, hcut, cutOf, Option.map_some]

lemma diverges_of_round {n g : Node A} {t : Node A × Node A} (h : round (n, g) = some t) :
    Leads n g ∧
      ∃ d, n.checkDivergence (nextFetch g).fetchOffset (nextFetch g).lastFetchedEpoch = some d := by
  rw [round] at h
  simp only [Option.bind_eq_some_iff, Option.map_eq_some_iff] at h
  obtain ⟨resp, hresp, o, ho, -⟩ := h
  obtain ⟨act, hmem, hact⟩ := List.exists_of_findSome?_eq_some hresp
  obtain ⟨cut, hcut, hcutOf⟩ := List.exists_of_findSome?_eq_some ho
  cases act <;> cases hact
  cases cut <;> cases hcutOf
  obtain ⟨_, _, d, heq, hfollower, -, hdiv, -⟩ := Cluster.truncate_of_handle
    (show .truncateLog o ∈ (g.handle (.fetchResponse n.id resp)).2 from hcut)
  cases heq
  obtain ⟨hrole, hepoch, hcheck⟩ := diverges_of_mem_handleFetchRequest hmem hdiv
  exact ⟨⟨hrole, hfollower, hepoch⟩, d, hcheck⟩

lemma eq_or_rounds {s t : Node A × Node A} (h : Rounds s t) :
    t = s ∨ ∃ u, round s = some u ∧ Rounds u t :=
  (Relation.ReflTransGen.cases_head h).imp_left Eq.symm

end Node

/-! ### Two logs that match -/

/-- Contiguous logs with epochs that do not decrease; an equal epoch at an equal offset makes all
before it equal, and an epoch that both have starts at one offset. -/
structure Matching (L F : List LogEntry) : Prop where
  contiguous_left : Contiguous L
  contiguous_right : Contiguous F
  sorted_left : (L.map LogEntry.epoch).Pairwise (· ≤ ·)
  sorted_right : (F.map LogEntry.epoch).Pairwise (· ≤ ·)
  matching : ∀ k < L.length, L[k]?.map LogEntry.epoch = F[k]?.map LogEntry.epoch →
    L.take (k + 1) = F.take (k + 1)
  starts : ∀ a ∈ L, ∀ b ∈ F, a.epoch = b.epoch →
    (L.find? fun x => x.epoch = a.epoch).map LogEntry.offset
      = (F.find? fun x => x.epoch = b.epoch).map LogEntry.offset

/-- `L` has no entry where `F` ends, or one of another epoch. -/
def Parted (L F : List LogEntry) : Prop :=
  F ≠ [] ∧ L[F.length - 1]?.map LogEntry.epoch ≠ some (lastEp LogEntry.epoch F)

/-- `L` has no entry of the last epoch of `F`. -/
def Unknown (L F : List LogEntry) : Prop :=
  ∀ a ∈ L, a.epoch ≠ lastEp LogEntry.epoch F

instance (L F : List LogEntry) : Decidable (Parted L F) :=
  inferInstanceAs (Decidable (_ ∧ _))

instance (L F : List LogEntry) : Decidable (Unknown L F) :=
  inferInstanceAs (Decidable (∀ a ∈ L, _))

section Matching

variable {L F : List LogEntry} {a : LogEntry}

/-- The first entry of an epoch that both logs have is shared. -/
lemma Matching.lt_length_commonPrefix (h : Matching L F) (hne : F ≠ [])
    (ha : (L.find? fun x => x.epoch = lastEp LogEntry.epoch F) = some a) :
    a.offset < (commonPrefix L F).length := by
  obtain ⟨G, b, rfl⟩ := exists_concat_of_ne_nil hne
  rw [lastEp_concat] at ha
  have hmem : a ∈ L := List.mem_of_find?_eq_some ha
  have hepoch : a.epoch = b.epoch := by simpa using List.find?_some ha
  have hstart := h.starts a hmem b (List.mem_append_right _ (List.mem_singleton_self b)) hepoch
  rw [hepoch, ha, Option.map_some, eq_comm, Option.map_eq_some_iff] at hstart
  obtain ⟨x, hx, hoffset⟩ := hstart
  have hLa : L[a.offset]? = some a := h.contiguous_left.getElem?_offset hmem
  have hFx : (G ++ [b])[a.offset]? = some x := by
    rw [← hoffset]
    exact h.contiguous_right.getElem?_offset (List.mem_of_find?_eq_some hx)
  have hlt : a.offset < L.length := (List.getElem?_eq_some_iff.mp hLa).1
  have hsame := h.matching a.offset hlt (by
    rw [hLa, hFx, Option.map_some, Option.map_some, hepoch]
    exact congrArg some (show x.epoch = b.epoch by simpa using List.find?_some hx).symm)
  have hprefix := prefix_commonPrefix (List.take_prefix (a.offset + 1) L)
    (hsame ▸ List.take_prefix (a.offset + 1) (G ++ [b]))
  have hle := hprefix.length_le
  rw [List.length_take_of_le (Nat.succ_le_of_lt hlt)] at hle
  exact hle

lemma Matching.take (h : Matching L F) (o : ℕ) : Matching L (F.take o) where
  contiguous_left := h.contiguous_left
  contiguous_right := h.contiguous_right.take o
  sorted_left := h.sorted_left
  sorted_right := by
    rw [List.map_take]
    exact h.sorted_right.sublist (List.take_sublist _ _)
  matching k hk hepoch := by
    rcases Nat.lt_or_ge k o with hlt | hge
    · rw [List.getElem?_take_of_lt hlt] at hepoch
      rw [List.take_take, min_eq_left hlt]
      exact h.matching k hk hepoch
    · rw [List.getElem?_take_eq_none hge, List.getElem?_eq_getElem hk] at hepoch
      cases hepoch
  starts a ha b hb hepoch := by
    rw [h.starts a ha b (List.take_subset _ _ hb) hepoch]
    rw [← List.take_append_drop o F, List.find?_append]
    obtain ⟨x, hx⟩ : ∃ x, (F.take o).find? (fun x => x.epoch = b.epoch) = some x := by
      rw [← Option.isSome_iff_exists, List.find?_isSome]
      exact ⟨b, hb, by simp⟩
    rw [List.take_append_drop, hx, Option.some_or]

/-- Logs that do not part at the end of `F` share all of it. -/
lemma Matching.prefix_of_not_parted (h : Matching L F) (hnot : ¬ Parted L F) : F <+: L := by
  rcases List.eq_nil_or_concat F with rfl | ⟨G, b, rfl⟩
  · exact List.nil_prefix
  rw [List.concat_eq_append] at h hnot ⊢
  have hsame : L[G.length]?.map LogEntry.epoch = some b.epoch := by
    by_contra hne
    refine hnot ⟨List.append_ne_nil_of_right_ne_nil _ (List.cons_ne_nil _ _), ?_⟩
    rwa [List.length_append, List.length_singleton, Nat.add_sub_cancel, lastEp_concat]
  have hlt : G.length < L.length := by
    by_contra hge
    rw [List.getElem?_eq_none (Nat.not_lt.mp hge)] at hsame
    cases hsame
  have htake := h.matching G.length hlt (by rw [hsame, List.getElem?_concat_length, Option.map_some])
  rw [List.take_of_length_le (l := G ++ [b]) (by simp)] at htake
  exact htake ▸ List.take_prefix _ _

lemma not_parted_of_prefix (h : F <+: L) : ¬ Parted L F := by
  rintro ⟨hne, hdiffer⟩
  obtain ⟨G, b, rfl⟩ := exists_concat_of_ne_nil hne
  obtain ⟨rest, rfl⟩ := h
  refine hdiffer ?_
  rw [lastEp_concat, List.length_append, List.length_singleton, Nat.add_sub_cancel,
    List.append_assoc, List.getElem?_append_right le_rfl, Nat.sub_self]
  rfl

lemma Unknown.find?_eq_none (h : Unknown L F) :
    (L.find? fun x => x.epoch = lastEp LogEntry.epoch F) = none := by
  rw [List.find?_eq_none]
  intro a ha
  simpa using h a ha

end Matching

/-! ### Both kinds of logs -/

/-- The leader's log holds the entries `X`; an epoch that it lacks starts at `missing`. -/
structure Holding {A : Type*} [RaftLog A] (l : A) (X : List LogEntry) (missing : ℕ) : Prop where
  shown_eq : shown l = X
  epochAt_eq : ∀ o, RaftLog.epochAt l o = X[o]?.map LogEntry.epoch
  findEpochStart_eq : ∀ e, RaftLog.findEpochStart l e
    = ((X.find? fun x => x.epoch = e).map LogEntry.offset).getD missing

/-- Logs that show the entries they are said to, also after any cuts. -/
structure Cuttable {A : Type*} [RaftLog A] (P : A → List LogEntry → Prop) : Prop where
  shown_eq : ∀ l X, P l X → shown l = X
  logEndOffset_eq : ∀ l X, P l X → RaftLog.logEndOffset l = X.length
  truncate : ∀ l X, P l X → ∀ o, P (RaftLog.truncate l o) (X.take o)

section Holding

variable {A : Type*} [RaftLog A] {n g : Node A} {L F : List LogEntry} {missing : ℕ}
  {P : A → List LogEntry → Prop}

lemma Holding.checkDivergence_eq (hn : Holding n.log L missing) (hP : Cuttable P)
    (hg : P g.log F) {d : Diverging} : n.checkDivergence (nextFetch g).fetchOffset
        (nextFetch g).lastFetchedEpoch = some d ↔
      Parted L F ∧ d = ⟨lastEp LogEntry.epoch F,
        ((L.find? fun x => x.epoch = lastEp LogEntry.epoch F).map LogEntry.offset).getD missing⟩ := by
  rw [nextFetch, Node.checkDivergence, hP.logEndOffset_eq _ _ hg, hP.shown_eq _ _ hg, hn.epochAt_eq,
    hn.findEpochStart_eq, Parted]
  split_ifs with hzero hsame
  · simp [List.length_eq_zero_iff.mp hzero]
  · simp [hsame]
  · rw [Option.some.injEq, eq_comm]
    exact (and_iff_right ⟨fun hnil => hzero (by rw [hnil, List.length_nil]), hsame⟩).symm

lemma Holding.round_of_parted (hn : Holding n.log L missing) (hP : Cuttable P) (hg : P g.log F)
    (hleads : Leads n g) (hparted : Parted L F) (hunknown : Unknown L F) :
    round (n, g) = some (n, { g with log := RaftLog.truncate g.log missing }) := by
  have hround := round_of_diverges hleads ((hn.checkDivergence_eq hP hg).mpr ⟨hparted, rfl⟩)
  simpa only [hunknown.find?_eq_none, Option.map_none, Option.getD_none] using hround

lemma Holding.round_eq_none (hn : Holding n.log L missing) (hP : Cuttable P) (hg : P g.log F)
    (h : Leads n g → ¬ Parted L F) : round (n, g) = none := by
  by_contra hsome
  obtain ⟨t, ht⟩ := Option.ne_none_iff_exists'.mp hsome
  obtain ⟨hleads, d, hdiv⟩ := diverges_of_round ht
  exact h hleads ((hn.checkDivergence_eq hP hg).mp hdiv).1

/-- One round resolves a divergence only if the leader lacks the epoch, and then if the offset for a
missing epoch is behind what is shared and before the follower's end. -/
theorem Holding.resolves_iff_offset (h : Matching L F) (hn : Holding n.log L missing)
    (hP : Cuttable P) (hg : P g.log F) : Resolves n g ↔ (Leads n g → Parted L F →
      Unknown L F ∧ missing < F.length ∧ (commonPrefix L F).length ≤ missing) := by
  have hshown (o : ℕ) := hP.shown_eq _ _ (hP.truncate _ _ hg o)
  have hend (o : ℕ) := hP.logEndOffset_eq _ _ (hP.truncate _ _ hg o)
  constructor
  · rintro hres ⟨hrole, hfollower, hepoch⟩ hparted
    have hdiv := (hn.checkDivergence_eq hP hg).mpr ⟨hparted, rfl⟩
    obtain ⟨hlt, hprefix⟩ := hres 0 _ _ (mem_handleFetchRequest_of_diverges 0 hrole hepoch hdiv)
      (truncateLog_mem_handleFetchResponse hfollower hepoch.ge rfl)
    rw [hP.logEndOffset_eq _ _ hg, hend, List.length_take, min_lt_iff,
      or_iff_left (lt_irrefl _)] at hlt
    rw [hn.shown_eq, hP.shown_eq _ _ hg, hshown] at hprefix
    have hle := hprefix.length_le
    rw [List.length_take_of_le hlt.le] at hle
    cases hfind : L.find? fun x => x.epoch = lastEp LogEntry.epoch F with
    | some a =>
      rw [hfind, Option.map_some, Option.getD_some] at hle
      exact absurd (h.lt_length_commonPrefix hparted.1 hfind) (Nat.not_lt.mpr hle)
    | none =>
      rw [hfind, Option.map_none, Option.getD_none] at hlt hle
      rw [List.find?_eq_none] at hfind
      exact ⟨fun a ha => by simpa using hfind a ha, hlt, hle⟩
  · intro hcond c resp o hmem htruncate
    obtain ⟨_, _, d, heq, hfollower, -, hresp, rfl⟩ := Cluster.truncate_of_handle
      (show .truncateLog o ∈ (g.handle (.fetchResponse c resp)).2 from htruncate)
    cases heq
    obtain ⟨hrole, hepoch, hdiv⟩ := diverges_of_mem_handleFetchRequest hmem hresp
    obtain ⟨hparted, rfl⟩ := (hn.checkDivergence_eq hP hg).mp hdiv
    obtain ⟨hunknown, hlt, hle⟩ := hcond ⟨hrole, hfollower, hepoch⟩ hparted
    simp only [hunknown.find?_eq_none, Option.map_none, Option.getD_none]
    rw [hend, hP.logEndOffset_eq _ _ hg, hn.shown_eq, hP.shown_eq _ _ hg, hshown,
      List.length_take_of_le hlt.le]
    exact ⟨hlt, List.prefix_take_iff.mpr ⟨commonPrefix_prefix_right L F, hle⟩⟩

/-- A follower whose log parts from the leader's nowhere has no rounds to go. -/
lemma Holding.converges_of_not_parted (h : Matching L F) (hn : Holding n.log L missing)
    (hP : Cuttable P) (hg : P g.log F) (hnot : Leads n g → ¬ Parted L F) : Converges n g := by
  have hnone := hn.round_eq_none hP hg hnot
  have hstays : ∀ t, Rounds (n, g) t → t = (n, g) := by
    intro t ht
    rcases eq_or_rounds ht with rfl | ⟨u, hu, -⟩
    · rfl
    · cases hnone.symm.trans hu
  refine ⟨fun t ht => ?_, fun t ht => ?_, (n, g), .refl, hnone, fun hleads => ?_⟩
  · obtain rfl := hstays t ht
    exact (hn.resolves_iff_offset h hP hg).mpr fun hleads hparted =>
      absurd hparted (hnot hleads)
  · obtain rfl := hstays t ht
    exact commonPrefix_prefix_right _ _
  · rw [hP.shown_eq _ _ hg, hn.shown_eq]
    exact h.prefix_of_not_parted (hnot hleads)

/-- The rounds resolve a divergence exactly if the leader lacks the epoch and the offset for a
missing epoch is where the shared entries end. -/
theorem Holding.converges_iff_offset (h : Matching L F) (hn : Holding n.log L missing)
    (hP : Cuttable P) (hg : P g.log F) : Converges n g ↔ (Leads n g → Parted L F →
      Unknown L F ∧ (commonPrefix L F).length = missing) := by
  have hcut := hP.truncate _ _ hg missing
  constructor
  · intro hconv hleads hparted
    obtain ⟨hunknown, hlt, hle⟩ :=
      (hn.resolves_iff_offset h hP hg).mp (hconv.resolves (n, g) .refl) hleads hparted
    refine ⟨hunknown, hle.antisymm ?_⟩
    by_contra hmore
    -- the log that is left still parts from the leader's, and the next cut leaves it as it is
    have hround := hn.round_of_parted hP hg hleads hparted hunknown
    have hparted' : Parted L (F.take missing) := by
      by_contra hnot
      have hprefix := prefix_commonPrefix ((h.take missing).prefix_of_not_parted hnot)
        (List.take_prefix missing F)
      have hlen := hprefix.length_le
      rw [List.length_take_of_le hlt.le] at hlen
      exact hmore hlen
    obtain ⟨-, hless, -⟩ := (hn.resolves_iff_offset (h.take missing) hP hcut).mp
      (hconv.resolves _ (.single hround)) hleads hparted'
    rw [List.length_take_of_le hlt.le] at hless
    exact lt_irrefl _ hless
  · intro hcond
    by_cases hdiverge : Leads n g ∧ Parted L F
    swap
    · exact hn.converges_of_not_parted h hP hg fun hleads hparted => hdiverge ⟨hleads, hparted⟩
    obtain ⟨hleads, hparted⟩ := hdiverge
    obtain ⟨hunknown, hlen⟩ := hcond hleads hparted
    have htake : F.take missing = commonPrefix L F := by
      rw [← hlen]
      exact (List.prefix_iff_eq_take.mp (commonPrefix_prefix_right L F)).symm
    have hlt : missing < F.length := by
      by_contra hge
      rw [List.take_of_length_le (Nat.not_lt.mp hge)] at htake
      exact not_parted_of_prefix (htake ▸ commonPrefix_prefix_left L F) hparted
    have hround := hn.round_of_parted hP hg hleads hparted hunknown
    have hafter : Converges n { g with log := RaftLog.truncate g.log missing } :=
      hn.converges_of_not_parted (h.take missing) hP hcut fun _ =>
        not_parted_of_prefix (htake ▸ commonPrefix_prefix_left L F)
    have hshared : shown (RaftLog.truncate g.log missing) = commonPrefix (shown n.log) (shown g.log) := by
      rw [hP.shown_eq _ _ hcut, hn.shown_eq, hP.shown_eq _ _ hg, htake]
    have hcases : ∀ t, Rounds (n, g) t →
        t = (n, g) ∨ Rounds (n, { g with log := RaftLog.truncate g.log missing }) t := by
      intro t ht
      refine (eq_or_rounds ht).imp_right ?_
      rintro ⟨u, hu, hrest⟩
      rw [hround] at hu
      cases hu
      exact hrest
    constructor
    · intro t ht
      rcases hcases t ht with rfl | hrest
      · exact (hn.resolves_iff_offset h hP hg).mpr fun _ _ => ⟨hunknown, hlt, hlen.le⟩
      · exact hafter.resolves t hrest
    · intro t ht
      rcases hcases t ht with rfl | hrest
      · exact commonPrefix_prefix_right _ _
      · have hkept := hafter.shared t hrest
        rw [hshared] at hkept
        exact (prefix_commonPrefix (commonPrefix_prefix_left _ _) (List.prefix_refl _)).trans hkept
    · obtain ⟨t, ht, hnone, hends⟩ := hafter.ends
      exact ⟨t, .head hround ht, hnone, fun _ => hends hleads⟩

end Holding

lemma holding_vecLog {l : VecLog} (h : Contiguous l.entries) : Holding l l.entries 0 where
  shown_eq := by
    rw [shown, VecLog.entries_eq h, VecLog.logEndOffset_eq h, List.take_length, List.drop_zero]
  epochAt_eq := VecLog.epochAt_eq h
  findEpochStart_eq _ := rfl

lemma cuttable_vecLog : Cuttable fun (l : VecLog) X => l.entries = X ∧ Contiguous X where
  shown_eq := by
    rintro l X ⟨rfl, h⟩
    exact (holding_vecLog h).shown_eq
  logEndOffset_eq := by
    rintro l X ⟨rfl, h⟩
    exact VecLog.logEndOffset_eq h
  truncate := by
    rintro l X ⟨rfl, h⟩ o
    exact ⟨VecLog.truncate_entries h o, h.take o⟩

/-- The log on disk has the entries `X`, each in a batch of its own. -/
def Stores (l : RaftPartition) (X : List LogEntry) : Prop :=
  ∃ xs, l.Sound xs ∧ xs.map entryOf = X

lemma Stores.holding [Crc] {l : RaftPartition} {X : List LogEntry} (h : Stores l X) :
    Holding l X X.length := by
  obtain ⟨xs, hsound, rfl⟩ := h
  have hkeeping := hsound.keeping
  refine ⟨?_, fun o => ?_, fun e => ?_⟩
  · change (l.entries 0 l.logEndOffset).getD [] = _
    rw [hkeeping.entries_eq, hkeeping.logEndOffset_eq, Option.getD_some, List.drop_zero,
      List.take_of_length_le (List.length_map _).le]
  · change (l.epochAt o).getD none = _
    rw [hkeeping.epochAt_eq, Option.getD_some]
  · change (l.findEpochStart e).getD 0 = _
    rw [hkeeping.findEpochStart_eq, Option.getD_some, List.length_map]

/-- The log on disk shows the entries `X`, in files that may hold more. -/
def Shown (l : RaftPartition) (X : List LogEntry) : Prop :=
  ∃ xs, l.Overhangs xs ∧ (xs.map entryOf).take l.logEndOffset = X

lemma Stores.shown {l : RaftPartition} {X : List LogEntry} (h : Stores l X) : Shown l X := by
  obtain ⟨xs, hsound, rfl⟩ := h
  refine ⟨xs, hsound.overhangs, List.take_of_length_le ?_⟩
  rw [List.length_map, hsound.keeping.logEndOffset_eq]

lemma cuttable_raftPartition [Crc] : Cuttable Shown where
  shown_eq := by
    rintro l X ⟨xs, h, rfl⟩
    change (l.entries 0 l.logEndOffset).getD [] = _
    rw [h.entries_eq, Option.getD_some]
  logEndOffset_eq := by
    rintro l X ⟨xs, h, rfl⟩
    rw [List.length_take_of_le ((List.length_map entryOf).symm ▸ h.leo_le)]
    rfl
  truncate := by
    rintro l X ⟨xs, h, rfl⟩ o
    rcases Nat.lt_or_ge o l.logEndOffset with hlt | hge
    · obtain ⟨hend, ys, hys, hcut⟩ := h.truncate hlt
      refine ⟨ys, hcut, ?_⟩
      change (ys.map entryOf).take (l.truncate o).logEndOffset = _
      have hlen := hcut.leo_le
      rw [hend] at hlen ⊢
      obtain ⟨zs, rfl⟩ := hys
      rw [List.take_take, min_eq_left hlt.le, List.map_append,
        List.take_append_of_le_length (by rwa [List.length_map])]
    · change Shown (l.truncate o) _
      rw [h.truncate_behind hge]
      exact ⟨xs, h, (List.take_of_length_le ((List.length_take_le _ _).trans hge)).symm⟩

section Examples

def leading {A : Type*} (l : A) : Node A :=
  { Node.new 1 [2] ⟨2, none⟩ l with role := .leader }

def following {A : Type*} (l : A) : Node A :=
  Node.new 2 [1] ⟨2, none⟩ l

local instance : Crc := Crc.castagnoli

end Examples

end Musil.Storage.Divergence
