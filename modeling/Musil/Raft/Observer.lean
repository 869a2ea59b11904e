import Musil.Lib.Run
import Musil.Raft.Reaction
import Musil.Raft.VecLog
import Mathlib.Algebra.Group.Nat.Defs

/-!
# The observer

An observer fetches from the leader without voting and passes committed entries to its applier. It
asks with epoch 0, so a leader of a later epoch answers with its high watermark and no entries. The
observer applies the committed log exactly as long as no watermark passes the end of its own log.
-/

namespace Musil.Raft

open EpochLog

structure Observer (L : Type*) where
  log : L
  controllerIds : List ℕ
  currentLeader : Option ℕ
  fetchOffset : ℕ
  lastFetchedEpoch : ℕ
  highWatermark : ℕ
  /-- The slices passed to the applier so far. -/
  applied : List (List LogEntry)

namespace Observer

variable {L : Type*} [RaftLog L]

def new (log : L) (controllerIds : List ℕ) : Observer L where
  log := log
  controllerIds := controllerIds
  currentLeader := none
  fetchOffset := RaftLog.logEndOffset log
  lastFetchedEpoch := RaftLog.lastEpoch log
  highWatermark := 0
  applied := []

omit [RaftLog L] in
/-- The controller to ask, if there is one. -/
def target (o : Observer L) : Option ℕ :=
  match o.currentLeader with
  | some leader => some leader
  | none => o.controllerIds.head?

omit [RaftLog L] in
/-- The request is built with epoch 0. -/
def request (o : Observer L) : FetchRequest :=
  ⟨0, o.fetchOffset, o.lastFetchedEpoch⟩

def appendEntry (o : Observer L) (entry : LogEntry) : Observer L :=
  { o with
    log := RaftLog.append o.log entry
    lastFetchedEpoch := entry.epoch
    fetchOffset := entry.offset + 1 }

/-- The entries between the old watermark and the new one go to the applier. -/
def advance (o : Observer L) (hwm : ℕ) : Observer L :=
  if o.highWatermark < hwm then
    let committed := RaftLog.entries o.log o.highWatermark hwm
    { o with
      highWatermark := hwm
      applied := if committed.isEmpty then o.applied else o.applied ++ [committed] }
  else o

def handleFetchResponse (o : Observer L) (resp : FetchResponse) : Observer L :=
  let o := if 0 < resp.epoch then { o with currentLeader := some (resp.epoch % 2 ^ 16) } else o
  match resp.diverging with
  | some d =>
    { o with
      log := RaftLog.truncate o.log d.endOffset
      fetchOffset := d.endOffset
      lastFetchedEpoch := if d.endOffset = 0 then 0 else o.lastFetchedEpoch }
  | none => (resp.entries.foldl appendEntry o).advance resp.highWatermark

end Observer

/-- The fetch response among the actions of a handler. -/
def fetchAnswer (actions : List Action) : Option FetchResponse :=
  actions.findSome? fun
    | .sendFetchResponse _ resp => some resp
    | _ => none

/-- One turn of `Observer::run`, whose request reaches node `n` under the id `id`. -/
def Observer.round {L : Type*} [RaftLog L] (id : ℕ) (o : Observer L) (n : Node L) : Observer L :=
  match o.target with
  | none => o
  | some _ =>
    match fetchAnswer (n.handleFetchRequest id o.request).2 with
    | some resp => o.handleFetchResponse resp
    | none => o

namespace Observer

/-! ### Leaders whose log grows -/

/-- A leader whose log extends `l` and reaches its watermark. -/
structure Serving (l : VecLog) (n : Node VecLog) : Prop where
  leader : n.role = .leader
  contiguous : Contiguous n.log.entries
  grows : l.entries <+: n.log.entries
  watermark : n.highWatermark ≤ n.log.entries.length

/-- The leader as it is at each request. -/
def Growing : VecLog → List (Node VecLog) → Prop
  | _, [] => True
  | l, n :: ns => Serving l n ∧ Growing n.log ns

/-- The leader's log at the last request. -/
def lastLog : VecLog → List (Node VecLog) → VecLog
  | l, [] => l
  | _, n :: ns => lastLog n.log ns

/-- The applied slices are the leader's entries below the observer's watermark. -/
def AppliesCommitted (o : Observer VecLog) (l : VecLog) : Prop :=
  o.applied.flatten = RaftLog.entries l 0 o.highWatermark

/-- The leader is at the epoch the observer asks with, or its watermark is one the observer's log
reaches. -/
def RoundOk (o : Observer VecLog) (n : Node VecLog) : Prop :=
  o.target = none ∨ n.currentEpoch = 0 ∨ n.highWatermark ≤ RaftLog.logEndOffset o.log

instance (o : Observer VecLog) (n : Node VecLog) : Decidable (RoundOk o n) :=
  inferInstanceAs (Decidable (_ ∨ _))

/-! ### One round -/

/-- The observer's log is a part of the leader's log `X`. -/
structure Follows (o : Observer VecLog) (X : List LogEntry) : Prop where
  contiguous : Contiguous o.log.entries
  log : o.log.entries <+: X
  fetchOffset : o.fetchOffset = o.log.entries.length
  lastEpoch : o.lastFetchedEpoch = lastEp LogEntry.epoch o.log.entries
  watermark : o.highWatermark ≤ X.length

/-- What was applied is the log below the watermark. -/
def Exact (o : Observer VecLog) : Prop :=
  o.applied.flatten = o.log.entries.take o.highWatermark ∧
    o.highWatermark ≤ o.log.entries.length

/-- Something below the watermark was not applied, and never will be. -/
def Behind (o : Observer VecLog) : Prop :=
  o.applied.flatten.length < o.highWatermark ∧
    o.applied.flatten.length ≤ o.log.entries.length

variable {o : Observer VecLog} {n : Node VecLog} {l : VecLog} {X : List LogEntry}

lemma advance_log (o : Observer VecLog) (hwm : ℕ) : (o.advance hwm).log = o.log := by
  simp only [advance]
  split_ifs <;> rfl

lemma advance_highWatermark (o : Observer VecLog) (hwm : ℕ) :
    (o.advance hwm).highWatermark = max o.highWatermark hwm := by
  rcases Nat.lt_or_ge o.highWatermark hwm with hlt | hle
  · rw [advance, if_pos hlt]
    exact (max_eq_right hlt.le).symm
  · rw [advance, if_neg (Nat.not_lt.mpr hle)]
    exact (max_eq_left hle).symm

lemma advance_applied (hcont : Contiguous o.log.entries) (hwm : ℕ) :
    (o.advance hwm).applied.flatten
      = o.applied.flatten ++ (o.log.entries.take hwm).drop o.highWatermark := by
  simp only [advance]
  rw [VecLog.entries_eq hcont]
  split_ifs with hlt hnil
  · rw [List.isEmpty_iff.mp hnil, List.append_nil]
  · simp
  · rw [List.drop_eq_nil_of_le, List.append_nil]
    exact (List.length_take_le _ _).trans (Nat.not_lt.mp hlt)

lemma Follows.advance (h : o.Follows X) {hwm : ℕ} (hle : hwm ≤ X.length) :
    (o.advance hwm).Follows X := by
  constructor
  · rw [advance_log]
    exact h.contiguous
  · rw [advance_log]
    exact h.log
  · rw [advance_log, ← h.fetchOffset]
    simp only [Observer.advance]
    split_ifs <;> rfl
  · rw [advance_log, ← h.lastEpoch]
    simp only [Observer.advance]
    split_ifs <;> rfl
  · rw [advance_highWatermark]
    exact max_le h.watermark hle

lemma Exact.advance (h : o.Exact) (hcont : Contiguous o.log.entries) {hwm : ℕ}
    (hle : hwm ≤ o.log.entries.length) : (o.advance hwm).Exact := by
  obtain ⟨happlied, hwatermark⟩ := h
  constructor
  · rw [advance_applied hcont, advance_log, advance_highWatermark, happlied]
    rcases le_total hwm o.highWatermark with hmax | hmax
    · rw [max_eq_left hmax, List.drop_eq_nil_of_le, List.append_nil]
      exact (List.length_take_le _ _).trans hmax
    · rw [max_eq_right hmax]
      have htake : (o.log.entries.take hwm).take o.highWatermark
          = o.log.entries.take o.highWatermark := by
        rw [List.take_take, min_eq_left hmax]
      rw [← htake, List.take_append_drop]
  · rw [advance_log, advance_highWatermark]
    exact max_le hwatermark hle

lemma Exact.advance_past (h : o.Exact) (hcont : Contiguous o.log.entries) {hwm : ℕ}
    (hlt : o.log.entries.length < hwm) : (o.advance hwm).Behind := by
  obtain ⟨happlied, hwatermark⟩ := h
  have hlen : (o.advance hwm).applied.flatten.length ≤ o.log.entries.length := by
    rw [advance_applied hcont, happlied, List.length_append, List.length_take, List.length_drop,
      List.length_take]
    omega
  constructor
  · rw [advance_highWatermark]
    exact (hlen.trans_lt hlt).trans_le (le_max_right _ _)
  · rwa [advance_log]

lemma Behind.advance (h : o.Behind) (hcont : Contiguous o.log.entries) (hwm : ℕ) :
    (o.advance hwm).Behind := by
  obtain ⟨hbehind, hlog⟩ := h
  constructor
  · rw [advance_applied hcont, advance_highWatermark, List.length_append, List.length_drop,
      List.length_take]
    omega
  · rw [advance_applied hcont, advance_log, List.length_append, List.length_drop, List.length_take]
    omega

lemma foldl_appendEntry (es : List LogEntry) (o : Observer VecLog) :
    (es.foldl appendEntry o).log.entries = o.log.entries ++ es ∧
      (es.foldl appendEntry o).highWatermark = o.highWatermark ∧
      (es.foldl appendEntry o).applied = o.applied := by
  induction es generalizing o with
  | nil => simp
  | cons a es ih =>
    obtain ⟨hlog, hwm, happlied⟩ := ih (o.appendEntry a)
    rw [List.foldl_cons, hlog, hwm, happlied]
    exact ⟨by simp [appendEntry, VecLog.append_entries], rfl, rfl⟩

/-- Appending what the leader has beyond the observer's log. -/
lemma Follows.appends (h : o.Follows X) (hX : Contiguous X) :
    ((X.drop o.log.entries.length).foldl appendEntry o).Follows X := by
  have key : ∀ (es : List LogEntry) (o : Observer VecLog), o.Follows X →
      o.log.entries ++ es = X → (es.foldl appendEntry o).Follows X := by
    intro es
    induction es with
    | nil => exact fun o ho _ => ho
    | cons a es ih =>
      intro o ho heq
      have ha : a.offset = o.log.entries.length := (heq ▸ hX).offset_of_append
      refine ih (o.appendEntry a) ?_ (by simpa [appendEntry, VecLog.append_entries] using heq)
      constructor
      · exact ho.contiguous.concat ha
      · exact ⟨es, by simpa [appendEntry, VecLog.append_entries] using heq⟩
      · simp [appendEntry, VecLog.append_entries, ha]
      · simp [appendEntry, VecLog.append_entries]
      · exact ho.watermark
  refine key _ o h ?_
  conv_lhs => rw [List.prefix_iff_eq_take.mp h.log]
  simp [Nat.min_eq_left h.log.length_le]

/-- A leader of epoch 0 sends everything the observer lacks. -/
lemma fetchAnswer_of_epoch_zero (h : o.Follows X) (hn : Serving ⟨X⟩ n) (hepoch : n.currentEpoch = 0)
    (id : ℕ) : fetchAnswer (n.handleFetchRequest id o.request).2
      = some ⟨0, n.highWatermark, n.log.entries.drop o.log.entries.length, none⟩ := by
  have hpre : o.log.entries <+: n.log.entries := h.log.trans hn.grows
  have hdiv : n.checkDivergence o.request.fetchOffset o.request.lastFetchedEpoch = none := by
    simp only [Node.checkDivergence, request, h.fetchOffset, h.lastEpoch]
    split_ifs with hzero hcheck
    · rfl
    · rfl
    · exfalso
      apply hcheck
      obtain ⟨Y, a, hY⟩ := exists_concat_of_ne_nil (List.length_eq_zero_iff.not.mp hzero)
      have hlen : Y.length < n.log.entries.length := by
        have := hpre.length_le
        rw [hY, List.length_append, List.length_singleton] at this
        omega
      rw [VecLog.epochAt_eq hn.contiguous, hY, lastEp_concat, List.length_append,
        List.length_singleton, Nat.add_sub_cancel]
      obtain ⟨Z, hZ⟩ := hpre
      simp [← hZ, hY]
  rw [Node.handleFetchRequest_serves (by simp [request, hepoch]) hn.leader hdiv]
  simp only [fetchAnswer, List.findSome?_cons, hepoch, Node.entriesFrom, request, h.fetchOffset,
    VecLog.entries_eq hn.contiguous, VecLog.logEndOffset_eq hn.contiguous, List.take_length]

/-- A leader of a later epoch takes the request for a stale one. -/
lemma fetchAnswer_of_epoch_pos (hepoch : 0 < n.currentEpoch) (id : ℕ) :
    fetchAnswer (n.handleFetchRequest id o.request).2
      = some ⟨n.currentEpoch, n.highWatermark, [], none⟩ := by
  simp [Node.handleFetchRequest, request, hepoch, fetchAnswer, Node.emptyFetchResponse]

/-- The observer before it adopts the leader's watermark: it has what the answer carried. -/
def fed (o : Observer VecLog) (n : Node VecLog) : Observer VecLog :=
  if n.currentEpoch = 0 then (n.log.entries.drop o.log.entries.length).foldl appendEntry o
  else { o with currentLeader := some (n.currentEpoch % 2 ^ 16) }

lemma round_eq (h : o.Follows X) (hn : Serving ⟨X⟩ n) (id : ℕ) (ht : o.target ≠ none) :
    o.round id n = (o.fed n).advance n.highWatermark := by
  obtain ⟨t, ht⟩ := Option.ne_none_iff_exists'.mp ht
  rcases Nat.eq_zero_or_pos n.currentEpoch with hepoch | hepoch
  · simp [round, ht, fetchAnswer_of_epoch_zero h hn hepoch, handleFetchResponse, fed, hepoch]
  · simp [round, ht, fetchAnswer_of_epoch_pos hepoch, handleFetchResponse, fed, hepoch,
      hepoch.ne']

lemma fed_log (hX : o.log.entries <+: n.log.entries) : (o.fed n).log.entries
    = if n.currentEpoch = 0 then n.log.entries else o.log.entries := by
  simp only [fed]
  split_ifs with hepoch
  · rw [(foldl_appendEntry _ o).1]
    obtain ⟨Z, hZ⟩ := hX
    rw [← hZ, List.drop_left]
  · rfl

lemma fed_highWatermark (o : Observer VecLog) (n : Node VecLog) :
    (o.fed n).highWatermark = o.highWatermark := by
  simp only [fed]
  split_ifs
  · exact (foldl_appendEntry _ o).2.1
  · rfl

lemma fed_applied (o : Observer VecLog) (n : Node VecLog) : (o.fed n).applied = o.applied := by
  simp only [fed]
  split_ifs
  · exact (foldl_appendEntry _ o).2.2
  · rfl

lemma Follows.mono (h : o.Follows X) {Y : List LogEntry} (hX : X <+: Y) : o.Follows Y :=
  ⟨h.contiguous, h.log.trans hX, h.fetchOffset, h.lastEpoch, h.watermark.trans hX.length_le⟩

lemma Follows.fed (h : o.Follows n.log.entries) (hn : Contiguous n.log.entries) :
    (o.fed n).Follows n.log.entries := by
  simp only [Observer.fed]
  split_ifs
  · exact h.appends hn
  · exact ⟨h.contiguous, h.log, h.fetchOffset, h.lastEpoch, h.watermark⟩

/-- A round keeps the observer's log a part of the leader's. -/
lemma Follows.round (h : o.Follows X) (hn : Serving ⟨X⟩ n) (id : ℕ) :
    (o.round id n).Follows n.log.entries := by
  by_cases ht : o.target = none
  · simp only [Observer.round, ht]
    exact h.mono hn.grows
  · rw [round_eq h hn id ht]
    exact ((h.mono hn.grows).fed hn.contiguous).advance hn.watermark

lemma Exact.fed (h : o.Exact) (hX : o.log.entries <+: n.log.entries) : (o.fed n).Exact := by
  obtain ⟨happlied, hwatermark⟩ := h
  have hle : (o.fed n).log.entries.take o.highWatermark = o.log.entries.take o.highWatermark ∧
      o.log.entries.length ≤ (o.fed n).log.entries.length := by
    rw [fed_log hX]
    split_ifs
    · obtain ⟨Z, hZ⟩ := hX
      rw [← hZ, List.take_append_of_le_length hwatermark]
      simp
    · exact ⟨rfl, le_rfl⟩
  constructor
  · rw [fed_applied, fed_highWatermark, hle.1, happlied]
  · rw [fed_highWatermark]
    exact hwatermark.trans hle.2

lemma Behind.fed (h : o.Behind) (hX : o.log.entries <+: n.log.entries) : (o.fed n).Behind := by
  obtain ⟨hbehind, hlog⟩ := h
  constructor
  · rwa [fed_applied, fed_highWatermark]
  · rw [fed_applied, fed_log hX]
    split_ifs
    · exact hlog.trans hX.length_le
    · exact hlog

/-- A good round keeps what was applied exact. -/
lemma Exact.round (h : o.Exact) (hf : o.Follows X) (hn : Serving ⟨X⟩ n) (id : ℕ)
    (hok : o.RoundOk n) : (o.round id n).Exact := by
  by_cases ht : o.target = none
  · simpa only [Observer.round, ht] using h
  have hpre := hf.log.trans hn.grows
  rw [round_eq hf hn id ht]
  refine (h.fed hpre).advance ((hf.mono hn.grows).fed hn.contiguous).contiguous ?_
  rw [fed_log hpre]
  rcases hok.resolve_left ht with hepoch | hle
  · rw [if_pos hepoch]
    exact hn.watermark
  · rw [VecLog.logEndOffset_eq hf.contiguous] at hle
    split_ifs
    · exact hn.watermark
    · exact hle

/-- A bad round leaves the observer behind. -/
lemma Exact.round_not_ok (h : o.Exact) (hf : o.Follows X) (hn : Serving ⟨X⟩ n) (id : ℕ)
    (hok : ¬ o.RoundOk n) : (o.round id n).Behind := by
  simp only [RoundOk, not_or] at hok
  obtain ⟨ht, hepoch, hlt⟩ := hok
  have hpre := hf.log.trans hn.grows
  rw [VecLog.logEndOffset_eq hf.contiguous, Nat.not_le] at hlt
  rw [round_eq hf hn id ht]
  apply (h.fed hpre).advance_past ((hf.mono hn.grows).fed hn.contiguous).contiguous
  rwa [fed_log hpre, if_neg hepoch]

/-- An observer that is behind stays behind. -/
lemma Behind.round (h : o.Behind) (hf : o.Follows X) (hn : Serving ⟨X⟩ n) (id : ℕ) :
    (o.round id n).Behind := by
  by_cases ht : o.target = none
  · simpa only [Observer.round, ht] using h
  rw [round_eq hf hn id ht]
  exact (h.fed (hf.log.trans hn.grows)).advance ((hf.mono hn.grows).fed hn.contiguous).contiguous _

/-! ### Runs -/

/-- The observer after its rounds. -/
abbrev rounds (id : ℕ) (o : Observer VecLog) (ns : List (Node VecLog)) : Observer VecLog :=
  Run.run (round id) o ns

lemma Follows.rounds (h : o.Follows l.entries) {ns : List (Node VecLog)} (hns : Growing l ns)
    (id : ℕ) : (o.rounds id ns).Follows (lastLog l ns).entries := by
  induction ns generalizing o l with
  | nil => exact h
  | cons n ns ih => exact ih (h.round hns.1 id) hns.2

lemma Behind.rounds (h : o.Behind) (hf : o.Follows l.entries) {ns : List (Node VecLog)}
    (hns : Growing l ns) (id : ℕ) : (o.rounds id ns).Behind := by
  induction ns generalizing o l with
  | nil => exact h
  | cons n ns ih => exact ih (h.round hf hns.1 id) (hf.round hns.1 id) hns.2

/-- One bad round is enough to stay behind for good. -/
lemma Exact.rounds (h : o.Exact) (hf : o.Follows l.entries) {ns : List (Node VecLog)}
    (hns : Growing l ns) (id : ℕ) :
    (Run.Meets (Observer.round id) RoundOk o ns → (o.rounds id ns).Exact) ∧
      (¬ Run.Meets (Observer.round id) RoundOk o ns → (o.rounds id ns).Behind) := by
  induction ns generalizing o l with
  | nil => exact ⟨fun _ => h, fun hnot => absurd trivial hnot⟩
  | cons n ns ih =>
    by_cases hok : o.RoundOk n
    · obtain ⟨hgood, hbad⟩ := ih (h.round hf hns.1 id hok) (hf.round hns.1 id) hns.2
      exact ⟨fun hm => hgood hm.2, fun hm => hbad fun hrest => hm ⟨hok, hrest⟩⟩
    · refine ⟨fun hm => absurd hm.1 hok, fun _ => ?_⟩
      exact (h.round_not_ok hf hns.1 id hok).rounds (hf.round hns.1 id) hns.2 id

lemma contiguous_lastLog (hl : Contiguous l.entries) {ns : List (Node VecLog)}
    (hns : Growing l ns) : Contiguous (lastLog l ns).entries := by
  induction ns generalizing l with
  | nil => exact hl
  | cons n ns ih => exact ih hns.1.contiguous hns.2

lemma Exact.appliesCommitted (h : o.Exact) (hf : o.Follows l.entries) (hl : Contiguous l.entries) :
    o.AppliesCommitted l := by
  obtain ⟨happlied, hle⟩ := h
  obtain ⟨Z, hZ⟩ := hf.log
  rw [AppliesCommitted, happlied, VecLog.entries_eq hl, ← hZ, List.drop_zero,
    List.take_append_of_le_length hle]

lemma Behind.not_appliesCommitted (h : o.Behind) (hf : o.Follows l.entries)
    (hl : Contiguous l.entries) : ¬ o.AppliesCommitted l := by
  intro happlied
  have hlen := congrArg List.length happlied
  rw [VecLog.entries_eq hl, List.drop_zero, List.length_take_of_le hf.watermark] at hlen
  exact absurd hlen h.1.ne

/-- The observer applies the committed log exactly once if and only if every round is good. -/
theorem appliesCommitted_iff_roundOk (controllerIds : List ℕ) (id : ℕ) {l : VecLog}
    (hl : Contiguous l.entries) {ns : List (Node VecLog)} (hns : Growing l ns) :
    ((new l controllerIds).rounds id ns).AppliesCommitted (lastLog l ns) ↔
      Run.Meets (round id) RoundOk (new l controllerIds) ns := by
  have hf : (new l controllerIds).Follows l.entries :=
    ⟨hl, List.prefix_refl _, VecLog.logEndOffset_eq hl, rfl, Nat.zero_le _⟩
  have h : (new l controllerIds).Exact := ⟨rfl, Nat.zero_le _⟩
  have hlast := contiguous_lastLog hl hns
  obtain ⟨hgood, hbad⟩ := h.rounds hf hns id
  constructor
  · intro happlied
    by_contra hnot
    exact (hbad hnot).not_appliesCommitted (hf.rounds hns id) hlast happlied
  · intro hmeets
    exact (hgood hmeets).appliesCommitted (hf.rounds hns id) hlast

/-- The leader of epoch 1 appends an entry and commits it between two requests. -/
theorem appliesCommitted_iff_two_rounds :
    ((new VecLog.new [1]).rounds 9
      [{ Node.new 1 [1] ⟨1, some 1⟩ (⟨[]⟩ : VecLog) with role := .leader },
        { Node.new 1 [1] ⟨1, some 1⟩ (⟨[⟨1, 0, [7]⟩]⟩ : VecLog) with
          role := .leader, highWatermark := 1 }]).AppliesCommitted ⟨[⟨1, 0, [7]⟩]⟩ ↔
      Run.Meets (round 9) RoundOk (new VecLog.new [1])
        [{ Node.new 1 [1] ⟨1, some 1⟩ (⟨[]⟩ : VecLog) with role := .leader },
          { Node.new 1 [1] ⟨1, some 1⟩ (⟨[⟨1, 0, [7]⟩]⟩ : VecLog) with
            role := .leader, highWatermark := 1 }] :=
  appliesCommitted_iff_roundOk [1] 9 (by decide)
    ⟨⟨rfl, by decide, List.prefix_refl _, le_rfl⟩, ⟨rfl, by decide, List.nil_prefix, le_rfl⟩,
      trivial⟩

/-- The watermark of a leader of epoch 1 covers an entry that the observer never sees. -/
theorem appliesCommitted_not_epoch_one :
    ¬ ((new VecLog.new [1]).rounds 9
      [{ Node.new 1 [1] ⟨1, some 1⟩ (⟨[⟨1, 0, [7]⟩]⟩ : VecLog) with
        role := .leader, highWatermark := 1 }]).AppliesCommitted ⟨[⟨1, 0, [7]⟩]⟩ := by
  simp only [AppliesCommitted]
  decide

end Observer

end Musil.Raft
