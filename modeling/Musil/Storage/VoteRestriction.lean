import Mathlib.Data.Prod.Lex
import Musil.Lib.Run
import Musil.Raft.Node
import Musil.Storage.RaftPartition

/-!
# The vote over the log on disk

A voter compares the candidate's last entry with its own. The last epoch that the log on disk
reports is the one before the last change of epochs, so a candidate that lacks the entries of the
last epoch can be taken for one that is up to date.
-/

namespace Musil.Storage.VoteRestriction

open List Proto Raft Run

/-! ### The restriction -/

section Node

variable {A : Type*} [RaftLog A]

/-- The epoch of the entry before the log end, and 0 if there is none. -/
def endEpoch (l : A) : ℕ :=
  if RaftLog.logEndOffset l = 0 then 0
  else (RaftLog.epochAt l (RaftLog.logEndOffset l - 1)).getD 0

/-- Logs are compared by the epoch of their last entry, then by their end. -/
def position (l : A) : ℕ ×ₗ ℕ :=
  toLex (endEpoch l, RaftLog.logEndOffset l)

/-- The position of the candidate's log, as the request states it. -/
def claimed (req : VoteRequest) : ℕ ×ₗ ℕ :=
  toLex (req.lastLogEpoch, req.lastLogOffset)

/-- A vote is granted only to a candidate whose log is not behind. -/
def Restricted (n : Node A) (sender : ℕ) (req : VoteRequest) : Prop :=
  ∀ c e, .sendVoteResponse c ⟨e, true⟩ ∈ (n.handleVoteRequest sender req).2 →
    position n.log ≤ claimed req

/-- The request is not of an older epoch, and the vote of its epoch is not given to another. -/
def Considered (n : Node A) (sender : ℕ) (req : VoteRequest) : Prop :=
  n.currentEpoch < req.epoch ∨
    n.currentEpoch = req.epoch ∧ (n.votedFor = none ∨ n.votedFor = some sender)

/-- The candidate's log is behind, but would not be if the last entry had any of the other epochs
in the log, or epoch 0. -/
def Overlooked (l : A) (req : VoteRequest) : Prop :=
  claimed req < position l ∧ endEpoch l ≠ 0 ∧
    ∀ e ∈ 0 :: (RaftLog.entries l 0 (RaftLog.logEndOffset l)).map LogEntry.epoch, e ≠ endEpoch l →
      toLex (e, RaftLog.logEndOffset l) ≤ claimed req

instance (n : Node A) (sender : ℕ) (req : VoteRequest) : Decidable (Considered n sender req) :=
  inferInstanceAs (Decidable (_ ∨ _))

variable {n : Node A} {sender c e : ℕ} {req : VoteRequest}

lemma isLogUpToDate_iff : n.isLogUpToDate req.lastLogEpoch req.lastLogOffset = true ↔
    toLex (RaftLog.lastEpoch n.log, RaftLog.logEndOffset n.log) ≤ claimed req := by
  rw [Node.isLogUpToDate, claimed, Prod.Lex.toLex_le_toLex]
  split_ifs with heq
  · rw [decide_eq_true_eq, or_iff_right heq.not_gt, and_iff_right heq.symm]
  · rw [decide_eq_true_eq, or_iff_left fun hand => heq hand.1.symm]

lemma granted_mem_answerVote :
    .sendVoteResponse c ⟨e, true⟩ ∈ (n.answerVote sender req).2 ↔
      c = sender ∧ e = n.currentEpoch ∧ (n.votedFor = none ∨ n.votedFor = some sender) ∧
        n.isLogUpToDate req.lastLogEpoch req.lastLogOffset = true := by
  simp only [Node.answerVote]
  split_ifs with hvote
  · simp [hvote.1, hvote.2]
  · simp only [List.mem_singleton, Action.sendVoteResponse.injEq, VoteResponse.mk.injEq,
      Bool.true_eq_false, and_false, false_iff]
    exact fun hand => hvote hand.2.2

/-- A vote is granted when the request is considered and the candidate's log passes the check. -/
lemma granted_iff : (∃ c e, .sendVoteResponse c ⟨e, true⟩ ∈ (n.handleVoteRequest sender req).2) ↔
    Considered n sender req ∧ n.isLogUpToDate req.lastLogEpoch req.lastLogOffset = true := by
  rcases lt_trichotomy n.currentEpoch req.epoch with hlt | heq | hgt
  · have hlog : (n.becomeFollower req.epoch none).isLogUpToDate = n.isLogUpToDate := rfl
    have hvoted : (n.becomeFollower req.epoch none).votedFor = none := rfl
    rw [Node.handleVoteRequest, if_pos hlt, Considered, or_iff_left_of_imp fun _ => hlt]
    simp only [List.mem_cons, reduceCtorEq, false_or, granted_mem_answerVote, hlog, hvoted, hlt,
      true_or, true_and]
    exact ⟨fun ⟨_, _, _, _, hup⟩ => hup, fun hup => ⟨sender, _, rfl, rfl, hup⟩⟩
  · rw [Node.handleVoteRequest, if_neg heq.not_lt, if_neg heq.not_gt, Considered,
      or_iff_right heq.not_lt, and_iff_right heq]
    simp only [granted_mem_answerVote]
    exact ⟨fun ⟨_, _, _, _, hup⟩ => hup, fun hup => ⟨sender, _, rfl, rfl, hup⟩⟩
  · rw [Node.handleVoteRequest, if_neg hgt.not_gt, if_pos hgt, Considered,
      or_iff_right hgt.not_gt]
    simp [hgt.ne']

end Node

/-! ### The scan for the last epoch -/

/-- The epoch `r` is the last one before the epoch `last`. -/
structure BeforeLast (es : List ℕ) (last r : ℕ) : Prop where
  mem : r ∈ es
  lt : r < last
  le : ∀ e ∈ es, e ≠ last → e ≤ r

/-- The scan returns the epoch before the last change, or what it began with if there is none. -/
lemma exists_scanLastEpoch (prev curr : ℕ) {xs : List Filled}
    (h : (curr :: xs.map fun x => epochOf x.batch).Pairwise (· ≤ ·)) :
    ∃ r, RaftPartition.scanLastEpoch prev curr (xs.map fun x => some x.batch) = some r ∧
      ((∀ x ∈ xs, epochOf x.batch = curr) ∧ r = prev ∨
        BeforeLast (curr :: xs.map fun x => epochOf x.batch)
          ((xs.map fun x => epochOf x.batch).getLast?.getD curr) r) := by
  induction xs generalizing prev curr with
  | nil => exact ⟨prev, rfl, .inl ⟨by simp, rfl⟩⟩
  | cons x xs ih =>
    rw [List.map_cons, List.pairwise_cons] at h
    have hle : curr ≤ epochOf x.batch := h.1 _ List.mem_cons_self
    simp only [List.map_cons, RaftPartition.scanLastEpoch, List.getLast?_cons, Option.getD_some]
    split_ifs with hchange
    · obtain ⟨r, hr, ⟨hall, rfl⟩ | hbefore⟩ := ih curr _ h.2
      · -- all that follow are of the new epoch
        have hlast : (xs.map fun x => epochOf x.batch).getLast?.getD (epochOf x.batch)
            = epochOf x.batch := by
          cases hmem : (xs.map fun x => epochOf x.batch).getLast? with
          | none => rfl
          | some e =>
            obtain ⟨y, hy, rfl⟩ := List.mem_map.mp (List.mem_of_getLast? hmem)
            exact hall y hy
        refine ⟨r, hr, .inr ⟨List.mem_cons_self, ?_, ?_⟩⟩
        · rw [hlast]
          exact lt_of_le_of_ne hle fun heq => hchange heq.symm
        · rw [hlast]
          intro e he hne
          rcases List.mem_cons.mp he with rfl | he
          · exact le_rfl
          rcases List.mem_cons.mp he with rfl | he
          · exact absurd rfl hne
          · obtain ⟨y, hy, rfl⟩ := List.mem_map.mp he
            exact absurd (hall y hy) hne
      · refine ⟨r, hr, .inr ⟨List.mem_cons_of_mem _ hbefore.mem, hbefore.lt, fun e he hne => ?_⟩⟩
        rcases List.mem_cons.mp he with rfl | he
        · exact h.1 r hbefore.mem
        · exact hbefore.le e he hne
    · rw [not_not] at hchange
      rw [hchange] at h ⊢
      obtain ⟨r, hr, ⟨hall, rfl⟩ | hbefore⟩ := ih prev _ h.2
      · exact ⟨r, hr, .inl ⟨List.forall_mem_cons.mpr ⟨hchange, hall⟩, rfl⟩⟩
      · refine ⟨r, hr, .inr ⟨List.mem_cons_of_mem _ hbefore.mem, hbefore.lt, fun e he hne => ?_⟩⟩
        rcases List.mem_cons.mp he with rfl | he
        · exact hbefore.le e List.mem_cons_self hne
        · exact hbefore.le e he hne

/-! ### Logs that appends lead to -/

/-- The entry can be encoded: its epoch and the length of its batch have 32 bits. -/
def Encodable (entry : LogEntry) : Prop :=
  entry.epoch < 2 ^ 32 ∧ batchPayloadHeader + (33 + entry.data.length) < 2 ^ 32

instance (entry : LogEntry) : Decidable (Encodable entry) :=
  inferInstanceAs (Decidable (_ ∧ _))

/-- The log shows what was written to it, also after its actor has ended. -/
structure Appended (l : RaftPartition) (xs : List Filled) : Prop where
  keeping : l.Keeping xs
  running : ∀ a, l.partition.actor = some a →
    Running l.partition a xs ∧ AtEnd l.partition.disk a.active

section Appended

variable {l : RaftPartition} {xs : List Filled}

/-- An append adds its entry, or the log stays as it is. -/
lemma Appended.append [Crc] (h : Appended l xs) {entry : LogEntry} (hentry : Encodable entry) :
    Appended (l.append entry) xs ∨
      ∃ x, Appended (l.append entry) (xs ++ [x]) ∧ epochOf x.batch = entry.epoch := by
  rcases hactor : l.partition.actor with _ | a
  · have hsame : (l.append entry).partition = l.partition := by
      rw [RaftPartition.append, Partition.handle_of_none hactor]
    exact .inl ⟨⟨hsame ▸ h.keeping.shows, h.keeping.one⟩, hsame ▸ h.running⟩
  · obtain ⟨hrunning, hend⟩ := h.running a hactor
    obtain ⟨x, hpartition, -, hone, heq⟩ :=
      RaftPartition.exists_append hrunning entry hentry.2 hentry.1
    rcases hp : a.handleAppend l.partition.disk l.partition.state x.batch .none 0 with ⟨p', out⟩
    rw [hp] at hpartition
    rcases hrunning.append hend hp with ⟨hnone, hstate, -, hkeep⟩ | ⟨a', hrunning', -, hend', -⟩
    · have hshows := hkeep _ _ h.keeping.shows hrunning.isBehind
      rw [← hstate] at hshows
      refine .inl ⟨⟨hpartition ▸ hshows, h.keeping.one⟩, fun a' ha' => ?_⟩
      rw [hpartition, hnone] at ha'
      cases ha'
    · refine .inr ⟨stored l.partition.state x, ⟨⟨hpartition ▸ hrunning'.shows, ?_⟩, ?_⟩, ?_⟩
      · intro y hy
        rcases List.mem_append.mp hy with hold | hnew
        · exact h.keeping.one y hold
        · exact List.mem_singleton.mp hnew ▸ hone
      · intro b hb
        rw [hpartition, hrunning'.actor] at hb
        cases hb
        exact ⟨hpartition ▸ hrunning', hpartition ▸ hend'⟩
      · exact congrArg LogEntry.epoch heq

/-- After any appends the log shows entries with some of their epochs, in order. -/
lemma exists_appended_of_run [Crc] {entries : List LogEntry}
    (hentries : ∀ entry ∈ entries, Encodable entry) (h : Appended l xs) :
    ∃ ys, Appended (run RaftLog.append l entries) ys ∧
      (ys.map fun y => epochOf y.batch)
        <+ (xs.map fun x => epochOf x.batch) ++ entries.map LogEntry.epoch := by
  induction entries generalizing l xs with
  | nil => exact ⟨xs, h, List.sublist_append_left _ _⟩
  | cons entry entries ih =>
    rw [List.forall_mem_cons] at hentries
    rw [run_cons, List.map_cons]
    rcases h.append hentries.1 with hsame | ⟨x, hadded, hepoch⟩
    · obtain ⟨ys, hys, hsub⟩ := ih hentries.2 hsame
      refine ⟨ys, hys, hsub.trans (List.Sublist.append_left ?_ _)⟩
      exact List.sublist_cons_self _ _
    · obtain ⟨ys, hys, hsub⟩ := ih hentries.2 hadded
      rw [List.map_append, List.map_singleton, hepoch, List.append_assoc] at hsub
      exact ⟨ys, hys, hsub⟩

lemma endEpoch_eq [Crc] (h : l.Keeping xs) :
    endEpoch l = (xs.map fun x => epochOf x.batch).getLast?.getD 0 := by
  have hend : RaftLog.logEndOffset l = xs.length := h.logEndOffset_eq
  have hat : RaftLog.epochAt l (xs.length - 1) = (xs.map fun x => epochOf x.batch).getLast? := by
    change (l.epochAt (xs.length - 1)).getD none = _
    rw [h.epochAt_eq, Option.getD_some, ← List.getElem?_map, List.map_map,
      List.getLast?_eq_getElem?, List.length_map]
    rfl
  rw [endEpoch, hend, hat]
  split_ifs with hzero
  · rw [List.length_eq_zero_iff.mp hzero]
    rfl
  · rfl

lemma epochs_eq [Crc] (h : l.Keeping xs) :
    (RaftLog.entries l 0 (RaftLog.logEndOffset l)).map LogEntry.epoch
      = xs.map fun x => epochOf x.batch := by
  have hend : RaftLog.logEndOffset l = (xs.map entryOf).length := by
    rw [List.length_map]
    exact h.logEndOffset_eq
  change ((l.entries 0 (RaftLog.logEndOffset l)).getD []).map LogEntry.epoch = _
  rw [h.entries_eq, hend, List.take_length, List.drop_zero, Option.getD_some, List.map_map]
  rfl

/-- The check lets a candidate pass that is behind exactly if it is overlooked. -/
lemma passes_behind_iff [Crc] (h : l.Keeping xs)
    (hsorted : (xs.map fun x => epochOf x.batch).Pairwise (· ≤ ·)) (req : VoteRequest) :
    (toLex (RaftLog.lastEpoch l, RaftLog.logEndOffset l) ≤ claimed req ∧ claimed req < position l) ↔
      Overlooked l req := by
  have hne : l.partition.state.segments.isEmpty = false :=
    List.isEmpty_eq_false_iff.mpr h.shows.segments_ne
  obtain ⟨r, hr, hcases⟩ := exists_scanLastEpoch 0 0
    (List.pairwise_cons.mpr ⟨fun _ _ => Nat.zero_le _, hsorted⟩)
  have hlast : RaftLog.lastEpoch l = r := by
    change l.lastEpoch.getD 0 = r
    rw [RaftPartition.lastEpoch, hne, if_neg Bool.false_ne_true, h.allBatches_eq, hr,
      Option.getD_some]
  rw [hlast, Overlooked, epochs_eq h, position, endEpoch_eq h]
  rcases hcases with ⟨hall, rfl⟩ | hbefore
  · -- an epoch other than 0 was never seen
    have hend : (xs.map fun x => epochOf x.batch).getLast?.getD 0 = 0 := by
      cases hmem : (xs.map fun x => epochOf x.batch).getLast? with
      | none => rfl
      | some e =>
        obtain ⟨y, hy, rfl⟩ := List.mem_map.mp (List.mem_of_getLast? hmem)
        exact hall y hy
    rw [hend]
    exact ⟨fun hand => absurd hand.1 hand.2.not_ge, fun hand => absurd rfl hand.2.1⟩
  · rw [and_comm]
    refine and_congr_right fun _ =>
      ⟨fun hpass => ⟨Nat.ne_zero_of_lt hbefore.lt, fun e he hne => le_trans ?_ hpass⟩,
        fun hand => ?_⟩
    · rw [Prod.Lex.toLex_le_toLex]
      exact (hbefore.le e he hne).lt_or_eq.imp_right fun heq => ⟨heq, le_rfl⟩
    · exact hand.2 r hbefore.mem hbefore.lt.ne

end Appended

/-- Behind appends with epochs that do not decrease, a voter grants its vote to a candidate that is
behind exactly if it considers the request and the candidate is overlooked. -/
theorem restricted_iff [Crc] (config : PartitionActorConfig) (replicas : List ReplicaMetadata)
    (free : ℕ) (hfree : free < 2 ^ 63) (p : Partition)
    (hp : PartitionActor.new config replicas ⟨free, ∅⟩ = some p) (clock : ℕ → UInt64)
    (entries : List LogEntry) (hentries : ∀ entry ∈ entries, Encodable entry)
    (hsorted : (entries.map LogEntry.epoch).Pairwise (· ≤ ·)) (n : Node RaftPartition)
    (hlog : n.log = run RaftLog.append ⟨p, clock⟩ entries) (sender : ℕ) (req : VoteRequest) :
    Restricted n sender req ↔ ¬ (Considered n sender req ∧ Overlooked n.log req) := by
  obtain ⟨p', a, hnew, hrunning, -, hend⟩ := Running.new config replicas hfree
  obtain rfl : p' = p := Option.some.inj (hnew.symm.trans hp)
  have hstart : Appended ⟨p', clock⟩ [] := by
    refine ⟨⟨hrunning.shows, fun _ hx => absurd hx List.not_mem_nil⟩, fun b hb => ?_⟩
    rw [hrunning.actor] at hb
    cases hb
    exact ⟨hrunning, hend⟩
  obtain ⟨xs, happended, hsub⟩ := exists_appended_of_run hentries hstart
  rw [List.map_nil, List.nil_append] at hsub
  rw [← hlog] at happended
  rw [← passes_behind_iff happended.keeping (hsorted.sublist hsub), ← and_assoc,
    ← isLogUpToDate_iff, ← granted_iff, Restricted]
  simp only [not_and, not_lt, forall_exists_index]

/-! ### A candidate that is overlooked -/

section Example

local instance castagnoli : Crc := Crc.castagnoli

def voterLog : RaftPartition :=
  run RaftLog.append ⟨openedLarge, fun _ => 0⟩ [⟨1, 0, [7]⟩, ⟨2, 1, [8]⟩]

def voter : Node RaftPartition :=
  Node.new 1 [1, 2, 3] ⟨2, none⟩ voterLog

/-- The candidate has no entry of epoch 2, which the voter's log ends with. -/
theorem restricted_not_all_requests : ¬ Restricted voter 2 ⟨3, 2, 1, 2⟩ := by
  intro h
  exact absurd (h 2 3 (by decide +kernel)) (by decide +kernel)

/-- A candidate whose last entry is of epoch 2 passes as it should. -/
theorem restricted_last_epoch : Restricted voter 2 ⟨3, 2, 2, 2⟩ := by
  have hbehind : ¬ claimed ⟨3, 2, 2, 2⟩ < position voter.log := by decide +kernel
  refine (restricted_iff ⟨1 <<< 20, 1, 0⟩ [] (1 <<< 20) (by decide) openedLarge
    (Option.some_get isSome_new_large).symm (fun _ => 0) [⟨1, 0, [7]⟩, ⟨2, 1, [8]⟩] (by decide)
    (by decide) voter rfl 2 _).mpr fun hand => ?_
  exact hbehind hand.2.1

end Example

end Musil.Storage.VoteRestriction
