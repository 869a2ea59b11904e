import Musil.Lib.Volume
import Musil.Raft.Runner

/-!
# The quorum-state file

A runner replaces the file with its quorum state by writing a new one beside it. The power can fail
between any two steps of that. As long as the directory can be flushed, nobody can tell such a
runner from one that replaces the file as a whole; and in any case what a runner finds after a crash
is a state that it has been in, never a part of one.
-/

namespace Musil.Raft

open Run Volume

/-- How a quorum state is written to a file and read from one. -/
structure QuorumCodec (β : Type*) where
  toVec : QuorumState → β
  fromStr : β → Option QuorumState
  fromStr_toVec : ∀ q, fromStr (toVec q) = some q

/-! ### The text of a quorum state -/

section Text

def readText (text cs : List Char) : Option (List Char) :=
  if text.isPrefixOf cs then some (cs.drop text.length) else none

/-- A number in decimal, without leading zeros, and what follows it. -/
def readNumber (cs : List Char) : Option (ℕ × List Char) :=
  let n := Nat.ofDigitChars 10 (cs.takeWhile Char.isDigit) 0
  if Nat.toDigits 10 n = cs.takeWhile Char.isDigit then some (n, cs.dropWhile Char.isDigit)
  else none

/-- The two fields between the texts around them; `null` stands for a vote that is not there. -/
def QuorumState.write (head mid null last : List Char) (q : QuorumState) : List Char :=
  head ++ (Nat.toDigits 10 q.currentEpoch ++
    (mid ++ (q.votedFor.elim null (Nat.toDigits 10) ++ last)))

def QuorumState.read (head mid null last cs : List Char) : Option QuorumState := do
  let cs ← readText head cs
  let (epoch, cs) ← readNumber cs
  let cs ← readText mid cs
  match readText null cs with
  | some rest => if rest = last then some ⟨epoch, none⟩ else none
  | none =>
    let (candidate, rest) ← readNumber cs
    if rest = last then some ⟨epoch, some candidate⟩ else none

lemma readText_append (text cs : List Char) : readText text (text ++ cs) = some cs := by
  rw [readText, if_pos (List.isPrefixOf_iff_prefix.mpr (List.prefix_append _ _)), List.drop_left]

lemma isDigit_of_mem_toDigits (n : ℕ) : ∀ d ∈ Nat.toDigits 10 n, d.isDigit = true :=
  fun _ hd => Nat.isDigit_of_mem_toDigits (by decide) (by decide) hd

lemma readNumber_append (n : ℕ) {c : Char} (hc : c.isDigit = false) (cs : List Char) :
    readNumber (Nat.toDigits 10 n ++ c :: cs) = some (n, c :: cs) := by
  have htake : (Nat.toDigits 10 n ++ c :: cs).takeWhile Char.isDigit = Nat.toDigits 10 n := by
    rw [List.takeWhile_append_of_pos (isDigit_of_mem_toDigits n),
      List.takeWhile_cons_of_neg (by simp [hc]), List.append_nil]
  have hdrop : (Nat.toDigits 10 n ++ c :: cs).dropWhile Char.isDigit = c :: cs := by
    rw [List.dropWhile_append_of_pos (isDigit_of_mem_toDigits n),
      List.dropWhile_cons_of_neg (by simp [hc])]
  rw [readNumber, htake, hdrop, Nat.ofDigitChars_ten_toDigits, if_pos rfl]

/-- A number does not begin like a text that does not begin with a digit. -/
lemma readText_digits {c : Char} (hc : c.isDigit = false) (text : List Char) (n : ℕ)
    (cs : List Char) : readText (c :: text) (Nat.toDigits 10 n ++ cs) = none := by
  obtain ⟨d, ds, hds⟩ := List.exists_cons_of_ne_nil (Nat.toDigits_ne_nil (n := n) (b := 10))
  have hd : d.isDigit = true := isDigit_of_mem_toDigits n d (hds ▸ List.mem_cons_self)
  rw [readText, if_neg]
  intro hbegin
  rw [hds, List.cons_append, List.isPrefixOf_iff_prefix, List.cons_prefix_cons] at hbegin
  rw [hbegin.1, hd] at hc
  cases hc

/-- What is read is what was written, if no text can be taken for a part of a number. -/
lemma QuorumState.read_write {a b c : Char} (ha : a.isDigit = false) (hb : b.isDigit = false)
    (hc : c.isDigit = false) (head mid null last : List Char) (q : QuorumState) :
    QuorumState.read head (a :: mid) (b :: null) (c :: last)
      (q.write head (a :: mid) (b :: null) (c :: last)) = some q := by
  obtain ⟨epoch, vote⟩ := q
  have hepoch (cs : List Char) : readNumber (Nat.toDigits 10 epoch ++ (a :: mid ++ cs))
      = some (epoch, a :: mid ++ cs) := by
    rw [List.cons_append, readNumber_append epoch ha]
  simp only [QuorumState.read, QuorumState.write, readText_append, hepoch, Option.bind_eq_bind,
    Option.bind_some]
  cases vote with
  | none =>
    rw [Option.elim_none, readText_append]
    exact if_pos rfl
  | some candidate =>
    rw [Option.elim_some, readText_digits hb, readNumber_append candidate hc]
    exact if_pos rfl

/-- The text that is written for a quorum state, without blanks and in the order of its fields. -/
def jsonCodec : QuorumCodec (List Char) where
  toVec := QuorumState.write "\x7b\"current_epoch\":".toList (',' :: "\"voted_for\":".toList)
    ('n' :: "ull".toList) ['\x7d']
  fromStr := QuorumState.read "\x7b\"current_epoch\":".toList (',' :: "\"voted_for\":".toList)
    ('n' :: "ull".toList) ['\x7d']
  fromStr_toVec := QuorumState.read_write (by decide) (by decide) (by decide) _ _ _ _

end Text

/-! ### The file -/

section File

variable {α β : Type*} (codec : QuorumCodec β) (path tmp : α)

/-- The state in the file, if there is a file and it can be read. -/
def QuorumState.stored (v : Volume α β) : Option QuorumState :=
  (v.read path).bind codec.fromStr

/-- The steps in which a quorum state is persisted. The directory is flushed if it can be opened. -/
def QuorumState.persist (dirOpens : Bool) (q : QuorumState) : List (Op α β) :=
  [.write tmp (codec.toVec q), .flush tmp, .rename tmp path]
    ++ if dirOpens then [.flushDir] else []

lemma QuorumState.persist_eq (dirOpens : Bool) (q : QuorumState) : q.persist codec path tmp dirOpens
    = (replace tmp path (codec.toVec q)).take (if dirOpens then 4 else 3) := by
  cases dirOpens <;> rfl

end File

/-- A runner with the volume that its file is on. The log is taken to survive as it is. -/
structure FileRunner (L α β : Type*) where
  node : Node L
  volume : Volume α β
  phase : Phase
  produced : QuorumState
  deliveries : List Delivery

namespace FileRunner

variable {L α β : Type*} (codec : QuorumCodec β) (path tmp : α)

/-- The power fails after `k` steps of what the runner is about to write, and leaves the volume as
`Volume.crash` says. -/
inductive Input (β : Type*) where
  | event (ev : Event)
  | act (dirOpens : Bool)
  | crash (k n : ℕ) (lost : ℕ → β)

def spawn (id : ℕ) (voters : List ℕ) (log : L) (v : Volume α β) : FileRunner L α β where
  node := .new id voters (.load (QuorumState.stored codec path v)) log
  volume := v
  phase := .waiting
  produced := .load (QuorumState.stored codec path v)
  deliveries := []

/-- The volume after `k` steps of the next action. -/
def interrupted [DecidableEq α] (s : FileRunner L α β) (k : ℕ) : Volume α β :=
  match s.phase with
  | .persisting (.persistQuorumState :: _) _ =>
    run Volume.step s.volume ((s.node.quorumState.persist codec path tmp true).take k)
  | _ => s.volume

variable [RaftLog L]

def persist [DecidableEq α] (dirOpens : Bool) (s : FileRunner L α β) : Action → FileRunner L α β
  | .persistQuorumState =>
    { s with
      volume := run Volume.step s.volume (s.node.quorumState.persist codec path tmp dirOpens) }
  | .appendToLog entry => { s with node := { s.node with log := RaftLog.append s.node.log entry } }
  | .truncateLog offset =>
    { s with node := { s.node with log := RaftLog.truncate s.node.log offset } }
  | _ => s

def act [DecidableEq α] (s : FileRunner L α β) (dirOpens : Bool) : FileRunner L α β :=
  match s.phase with
  | .waiting => s
  | .persisting [] actions => { s with phase := .sending (sendPass s.node.id actions) }
  | .persisting (a :: rest) actions =>
    { s.persist codec path tmp dirOpens a with phase := .persisting rest actions }
  | .sending [] => { s with phase := .waiting }
  | .sending (env :: rest) =>
    { s with
      phase := .sending rest
      deliveries := s.deliveries
        ++ [⟨env, s.produced, .load (QuorumState.stored codec path s.volume)⟩] }

def step [DecidableEq α] (s : FileRunner L α β) : Input β → FileRunner L α β
  | .event ev =>
    match s.phase with
    | .waiting =>
      let (n, actions) := s.node.handle ev
      { s with node := n, phase := .persisting actions actions, produced := n.quorumState }
    | _ => s
  | .act dirOpens => s.act codec path tmp dirOpens
  | .crash k n lost =>
    let v := (s.interrupted codec path tmp k).crash n lost
    { s with
      node := .new s.node.id s.node.voters (.load (QuorumState.stored codec path v)) s.node.log
      volume := v
      phase := .waiting }

/-! ### The runner with one file -/

omit [RaftLog L] in
/-- The runner as it looks when only the contents of its file are seen. -/
def abs (s : FileRunner L α β) : Runner L :=
  ⟨s.node, QuorumState.stored codec path s.volume, s.phase, s.produced, s.deliveries⟩

/-- No crash changes what is read from the file. -/
structure Firm (s : FileRunner L α β) : Prop where
  safe : s.volume.Safe tmp path
  holds : s.volume.Holds path fun x => x = s.volume.read path

section Firm

variable [DecidableEq α] {codec : QuorumCodec β} {path tmp : α} {s : FileRunner L α β}

omit [RaftLog L] [DecidableEq α] in
lemma stored_of_read {v : Volume α β} {q : QuorumState} (h : v.read path = some (codec.toVec q)) :
    QuorumState.stored codec path v = some q := by
  rw [QuorumState.stored, h, Option.bind_some, codec.fromStr_toVec]

/-- With the directory flushed, an action of the first pass is done for good. -/
lemma Firm.persist (h : s.Firm path tmp) (hne : tmp ≠ path) (a : Action) :
    (s.persist codec path tmp true a).Firm path tmp ∧
      (s.persist codec path tmp true a).abs codec path = (s.abs codec path).persist a := by
  cases a with
  | persistQuorumState =>
    have hany : s.volume.Holds path fun _ => True := fun _ _ => trivial
    have hsafe : (run Volume.step s.volume
        (replace tmp path (codec.toVec s.node.quorumState))).Safe tmp path :=
      (h.safe.replace_take hany hne trivial 4).1
    obtain ⟨-, hholds⟩ := h.safe.replace_done hne (codec.toVec s.node.quorumState)
    have hread := hholds.read
    have hstored : QuorumState.stored codec path
        (s.persist codec path tmp true .persistQuorumState).volume = some s.node.quorumState :=
      stored_of_read hread
    refine ⟨⟨hsafe, hholds.imp fun x hx => hx.trans hread.symm⟩, ?_⟩
    rw [abs, hstored]
    rfl
  | _ => exact ⟨⟨h.safe, h.holds⟩, rfl⟩

variable (codec) in
lemma Firm.act (h : s.Firm path tmp) (hne : tmp ≠ path) :
    (s.act codec path tmp true).Firm path tmp ∧
      (s.act codec path tmp true).abs codec path = (s.abs codec path).act := by
  rw [FileRunner.act, Runner.act, show (s.abs codec path).phase = s.phase from rfl]
  cases s.phase with
  | waiting => exact ⟨h, rfl⟩
  | persisting rest actions =>
    cases rest with
    | nil => exact ⟨⟨h.safe, h.holds⟩, rfl⟩
    | cons a rest =>
      obtain ⟨hfirm, habs⟩ := h.persist hne a
      refine ⟨⟨hfirm.safe, hfirm.holds⟩, ?_⟩
      dsimp only
      rw [← habs]
      rfl
  | sending rest =>
    cases rest with
    | nil => exact ⟨⟨h.safe, h.holds⟩, rfl⟩
    | cons env rest => exact ⟨⟨h.safe, h.holds⟩, rfl⟩

variable (codec path tmp) in
omit [RaftLog L] in
lemma interrupted_cases (s : FileRunner L α β) (k : ℕ) : s.interrupted codec path tmp k = s.volume ∨
    ∃ rest actions, s.phase = .persisting (.persistQuorumState :: rest) actions ∧
      s.interrupted codec path tmp k = run Volume.step s.volume
        ((replace tmp path (codec.toVec s.node.quorumState)).take k) := by
  rw [interrupted]
  split
  · next rest actions hphase =>
    refine .inr ⟨rest, actions, hphase, ?_⟩
    rw [QuorumState.persist_eq, if_pos rfl]
    rfl
  · exact .inl rfl

variable (codec) in
/-- A runner that loses power looks as if it had crashed before its next action, or right after it
if that persists the quorum state. -/
lemma Firm.crash (h : s.Firm path tmp) (hne : tmp ≠ path) (k n : ℕ) (lost : ℕ → β) :
    (s.step codec path tmp (.crash k n lost)).Firm path tmp ∧
      ((s.abs codec path).step .crash = (s.step codec path tmp (.crash k n lost)).abs codec path ∨
        (∃ rest actions, s.phase = .persisting (.persistQuorumState :: rest) actions) ∧
          (s.abs codec path).act.step .crash
            = (s.step codec path tmp (.crash k n lost)).abs codec path) := by
  have hfirm : (s.interrupted codec path tmp k).Safe tmp path →
      (s.step codec path tmp (.crash k n lost)).Firm path tmp :=
    fun hsafe => ⟨hsafe.crash n lost, holds_of_earlier rfl⟩
  -- what is read afterwards is all that counts
  have hbefore : ((s.interrupted codec path tmp k).crash n lost).read path = s.volume.read path →
      (s.abs codec path).step .crash
        = (s.step codec path tmp (.crash k n lost)).abs codec path := by
    intro hread
    have hstored : QuorumState.stored codec path ((s.interrupted codec path tmp k).crash n lost)
        = QuorumState.stored codec path s.volume := by
      rw [QuorumState.stored, QuorumState.stored, hread]
    show Runner.mk _ _ _ _ _ = Runner.mk (.new _ _ (.load (QuorumState.stored codec path
      ((s.interrupted codec path tmp k).crash n lost))) _) (QuorumState.stored codec path
        ((s.interrupted codec path tmp k).crash n lost)) _ _ _
    rw [hstored]
    rfl
  rcases interrupted_cases codec path tmp s k with heq |
    ⟨rest, actions, hphase, heq⟩
  · rw [heq] at hfirm hbefore
    exact ⟨hfirm h.safe, .inl (hbefore (h.safe.holds_crash h.holds n lost).read)⟩
  · have hold : s.volume.Holds path fun x =>
        x = s.volume.read path ∨ x = some (codec.toVec s.node.quorumState) :=
      h.holds.imp fun _ hx => .inl hx
    obtain ⟨hsafe, hholds⟩ := h.safe.replace_take hold hne (.inr rfl) k
    rw [heq] at hfirm hbefore
    refine ⟨hfirm hsafe, ?_⟩
    rcases (hsafe.holds_crash hholds n lost).read with hread | hnew
    · exact .inl (hbefore hread)
    · refine .inr ⟨⟨rest, actions, hphase⟩, ?_⟩
      have hact : (s.abs codec path).act
          = { (s.abs codec path).persist .persistQuorumState with
              phase := .persisting rest actions } := by
        rw [Runner.act, show (s.abs codec path).phase = s.phase from rfl, hphase]
      show (s.abs codec path).act.step .crash = Runner.mk (.new _ _ (.load (QuorumState.stored
        codec path ((s.interrupted codec path tmp k).crash n lost))) _) (QuorumState.stored codec
          path ((s.interrupted codec path tmp k).crash n lost)) _ _ _
      rw [heq, stored_of_read hnew, hact]
      rfl

end Firm

/-! ### Runs -/

/-- The directory can be flushed. -/
def Input.Flushes : Input β → Prop
  | .act dirOpens => dirOpens = true
  | _ => True

section Runs

variable [DecidableEq α] {codec : QuorumCodec β} {path tmp : α} {s : FileRunner L α β}

variable (codec) in
lemma Firm.event (h : s.Firm path tmp) (ev : Event) :
    (s.step codec path tmp (.event ev)).Firm path tmp ∧
      (s.step codec path tmp (.event ev)).abs codec path = (s.abs codec path).step (.event ev) := by
  rw [step, Runner.step, show (s.abs codec path).phase = s.phase from rfl]
  cases s.phase with
  | waiting => exact ⟨⟨h.safe, h.holds⟩, rfl⟩
  | persisting => exact ⟨h, rfl⟩
  | sending => exact ⟨h, rfl⟩

lemma Firm.step {i : Input β} (h : s.Firm path tmp) (hne : tmp ≠ path) (hi : i.Flushes) :
    (s.step codec path tmp i).Firm path tmp ∧
      ∃ is, run Runner.step (s.abs codec path) is = (s.step codec path tmp i).abs codec path := by
  cases i with
  | event ev =>
    obtain ⟨hfirm, habs⟩ := h.event codec ev
    exact ⟨hfirm, [.event ev], habs.symm⟩
  | act dirOpens =>
    obtain rfl : dirOpens = true := hi
    obtain ⟨hfirm, habs⟩ := h.act codec hne
    exact ⟨hfirm, [.act], habs.symm⟩
  | crash k n lost =>
    obtain ⟨hfirm, habs | ⟨-, habs⟩⟩ := h.crash codec hne k n lost
    · exact ⟨hfirm, [.crash], habs⟩
    · exact ⟨hfirm, [.act, .crash], habs⟩

variable (codec) in
lemma Firm.run (h : s.Firm path tmp) (hne : tmp ≠ path) (is : List (Input β))
    (his : ∀ i ∈ is, i.Flushes) :
    (Run.run (FileRunner.step codec path tmp) s is).Firm path tmp ∧
      ∃ is', (Run.run (FileRunner.step codec path tmp) s is).abs codec path
        = Run.run Runner.step (s.abs codec path) is' := by
  refine run_invariant (P := fun t : FileRunner L α β => t.Firm path tmp ∧
    ∃ is', t.abs codec path = Run.run Runner.step (s.abs codec path) is') ?_ ⟨h, [], rfl⟩
    (.of_forall fun i hi _ => his i hi)
  rintro t i ⟨hfirm, is', hrun⟩ hi
  have hstep : (t.step codec path tmp i).Firm path tmp ∧ ∃ is,
      Run.run Runner.step (t.abs codec path) is = (t.step codec path tmp i).abs codec path :=
    hfirm.step hne hi
  obtain ⟨hfirm', is'', habs⟩ := hstep
  refine ⟨hfirm', is' ++ is'', ?_⟩
  rw [run_append, ← hrun, habs]

/-- A runner whose directory can be flushed does what a runner does that replaces its file as a
whole, and the epoch and the vote of its node are durable before it says anything of them. -/
theorem refines_runner (codec : QuorumCodec β) (path tmp : α) (hne : tmp ≠ path) (id : ℕ)
    (voters : List ℕ) (log : L) (v : Volume α β) (hv : v.Mounted) (is : List (Input β))
    (his : ∀ i ∈ is, i.Flushes) :
    ∃ is', (run (FileRunner.step codec path tmp)
        (.spawn codec path id voters log v) is).abs codec path
          = run Runner.step (.spawn id voters log (QuorumState.stored codec path v)) is' ∧
      ((run (FileRunner.step codec path tmp)
        (.spawn codec path id voters log v) is).abs codec path).Durable := by
  have hfirm : (FileRunner.spawn codec path id voters log v).Firm path tmp :=
    ⟨hv.safe hne, holds_of_earlier hv.earlier_eq⟩
  obtain ⟨-, is', hrun⟩ := hfirm.run codec hne is his
  refine ⟨is', hrun, ?_⟩
  rw [hrun]
  exact (Runner.inv_of_run id voters log _ is').durable

omit [DecidableEq α] [RaftLog L] in
/-- The next action of the runner is to persist its quorum state. -/
def Persists (s : FileRunner L α β) : Prop :=
  ∃ rest actions, s.phase = .persisting (.persistQuorumState :: rest) actions

variable (codec path tmp) in
/-- All that happens to the volume is that a runner whose turn it is carries out some steps of a
replacement, and that the power fails. -/
lemma step_volume (s : FileRunner L α β) (i : Input β) : ∃ w,
    (w = s.volume ∨ s.Persists ∧ ∃ k, w = run Volume.step s.volume
      ((replace tmp path (codec.toVec s.node.quorumState)).take k)) ∧
    ((s.step codec path tmp i).volume = w ∨
      ∃ n lost, (s.step codec path tmp i).volume = w.crash n lost) := by
  cases i with
  | event ev =>
    refine ⟨s.volume, .inl rfl, .inl ?_⟩
    rw [step]
    split <;> rfl
  | act dirOpens =>
    rw [step, FileRunner.act]
    cases hphase : s.phase with
    | waiting => exact ⟨s.volume, .inl rfl, .inl rfl⟩
    | persisting rest actions =>
      cases rest with
      | nil => exact ⟨s.volume, .inl rfl, .inl rfl⟩
      | cons a rest =>
        cases a with
        | persistQuorumState =>
          refine ⟨_, .inr ⟨⟨rest, actions, hphase⟩, if dirOpens then 4 else 3, rfl⟩, .inl ?_⟩
          rw [← QuorumState.persist_eq]
          rfl
        | _ => exact ⟨s.volume, .inl rfl, .inl rfl⟩
    | sending rest => cases rest <;> exact ⟨s.volume, .inl rfl, .inl rfl⟩
  | crash k n lost =>
    rcases interrupted_cases codec path tmp s k with heq | ⟨rest, actions, hphase, heq⟩
    · refine ⟨s.volume, .inl rfl, .inr ⟨n, lost, ?_⟩⟩
      rw [step, heq]
    · refine ⟨_, .inr ⟨⟨rest, actions, hphase⟩, k, rfl⟩, .inr ⟨n, lost, ?_⟩⟩
      rw [step, heq]

/-- Whether or not the directory can be flushed, what is in the file at any time is what was there
at the start or all of a quorum state that the node had when the runner came to persist it. -/
theorem stored_earlier (codec : QuorumCodec β) (path tmp : α) (hne : tmp ≠ path) (id : ℕ)
    (voters : List ℕ) (log : L) (v : Volume α β) (hv : v.Mounted) (is : List (Input β)) :
    (run (FileRunner.step codec path tmp)
        (.spawn codec path id voters log v) is).volume.read path = v.read path ∨
      ∃ pre i, pre ++ [i] <+: is ∧
        (run (FileRunner.step codec path tmp)
          (.spawn codec path id voters log v) pre).Persists ∧
        (run (FileRunner.step codec path tmp)
            (.spawn codec path id voters log v) is).volume.read path
          = some (codec.toVec (run (FileRunner.step codec path tmp)
            (.spawn codec path id voters log v) pre).node.quorumState) := by
  set s₀ : FileRunner L α β := .spawn codec path id voters log v
  -- what may be read from the file after the inputs `is`
  let P (is : List (Input β)) (x : Option β) : Prop := x = v.read path ∨ ∃ pre i,
    pre ++ [i] <+: is ∧ (run (FileRunner.step codec path tmp) s₀ pre).Persists ∧
      x = some (codec.toVec (run (FileRunner.step codec path tmp) s₀ pre).node.quorumState)
  have hinv : (run (FileRunner.step codec path tmp) s₀ is).volume.Safe tmp path ∧
      (run (FileRunner.step codec path tmp) s₀ is).volume.Holds path (P is) := by
    induction is using List.reverseRecOn with
    | nil => exact ⟨hv.safe hne, (holds_of_earlier hv.earlier_eq).imp fun x hx => .inl hx⟩
    | append_singleton is i ih =>
      obtain ⟨hsafe, hholds⟩ := ih
      have hholds' : (run (FileRunner.step codec path tmp) s₀ is).volume.Holds path
          (P (is ++ [i])) := by
        refine hholds.imp fun x hx => hx.imp_right ?_
        rintro ⟨pre, j, hpre, hx⟩
        exact ⟨pre, j, hpre.trans (List.prefix_append _ _), hx⟩
      obtain ⟨w, hw, hstep⟩ := step_volume codec path tmp
        (run (FileRunner.step codec path tmp) s₀ is) i
      obtain ⟨hsafe', hholds''⟩ : w.Safe tmp path ∧ w.Holds path (P (is ++ [i])) := by
        rcases hw with rfl | ⟨hpersists, k, rfl⟩
        · exact ⟨hsafe, hholds'⟩
        · exact hsafe.replace_take hholds' hne
            (.inr ⟨is, i, List.prefix_refl _, hpersists, rfl⟩) k
      rw [run_concat]
      rcases hstep with heq | ⟨n, lost, heq⟩
      · rw [heq]
        exact ⟨hsafe', hholds''⟩
      · rw [heq]
        exact ⟨hsafe'.crash n lost, hsafe'.holds_crash hholds'' n lost⟩
  exact hinv.2.read

end Runs

/-! ### A power failure during an election -/

section Examples

/-- A volume without files. -/
def emptyVolume : Volume String (List Char) :=
  ⟨[], fun _ => none, []⟩

lemma mounted_emptyVolume : emptyVolume.Mounted where
  earlier_eq := rfl
  named _ _ h := by cases h
  flushed _ h := by cases h
  distinct _ _ _ h := by cases h

/-- A node stands for election and puts its vote into the file. Then the power fails, and the
directory comes back as it was before the file had its name, unless it has been flushed. -/
def voteAndCrash (dirOpens : Bool) : List (Input (List Char)) :=
  [.event .electionTimeout, .act dirOpens, .crash 0 1 fun _ => []]

theorem refines_runner_vote :
    ∃ is, (run (FileRunner.step jsonCodec "quorum.json" "quorum.tmp")
        (.spawn jsonCodec "quorum.json" 1 [1, 2, 3] VecLog.new emptyVolume)
        (voteAndCrash true)).abs jsonCodec "quorum.json"
          = run Runner.step (.spawn 1 [1, 2, 3] VecLog.new none) is ∧
      ((run (FileRunner.step jsonCodec "quorum.json" "quorum.tmp")
        (.spawn jsonCodec "quorum.json" 1 [1, 2, 3] VecLog.new emptyVolume)
        (voteAndCrash true)).abs jsonCodec "quorum.json").Durable :=
  refines_runner jsonCodec "quorum.json" "quorum.tmp" (by decide) 1 [1, 2, 3] VecLog.new emptyVolume
    mounted_emptyVolume (voteAndCrash true) (by simp [voteAndCrash, Input.Flushes])

theorem stored_earlier_vote : (run (FileRunner.step jsonCodec "quorum.json" "quorum.tmp")
        (.spawn jsonCodec "quorum.json" 1 [1, 2, 3] VecLog.new emptyVolume)
        (voteAndCrash false)).volume.read "quorum.json" = none ∨
    ∃ pre i, pre ++ [i] <+: voteAndCrash false ∧
      (run (FileRunner.step jsonCodec "quorum.json" "quorum.tmp")
        (.spawn jsonCodec "quorum.json" 1 [1, 2, 3] VecLog.new emptyVolume) pre).Persists ∧
      (run (FileRunner.step jsonCodec "quorum.json" "quorum.tmp")
          (.spawn jsonCodec "quorum.json" 1 [1, 2, 3] VecLog.new emptyVolume)
          (voteAndCrash false)).volume.read "quorum.json"
        = some (jsonCodec.toVec (run (FileRunner.step jsonCodec "quorum.json" "quorum.tmp")
          (.spawn jsonCodec "quorum.json" 1 [1, 2, 3] VecLog.new emptyVolume)
          pre).node.quorumState) :=
  stored_earlier jsonCodec "quorum.json" "quorum.tmp" (by decide) 1 [1, 2, 3] VecLog.new emptyVolume
    mounted_emptyVolume (voteAndCrash false)

end Examples

end FileRunner

end Musil.Raft
