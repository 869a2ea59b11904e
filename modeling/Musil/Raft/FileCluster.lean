import Musil.Raft.QuorumFile
import Musil.Raft.Interleaving

/-!
# Clusters on disks that lose power

The whole way down: every runner of a cluster has its own volume, carries out its actions one by
one and the steps of writing its file one by one, and can lose power in the middle of any of them.
-/

namespace Musil.Raft

open Run Volume

structure FileCluster (L α β : Type*) where
  voters : List ℕ
  runners : ℕ → FileRunner L α β
  network : List Envelope

namespace FileCluster

variable {L α β : Type*} (codec : QuorumCodec β) (path tmp : α)

/-- An action may find the directory closed, and a crash comes in the middle of writing a file, as
they do for a runner alone. -/
inductive Input (β : Type*) where
  | deliver (k : ℕ)
  | lose (k : ℕ)
  | electionTimeout (i : ℕ)
  | heartbeatTimeout (i : ℕ)
  | propose (i : ℕ) (data : List UInt8) (proposeId : ℕ)
  | act (i : ℕ) (dirOpens : Bool)
  | crash (i k n : ℕ) (lost : ℕ → β)
  | fetch (src dst : ℕ) (req : FetchRequest)
  | resign (src dst : ℕ) (req : EndQuorumEpochRequest)

def init (voters : List ℕ) (log : ℕ → L) (v : ℕ → Volume α β) : FileCluster L α β where
  voters := voters
  runners i := .spawn codec path i voters (log i) (v i)
  network := []

variable [RaftLog L] [DecidableEq α]

def turn (s : FileCluster L α β) (i : ℕ) (inp : FileRunner.Input β) (out : List Envelope) :
    FileCluster L α β :=
  if i ∈ s.voters then
    { s with
      runners := Function.update s.runners i ((s.runners i).step codec path tmp inp)
      network := s.network ++ out }
  else s

def step (s : FileCluster L α β) : Input β → FileCluster L α β
  | .deliver k =>
    match s.network[k]? with
    | none => s
    | some env =>
      if (s.runners env.dst).phase.isWaiting then
        { s with network := s.network.eraseIdx k }.turn codec path tmp env.dst
          (.event env.toEvent) []
      else s
  | .lose k => { s with network := s.network.eraseIdx k }
  | .electionTimeout i => s.turn codec path tmp i (.event .electionTimeout) []
  | .heartbeatTimeout i => s.turn codec path tmp i (.event .heartbeatTimeout) []
  | .propose i data proposeId => s.turn codec path tmp i (.event (.propose data proposeId)) []
  | .act i dirOpens => s.turn codec path tmp i (.act dirOpens) (s.runners i).phase.outgoing
  | .crash i k n lost => s.turn codec path tmp i (.crash k n lost) []
  | .fetch src dst req => { s with network := s.network ++ [⟨src, dst, .fetchRequest req⟩] }
  | .resign src dst req => { s with network := s.network ++ [⟨src, dst, .endQuorumEpoch req⟩] }

omit [RaftLog L] [DecidableEq α] in
/-- The cluster as it looks when only the contents of the files are seen. -/
def abs (s : FileCluster L α β) : Interleaved L :=
  ⟨s.voters, fun i => (s.runners i).abs codec path, s.network⟩

/-- Directories can be flushed, and no crash parts the entries that a runner appends for one
event. -/
def Orderly (s : FileCluster L α β) : Input β → Prop
  | .act _ dirOpens => dirOpens = true
  | .crash i _ _ _ => (s.abs codec path).Uncut (.crash i)
  | _ => True

/-! ### What the volumes hide -/

section Abs

variable {codec : QuorumCodec β} {path tmp : α} {s : FileCluster L α β} {i : ℕ}

/-- A turn of one runner is seen as what it does to that runner. -/
lemma abs_turn {inp : FileRunner.Input β} {r : Runner L} (out : List Envelope)
    (habs : ((s.runners i).step codec path tmp inp).abs codec path = r) :
    (s.turn codec path tmp i inp out).abs codec path =
      if i ∈ s.voters then
        { s.abs codec path with
          runners := Function.update (s.abs codec path).runners i r
          network := s.network ++ out }
      else s.abs codec path := by
  rw [turn]
  split_ifs with hi
  · have hrunners : (fun j => (Function.update s.runners i
        ((s.runners i).step codec path tmp inp) j).abs codec path)
        = Function.update (fun j => (s.runners j).abs codec path) i r := by
      funext j
      rcases eq_or_ne j i with rfl | hji
      · rw [Function.update_self, Function.update_self, habs]
      · rw [Function.update_of_ne hji, Function.update_of_ne hji]
    exact congrArg (Interleaved.mk s.voters · (s.network ++ out)) hrunners
  · rfl

/-- A runner whose file is safe, and which has the end of its actions still to do. -/
structure Kept (path tmp : α) (r : FileRunner L α β) : Prop where
  firm : r.Firm path tmp
  suffix : ∀ rest actions, r.phase = .persisting rest actions → rest <:+ actions

lemma suffix_step {r : FileRunner L α β}
    (h : ∀ rest actions, r.phase = .persisting rest actions → rest <:+ actions)
    (inp : FileRunner.Input β) : ∀ rest actions,
      (r.step codec path tmp inp).phase = .persisting rest actions → rest <:+ actions := by
  intro rest actions hphase
  cases inp with
  | event ev =>
    rw [FileRunner.step] at hphase
    cases hr : r.phase with
    | waiting =>
      rw [hr] at hphase
      obtain ⟨rfl, rfl⟩ := Phase.persisting.inj hphase
      exact List.suffix_refl _
    | _ =>
      rw [hr] at hphase
      exact h rest actions hphase
  | act dirOpens =>
    rw [FileRunner.step, FileRunner.act] at hphase
    cases hr : r.phase with
    | waiting =>
      rw [hr] at hphase
      exact h rest actions hphase
    | sending rest' =>
      rw [hr] at hphase
      cases rest' <;> cases hphase
    | persisting rest' actions' =>
      rw [hr] at hphase
      cases rest' with
      | nil => cases hphase
      | cons a rest' =>
        obtain ⟨rfl, rfl⟩ := Phase.persisting.inj hphase
        exact (List.suffix_cons a _).trans (h _ _ hr)
  | crash k n lost => cases hphase

lemma kept_turn (h : ∀ j, Kept path tmp (s.runners j)) {inp : FileRunner.Input β}
    (out : List Envelope) (hfirm : ((s.runners i).step codec path tmp inp).Firm path tmp) :
    ∀ j, Kept path tmp ((s.turn codec path tmp i inp out).runners j) := by
  intro j
  rw [turn]
  split_ifs
  · rcases eq_or_ne j i with rfl | hji
    · dsimp only
      rw [Function.update_self]
      exact ⟨hfirm, suffix_step (h j).suffix inp⟩
    · dsimp only
      rw [Function.update_of_ne hji]
      exact h j
  · exact h j

variable (codec path) in
/-- The runners that replace their files as a whole can follow. -/
def Followed (s s' : FileCluster L α β) : Prop :=
  ∃ is, Meets Interleaved.step Interleaved.Uncut (s.abs codec path) is ∧
    run Interleaved.step (s.abs codec path) is = s'.abs codec path

variable (codec) in
lemma turn_event (h : ∀ j, Kept path tmp (s.runners j)) (i : ℕ) (ev : Event) :
    (∀ j, Kept path tmp ((s.turn codec path tmp i (.event ev) []).runners j)) ∧
      (s.abs codec path).turn i (.event ev) []
        = (s.turn codec path tmp i (.event ev) []).abs codec path := by
  obtain ⟨hfirm, habs⟩ := (h i).firm.event codec ev
  exact ⟨kept_turn h [] hfirm, (abs_turn [] habs).symm⟩

variable (codec) in
lemma turn_act (hne : tmp ≠ path) (h : ∀ j, Kept path tmp (s.runners j)) (i : ℕ) :
    (∀ j, Kept path tmp ((s.step codec path tmp (.act i true)).runners j)) ∧
      (s.abs codec path).step (.act i) = (s.step codec path tmp (.act i true)).abs codec path := by
  obtain ⟨hfirm, habs⟩ := (h i).firm.act codec hne
  exact ⟨kept_turn h _ hfirm, (abs_turn _ habs).symm⟩

lemma turn_crash (hne : tmp ≠ path) (h : ∀ j, Kept path tmp (s.runners j)) (i k n : ℕ)
    (lost : ℕ → β) (hcut : (s.abs codec path).Uncut (.crash i)) :
    (∀ j, Kept path tmp ((s.step codec path tmp (.crash i k n lost)).runners j)) ∧
      Followed codec path s (s.step codec path tmp (.crash i k n lost)) := by
  obtain ⟨hfirm, hcrash⟩ := (h i).firm.crash codec hne k n lost
  refine ⟨kept_turn h [] hfirm, ?_⟩
  by_cases hi : i ∈ s.voters
  swap
  · refine ⟨[], trivial, ?_⟩
    rw [step, turn, if_neg hi]
    rfl
  rcases hcrash with habs | ⟨⟨rest, actions, hphase⟩, habs⟩
  · exact ⟨[.crash i], ⟨hcut, trivial⟩, (abs_turn [] habs.symm).symm⟩
  -- the file has been replaced, so the crash comes after that action
  set r := (s.runners i).abs codec path
  have hact : (s.abs codec path).step (.act i)
      = ⟨s.voters, Function.update (s.abs codec path).runners i r.act, s.network⟩ := by
    have hout : r.phase.outgoing = [] := by
      rw [show r.phase = (s.runners i).phase from rfl, hphase, Phase.outgoing]
    show Interleaved.turn _ i .act r.phase.outgoing = _
    rw [Interleaved.turn, if_pos (show i ∈ (s.abs codec path).voters from hi), hout,
      List.append_nil]
    rfl
  have hnext : r.act.phase = .persisting rest actions := by
    rw [Runner.act, show r.phase = (s.runners i).phase from rfl, hphase]
  refine ⟨[.act i, .crash i], ⟨trivial, ?_, trivial⟩, ?_⟩
  · rw [hact]
    intro done rest' hdone
    dsimp only at hdone
    rw [Function.update_self, hnext] at hdone
    obtain ⟨rfl, hactions⟩ := Phase.persisting.inj hdone
    obtain ⟨done', hsplit⟩ := (h i).suffix _ _ hphase
    obtain rfl : done = done' ++ [.persistQuorumState] := by
      have hrest : done ++ rest = (done' ++ [.persistQuorumState]) ++ rest := by
        rw [← hactions, ← hsplit, List.append_assoc, List.singleton_append]
      exact List.append_cancel_right hrest
    rcases hcut done' (.persistQuorumState :: rest) (hphase.trans (by rw [hsplit])) with hcut | hcut
    · left
      rw [List.forall_mem_append]
      exact ⟨hcut, by simp [Action.IsAppend]⟩
    · exact .inr (List.forall_mem_cons.mp hcut).2
  · show ((s.abs codec path).step (.act i)).turn i .crash [] = _
    rw [hact, Interleaved.turn]
    refine (if_pos hi).trans (Eq.trans ?_ (abs_turn [] habs.symm).symm)
    rw [if_pos hi]
    dsimp only
    rw [Function.update_self, Function.update_idem]
    rfl

/-- Whatever happens to the runners and their volumes, the runners that replace their files as a
whole can follow. -/
lemma followed_step (hne : tmp ≠ path) (h : ∀ j, Kept path tmp (s.runners j)) (inp : Input β)
    (hok : s.Orderly codec path inp) :
    (∀ j, Kept path tmp ((s.step codec path tmp inp).runners j)) ∧
      Followed codec path s (s.step codec path tmp inp) := by
  have hevent : ∀ (i : ℕ) (ev : Event) (inp : Interleaved.Input),
      (∀ t : Interleaved L, t.step inp = t.turn i (.event ev) []) →
      (∀ t : Interleaved L, t.Uncut inp) →
      (∀ j, Kept path tmp ((s.turn codec path tmp i (.event ev) []).runners j)) ∧
        Followed codec path s (s.turn codec path tmp i (.event ev) []) := by
    intro i ev inp hstep huncut
    obtain ⟨hkept, habs⟩ := turn_event codec h i ev
    exact ⟨hkept, [inp], ⟨huncut _, trivial⟩, (hstep _).trans habs⟩
  cases inp with
  | deliver k =>
    rw [step]
    have hstep : (s.abs codec path).step (.deliver k) = match s.network[k]? with
        | none => s.abs codec path
        | some env =>
          if (s.runners env.dst).phase.isWaiting then
            { s.abs codec path with network := s.network.eraseIdx k }.turn env.dst
              (.event env.toEvent) []
          else s.abs codec path := rfl
    cases hk : s.network[k]? with
    | none => exact ⟨h, [], trivial, rfl⟩
    | some env =>
      rw [hk] at hstep
      dsimp only at hstep ⊢
      split_ifs at hstep ⊢ with hwaits
      · obtain ⟨hkept, habs⟩ := turn_event codec
          (s := { s with network := s.network.eraseIdx k }) h env.dst env.toEvent
        exact ⟨hkept, [.deliver k], ⟨trivial, trivial⟩, hstep.trans habs⟩
      · exact ⟨h, [], trivial, rfl⟩
  | lose k => exact ⟨h, [.lose k], ⟨trivial, trivial⟩, rfl⟩
  | electionTimeout i =>
    exact hevent i _ (.electionTimeout i) (fun _ => rfl) fun _ => trivial
  | heartbeatTimeout i =>
    exact hevent i _ (.heartbeatTimeout i) (fun _ => rfl) fun _ => trivial
  | propose i data proposeId =>
    exact hevent i _ (.propose i data proposeId) (fun _ => rfl) fun _ => trivial
  | act i dirOpens =>
    obtain rfl : dirOpens = true := hok
    obtain ⟨hkept, habs⟩ := turn_act codec hne h i
    exact ⟨hkept, [.act i], ⟨trivial, trivial⟩, habs⟩
  | crash i k n lost => exact turn_crash hne h i k n lost hok
  | fetch src dst req => exact ⟨h, [.fetch src dst req], ⟨trivial, trivial⟩, rfl⟩
  | resign src dst req => exact ⟨h, [.resign src dst req], ⟨trivial, trivial⟩, rfl⟩

end Abs

/-! ### Runs -/

omit [RaftLog L] [DecidableEq α] in
/-- Runners that have not written a file yet look like runners without one. -/
lemma abs_init (voters : List ℕ) (log : ℕ → L) {v : ℕ → Volume α β}
    (hnew : ∀ i, (v i).read path = none) :
    (init codec path voters log v).abs codec path = .init voters log := by
  have hrunners : (fun i => (FileRunner.spawn codec path i voters (log i) (v i)).abs codec path)
      = fun i => .spawn i voters (log i) none := by
    funext i
    have hstored : QuorumState.stored codec path (v i) = none := by
      rw [QuorumState.stored, hnew]
      rfl
    rw [FileRunner.spawn, FileRunner.abs, hstored]
    rfl
  exact congrArg (Interleaved.mk voters · []) hrunners

lemma followed_run (hne : tmp ≠ path) {s : FileCluster L α β}
    (h : ∀ j, Kept path tmp (s.runners j)) {is : List (Input β)}
    (his : Meets (step codec path tmp) (Orderly codec path) s is) :
    Followed codec path s (run (step codec path tmp) s is) := by
  have hrun : (∀ j, Kept path tmp ((run (step codec path tmp) s is).runners j)) ∧
      Followed codec path s (run (step codec path tmp) s is) := by
    refine run_invariant (P := fun t : FileCluster L α β => (∀ j, Kept path tmp (t.runners j)) ∧
      Followed codec path s t) ?_ ⟨h, [], trivial, rfl⟩ his
    rintro t inp ⟨hkept, is₁, hcut₁, hrun₁⟩ hok
    obtain ⟨hkept', is₂, hcut₂, hrun₂⟩ := followed_step hne hkept inp hok
    refine ⟨hkept', is₁ ++ is₂, meets_append.mpr ⟨hcut₁, hrun₁.symm ▸ hcut₂⟩, ?_⟩
    rw [run_append, hrun₁, hrun₂]
  exact hrun.2

/-- Runners on disks, which lose power in the middle of anything but a row of appended entries, do
nothing that a cluster cannot do in which every reaction and everything it makes durable is one
step. -/
theorem refines_cluster_on_disks (hne : tmp ≠ path) (voters : List ℕ) (log : ℕ → L)
    (v : ℕ → Volume α β) (hv : ∀ i, (v i).Mounted)
    (hnew : ∀ i, (v i).read path = none) (is : List (Input β))
    (his : Meets (step codec path tmp) (Orderly codec path) (init codec path voters log v) is) :
    ∃ is',
      (∀ env, (run (step codec path tmp) (init codec path voters log v) is).network.count env
        ≤ ((Cluster.init voters log).run is').network.count env) ∧
      ∀ i ∈ voters,
        ((run (step codec path tmp) (init codec path voters log v) is).abs codec path).Settled i →
        ((run (step codec path tmp) (init codec path voters log v) is).runners i).node
            = ((Cluster.init voters log).run is').nodes i ∧
          QuorumState.load (QuorumState.stored codec path
              ((run (step codec path tmp) (init codec path voters log v) is).runners i).volume)
            = ((Cluster.init voters log).run is').quorumFile i := by
  have hkept : ∀ j, Kept path tmp ((init codec path voters log v).runners j) := fun j =>
    ⟨⟨(hv j).safe hne, holds_of_earlier (hv j).earlier_eq⟩, fun _ _ hphase => by cases hphase⟩
  obtain ⟨is₁, hcut, hrun⟩ := followed_run codec path tmp hne hkept his
  rw [abs_init codec path voters log hnew] at hcut hrun
  obtain ⟨is', hsim, hvoters⟩ := Interleaved.sim_of_run voters log is₁ hcut
  rw [hrun] at hsim hvoters
  obtain ⟨hnetwork, hnodes⟩ := hsim.agrees
  exact ⟨is', hnetwork, fun i hi => hnodes i (hvoters.symm ▸ hi)⟩

/-! ### Power that fails in the middle of a vote -/

section Examples

/-- Node 1 stands and asks node 2, whose power fails when the new file has its name, but before the
directory has been flushed. -/
def voteAndFail : List (Input (List Char)) :=
  (.electionTimeout 1 :: List.replicate 6 (.act 1 true)) ++ [.deliver 0]
    ++ [.crash 2 3 1 fun _ => []]

lemma orderly_voteAndFail : Meets (step jsonCodec "quorum.json" "quorum.tmp")
    (Orderly jsonCodec "quorum.json") (init jsonCodec "quorum.json" [1, 2, 3]
      (fun _ => VecLog.new) fun _ => FileRunner.emptyVolume) voteAndFail := by
  rw [voteAndFail, meets_append]
  refine ⟨.of_forall fun inp hinp s => ?_, fun done rest hphase => ?_, trivial⟩
  · simp only [List.cons_append, List.mem_cons, List.mem_append, List.mem_replicate,
      List.not_mem_nil, or_false] at hinp
    rcases hinp with rfl | ⟨-, rfl⟩ | rfl <;> trivial
  · obtain ⟨rfl, -⟩ := Phase.persisting.inj hphase
    right
    simp [Action.IsAppend]

theorem refines_cluster_on_disks_vote : ∃ is',
    (∀ env, (run (step jsonCodec "quorum.json" "quorum.tmp") (init jsonCodec "quorum.json"
        [1, 2, 3] (fun _ => VecLog.new) fun _ => FileRunner.emptyVolume)
        voteAndFail).network.count env
      ≤ ((Cluster.init [1, 2, 3] fun _ => VecLog.new).run is').network.count env) ∧
    ∀ i ∈ [1, 2, 3], ((run (step jsonCodec "quorum.json" "quorum.tmp") (init jsonCodec
        "quorum.json" [1, 2, 3] (fun _ => VecLog.new) fun _ => FileRunner.emptyVolume)
        voteAndFail).abs jsonCodec "quorum.json").Settled i →
      ((run (step jsonCodec "quorum.json" "quorum.tmp") (init jsonCodec "quorum.json" [1, 2, 3]
          (fun _ => VecLog.new) fun _ => FileRunner.emptyVolume) voteAndFail).runners i).node
          = ((Cluster.init [1, 2, 3] fun _ => VecLog.new).run is').nodes i ∧
        QuorumState.load (QuorumState.stored jsonCodec "quorum.json"
            ((run (step jsonCodec "quorum.json" "quorum.tmp") (init jsonCodec "quorum.json"
              [1, 2, 3] (fun _ => VecLog.new) fun _ => FileRunner.emptyVolume)
              voteAndFail).runners i).volume)
          = ((Cluster.init [1, 2, 3] fun _ => VecLog.new).run is').quorumFile i :=
  refines_cluster_on_disks jsonCodec "quorum.json" "quorum.tmp" (by decide) [1, 2, 3]
    (fun _ => VecLog.new) (fun _ => FileRunner.emptyVolume)
    (fun _ => FileRunner.mounted_emptyVolume) (fun _ => rfl) voteAndFail orderly_voteAndFail

end Examples

end FileCluster

end Musil.Raft
