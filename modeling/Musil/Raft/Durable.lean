import Musil.Raft.CommitStability

/-!
# What is committed stays

What lies below a node's watermark at one moment is in the log of every later leader, and agrees
with what lies below any node's watermark later, through crashes and elections. So a proposal that
was once answered as committed is never lost.
-/

namespace Musil.Raft

open EpochLog

namespace Cluster

variable {s : Cluster VecLog}

/-- The entries below the watermark of node `i`. -/
def committed (s : Cluster VecLog) (i : ℕ) : List LogEntry :=
  (s.nodes i).log.entries.take (s.nodes i).highWatermark

/-- What is committed at some point of the run is in the log of every leader of a later epoch from
then on, and never contradicts what is committed elsewhere or later. -/
structure CommittedForever (s : Cluster VecLog) (is : List Input) : Prop where
  led : ∀ i j pre mid, pre ++ mid <+: is → ((s.run (pre ++ mid)).nodes j).role = .leader →
    ((s.run pre).nodes i).currentEpoch ≤ ((s.run (pre ++ mid)).nodes j).currentEpoch →
      (s.run pre).committed i <+: ((s.run (pre ++ mid)).nodes j).log.entries
  agreed : ∀ i j pre mid, pre ++ mid <+: is →
    (s.run pre).committed i <+: (s.run (pre ++ mid)).committed j ∨
      (s.run (pre ++ mid)).committed j <+: (s.run pre).committed i

/-- What a node has committed after a part of a run is still committed after the rest of it. -/
lemma committed_run (h : s.Matched ∧ ∃ g, CommitInv g s) {pre mid : List Input}
    (hf : Run.Meets step HonestFetch s (pre ++ mid))
    (hok : Run.Meets step (OnTrigger KeepsCommitted) s (pre ++ mid)) (i : ℕ) :
    (s.run (pre ++ mid)).Matched ∧ ∃ g, CommitInv g (s.run (pre ++ mid)) ∧
      Committed (s.run (pre ++ mid)).voters ((s.run (pre ++ mid)).view g)
        ((s.run pre).nodes i).currentEpoch ((s.run pre).committed i) := by
  rw [Run.meets_append] at hf hok
  obtain ⟨hmatched, g, hg⟩ := commitInv_run h hf.1 hok.1
  have hdescends : (s.run (pre ++ mid)).Descends ((s.run pre).view g) := by
    rw [show s.run (pre ++ mid) = (s.run pre).run mid from Run.run_append step s pre mid]
    exact Run.run_invariant (P := Descends ((s.run pre).view g))
      (fun _ _ h hok => step_descends h hok.1 hok.2) ⟨hmatched, g, hg, Grows.refl _⟩ (hf.2.and hok.2)
  obtain ⟨hmatched', g', hg', hgrows⟩ := hdescends
  refine ⟨hmatched', g', hg', ?_⟩
  have hc := hg.safe.committed_grows hgrows (hg.watermark i).2
  rw [run_voters] at hc ⊢
  exact hc

lemma committedForever_of_commitInv (h : s.Matched ∧ ∃ g, CommitInv g s) {is : List Input}
    (hf : Run.Meets step HonestFetch s is) (hok : Run.Meets step (OnTrigger KeepsCommitted) s is) :
    CommittedForever s is := by
  constructor
  · intro i j pre mid hpre hrole hepoch
    obtain ⟨post, rfl⟩ := hpre
    rw [Run.meets_append] at hf hok
    obtain ⟨hmatched, g, hg, hc⟩ := committed_run h hf.1 hok.1 i
    rw [← hmatched.logs.leadOf_leading hrole]
    exact hg.safe.committed_isPrefix (hc.mono hepoch) (by simp [view, hmatched.logs.leading j hrole])
  · intro i j pre mid hpre
    obtain ⟨post, rfl⟩ := hpre
    rw [Run.meets_append] at hf hok
    obtain ⟨-, g, hg, hc⟩ := committed_run h hf.1 hok.1 i
    exact hg.safe.committed_comparable hc (hg.watermark j).2

/-- What is committed stays so in every run in which nodes keep what is committed. -/
theorem committedForever_of_keepsCommitted (voters : List ℕ) (is : List Input)
    (hf : Run.Meets step HonestFetch (init voters fun _ => VecLog.new) is)
    (hok : Run.Meets step (OnTrigger KeepsCommitted) (init voters fun _ => VecLog.new) is) :
    CommittedForever (init voters fun _ => VecLog.new) is :=
  committedForever_of_commitInv (init_commitInv voters) hf hok

/-- Node 1 commits an entry with node 2 and crashes, and node 2 is elected in its place. -/
theorem committedForever_new_leader :
    CommittedForever (init [1, 2, 3] fun _ => VecLog.new)
      [.electionTimeout 1, .deliver 0, .deliver 1, .propose 1 [7] 0, .fetch 2 1 ⟨1, 0, 0⟩,
        .deliver 3, .deliver 3, .fetch 2 1 ⟨1, 1, 1⟩, .deliver 3, .restart 1, .electionTimeout 2,
        .deliver 5, .deliver 5] :=
  committedForever_of_keepsCommitted _ _ (by decide) (by decide)

/-! ### Answered proposals -/

/-- A proposal that is answered as committed was accepted at some offset, and its entry stays there:
in the log of every node that leads no earlier epoch from then on, and in the log of every node
whose watermark has passed the offset. -/
def AnswersSurvive (s : Cluster VecLog) (is : List Input) : Prop :=
  ∀ i p pre inp mid, pre ++ inp :: mid <+: is → .commitPropose p ∈ (s.run pre).emits inp i →
    ∃ k < pre.length, ∃ o e data, s.Accepts is k i p o e data ∧
      ∀ j, (((s.run (pre ++ inp :: mid)).nodes j).role = .leader ∧
          ((s.run (pre ++ [inp])).nodes i).currentEpoch
            ≤ ((s.run (pre ++ inp :: mid)).nodes j).currentEpoch ∨
          o < ((s.run (pre ++ inp :: mid)).nodes j).highWatermark) →
        (⟨e, o, data⟩ : LogEntry) ∈ ((s.run (pre ++ inp :: mid)).nodes j).log.entries

lemma mem_committed_iff (hM : MatchInv s) {i : ℕ} {a : LogEntry} :
    a ∈ s.committed i ↔ a ∈ (s.nodes i).log.entries ∧ a.offset < (s.nodes i).highWatermark := by
  have hcont := hM.node_contiguous i
  rw [committed, ← hcont.filter_lt, List.mem_filter, decide_eq_true_eq]

/-- A committed entry is in what is committed at any other watermark that has passed it. -/
lemma mem_of_comparable {X Y : List LogEntry} (hX : Contiguous X) (h : X <+: Y ∨ Y <+: X)
    {a : LogEntry} (ha : a ∈ X) (hlt : a.offset < Y.length) : a ∈ Y := by
  rcases h with hpre | hpre
  · exact hpre.subset ha
  · have hget : X[a.offset]? = some a := hX.getElem?_offset ha
    rw [List.prefix_iff_getElem?.mp hpre a.offset hlt] at hget
    exact Option.some.inj hget ▸ List.getElem_mem hlt

/-- No answered proposal is lost in a run in which nodes keep what is committed and what they have
accepted. -/
theorem answersSurvive_of_keepsProposals (voters : List ℕ) (is : List Input)
    (hf : Run.Meets step HonestFetch (init voters fun _ => VecLog.new) is)
    (hok : Run.Meets step (OnTrigger KeepsCommitted) (init voters fun _ => VecLog.new) is)
    (hprop : Run.Meets step (OnTrigger KeepsProposals) (init voters fun _ => VecLog.new) is) :
    AnswersSurvive (init voters fun _ => VecLog.new) is := by
  set s : Cluster VecLog := init voters fun _ => VecLog.new
  have h := init_commitInv voters
  have hforever := committedForever_of_commitInv h hf hok
  intro i p pre inp mid hpre hcommit
  have hsplit : pre ++ inp :: mid = pre ++ [inp] ++ mid := List.append_cons pre inp mid
  have hled := fun i j => hforever.led i j (pre ++ [inp]) mid (hsplit ▸ hpre)
  have hagreed := fun i j => hforever.agreed i j (pre ++ [inp]) mid (hsplit ▸ hpre)
  obtain ⟨post, rfl⟩ := hpre
  have htake : (pre ++ inp :: mid ++ post).take pre.length = pre := by
    rw [List.append_assoc, List.take_left]
  -- the entry is committed after the answer
  have hpending : PendingInv s pre := by
    have hprop := (Run.meets_append.mp (Run.meets_append.mp hprop).1).1
    exact Run.run_history (P := PendingInv s) ⟨fun _ => rfl, by simp [s, init, Node.new]⟩
      (fun _ _ h hok => h.concat hok) hprop
  have htruly : s.CommitsTruly (pre ++ inp :: mid ++ post) pre.length inp := by
    apply PendingInv.commitsTruly
    rw [htake]
    exact hpending
  rw [← htake] at hcommit
  obtain ⟨o, -, hlt, k, hk, e, data, haccepts, hholds⟩ := htruly i p hcommit
  rw [htake] at hlt hholds
  rw [← Run.run_concat step s pre inp] at hlt hholds
  refine ⟨k, hk, o, e, data, haccepts, fun j hj => ?_⟩
  rw [hsplit] at hf hok hj ⊢
  have hf := (Run.meets_append.mp hf).1
  have hok := (Run.meets_append.mp hok).1
  obtain ⟨hmatched, -⟩ := commitInv_run h (Run.meets_append.mp hf).1 (Run.meets_append.mp hok).1
  have ha := (mem_committed_iff hmatched.logs).mpr ⟨hholds.mem, hlt⟩
  rcases hj with ⟨hrole, hepoch⟩ | hbelow
  · exact (hled i j hrole hepoch).subset ha
  · obtain ⟨-, g, hg⟩ := commitInv_run h hf hok
    have hend : ((s.run (pre ++ [inp] ++ mid)).committed j).length
        = ((s.run (pre ++ [inp] ++ mid)).nodes j).highWatermark :=
      List.length_take_of_le (hg.watermark j).1
    have hcont := (hmatched.logs.node_contiguous i).take
      ((s.run (pre ++ [inp])).nodes i).highWatermark
    exact List.mem_of_mem_take (mem_of_comparable hcont (hagreed i j) ha (hend ▸ hbelow))

/-- Node 1 answers a proposal and crashes, and node 2 is elected in its place. -/
theorem answersSurvive_new_leader :
    AnswersSurvive (init [1, 2, 3] fun _ => VecLog.new)
      [.electionTimeout 1, .deliver 0, .deliver 1, .propose 1 [7] 0, .fetch 2 1 ⟨1, 0, 0⟩,
        .deliver 3, .deliver 3, .fetch 2 1 ⟨1, 1, 1⟩, .deliver 3, .restart 1, .electionTimeout 2,
        .deliver 5, .deliver 5] :=
  answersSurvive_of_keepsProposals _ _ (by decide) (by decide) (by decide)

end Cluster

end Musil.Raft
