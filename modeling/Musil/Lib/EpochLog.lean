import Musil.Lib.Quorum
import Mathlib.Data.List.Infix
import Mathlib.Data.Set.Insert
import Mathlib.Logic.Function.Basic

/-!
# Logs replicated by a succession of leaders

Each entry carries the epoch of the leader that wrote it. Nodes hold logs, and the leader of an
epoch has a log of its own that only grows. `Grounded` says that every entry of a log stands where
the leader of its epoch put it; two grounded logs that share an entry agree up to it. `SafeInv` adds
what nodes have acknowledged and what they have voted for, and gives leader completeness: an entry
acknowledged by a majority is in the log of every later leader.
-/

namespace EpochLog

variable {N α : Type*}

/-! ### Grounded logs -/

/-- Every entry of `X` continues the log of the leader of its epoch. -/
def Grounded (ep : α → ℕ) (lead : ℕ → List α) (X : List α) : Prop :=
  ∀ Y a, Y ++ [a] <+: X → Y ++ [a] <+: lead (ep a)

section Grounded

variable {ep : α → ℕ} {lead lead' : ℕ → List α} {X Y : List α}

lemma grounded_nil : Grounded ep lead [] := by
  intro Y a h
  simpa using h.length_le

lemma Grounded.of_isPrefix (h : Grounded ep lead X) (hY : Y <+: X) : Grounded ep lead Y :=
  fun Z a hZ => h Z a (hZ.trans hY)

lemma Grounded.mono (h : Grounded ep lead X) (hlead : ∀ e, lead e <+: lead' e) :
    Grounded ep lead' X :=
  fun Z a hZ => (h Z a hZ).trans (hlead _)

lemma Grounded.concat {a : α} (h : Grounded ep lead X) (ha : X ++ [a] <+: lead (ep a)) :
    Grounded ep lead (X ++ [a]) := by
  intro Z b hZ
  rcases List.prefix_concat_iff.mp hZ with heq | hZ
  · obtain ⟨rfl, hb⟩ := List.append_inj' heq rfl
    rwa [heq, List.singleton_inj.mp hb]
  · exact h Z b hZ

/-- Log matching: a shared entry makes all that precedes it shared. -/
theorem Grounded.matching {a b : α} (hX : Grounded ep lead (X ++ [a]))
    (hY : Grounded ep lead (Y ++ [b])) (hlen : X.length = Y.length) (hep : ep a = ep b) :
    X ++ [a] = Y ++ [b] := by
  have h1 := hX X a (List.prefix_refl _)
  have h2 := hY Y b (List.prefix_refl _)
  rw [← hep] at h2
  exact (List.prefix_of_prefix_length_le h1 h2 (by simp [hlen])).eq_of_length (by simp [hlen])

/-- The epoch of the last entry. -/
def lastEp (ep : α → ℕ) (X : List α) : ℕ :=
  (X.getLast?.map ep).getD 0

@[simp] lemma lastEp_nil : lastEp ep ([] : List α) = 0 := rfl

@[simp] lemma lastEp_concat (a : α) : lastEp ep (X ++ [a]) = ep a := by
  simp [lastEp]

lemma exists_concat_of_ne_nil (h : X ≠ []) : ∃ Y a, X = Y ++ [a] :=
  ⟨X.dropLast, X.getLast h, (List.dropLast_concat_getLast h).symm⟩

/-- A grounded log that is not empty is a part of the log of the leader of its last epoch. -/
lemma Grounded.prefix_lead (h : Grounded ep lead X) (hne : X ≠ []) :
    X <+: lead (lastEp ep X) := by
  obtain ⟨Y, a, rfl⟩ := exists_concat_of_ne_nil hne
  rw [lastEp_concat]
  exact h Y a (List.prefix_refl _)

/-- Logs of equal length that end in the same epoch are equal. -/
lemma Grounded.eq_of_last (hX : Grounded ep lead X) (hY : Grounded ep lead Y)
    (hlen : X.length = Y.length) (hep : lastEp ep X = lastEp ep Y) : X = Y := by
  rcases eq_or_ne X [] with rfl | hne
  · exact (List.length_eq_zero_iff.mp hlen.symm).symm
  have hne' : Y ≠ [] := by
    rintro rfl
    exact hne (List.length_eq_zero_iff.mp hlen)
  obtain ⟨X, a, rfl⟩ := exists_concat_of_ne_nil hne
  obtain ⟨Y, b, rfl⟩ := exists_concat_of_ne_nil hne'
  simp only [lastEp_concat] at hep
  exact hX.matching hY (by simpa using hlen) hep

/-- An epoch with no entry in `X` may get another leader. -/
lemma Grounded.update (h : Grounded ep lead X) {e : ℕ} (he : ∀ a ∈ X, ep a ≠ e) (Z : List α) :
    Grounded ep (Function.update lead e Z) X := by
  intro Y a hY
  have ha : a ∈ X := hY.subset (List.mem_append_right Y List.mem_cons_self)
  rw [Function.update_of_ne (he a ha)]
  exact h Y a hY

/-- The first entry that another log has of the last epoch of `X` stands inside `X`. -/
lemma Grounded.lt_length_of_first (hX : Grounded ep lead X) (hne : X ≠ []) (hY : Grounded ep lead Y)
    {Z : List α} {a : α} (hZ : Z ++ [a] <+: Y) (hep : ep a = lastEp ep X)
    (hfirst : ∀ b ∈ Z, ep b ≠ lastEp ep X) : Z.length < X.length := by
  by_contra hle
  have hle : X.length ≤ Z.length := Nat.not_lt.mp hle
  have hpre : X <+: Z ++ [a] := List.prefix_of_prefix_length_le (hX.prefix_lead hne)
    (hep ▸ hY Z a hZ) (by simpa using hle.trans (Nat.le_succ _))
  have hpre' : X <+: Z := List.prefix_of_prefix_length_le hpre (List.prefix_append Z [a]) hle
  obtain ⟨W, b, rfl⟩ := exists_concat_of_ne_nil hne
  exact hfirst b (hpre'.subset (List.mem_append_right W List.mem_cons_self)) (lastEp_concat b).symm

end Grounded

/-! ### States -/

/-- What the nodes and the leaders hold. The last three fields are ghosts: the log a leader started
with, the prefixes nodes have acknowledged, and the candidate's logs nodes have voted for. -/
structure State (N α : Type*) where
  epoch : N → ℕ
  log : N → List α
  lead : ℕ → List α
  elected : Set ℕ
  base : ℕ → List α
  acked : Set (N × ℕ × ℕ)
  ballots : Set (N × ℕ × List α)

variable {ep : α → ℕ} {s s' : State N α}

/-- Node and leader logs are grounded and hold no entry from the future. -/
structure LogInv (ep : α → ℕ) (s : State N α) : Prop where
  node : ∀ n, Grounded ep s.lead (s.log n)
  leader : ∀ e, Grounded ep s.lead (s.lead e)
  node_le : ∀ n, ∀ a ∈ s.log n, ep a ≤ s.epoch n
  leader_le : ∀ e, ∀ a ∈ s.lead e, ep a ≤ e

namespace State

variable [DecidableEq N]

/-- Node `n` moves to epoch `e` and log `X`. -/
def write (s : State N α) (n : N) (e : ℕ) (X : List α) : State N α :=
  { s with epoch := Function.update s.epoch n e, log := Function.update s.log n X }

omit [DecidableEq N] in
/-- The leader of epoch `e` has log `X`. -/
def extend (s : State N α) (e : ℕ) (X : List α) : State N α :=
  { s with lead := Function.update s.lead e X }

omit [DecidableEq N] in
/-- Epoch `e` gets a leader, whose log is `X`. -/
def elect (s : State N α) (e : ℕ) (X : List α) : State N α :=
  { s with
    lead := Function.update s.lead e X
    elected := insert e s.elected
    base := Function.update s.base e X }

omit [DecidableEq N] in
/-- Node `n` votes in epoch `e` for a candidate with log `X`. -/
def vote (s : State N α) (n : N) (e : ℕ) (X : List α) : State N α :=
  { s with ballots := insert (n, e, X) s.ballots }

omit [DecidableEq N] in
/-- Node `n` acknowledges its log to the leader of its epoch. -/
def ack (s : State N α) (n : N) : State N α :=
  { s with acked := s.acked ∪ {p | p.1 = n ∧ p.2.1 = s.epoch n ∧ p.2.2 ≤ (s.log n).length} }

end State

namespace LogInv

lemma write [DecidableEq N] (h : LogInv ep s) {n : N} {e : ℕ} {X : List α}
    (hX : Grounded ep s.lead X) (hle : ∀ a ∈ X, ep a ≤ e) : LogInv ep (s.write n e X) where
  node m := by
    rcases eq_or_ne m n with rfl | hmn
    · simpa [State.write] using hX
    · simpa [State.write, hmn] using h.node m
  leader := h.leader
  node_le m a ha := by
    rcases eq_or_ne m n with rfl | hmn
    · simp only [State.write, Function.update_self] at ha ⊢
      exact hle a ha
    · simp only [State.write, Function.update_of_ne hmn] at ha ⊢
      exact h.node_le m a ha
  leader_le := h.leader_le

lemma prefix_update {lead : ℕ → List α} {e : ℕ} {X : List α} (hX : lead e <+: X) (f : ℕ) :
    lead f <+: Function.update lead e X f := by
  rcases eq_or_ne f e with rfl | hfe
  · simpa using hX
  · simp [hfe]

lemma extend (h : LogInv ep s) {e : ℕ} {X : List α} (hpre : s.lead e <+: X)
    (hX : Grounded ep (Function.update s.lead e X) X) (hle : ∀ a ∈ X, ep a ≤ e) :
    LogInv ep (s.extend e X) where
  node m := (h.node m).mono (prefix_update hpre)
  leader f := by
    rcases eq_or_ne f e with rfl | hfe
    · simpa [State.extend] using hX
    · simpa [State.extend, hfe] using (h.leader f).mono (prefix_update hpre)
  node_le := h.node_le
  leader_le f a ha := by
    rcases eq_or_ne f e with rfl | hfe
    · simp only [State.extend, Function.update_self] at ha
      exact hle a ha
    · simp only [State.extend, Function.update_of_ne hfe] at ha
      exact h.leader_le f a ha

end LogInv

end EpochLog
