import Musil.Lib.EpochLog

/-!
# Committed prefixes

A prefix of a leader's log that a majority has acknowledged, and that reaches past the log the
leader started with, is in the log of every later leader. The invariant behind this speaks of
single voters: a voter keeps what it has acknowledged until a later leader lacks it, and it votes
only for candidates that hold it.
-/

namespace EpochLog

variable {N α : Type*} {ep : α → ℕ} {s s' : State N α}

/-- Some leader after `e` and before `E` started without the first `k` entries of leader `e`. -/
def Dropped (s : State N α) (e k E : ℕ) : Prop :=
  ∃ e' ∈ s.elected, e < e' ∧ e' < E ∧ ¬ (s.lead e).take k <+: s.base e'

/-- `X` holds all that voter `n` has acknowledged before epoch `E` and that was not dropped. -/
def Covers (s : State N α) (n : N) (E : ℕ) (X : List α) : Prop :=
  ∀ e k, (n, e, k) ∈ s.acked → e < E → (s.base e).length < k →
    (s.lead e).take k <+: X ∨ Dropped s e k E

/-- A majority has acknowledged the first `k` entries of leader `e`, one of its own among them. -/
def Chosen [DecidableEq N] (members : List N) (s : State N α) (e k : ℕ) : Prop :=
  (s.base e).length < k ∧ ∃ Q, IsMajority members Q ∧ ∀ n ∈ Q, (n, e, k) ∈ s.acked

/-- `X` is a part of what was chosen up to epoch `E`. -/
def Committed [DecidableEq N] (members : List N) (s : State N α) (E : ℕ) (X : List α) : Prop :=
  X = [] ∨ ∃ e k, e ≤ E ∧ Chosen members s e k ∧ X <+: (s.lead e).take k

structure SafeInv [DecidableEq N] (ep : α → ℕ) (members : List N) (s : State N α) : Prop
    extends LogInv ep s where
  lead_nil : ∀ e ∉ s.elected, s.lead e = []
  base_isPrefix : ∀ e ∈ s.elected, s.base e <+: s.lead e
  base_lt : ∀ e ∈ s.elected, ∀ a ∈ s.base e, ep a < e
  own : ∀ e ∈ s.elected, ∀ Y a, Y ++ [a] <+: s.lead e → (s.base e).length ≤ Y.length → ep a = e
  acked_elected : ∀ n e k, (n, e, k) ∈ s.acked →
    e ∈ s.elected ∧ e ≤ s.epoch n ∧ k ≤ (s.lead e).length
  acked_le : ∀ n e k k', (n, e, k) ∈ s.acked → k' ≤ k → (n, e, k') ∈ s.acked
  acked_kept : ∀ n e k, (n, e, k) ∈ s.acked →
    (s.lead e).take k <+: s.log n ∨ Dropped s e k (s.epoch n + 1)
  ballot : ∀ n e X, (n, e, X) ∈ s.ballots → e ≤ s.epoch n ∧ (e ∈ s.elected ∨ Covers s n e X)
  quorum : ∀ e ∈ s.elected, ∃ Q, IsMajority members Q ∧
    ∀ n ∈ Q, e ≤ s.epoch n ∧ Covers s n e (s.base e)

/-! ### Leader completeness -/

section Completeness

variable [DecidableEq N] {members : List N} {e k e' : ℕ}

lemma Chosen.exists_acked (hc : Chosen members s e k) : ∃ n, (n, e, k) ∈ s.acked :=
  have ⟨_, _, hQ, hack⟩ := hc
  hQ.nonempty.imp hack

/-- Every later leader starts with what was chosen before it. -/
theorem SafeInv.complete (h : SafeInv ep members s) (hc : Chosen members s e k)
    (he' : e' ∈ s.elected) (hlt : e < e') : (s.lead e).take k <+: s.base e' := by
  induction e' using Nat.strong_induction_on with
  | _ e' ih =>
    obtain ⟨hk, Q, hQ, hack⟩ := hc
    obtain ⟨Q', hQ', hcov⟩ := h.quorum e' he'
    obtain ⟨n, hn, hn'⟩ := hQ.inter hQ'
    rcases (hcov n hn').2 e k (hack n hn) hlt hk with hpre | ⟨f, hf, hef, hfe', hnot⟩
    · exact hpre
    · exact absurd (ih f hfe' hf hef) hnot

lemma SafeInv.chosen_isPrefix (h : SafeInv ep members s) (hc : Chosen members s e k)
    (he' : e' ∈ s.elected) (hle : e ≤ e') : (s.lead e).take k <+: s.lead e' := by
  rcases hle.eq_or_lt with rfl | hlt
  · exact List.take_prefix _ _
  · exact (h.complete hc he' hlt).trans (h.base_isPrefix e' he')

lemma SafeInv.committed_isPrefix (h : SafeInv ep members s) {X : List α} {E : ℕ}
    (hX : Committed members s E X) (hE : E ∈ s.elected) : X <+: s.lead E := by
  rcases hX with rfl | ⟨e, k, hle, hc, hX⟩
  · exact List.nil_prefix
  · exact hX.trans (h.chosen_isPrefix hc hE hle)

/-- Of two committed prefixes one contains the other. -/
theorem SafeInv.committed_comparable (h : SafeInv ep members s) {X Y : List α} {E E' : ℕ}
    (hX : Committed members s E X) (hY : Committed members s E' Y) : X <+: Y ∨ Y <+: X := by
  rcases hX with rfl | ⟨e, k, -, hc, hX⟩
  · exact .inl List.nil_prefix
  rcases hY with rfl | ⟨e', k', -, hc', hY⟩
  · exact .inr List.nil_prefix
  obtain ⟨n, hn⟩ := hc.exists_acked
  obtain ⟨n', hn'⟩ := hc'.exists_acked
  have hE := (h.acked_elected n e k hn).1
  have hE' := (h.acked_elected n' e' k' hn').1
  rcases le_total e e' with hle | hle
  · exact List.prefix_or_prefix_of_prefix (hX.trans (h.chosen_isPrefix hc hE' hle))
      (hY.trans (List.take_prefix _ _))
  · exact List.prefix_or_prefix_of_prefix (hX.trans (List.take_prefix _ _))
      (hY.trans (h.chosen_isPrefix hc' hE hle))

lemma Committed.of_isPrefix {X Y : List α} {E : ℕ} (h : Committed members s E X) (hY : Y <+: X) :
    Committed members s E Y := by
  rcases h with rfl | ⟨e, k, hle, hc, hX⟩
  · exact .inl (List.prefix_nil.mp hY)
  · exact .inr ⟨e, k, hle, hc, hY.trans hX⟩

lemma Committed.mono {X : List α} {E E' : ℕ} (h : Committed members s E X) (hE : E ≤ E') :
    Committed members s E' X := by
  rcases h with rfl | ⟨e, k, hle, hc, hX⟩
  · exact .inl rfl
  · exact .inr ⟨e, k, hle.trans hE, hc, hX⟩

end Completeness

/-! ### Growth -/

/-- What every move does: epochs and leader logs grow, the past stays, and only the current epoch of
a node collects new acknowledgements. -/
structure Grows (s s' : State N α) : Prop where
  epoch : ∀ n, s.epoch n ≤ s'.epoch n
  lead : ∀ e, s.lead e <+: s'.lead e
  elected : s.elected ⊆ s'.elected
  base : ∀ e ∈ s.elected, s'.base e = s.base e
  acked : s.acked ⊆ s'.acked
  fresh : ∀ n e k, (n, e, k) ∈ s'.acked → (n, e, k) ∈ s.acked ∨ s.epoch n ≤ e

lemma Grows.refl (s : State N α) : Grows s s where
  epoch _ := le_rfl
  lead _ := List.prefix_refl _
  elected := subset_rfl
  base _ _ := rfl
  acked := subset_rfl
  fresh _ _ _ h := .inl h

lemma Grows.trans {s'' : State N α} (g : Grows s s') (g' : Grows s' s'') : Grows s s'' where
  epoch n := (g.epoch n).trans (g'.epoch n)
  lead e := (g.lead e).trans (g'.lead e)
  elected := g.elected.trans g'.elected
  base e he := (g'.base e (g.elected he)).trans (g.base e he)
  acked := g.acked.trans g'.acked
  fresh n e k h := (g'.fresh n e k h).elim (g.fresh n e k) fun hle => .inr ((g.epoch n).trans hle)

lemma Grows.take_lead (g : Grows s s') {e k : ℕ} (hk : k ≤ (s.lead e).length) :
    (s'.lead e).take k = (s.lead e).take k := by
  obtain ⟨Z, hZ⟩ := g.lead e
  rw [← hZ, List.take_append_of_le_length hk]

lemma Dropped.mono {e k E E' : ℕ} (h : Dropped s e k E) (hE : E ≤ E') : Dropped s e k E' :=
  have ⟨f, hf, hef, hfE, hnot⟩ := h
  ⟨f, hf, hef, hfE.trans_le hE, hnot⟩

lemma Dropped.grows (g : Grows s s') {e k E : ℕ} (h : Dropped s e k E)
    (hk : k ≤ (s.lead e).length) : Dropped s' e k E := by
  obtain ⟨f, hf, hef, hfE, hnot⟩ := h
  refine ⟨f, g.elected hf, hef, hfE, ?_⟩
  rwa [g.take_lead hk, g.base f hf]

section Grows

variable [DecidableEq N] {members : List N} (h : SafeInv ep members s) (g : Grows s s')
include h g

lemma SafeInv.covers_grows {n : N} {E : ℕ} {X : List α} (hX : Covers s n E X)
    (hE : E ≤ s.epoch n) : Covers s' n E X := by
  intro e k hack hlt hbase
  have hold : (n, e, k) ∈ s.acked :=
    (g.fresh n e k hack).resolve_right (Nat.not_le.mpr (hlt.trans_le hE))
  obtain ⟨hel, -, hk⟩ := h.acked_elected n e k hold
  rw [g.base e hel] at hbase
  rw [g.take_lead hk]
  exact (hX e k hold hlt hbase).imp_right fun hd => hd.grows g hk

lemma SafeInv.chosen_grows {e k : ℕ} (hc : Chosen members s e k) : Chosen members s' e k := by
  obtain ⟨n, hn⟩ := hc.exists_acked
  obtain ⟨hbase, Q, hQ, hack⟩ := hc
  refine ⟨?_, Q, hQ, fun m hm => g.acked (hack m hm)⟩
  rwa [g.base e (h.acked_elected n e k hn).1]

lemma SafeInv.committed_grows {E : ℕ} {X : List α} (hX : Committed members s E X) :
    Committed members s' E X := by
  rcases hX with rfl | ⟨e, k, hle, hc, hX⟩
  · exact .inl rfl
  · obtain ⟨n, hn⟩ := hc.exists_acked
    refine .inr ⟨e, k, hle, h.chosen_grows g hc, ?_⟩
    rwa [g.take_lead (h.acked_elected n e k hn).2.2]

end Grows

/-! ### Moves -/

section Moves

variable [DecidableEq N] {members : List N}

lemma grows_write {n : N} {e : ℕ} (he : s.epoch n ≤ e) (X : List α) : Grows s (s.write n e X) where
  epoch m := by
    rcases eq_or_ne m n with rfl | hmn
    · simpa [State.write] using he
    · simp [State.write, hmn]
  lead _ := List.prefix_refl _
  elected := subset_rfl
  base _ _ := rfl
  acked := subset_rfl
  fresh _ _ _ h := .inl h

/-- A node may forget only what the leader of its new epoch lacks. -/
theorem SafeInv.write (h : SafeInv ep members s) {n : N} {e : ℕ} {X : List α}
    (he : s.epoch n ≤ e) (hX : Grounded ep s.lead X) (hle : ∀ a ∈ X, ep a ≤ e)
    (hkeep : ∀ Y, Y <+: s.log n → (e ∈ s.elected → Y <+: s.lead e) → Y <+: X) :
    SafeInv ep members (s.write n e X) where
  toLogInv := h.toLogInv.write hX hle
  lead_nil := h.lead_nil
  base_isPrefix := h.base_isPrefix
  base_lt := h.base_lt
  own := h.own
  acked_elected m f k hm := by
    obtain ⟨hel, hf, hk⟩ := h.acked_elected m f k hm
    exact ⟨hel, hf.trans ((grows_write he X).epoch m), hk⟩
  acked_le := h.acked_le
  acked_kept m f k hm := by
    obtain ⟨hel, hf, hk⟩ := h.acked_elected m f k hm
    have hcase := (h.acked_kept m f k hm).imp_right fun hd =>
      (hd.grows (grows_write he X) hk).mono (Nat.succ_le_succ ((grows_write he X).epoch m))
    rcases eq_or_ne m n with rfl | hmn
    · refine hcase.elim (fun hpre => ?_) .inr
      simp only [State.write, Function.update_self]
      by_cases hkept : e ∈ s.elected → (s.lead f).take k <+: s.lead e
      · exact .inl (hkeep _ hpre hkept)
      · push Not at hkept
        obtain ⟨hee, hnot⟩ := hkept
        have hfe : f ≠ e := by
          rintro rfl
          exact hnot (List.take_prefix _ _)
        exact .inr ⟨e, hee, lt_of_le_of_ne (hf.trans he) hfe, Nat.lt_succ_self e,
          fun hb => hnot (hb.trans (h.base_isPrefix e hee))⟩
    · simpa [State.write, hmn] using hcase
  ballot m f Y hm := by
    obtain ⟨hf, hcov⟩ := h.ballot m f Y hm
    exact ⟨hf.trans ((grows_write he X).epoch m),
      hcov.imp_right fun hc => h.covers_grows (grows_write he X) hc hf⟩
  quorum f hf := by
    obtain ⟨Q, hQ, hcov⟩ := h.quorum f hf
    exact ⟨Q, hQ, fun m hm => ⟨(hcov m hm).1.trans ((grows_write he X).epoch m),
      h.covers_grows (grows_write he X) (hcov m hm).2 (hcov m hm).1⟩⟩

omit [DecidableEq N] in
lemma grows_extend {e : ℕ} (X : List α) (hX : s.lead e <+: X) : Grows s (s.extend e X) where
  epoch _ := le_rfl
  lead := LogInv.prefix_update hX
  elected := subset_rfl
  base _ _ := rfl
  acked := subset_rfl
  fresh _ _ _ h := .inl h

/-- The leader of an epoch appends an entry of that epoch. -/
theorem SafeInv.extend (h : SafeInv ep members s) {e : ℕ} {a : α} (he : e ∈ s.elected)
    (ha : ep a = e) : SafeInv ep members (s.extend e (s.lead e ++ [a])) := by
  have hpre : s.lead e <+: s.lead e ++ [a] := List.prefix_append _ _
  have g := grows_extend (s.lead e ++ [a]) hpre
  exact {
    toLogInv := h.toLogInv.extend hpre
      (((h.leader e).mono (LogInv.prefix_update hpre)).concat (by simp [ha]))
      (fun b hb => by
        rcases List.mem_append.mp hb with hb | hb
        · exact h.leader_le e b hb
        · rw [List.mem_singleton.mp hb, ha])
    lead_nil := fun f hf => by
      have hfe : f ≠ e := fun hfe => hf (hfe ▸ he)
      simpa [State.extend, hfe] using h.lead_nil f hf
    base_isPrefix := fun f hf => (h.base_isPrefix f hf).trans (g.lead f)
    base_lt := h.base_lt
    own := fun f hf Y b hY hlen => by
      rcases eq_or_ne f e with rfl | hfe
      · simp only [State.extend, Function.update_self] at hY
        rcases List.prefix_concat_iff.mp hY with heq | hY
        · rw [List.singleton_inj.mp (List.append_inj' heq rfl).2, ha]
        · exact h.own f hf Y b hY hlen
      · simp only [State.extend, Function.update_of_ne hfe] at hY
        exact h.own f hf Y b hY hlen
    acked_elected := fun n f k hm => by
      obtain ⟨hel, hf, hk⟩ := h.acked_elected n f k hm
      exact ⟨hel, hf, hk.trans (g.lead f).length_le⟩
    acked_le := h.acked_le
    acked_kept := fun n f k hm => by
      have hk := (h.acked_elected n f k hm).2.2
      rw [g.take_lead hk]
      exact (h.acked_kept n f k hm).imp_right fun hd => hd.grows g hk
    ballot := fun n f Y hm => by
      obtain ⟨hf, hcov⟩ := h.ballot n f Y hm
      exact ⟨hf, hcov.imp_right fun hc => h.covers_grows g hc hf⟩
    quorum := fun f hf => by
      obtain ⟨Q, hQ, hcov⟩ := h.quorum f hf
      exact ⟨Q, hQ, fun m hm => ⟨(hcov m hm).1, h.covers_grows g (hcov m hm).2 (hcov m hm).1⟩⟩ }

omit [DecidableEq N] in
lemma grows_elect {e : ℕ} (he : e ∉ s.elected) (hnil : s.lead e = []) (X : List α) :
    Grows s (s.elect e X) where
  epoch _ := le_rfl
  lead := LogInv.prefix_update (by simp [hnil])
  elected := Set.subset_insert _ _
  base f hf := Function.update_of_ne (ne_of_mem_of_not_mem hf he) _ _
  acked := subset_rfl
  fresh _ _ _ h := .inl h

/-- Only leaders write entries. -/
lemma SafeInv.elected_of_mem (h : SafeInv ep members s) {X : List α} (hX : Grounded ep s.lead X)
    {a : α} (ha : a ∈ X) : ep a ∈ s.elected := by
  by_contra hnot
  obtain ⟨Y, Z, rfl⟩ := List.append_of_mem ha
  have hpre := hX Y a (by simp)
  rw [h.lead_nil _ hnot] at hpre
  simpa using hpre.length_le

/-- A majority has voted for a candidate with log `X`, which now leads. -/
theorem SafeInv.elect (h : SafeInv ep members s) {e : ℕ} {X : List α} (he : e ∉ s.elected)
    (hX : Grounded ep s.lead X) (hle : ∀ a ∈ X, ep a ≤ e) {Q : Finset N}
    (hQ : IsMajority members Q) (hvotes : ∀ n ∈ Q, (n, e, X) ∈ s.ballots) :
    SafeInv ep members (s.elect e X) := by
  have hlt : ∀ a ∈ X, ep a < e := fun a ha =>
    lt_of_le_of_ne (hle a ha) (ne_of_mem_of_not_mem (h.elected_of_mem hX ha) he)
  have hnil := h.lead_nil e he
  have hpre : s.lead e <+: X := by simp [hnil]
  have g := grows_elect he hnil X
  exact {
    toLogInv :=
      have hL := h.toLogInv.extend hpre (hX.mono (LogInv.prefix_update hpre))
        (fun a ha => (hlt a ha).le)
      ⟨hL.node, hL.leader, hL.node_le, hL.leader_le⟩
    lead_nil := fun f hf => by
      simp only [State.elect, Set.mem_insert_iff, not_or] at hf
      simpa [State.elect, hf.1] using h.lead_nil f hf.2
    base_isPrefix := fun f hf => by
      rcases eq_or_ne f e with rfl | hfe
      · simp [State.elect]
      · simpa [State.elect, hfe] using h.base_isPrefix f (hf.resolve_left hfe)
    base_lt := fun f hf a ha => by
      rcases eq_or_ne f e with rfl | hfe
      · simp only [State.elect, Function.update_self] at ha
        exact hlt a ha
      · simp only [State.elect, Function.update_of_ne hfe] at ha
        exact h.base_lt f (hf.resolve_left hfe) a ha
    own := fun f hf Y a hY hlen => by
      rcases eq_or_ne f e with rfl | hfe
      · simp only [State.elect, Function.update_self] at hY hlen
        have := hY.length_le
        rw [List.length_append, List.length_singleton] at this
        omega
      · simp only [State.elect, Function.update_of_ne hfe] at hY hlen
        exact h.own f (hf.resolve_left hfe) Y a hY hlen
    acked_elected := fun n f k hm => by
      obtain ⟨hel, hf, hk⟩ := h.acked_elected n f k hm
      exact ⟨g.elected hel, hf, hk.trans (g.lead f).length_le⟩
    acked_le := h.acked_le
    acked_kept := fun n f k hm => by
      have hk := (h.acked_elected n f k hm).2.2
      rw [g.take_lead hk]
      exact (h.acked_kept n f k hm).imp_right fun hd => hd.grows g hk
    ballot := fun n f Y hm => by
      obtain ⟨hf, hcov⟩ := h.ballot n f Y hm
      exact ⟨hf, hcov.imp (fun hel => g.elected hel) fun hc => h.covers_grows g hc hf⟩
    quorum := fun f hf => by
      rcases eq_or_ne f e with rfl | hfe
      · refine ⟨Q, hQ, fun n hn => ?_⟩
        obtain ⟨hf, hcov⟩ := h.ballot n f X (hvotes n hn)
        have hbase : (s.elect f X).base f = X := by simp [State.elect]
        rw [hbase]
        exact ⟨hf, h.covers_grows g (hcov.resolve_left he) hf⟩
      · have hf := hf.resolve_left hfe
        obtain ⟨Q', hQ', hcov⟩ := h.quorum f hf
        rw [g.base f hf]
        exact ⟨Q', hQ', fun n hn => ⟨(hcov n hn).1,
          h.covers_grows g (hcov n hn).2 (hcov n hn).1⟩⟩ }

/-- `X` is at least as up to date as `Y`. -/
def UpToDate (ep : α → ℕ) (X Y : List α) : Prop :=
  if lastEp ep X = lastEp ep Y then Y.length ≤ X.length else lastEp ep Y < lastEp ep X

/-- A log that is up to date for a voter covers what the voter has acknowledged. -/
lemma SafeInv.covers_of_upToDate (h : SafeInv ep members s) {n : N} {X : List α}
    (he : s.epoch n ∉ s.elected) (hX : Grounded ep s.lead X)
    (hle : ∀ a ∈ X, ep a ≤ s.epoch n) (hup : UpToDate ep X (s.log n)) :
    Covers s n (s.epoch n) X := by
  intro e k hack hen hbase
  obtain ⟨hel, -, hk⟩ := h.acked_elected n e k hack
  rcases h.acked_kept n e k hack with hpre | ⟨f, hf, hef, hfE, hnot⟩
  swap
  · have hfe : f ≠ s.epoch n := ne_of_mem_of_not_mem hf he
    exact .inr ⟨f, hf, hef, lt_of_le_of_ne (Nat.lt_succ_iff.mp hfE) hfe, hnot⟩
  -- the voter holds an entry of epoch `e`
  obtain ⟨Y, a, hY⟩ := exists_concat_of_ne_nil (X := (s.lead e).take k) (by
    rw [Ne, ← List.length_eq_zero_iff, List.length_take_of_le hk]
    omega)
  have hYlen : Y.length + 1 = k := by
    have := congrArg List.length hY
    rwa [List.length_take_of_le hk, List.length_append, List.length_singleton, eq_comm] at this
  have hae : ep a = e := h.own e hel Y a (hY ▸ List.take_prefix _ _) (by omega)
  have hmem : a ∈ s.log n := hpre.subset (by simp [hY])
  have hlog : s.log n <+: s.lead (lastEp ep (s.log n)) :=
    (h.node n).prefix_lead (List.ne_nil_of_mem hmem)
  have hlast : e ≤ lastEp ep (s.log n) := hae ▸ h.leader_le _ a (hlog.subset hmem)
  -- so the candidate ends in that epoch or in a later one
  have hlast' : e ≤ lastEp ep X := by
    unfold UpToDate at hup
    split_ifs at hup with heq
    · exact heq ▸ hlast
    · exact hlast.trans hup.le
  have hne : X ≠ [] := by
    rintro rfl
    unfold UpToDate at hup
    split_ifs at hup with heq
    · exact absurd (List.length_pos_of_mem hmem) (Nat.not_lt.mpr hup)
    · simp at hup
  have hXlead := hX.prefix_lead hne
  rcases hlast'.eq_or_lt with heq | hlt
  · -- the same epoch: both logs are parts of the log of leader `e`, and the candidate's is longer
    have hsame : lastEp ep X = lastEp ep (s.log n) := by
      unfold UpToDate at hup
      split_ifs at hup with hsame
      · exact hsame
      · omega
    rw [UpToDate, if_pos hsame] at hup
    rw [← hsame] at hlog
    exact .inl (hpre.trans (List.prefix_of_prefix_length_le hlog hXlead hup))
  · -- a later epoch: its leader started with the prefix, or dropped it
    obtain ⟨Z, b, rfl⟩ := exists_concat_of_ne_nil hne
    rw [lastEp_concat] at hlt hXlead
    have hbel : ep b ∈ s.elected := h.elected_of_mem hX (by simp)
    have hbaseX : s.base (ep b) <+: Z ++ [b] := by
      refine List.prefix_of_prefix_length_le (h.base_isPrefix _ hbel) hXlead ?_
      by_contra hlen
      have hZ := List.prefix_of_prefix_length_le hXlead (h.base_isPrefix _ hbel)
        (Nat.le_of_not_le hlen)
      exact absurd (h.base_lt _ hbel b (hZ.subset (by simp))) (lt_irrefl _)
    by_cases hb : (s.lead e).take k <+: s.base (ep b)
    · exact .inl (hb.trans hbaseX)
    · exact .inr ⟨ep b, hbel, hlt,
        lt_of_le_of_ne (hle b (by simp)) (ne_of_mem_of_not_mem hbel he), hb⟩

/-- A node votes in its epoch for a candidate that is at least as up to date. -/
theorem SafeInv.vote (h : SafeInv ep members s) {n : N} {X : List α}
    (hX : Grounded ep s.lead X) (hle : ∀ a ∈ X, ep a ≤ s.epoch n)
    (hup : UpToDate ep X (s.log n)) : SafeInv ep members (s.vote n (s.epoch n) X) :=
  { h with
    toLogInv := ⟨h.node, h.leader, h.node_le, h.leader_le⟩
    ballot := fun m f Y hm => by
      rcases Set.mem_insert_iff.mp hm with heq | hm
      · obtain ⟨rfl, heq⟩ := Prod.mk.inj heq
        obtain ⟨rfl, rfl⟩ := Prod.mk.inj heq
        refine ⟨le_rfl, ?_⟩
        by_cases he : s.epoch m ∈ s.elected
        · exact .inl he
        · exact .inr (h.covers_of_upToDate he hX hle hup)
      · exact h.ballot m f Y hm }

omit [DecidableEq N] in
lemma grows_ack (n : N) : Grows s (s.ack n) where
  epoch _ := le_rfl
  lead _ := List.prefix_refl _
  elected := subset_rfl
  base _ _ := rfl
  acked := Set.subset_union_left
  fresh m f k hm := hm.imp_right fun ⟨hmn, hf, _⟩ => by
    obtain rfl : m = n := hmn
    exact hf.ge

/-- A node acknowledges its log, which is a part of the log of the leader of its epoch. -/
theorem SafeInv.ack (h : SafeInv ep members s) {n : N} (he : s.epoch n ∈ s.elected)
    (hlog : s.log n <+: s.lead (s.epoch n)) : SafeInv ep members (s.ack n) :=
  { h with
    toLogInv := ⟨h.node, h.leader, h.node_le, h.leader_le⟩
    acked_elected := fun m f k hm => by
      rcases hm with hm | ⟨hmn, hf, hk⟩
      · exact h.acked_elected m f k hm
      · obtain rfl : m = n := hmn
        obtain rfl : f = s.epoch m := hf
        exact ⟨he, le_rfl, hk.trans hlog.length_le⟩
    acked_le := fun m f k k' hm hk' => by
      rcases hm with hm | ⟨hmn, hf, hk⟩
      · exact .inl (h.acked_le m f k k' hm hk')
      · exact .inr ⟨hmn, hf, hk'.trans hk⟩
    acked_kept := fun m f k hm => by
      rcases hm with hm | ⟨hmn, hf, hk⟩
      · exact h.acked_kept m f k hm
      · obtain rfl : m = n := hmn
        obtain rfl : f = s.epoch m := hf
        exact .inl (List.prefix_of_prefix_length_le (List.take_prefix _ _) hlog
          ((List.length_take_le _ _).trans hk))
    ballot := fun m f Y hm => by
      obtain ⟨hf, hcov⟩ := h.ballot m f Y hm
      exact ⟨hf, hcov.imp_right fun hc => h.covers_grows (grows_ack n) hc hf⟩
    quorum := fun f hf => by
      obtain ⟨Q, hQ, hcov⟩ := h.quorum f hf
      exact ⟨Q, hQ, fun m hm => ⟨(hcov m hm).1,
        h.covers_grows (grows_ack n) (hcov m hm).2 (hcov m hm).1⟩⟩ }

end Moves

end EpochLog
