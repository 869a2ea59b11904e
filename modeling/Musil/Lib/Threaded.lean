import Mathlib.Data.List.Basic
import Mathlib.Data.List.Forall2

/-!
# Stateful passes over a list

A computation on a state may panic; what it did to the state until then stays. `Pass R s as bs s'`
says that a pass over `as` takes the state from `s` to `s'` and gives `bs`, one element each, where
`R` describes what happens at an element. A `mapM` that does not panic is such a pass.
-/

namespace Threaded

/-- Computations on a state that may panic. -/
abbrev Panics (σ : Type) := OptionT (StateM σ)

section Panics

variable {σ α β : Type} {x : Panics σ α} {f : α → Panics σ β} {s s' : σ} {a : α} {b : β}

/-- The value, or a panic when there is none. -/
def orPanic (x : Option α) : Panics σ α :=
  OptionT.mk (pure x)

def Panics.exec (x : Panics σ α) (s : σ) : Option α × σ :=
  StateT.run (OptionT.run x) s

@[simp] lemma exec_pure : (pure a : Panics σ α).exec s = (some a, s) := rfl

@[simp] lemma exec_orPanic (x : Option α) : (orPanic x : Panics σ α).exec s = (x, s) := rfl

@[simp] lemma exec_get : (get : Panics σ σ).exec s = (some s, s) := rfl

lemma exec_bind : (x >>= f).exec s = match x.exec s with
    | (some a, s) => (f a).exec s
    | (none, s) => (none, s) := by
  simp only [Panics.exec, bind, OptionT.bind, OptionT.mk, OptionT.run, StateT.run, StateT.bind]
  rcases x s with ⟨_ | a, s₁⟩ <;> rfl

@[simp] lemma exec_get_bind (f : σ → Panics σ β) : (get >>= f).exec s = (f s).exec s := rfl

@[simp] lemma exec_orPanic_bind_eq_some {x : Option α} : (orPanic x >>= f).exec s = (some b, s') ↔
    ∃ a, x = some a ∧ (f a).exec s = (some b, s') := by
  cases x with
  | none => simp [exec_bind]
  | some a => simp [exec_bind]

lemma exec_bind_eq_some : (x >>= f).exec s = (some b, s') ↔
    ∃ a s₁, x.exec s = (some a, s₁) ∧ (f a).exec s₁ = (some b, s') := by
  rw [exec_bind]
  rcases x.exec s with ⟨_ | a, s₁⟩ <;> simp

lemma exec_eq_of_fst (h : (x.exec s).1 = some a) : x.exec s = (some a, (x.exec s).2) :=
  Prod.ext h rfl

/-- What the two parts of a computation do to the state, the whole computation does. -/
lemma exec_bind_related {R : σ → σ → Prop} (htrans : ∀ s₁ s₂ s₃, R s₁ s₂ → R s₂ s₃ → R s₁ s₃)
    (hx : R s (x.exec s).2) (hf : ∀ a s₁, x.exec s = (some a, s₁) → R s₁ ((f a).exec s₁).2) :
    R s ((x >>= f).exec s).2 := by
  rw [exec_bind]
  rcases hrun : x.exec s with ⟨_ | a, s₁⟩
  · rwa [hrun] at hx
  · rw [hrun] at hx
    exact htrans _ _ _ hx (hf a s₁ hrun)

/-- What the computation for each element does to the state, all of them do. -/
lemma exec_mapM_related {R : σ → σ → Prop} (hrefl : ∀ s, R s s)
    (htrans : ∀ s₁ s₂ s₃, R s₁ s₂ → R s₂ s₃ → R s₁ s₃) {as : List α}
    (hf : ∀ a ∈ as, ∀ s, R s ((f a).exec s).2) (s : σ) : R s ((as.mapM f).exec s).2 := by
  induction as generalizing s with
  | nil => exact hrefl s
  | cons a as ih =>
    rw [List.forall_mem_cons] at hf
    rw [List.mapM_cons]
    refine exec_bind_related htrans (hf.1 s) fun b s₁ _ => ?_
    exact exec_bind_related htrans (ih hf.2 s₁) fun bs s₂ _ => hrefl s₂

/-- Computations that leave the state as it is, for all elements one after the other. -/
lemma exists_mapM_of_kept {P : α → β → Prop} {as : List α}
    (h : ∀ a ∈ as, ∃ b, (f a).exec s = (some b, s) ∧ P a b) :
    ∃ bs, (as.mapM f).exec s = (some bs, s) ∧ List.Forall₂ P as bs := by
  induction as with
  | nil => exact ⟨[], rfl, .nil⟩
  | cons a as ih =>
    rw [List.forall_mem_cons] at h
    obtain ⟨b, hb, hP⟩ := h.1
    obtain ⟨bs, hbs, hall⟩ := ih h.2
    refine ⟨b :: bs, ?_, .cons hP hall⟩
    rw [List.mapM_cons, exec_bind, hb]
    dsimp only
    rw [exec_bind, hbs]
    rfl

end Panics

/-! ### Passes -/

lemma exists_of_mem_right {α β : Type} {R : α → β → Prop} {as : List α} {bs : List β}
    (h : List.Forall₂ R as bs) {b : β} (hb : b ∈ bs) : ∃ a ∈ as, R a b := by
  induction h with
  | nil => cases hb
  | cons head _ ih =>
    rcases List.mem_cons.mp hb with rfl | hb
    · exact ⟨_, List.mem_cons_self, head⟩
    · obtain ⟨a, ha, hab⟩ := ih hb
      exact ⟨a, List.mem_cons_of_mem _ ha, hab⟩

lemma forall₂_mem {α β : Type*} {R : α → β → Prop} {l : List α} {u : List β}
    (h : List.Forall₂ R l u) : List.Forall₂ (fun a b => a ∈ l ∧ b ∈ u ∧ R a b) l u := by
  induction h with
  | nil => exact .nil
  | cons head _ ih =>
    refine .cons ⟨List.mem_cons_self, List.mem_cons_self, head⟩ (ih.imp ?_)
    intro a b ⟨ha, hb, hr⟩
    exact ⟨List.mem_cons_of_mem _ ha, List.mem_cons_of_mem _ hb, hr⟩

inductive Pass {σ α β : Type} (R : σ → α → β → σ → Prop) : σ → List α → List β → σ → Prop
  | nil (s : σ) : Pass R s [] [] s
  | cons {s s₁ s' : σ} {a : α} {b : β} {as : List α} {bs : List β} (head : R s a b s₁)
      (tail : Pass R s₁ as bs s') : Pass R s (a :: as) (b :: bs) s'

variable {σ α β : Type} {R Q : σ → α → β → σ → Prop} {s s' : σ} {as : List α} {bs : List β}

namespace Pass

/-- An invariant of the state carries one description of the pass over to another. -/
lemma mono {I : σ → Prop} (h : Pass R s as bs s') (hs : I s)
    (hR : ∀ s, I s → ∀ a ∈ as, ∀ b s', R s a b s' → Q s a b s' ∧ I s') :
    Pass Q s as bs s' ∧ I s' := by
  induction h with
  | nil => exact ⟨.nil _, hs⟩
  | cons head _ ih =>
    obtain ⟨hQ, hI⟩ := hR _ hs _ List.mem_cons_self _ _ head
    obtain ⟨htail, hI'⟩ := ih hI fun s hI a ha => hR s hI a (List.mem_cons_of_mem _ ha)
    exact ⟨.cons hQ htail, hI'⟩

/-- When two descriptions agree on the state after an element, and only if the element has the
property `C`, a pass that fits both is over elements with that property. -/
lemma forall_of_agree {I : σ → Prop} {C : α → Prop} (h : Pass R s as bs s') (hs : I s)
    (hRQ : ∀ s, I s → ∀ a b s₁ s₂, R s a b s₁ → Q s a b s₂ → C a ∧ s₁ = s₂ ∧ I s₁)
    {t : σ} (hQ : Pass Q s as bs t) : (∀ a ∈ as, C a) ∧ s' = t ∧ I s' := by
  induction h with
  | nil =>
    cases hQ
    exact ⟨fun _ ha => absurd ha List.not_mem_nil, rfl, hs⟩
  | cons head _ ih =>
    cases hQ with
    | cons head' tail' =>
      obtain ⟨hC, rfl, hI⟩ := hRQ _ hs _ _ _ _ head head'
      obtain ⟨hall, htail⟩ := ih hI tail'
      exact ⟨List.forall_mem_cons.mpr ⟨hC, hall⟩, htail⟩

/-- Elements and results come in pairs. -/
lemma forall₂ (h : Pass R s as bs s') : List.Forall₂ (fun a b => ∃ s s', R s a b s') as bs := by
  induction h with
  | nil => exact .nil
  | cons head _ ih => exact .cons ⟨_, _, head⟩ ih

/-- What each element adds, the whole pass has added in the end. -/
lemma gather {γ : Type} {I : σ → List γ → Prop} {g : α → β → List γ} {cs : List γ}
    (h : Pass R s as bs s') (hs : I s cs)
    (hR : ∀ s cs, I s cs → ∀ a ∈ as, ∀ b s', R s a b s' → I s' (cs ++ g a b)) :
    I s' (cs ++ (List.zipWith g as bs).flatten) := by
  induction h generalizing cs with
  | nil => exact (List.append_nil cs).symm ▸ hs
  | cons head _ ih =>
    have hnext := ih (hR _ cs hs _ List.mem_cons_self _ _ head) fun s cs hI a ha =>
      hR s cs hI a (List.mem_cons_of_mem _ ha)
    rwa [List.append_assoc] at hnext

end Pass

lemma pass_of_mapM {f : α → Panics σ β} (h : (as.mapM f).exec s = (some bs, s')) :
    Pass (fun s a b s' => (f a).exec s = (some b, s')) s as bs s' := by
  induction as generalizing s bs with
  | nil =>
    cases h
    exact .nil _
  | cons a as ih =>
    rw [List.mapM_cons] at h
    simp only [exec_bind_eq_some] at h
    obtain ⟨b, s₁, hhead, cs, s₂, htail, hcons⟩ := h
    cases hcons
    exact .cons hhead (ih htail)

lemma pass_of_mapM_bind {γ : Type} {f : α → Panics σ β} {g : List β → γ} {r : γ}
    (h : (as.mapM f >>= fun bs => pure (g bs)).exec s = (some r, s')) :
    ∃ bs, r = g bs ∧ Pass (fun s a b s' => (f a).exec s = (some b, s')) s as bs s' := by
  obtain ⟨bs, s₁, hpass, hr⟩ := exec_bind_eq_some.mp h
  cases hr
  exact ⟨bs, rfl, pass_of_mapM hpass⟩

end Threaded
