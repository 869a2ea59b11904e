import Mathlib.Data.List.Induction

/-!
# Runs of a transition system that reads inputs

A system is a step function `σ → ι → σ`; a run feeds it a list of inputs. `Meets ok` says that
every step of a run satisfies a condition on the state before the step and on the input, and
`run_invariant` is the induction rule: what every such step preserves holds after the run. `Attains`
says that some run with such steps leads to a state.
-/

namespace Run

variable {σ ι : Type*} (step : σ → ι → σ)

/-- The state after feeding `is` to the system. -/
def run (s : σ) (is : List ι) : σ :=
  is.foldl step s

@[simp] lemma run_nil (s : σ) : run step s [] = s := rfl

@[simp] lemma run_cons (s : σ) (i : ι) (is : List ι) :
    run step s (i :: is) = run step (step s i) is := rfl

lemma run_append (s : σ) (is js : List ι) :
    run step s (is ++ js) = run step (run step s is) js :=
  List.foldl_append

lemma run_concat (s : σ) (is : List ι) (i : ι) :
    run step s (is ++ [i]) = step (run step s is) i := by
  rw [run_append, run_cons, run_nil]

/-- Every step of the run from `s` on `is` satisfies `ok`. -/
def Meets (ok : σ → ι → Prop) : σ → List ι → Prop
  | _, [] => True
  | s, i :: is => ok s i ∧ Meets ok (step s i) is

instance Meets.decidable (ok : σ → ι → Prop) [∀ s i, Decidable (ok s i)] :
    (s : σ) → (is : List ι) → Decidable (Meets step ok s is)
  | _, [] => .isTrue trivial
  | s, i :: is =>
    haveI := Meets.decidable ok (step s i) is
    inferInstanceAs (Decidable (ok s i ∧ Meets step ok (step s i) is))

variable {step} {ok ok' : σ → ι → Prop}

lemma Meets.mono (h : ∀ s i, ok s i → ok' s i) {s : σ} {is : List ι}
    (hm : Meets step ok s is) : Meets step ok' s is := by
  induction is generalizing s with
  | nil => trivial
  | cons i is ih => exact ⟨h s i hm.1, ih hm.2⟩

/-- A condition that all inputs meet in every state. -/
lemma Meets.of_forall {s : σ} {is : List ι} (h : ∀ i ∈ is, ∀ s, ok s i) : Meets step ok s is := by
  induction is generalizing s with
  | nil => trivial
  | cons i is ih =>
    exact ⟨h i List.mem_cons_self s, ih fun j hj => h j (List.mem_cons_of_mem i hj)⟩

lemma Meets.and {s : σ} {is : List ι} (h : Meets step ok s is) (h' : Meets step ok' s is) :
    Meets step (fun s i => ok s i ∧ ok' s i) s is := by
  induction is generalizing s with
  | nil => trivial
  | cons i is ih => exact ⟨⟨h.1, h'.1⟩, ih h.2 h'.2⟩

lemma meets_append {s : σ} {is js : List ι} :
    Meets step ok s (is ++ js) ↔ Meets step ok s is ∧ Meets step ok (run step s is) js := by
  induction is generalizing s with
  | nil => simp [Meets]
  | cons i is ih => simp only [List.cons_append, Meets, run_cons, ih, and_assoc]

lemma Meets.take {s : σ} {is : List ι} (h : Meets step ok s is) (n : ℕ) :
    Meets step ok s (is.take n) := by
  rw [← List.take_append_drop n is, meets_append] at h
  exact h.1

/-- Step `n` of the run satisfies the condition. -/
lemma Meets.get {s : σ} {is : List ι} (h : Meets step ok s is) {n : ℕ} {i : ι}
    (hi : is[n]? = some i) : ok (run step s (is.take n)) i := by
  obtain ⟨hn, rfl⟩ := List.getElem?_eq_some_iff.mp hi
  rw [← List.take_append_drop n is, meets_append, List.drop_eq_getElem_cons hn] at h
  exact h.2.1

/-- What holds at the start and survives every step that meets `ok` holds after the run. -/
theorem run_invariant {P : σ → Prop} (hstep : ∀ s i, P s → ok s i → P (step s i))
    {s : σ} {is : List ι} (hs : P s) (hok : Meets step ok s is) : P (run step s is) := by
  induction is generalizing s with
  | nil => exact hs
  | cons i is ih => exact ih (hstep s i hs hok.1) hok.2

/-- The rule for what is said of the inputs so far, rather than of the state they lead to. -/
theorem run_history {s : σ} {P : List ι → Prop} (hnil : P [])
    (hstep : ∀ is i, P is → ok (run step s is) i → P (is ++ [i])) {is : List ι}
    (hok : Meets step ok s is) : P is := by
  induction is using List.reverseRecOn with
  | nil => exact hnil
  | append_singleton is i ih =>
    rw [meets_append] at hok
    exact hstep is i (ih hok.1) hok.2.1

/-- The rule for an invariant that needs no condition on the steps. -/
theorem run_invariant' {P : σ → Prop} (hstep : ∀ s i, P s → P (step s i))
    {s : σ} (hs : P s) (is : List ι) : P (run step s is) := by
  induction is generalizing s with
  | nil => exact hs
  | cons i is ih => exact ih (hstep s i hs)

/-! ### Attainable states -/

variable (step ok) in
/-- Some run whose steps all satisfy `ok` leads from `s` to `t`. -/
def Attains (s t : σ) : Prop :=
  ∃ is, Meets step ok s is ∧ run step s is = t

namespace Attains

variable {s t u : σ}

lemma refl (s : σ) : Attains step ok s s :=
  ⟨[], trivial, rfl⟩

lemma trans (h : Attains step ok s t) (h' : Attains step ok t u) : Attains step ok s u := by
  obtain ⟨is, his, rfl⟩ := h
  obtain ⟨js, hjs, rfl⟩ := h'
  exact ⟨is ++ js, meets_append.mpr ⟨his, hjs⟩, run_append step s is js⟩

lemma single {i : ι} (h : ok s i) : Attains step ok s (step s i) :=
  ⟨[i], ⟨h, trivial⟩, rfl⟩

lemma tail {i : ι} (h : Attains step ok s t) (hi : ok t i) : Attains step ok s (step t i) :=
  h.trans (single hi)

/-- What every such step preserves holds in every state that can be attained. -/
lemma invariant {P : σ → Prop} (hstep : ∀ s i, P s → ok s i → P (step s i)) (hs : P s)
    (h : Attains step ok s t) : P t := by
  obtain ⟨is, his, rfl⟩ := h
  exact run_invariant hstep hs his

end Attains

end Run
