import Mathlib.Data.List.Basic

/-!
# Iterators

An iterator is a state with a function that takes the next step. `Yields next it as` says that the
iterator ends after it has yielded `as`, and `Finds next f it out` that the search for the first
item which `f` accepts ends with `out`. Both are derivations with one rule for each kind of step,
so the steps are finite in number and none of them panics.
-/

namespace Iter

/-- What one step of an iterator comes to. -/
inductive Step (σ α : Type*) where
  | done
  | item (a : α) (it : σ)
  | panic

variable {σ α β : Type*} {next : σ → Step σ α} {it it' : σ} {a : α}

/-- The iterator yields the items one after the other and ends. -/
inductive Yields (next : σ → Step σ α) : σ → List α → Prop where
  | done {it : σ} (h : next it = .done) : Yields next it []
  | item {it it' : σ} {a : α} {as : List α} (h : next it = .item a it')
      (has : Yields next it' as) : Yields next it (a :: as)

/-- An iterator that ends does so in one way only. -/
theorem Yields.unique {as bs : List α} (has : Yields next it as) (hbs : Yields next it bs) :
    as = bs := by
  induction has generalizing bs with
  | done h =>
    cases hbs with
    | done => rfl
    | item h' => cases h.symm.trans h'
  | item h _ ih =>
    cases hbs with
    | done h' => cases h.symm.trans h'
    | item h' hbs =>
      cases h.symm.trans h'
      rw [ih hbs]

/-- The search for the first item that `f` accepts, over the items until the end. -/
inductive Finds (next : σ → Step σ α) (f : α → Option β) : σ → Option β → Prop where
  | done {it : σ} (h : next it = .done) : Finds next f it none
  | found {it it' : σ} {a : α} {b : β} (h : next it = .item a it') (hb : f a = some b) :
      Finds next f it (some b)
  | skip {it it' : σ} {a : α} {out : Option β} (h : next it = .item a it') (ha : f a = none)
      (hout : Finds next f it' out) : Finds next f it out

section Finds

variable {f : α → Option β} {out : Option β}

lemma not_finds_of_panic (h : next it = .panic) : ¬ Finds next f it out := by
  intro hout
  cases hout with
  | done h' => cases h.symm.trans h'
  | found h' => cases h.symm.trans h'
  | skip h' => cases h.symm.trans h'

lemma finds_skip_iff (h : next it = .item a it') (ha : f a = none) :
    Finds next f it out ↔ Finds next f it' out := by
  constructor
  · intro hout
    cases hout with
    | done h' => cases h.symm.trans h'
    | found h' hb =>
      cases h.symm.trans h'
      cases ha.symm.trans hb
    | skip h' _ hout =>
      cases h.symm.trans h'
      exact hout
  · exact .skip h ha

/-- A search that meets the same state again does not end. -/
theorem not_finds_of_loop (h : next it = .item a it) (ha : f a = none) :
    ¬ Finds next f it out := by
  intro hout
  generalize hit : it = it₀ at hout
  induction hout with
  | done h' => cases h.symm.trans (hit ▸ h')
  | found h' hb =>
    cases h.symm.trans (hit ▸ h')
    cases ha.symm.trans hb
  | skip h' _ _ ih =>
    cases h.symm.trans (hit ▸ h')
    exact ih rfl

end Finds

end Iter
