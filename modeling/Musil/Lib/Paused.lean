import Musil.Lib.Threaded

/-!
# Computations in pieces

A computation on a state that others change as well is carried out in pieces. A piece is a step on
the state and may have to wait until the state is ready for it; between two pieces the others may do
anything. `p.Gives a` says that `p` can come to the result `a`, whatever happens in between.
-/

namespace Threaded

/-- The rest of a computation: it is over, or the next piece waits for its turn. -/
inductive Paused (σ α : Type) where
  | done (a : α)
  | panicked
  | step (ready : σ → Bool) (effect : σ → σ) (next : σ → Paused σ α)

namespace Paused

variable {σ α β : Type}

def bind : Paused σ α → (α → Paused σ β) → Paused σ β
  | .done a, f => f a
  | .panicked, _ => .panicked
  | .step ready effect next, f => .step ready effect fun s => (next s).bind f

instance : Monad (Paused σ) where
  pure := .done
  bind := bind

lemma bind_done (p : Paused σ α) : p.bind .done = p := by
  induction p with
  | done a => rfl
  | panicked => rfl
  | step ready effect next ih => rw [bind, funext ih]

lemma bind_bind {γ : Type} (p : Paused σ α) (f : α → Paused σ β) (g : β → Paused σ γ) :
    (p.bind f).bind g = p.bind fun a => (f a).bind g := by
  induction p with
  | done a => rfl
  | panicked => rfl
  | step ready effect next ih => rw [bind, bind, bind, funext ih]

instance : LawfulMonad (Paused σ) :=
  .mk' (Paused σ) bind_done (fun _ _ => rfl) bind_bind

/-- A computation as one piece, once the state is ready. -/
def upon (ready : σ → Bool) (x : Panics σ α) : Paused σ α :=
  .step ready (fun s => (x.exec s).2) fun s => ((x.exec s).1.map .done).getD .panicked

def once (x : Panics σ α) : Paused σ α :=
  upon (fun _ => true) x

/-- A panic changes the state, and there is no result. -/
def attempt (onPanic : σ → σ) : Paused σ α → Paused σ (Option α)
  | .done a => .done (some a)
  | .panicked => .step (fun _ => true) onPanic fun _ => .done none
  | .step ready effect next => .step ready effect fun s => (next s).attempt onPanic

/-- The next piece, unless it has to wait. -/
def advance : Paused σ α → σ → Paused σ α × σ
  | .step ready effect next, s =>
    if ready s then (next s, effect s) else (.step ready effect next, s)
  | .done a, s => (.done a, s)
  | .panicked, s => (.panicked, s)

/-! ### Results -/

/-- The result that the computation can come to, in whatever states its pieces find. -/
inductive Gives : Paused σ α → α → Prop
  | done (a : α) : Gives (.done a) a
  | step {ready : σ → Bool} {effect : σ → σ} {next : σ → Paused σ α} {a : α} (s : σ)
      (hready : ready s = true) (tail : Gives (next s) a) : Gives (.step ready effect next) a

section Gives

variable {p : Paused σ α} {f : α → Paused σ β} {a : α} {b : β}

@[simp] lemma gives_pure {a' : α} : (pure a : Paused σ α).Gives a' ↔ a' = a := by
  constructor
  · intro h
    cases h
    rfl
  · rintro rfl
    exact .done a'

@[simp] lemma gives_bind : (p >>= f).Gives b ↔ ∃ a, p.Gives a ∧ (f a).Gives b := by
  change (p.bind f).Gives b ↔ _
  constructor
  · intro h
    induction p with
    | done a => exact ⟨a, .done a, h⟩
    | panicked => cases h
    | step ready effect next ih =>
      cases h with
      | step s hready tail =>
        obtain ⟨a, hnext, hrest⟩ := ih s tail
        exact ⟨a, .step s hready hnext, hrest⟩
  · rintro ⟨a, h, hrest⟩
    induction h with
    | done a => exact hrest
    | step s hready _ ih => exact .step s hready (ih hrest)

/-- A panic gives no result. -/
lemma Gives.of_attempt {onPanic : σ → σ} (h : (p.attempt onPanic).Gives (some a)) : p.Gives a := by
  induction p with
  | done a' =>
    cases h
    exact .done a
  | panicked =>
    cases h with
    | step s _ tail => cases tail
  | step ready effect next ih =>
    cases h with
    | step s hready tail => exact .step s hready (ih s tail)

/-- What is left of a computation gives nothing that the whole does not. -/
lemma Gives.of_advance {s : σ} (h : (p.advance s).1.Gives a) : p.Gives a := by
  cases p with
  | done a' => exact h
  | panicked => exact h
  | step ready effect next =>
    rw [advance] at h
    split_ifs at h with hready
    · exact .step s hready h
    · exact h

/-- A pass over a list gives a result for each element. -/
lemma Gives.forall₂ {f : α → Paused σ β} {as : List α} {bs : List β} (h : (as.mapM f).Gives bs) :
    List.Forall₂ (fun a b => (f a).Gives b) as bs := by
  induction as generalizing bs with
  | nil =>
    cases h
    exact .nil
  | cons a as ih =>
    rw [List.mapM_cons] at h
    simp only [gives_bind, gives_pure] at h
    obtain ⟨b, hb, bs, hbs, rfl⟩ := h
    exact .cons hb (ih hbs)

end Gives

end Paused

end Threaded
