import Musil.Lib.Bytes

/-!
# Parsers

A parser is a reader that can also reject what it has read. `Accepts p bs a` says that `p` reads
exactly `bs` and accepts it as `a`, whatever follows; its rules follow those of `Reads`.
-/

namespace Bytes

abbrev Parser (ε : Type) := ExceptT ε Reader

namespace Parser

variable {ε α : Type}

/-- The answer of a function that may fail, without reading anything. -/
def embed (r : Option (Except ε α)) : Parser ε α :=
  ExceptT.mk fun bs => r.map fun e => (e, bs)

def times : ℕ → Parser ε α → Parser ε (List α)
  | 0, _ => pure []
  | n + 1, p => do
    let a ← p
    let as ← times n p
    pure (a :: as)

end Parser

/-- The parser takes exactly `bs`, and accepts it as `a`. -/
def Accepts {ε α : Type} (p : Parser ε α) (bs : List UInt8) (a : α) : Prop :=
  Reads p.run bs (.ok a)

section Accepts

variable {ε α β : Type} {p : Parser ε α} {f : α → Parser ε β} {bs cs : List UInt8} {a : α} {b : β}

lemma Accepts.pure (a : α) : Accepts (Pure.pure a : Parser ε α) [] a :=
  Reads.pure _

lemma Accepts.bind (hp : Accepts p bs a) (hf : Accepts (f a) cs b) :
    Accepts (p >>= f) (bs ++ cs) b :=
  Reads.bind hp hf

lemma Accepts.bind_nil (hp : Accepts p bs a) (hf : Accepts (f a) [] b) :
    Accepts (p >>= f) bs b := by
  have h := hp.bind hf
  rwa [List.append_nil] at h

lemma Accepts.bind_pure (hp : Accepts p bs a) (g : α → β) :
    Accepts (p >>= fun a => Pure.pure (g a)) bs (g a) :=
  hp.bind_nil (Accepts.pure (g a))

lemma Reads.accepts {p : Reader α} (hp : Reads p bs a) : Accepts (liftM p : Parser ε α) bs a :=
  hp.map Except.ok

lemma accepts_embed {r : Option (Except ε α)} (h : r = some (.ok a)) : Accepts (Parser.embed r) [] a := by
  intro tail
  rw [h]
  rfl

lemma Accepts.times {g : α → List UInt8} {as : List α} (h : ∀ a ∈ as, Accepts p (g a) a) :
    Accepts (Parser.times as.length p) (as.flatMap g) as := by
  induction as with
  | nil => exact Accepts.pure []
  | cons a as ih =>
    rw [List.forall_mem_cons] at h
    exact h.1.bind ((ih h.2).bind_pure fun as' => a :: as')

lemma Accepts.run_eq (hp : Accepts p bs a) : p.run.run bs = some (.ok a, []) :=
  Reads.run_eq hp

/-- The parser has no value on `bs`. -/
def Fails {ε α : Type} (p : Parser ε α) (bs : List UInt8) : Prop :=
  p.run.run bs = none

lemma Fails.bind (hp : Fails p bs) (f : α → Parser ε β) : Fails (p >>= f) bs := by
  change (p.run >>= fun r => ExceptT.bindCont f r).run bs = none
  rw [StateT.run_bind, show p.run.run bs = none from hp]
  rfl

/-- When what follows fails, so does the whole. -/
lemma Accepts.bind_fails (hp : Accepts p bs a) (hf : Fails (f a) cs) :
    Fails (p >>= f) (bs ++ cs) := by
  change (p.run >>= fun r => ExceptT.bindCont f r).run (bs ++ cs) = none
  rw [StateT.run_bind, hp cs]
  exact hf

lemma Fails.times (hp : Fails p bs) (n : ℕ) : Fails (Parser.times (n + 1) p) bs :=
  hp.bind _

end Accepts

end Bytes
