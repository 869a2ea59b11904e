import Mathlib.Computability.Language
import Musil.Lib.Canonical

/-!
# Layouts

A layout says what a parser needs of its input: the byte strings that are complete, and those behind
which the parser rejects. Layouts are put one behind another by multiplication, and `block` lets the
next bytes decide on what is behind them.

`Follows p L` says that `p` accepts and rejects as the layout `L` has it. Where the input holds
neither a complete nor a rejected byte string, it ends too early, and `p` has no value.
-/

namespace Bytes

open Reader

@[ext]
structure Layout where
  complete : Language UInt8
  rejected : Language UInt8

namespace Layout

/-- Nothing is needed. -/
instance : One Layout := ⟨⟨1, 0⟩⟩

/-- Nothing is enough. -/
instance : Zero Layout := ⟨⟨0, 0⟩⟩

lemma notMem_zero (w : List UInt8) : w ∉ (0 : Layout).complete ∧ w ∉ (0 : Layout).rejected :=
  ⟨Language.notMem_zero w, Language.notMem_zero w⟩

instance : Mul Layout :=
  ⟨fun L M => ⟨L.complete * M.complete, L.rejected + L.complete * M.rejected⟩⟩

instance : Monoid Layout where
  mul_assoc L M N := by
    apply Layout.ext
    · exact mul_assoc L.complete M.complete N.complete
    · change L.rejected + L.complete * M.rejected + L.complete * M.complete * N.rejected
        = L.rejected + L.complete * (M.rejected + M.complete * N.rejected)
      rw [mul_add, ← mul_assoc, add_assoc]
  one_mul L := by
    apply Layout.ext
    · exact one_mul L.complete
    · change 0 + 1 * L.rejected = L.rejected
      rw [one_mul, zero_add]
  mul_one L := by
    apply Layout.ext
    · exact mul_one L.complete
    · change L.rejected + L.complete * 0 = L.rejected
      rw [mul_zero, add_zero]

/-- The input is rejected where it is. -/
def reject : Layout := ⟨0, 1⟩

/-- The words of `n` bytes and one more word of the language that they ask for. -/
def behind (n : ℕ) (K : List UInt8 → Language UInt8) : Language UInt8 :=
  {w | n ≤ w.length ∧ w.drop n ∈ K (w.take n)}

/-- The next `n` bytes, and what they ask for. -/
def block (n : ℕ) (L : List UInt8 → Layout) : Layout where
  complete := behind n fun b => (L b).complete
  rejected := behind n fun b => (L b).rejected

/-- Any `n` bytes. -/
def fixed (n : ℕ) : Layout := block n fun _ => 1

/-- A number in `k` bytes, and what it asks for. -/
def number (k : ℕ) (L : ℕ → Layout) : Layout := block k fun b => L (ofBE b)

/-- As many times `L` as the number in `k` bytes says. -/
def list (k : ℕ) (L : Layout) : Layout := number k fun n => L ^ n

/-- The bytes begin with all that the layout needs. -/
def Enough (L : Layout) (bs : List UInt8) : Prop :=
  ∃ w ∈ L.complete + L.rejected, w <+: bs

/-- The first `n` bytes decide on the rest. -/
lemma exists_mem_behind_append_eq {n : ℕ} {K : List UInt8 → Language UInt8} {bs tail : List UInt8} :
    (∃ w ∈ behind n K, w ++ tail = bs) ↔
      n ≤ bs.length ∧ ∃ w ∈ K (bs.take n), w ++ tail = bs.drop n := by
  constructor
  · rintro ⟨w, ⟨hlen, hw⟩, rfl⟩
    rw [List.take_append_of_le_length hlen, List.drop_append_of_le_length hlen]
    exact ⟨hlen.trans (List.prefix_append w tail).length_le, w.drop n, hw, rfl⟩
  · rintro ⟨hn, w, hw, htail⟩
    have hlen : (bs.take n).length = n := List.length_take_of_le hn
    refine ⟨bs.take n ++ w, ⟨?_, ?_⟩, ?_⟩
    · rw [List.length_append, hlen]
      exact Nat.le_add_right n _
    · rw [List.drop_left' hlen, List.take_left' hlen]
      exact hw
    · rw [List.append_assoc, htail, List.take_append_drop]

lemma mem_fixed {n : ℕ} {w : List UInt8} : w ∈ (fixed n).complete ↔ w.length = n := by
  change n ≤ w.length ∧ w.drop n ∈ (1 : Language UInt8) ↔ w.length = n
  rw [Language.mem_one, List.drop_eq_nil_iff]
  exact antisymm_iff.trans eq_comm

end Layout

/-- The parser accepts behind what is complete, and rejects behind what is rejected. -/
structure Follows {ε α : Type} (p : Parser ε α) (L : Layout) : Prop where
  ok_iff (bs tail : List UInt8) :
    (∃ a, p.run.run bs = some (.ok a, tail)) ↔ ∃ w ∈ L.complete, w ++ tail = bs
  error_iff (bs : List UInt8) :
    (∃ e tail, p.run.run bs = some (.error e, tail)) ↔ ∃ tail, ∃ w ∈ L.rejected, w ++ tail = bs

/-! ### Runs -/

section Runs

variable {ε α β : Type} {p : Parser ε α} {f : α → Parser ε β}

lemma Parser.run_bind (p : Parser ε α) (f : α → Parser ε β) (bs : List UInt8) :
    (p >>= f).run.run bs = (p.run.run bs).bind fun r => match r with
      | (.ok a, mid) => (f a).run.run mid
      | (.error e, mid) => some (.error e, mid) := by
  change (p.run >>= fun r => ExceptT.bindCont f r).run bs = _
  rw [StateT.run_bind]
  congr
  funext r
  rcases r with ⟨_ | _, _⟩ <;> rfl

lemma Parser.run_bind_eq_error {e : ε} {bs tail : List UInt8} :
    (p >>= f).run.run bs = some (.error e, tail) ↔ p.run.run bs = some (.error e, tail) ∨
      ∃ a mid, p.run.run bs = some (.ok a, mid) ∧ (f a).run.run mid = some (.error e, tail) := by
  rw [Parser.run_bind, Option.bind_eq_some_iff]
  constructor
  · rintro ⟨⟨e' | a, mid⟩, hr, h⟩
    · cases h
      exact Or.inl hr
    · exact Or.inr ⟨a, mid, hr, h⟩
  · rintro (hr | ⟨a, mid, hr, h⟩)
    · exact ⟨_, hr, rfl⟩
    · exact ⟨_, hr, h⟩

lemma Parser.run_bind_ok {bs mid : List UInt8} {a : α} (h : p.run.run bs = some (.ok a, mid)) :
    (p >>= f).run.run bs = (f a).run.run mid := by
  rw [Parser.run_bind, h]
  rfl

/-- A reader is not where a parser rejects. -/
lemma Parser.lift_bind_eq_error {q : Reader α} {e : ε} {bs tail : List UInt8}
    (h : ((liftM q : Parser ε α) >>= f).run.run bs = some (.error e, tail)) :
    ∃ a mid, (f a).run.run mid = some (.error e, tail) := by
  obtain hq | ⟨a, mid, -, ha⟩ := Parser.run_bind_eq_error.mp h
  · obtain ⟨a, -, ha⟩ := run_map_eq_some.mp hq
    cases ha
  · exact ⟨a, mid, ha⟩

lemma Parser.run_take_bind (n : ℕ) (f : List UInt8 → Parser ε β) (bs : List UInt8) :
    ((liftM (take n) : Parser ε _) >>= f).run.run bs =
      if n ≤ bs.length then (f (bs.take n)).run.run (bs.drop n) else none := by
  have htake : (liftM (take n) : Parser ε _).run.run bs =
      if n ≤ bs.length then some (.ok (bs.take n), bs.drop n) else none := by
    change Option.bind (if n ≤ bs.length then some (bs.take n, bs.drop n) else none) _ = _
    split_ifs <;> rfl
  rw [Parser.run_bind, htake]
  split_ifs <;> rfl

end Runs

/-! ### Rules -/

section Follows

variable {ε α β : Type} {p : Parser ε α} {f : α → Parser ε β} {L M : Layout}

/-- The parser has a value just on inputs that are long enough. -/
lemma Follows.run_ne_none_iff (hp : Follows p L) (bs : List UInt8) :
    p.run.run bs ≠ none ↔ L.Enough bs := by
  have hcases : p.run.run bs ≠ none ↔ (∃ tail a, p.run.run bs = some (.ok a, tail)) ∨
      ∃ e tail, p.run.run bs = some (.error e, tail) := by
    rw [Option.ne_none_iff_exists']
    constructor
    · rintro ⟨⟨e | a, tail⟩, h⟩
      · exact Or.inr ⟨e, tail, h⟩
      · exact Or.inl ⟨tail, a, h⟩
    · rintro (⟨tail, a, h⟩ | ⟨e, tail, h⟩) <;> exact ⟨_, h⟩
  rw [hcases, hp.error_iff]
  constructor
  · rintro (⟨tail, h⟩ | ⟨tail, w, hw, rfl⟩)
    · obtain ⟨w, hw, rfl⟩ := (hp.ok_iff bs tail).mp h
      exact ⟨w, Or.inl hw, List.prefix_append w tail⟩
    · exact ⟨w, Or.inr hw, List.prefix_append w tail⟩
  · rintro ⟨w, hw | hw, tail, rfl⟩
    · exact Or.inl ⟨tail, (hp.ok_iff _ tail).mpr ⟨w, hw, rfl⟩⟩
    · exact Or.inr ⟨tail, w, hw, rfl⟩

lemma Follows.pure (a : α) : Follows (Pure.pure a : Parser ε α) 1 where
  ok_iff bs tail := by
    constructor
    · rintro ⟨a', h⟩
      exact ⟨[], rfl, (Prod.mk.inj (Option.some.inj h)).2.symm⟩
    · rintro ⟨w, rfl, rfl⟩
      exact ⟨a, rfl⟩
  error_iff bs := by
    constructor
    · rintro ⟨e, tail, h⟩
      cases h
    · rintro ⟨tail, w, hw, -⟩
      exact absurd hw (Language.notMem_zero w)

lemma Follows.throw (e : ε) : Follows (throw e : Parser ε α) .reject where
  ok_iff bs tail := by
    constructor
    · rintro ⟨a, h⟩
      cases h
    · rintro ⟨w, hw, -⟩
      exact absurd hw (Language.notMem_zero w)
  error_iff bs := by
    constructor
    · rintro -
      exact ⟨bs, [], rfl, rfl⟩
    · rintro -
      exact ⟨e, bs, rfl⟩

lemma Follows.throw_bind (e : ε) (f : α → Parser ε β) :
    Follows ((MonadExcept.throw e : Parser ε α) >>= f) .reject :=
  Follows.throw e

lemma Follows.bind (hp : Follows p L) (hf : ∀ a, Follows (f a) M) : Follows (p >>= f) (L * M) where
  ok_iff bs tail := by
    constructor
    · rintro ⟨b, h⟩
      obtain ⟨a, mid, ha, hb⟩ := Parser.run_bind_eq_ok h
      obtain ⟨w, hw, rfl⟩ := (hp.ok_iff bs mid).mp ⟨a, ha⟩
      obtain ⟨v, hv, rfl⟩ := ((hf a).ok_iff mid tail).mp ⟨b, hb⟩
      exact ⟨w ++ v, Language.append_mem_mul hw hv, List.append_assoc _ _ _⟩
    · rintro ⟨_, ⟨w, hw, v, hv, rfl⟩, rfl⟩
      obtain ⟨a, ha⟩ := (hp.ok_iff _ (v ++ tail)).mpr ⟨w, hw, (List.append_assoc _ _ _).symm⟩
      obtain ⟨b, hb⟩ := ((hf a).ok_iff _ tail).mpr ⟨v, hv, rfl⟩
      exact ⟨b, (Parser.run_bind_ok ha).trans hb⟩
  error_iff bs := by
    constructor
    · rintro ⟨e, tail, h⟩
      obtain hp' | ⟨a, mid, ha, hb⟩ := Parser.run_bind_eq_error.mp h
      · obtain ⟨rest, w, hw, hbs⟩ := (hp.error_iff bs).mp ⟨e, tail, hp'⟩
        exact ⟨rest, w, Or.inl hw, hbs⟩
      · obtain ⟨w, hw, rfl⟩ := (hp.ok_iff bs mid).mp ⟨a, ha⟩
        obtain ⟨rest, v, hv, rfl⟩ := ((hf a).error_iff mid).mp ⟨e, tail, hb⟩
        exact ⟨rest, w ++ v, Or.inr (Language.append_mem_mul hw hv), List.append_assoc _ _ _⟩
    · rintro ⟨rest, _, hw | ⟨w, hw, v, hv, rfl⟩, rfl⟩
      · obtain ⟨e, tail, h⟩ := (hp.error_iff _).mpr ⟨rest, _, hw, rfl⟩
        exact ⟨e, tail, Parser.run_bind_eq_error.mpr (Or.inl h)⟩
      · obtain ⟨a, ha⟩ := (hp.ok_iff _ (v ++ rest)).mpr ⟨w, hw, (List.append_assoc _ _ _).symm⟩
        obtain ⟨e, tail, h⟩ := ((hf a).error_iff _).mpr ⟨rest, v, hv, rfl⟩
        exact ⟨e, tail, (Parser.run_bind_ok ha).trans h⟩

lemma Follows.bind_pure (hp : Follows p L) (g : α → β) :
    Follows (p >>= fun a => Pure.pure (g a)) L := by
  have h := hp.bind fun a => Follows.pure (ε := ε) (g a)
  rwa [mul_one] at h

lemma Follows.map (hp : Follows p L) (g : α → β) : Follows (g <$> p) L := by
  rw [map_eq_pure_bind]
  exact hp.bind_pure g

lemma Follows.times (hp : Follows p L) (n : ℕ) : Follows (Parser.times n p) (L ^ n) := by
  induction n with
  | zero =>
    rw [pow_zero]
    exact Follows.pure []
  | succ n ih =>
    rw [pow_succ']
    exact hp.bind fun a => ih.bind_pure fun as => a :: as

/-- What is behind a block may depend on it. -/
lemma Follows.block {n : ℕ} {f : List UInt8 → Parser ε β} {L : List UInt8 → Layout}
    (hf : ∀ b, b.length = n → Follows (f b) (L b)) :
    Follows ((liftM (take n) : Parser ε _) >>= f) (.block n L) where
  ok_iff bs tail := by
    rw [Parser.run_take_bind, Layout.block, Layout.exists_mem_behind_append_eq]
    split_ifs with hn
    · rw [(hf _ (List.length_take_of_le hn)).ok_iff, and_iff_right hn]
    · simp [hn]
  error_iff bs := by
    simp only [Parser.run_take_bind, Layout.block, Layout.exists_mem_behind_append_eq]
    split_ifs with hn
    · rw [(hf _ (List.length_take_of_le hn)).error_iff]
      simp [hn]
    · simp [hn]

lemma Follows.embed {r : Option (Except ε α)} {L : Layout} (hnone : r = none → L = 0)
    (hok : ∀ a, r = some (.ok a) → L = 1) (herror : ∀ e, r = some (.error e) → L = .reject) :
    Follows (Parser.embed r) L := by
  match r with
  | none =>
    rw [hnone rfl]
    constructor
    · rintro bs tail
      constructor
      · rintro ⟨a, h⟩
        cases h
      · rintro ⟨w, hw, -⟩
        exact absurd hw (Layout.notMem_zero w).1
    · rintro bs
      constructor
      · rintro ⟨e, tail, h⟩
        cases h
      · rintro ⟨tail, w, hw, -⟩
        exact absurd hw (Layout.notMem_zero w).2
  | some (.ok a) =>
    rw [hok a rfl]
    exact Follows.pure a
  | some (.error e) =>
    rw [herror e rfl]
    exact Follows.throw e

end Follows

/-! ### Readers

A reader does not reject; it is followed in a parser. -/

section Lift

variable {ε α β : Type} {p : Reader α} {f : α → Reader β} {h : α → Parser ε β} {L M : Layout}

lemma Follows.lift_map (hp : Follows (liftM p : Parser ε α) L) (g : α → β) :
    Follows (liftM (g <$> p) : Parser ε β) L := by
  rw [liftM_map]
  exact hp.map g

lemma Follows.lift_bind (hp : Follows (liftM p : Parser ε α) L)
    (hf : ∀ a, Follows (liftM (f a) : Parser ε β) M) :
    Follows (liftM (p >>= f) : Parser ε β) (L * M) := by
  rw [liftM_bind]
  exact hp.bind hf

lemma Follows.lift_bind_pure (hp : Follows (liftM p : Parser ε α) L) (g : α → β) :
    Follows (liftM (p >>= fun a => Pure.pure (g a)) : Parser ε β) L := by
  rw [← map_eq_pure_bind]
  exact hp.lift_map g

lemma Follows.lift_times (hp : Follows (liftM p : Parser ε α) L) (n : ℕ) :
    Follows (liftM (Reader.times n p) : Parser ε (List α)) (L ^ n) := by
  induction n with
  | zero =>
    rw [pow_zero]
    exact Follows.pure []
  | succ n ih =>
    rw [pow_succ']
    exact hp.lift_bind fun a => ih.lift_bind_pure fun as => a :: as

lemma follows_take (n : ℕ) : Follows (liftM (take n) : Parser ε _) (.fixed n) := by
  have h := Follows.block (f := Pure.pure) fun b (_ : b.length = n) => Follows.pure (ε := ε) b
  rwa [bind_pure] at h

/-- What is behind a number may depend on it. -/
lemma Follows.number {k : ℕ} {g : ℕ → α} {L : ℕ → Layout}
    (hh : ∀ n < 256 ^ k, Follows (h (g n)) (L n)) :
    Follows ((liftM (g <$> number k) : Parser ε α) >>= h) (.number k L) := by
  rw [Reader.number, Functor.map_map, liftM_map, map_eq_pure_bind, bind_assoc]
  refine Follows.block fun b hb => ?_
  rw [pure_bind]
  exact hh _ (hb ▸ ofBE_lt b)

lemma Follows.lift_number {k : ℕ} {g : ℕ → α} {L : ℕ → Layout}
    (hf : ∀ n < 256 ^ k, Follows (liftM (f (g n)) : Parser ε β) (L n)) :
    Follows (liftM (g <$> Reader.number k >>= f) : Parser ε β) (.number k L) := by
  rw [liftM_bind]
  exact Follows.number hf

lemma follows_number (k : ℕ) (g : ℕ → α) :
    Follows (liftM (g <$> number k) : Parser ε α) (.fixed k) :=
  ((follows_take k).lift_map ofBE).lift_map g

lemma follows_getU8 : Follows (liftM getU8 : Parser ε _) (.fixed 1) := follows_number 1 _

lemma follows_getU16 : Follows (liftM getU16 : Parser ε _) (.fixed 2) := follows_number 2 _

lemma follows_getU32 : Follows (liftM getU32 : Parser ε _) (.fixed 4) := follows_number 4 _

lemma follows_getU64 : Follows (liftM getU64 : Parser ε _) (.fixed 8) := follows_number 8 _

lemma follows_getI16 : Follows (liftM getI16 : Parser ε _) (.fixed 2) := follows_getU16.lift_map _

lemma follows_getI32 : Follows (liftM getI32 : Parser ε _) (.fixed 4) := follows_getU32.lift_map _

lemma follows_getI64 : Follows (liftM getI64 : Parser ε _) (.fixed 8) := follows_getU64.lift_map _

lemma getI16_eq : getI16 = Int16.ofNat <$> number 2 :=
  Functor.map_map UInt16.ofNat UInt16.toInt16 (number 2)

lemma Follows.getI16 {h : Int16 → Parser ε β} {L : ℕ → Layout}
    (hh : ∀ n < 2 ^ 16, Follows (h (Int16.ofNat n)) (L n)) :
    Follows ((liftM getI16 : Parser ε _) >>= h) (.number 2 L) := by
  rw [getI16_eq]
  exact Follows.number hh

lemma Follows.lift_getI16 {f : Int16 → Reader β} {L : ℕ → Layout}
    (hf : ∀ n < 2 ^ 16, Follows (liftM (f (Int16.ofNat n)) : Parser ε β) (L n)) :
    Follows (liftM (Reader.getI16 >>= f) : Parser ε β) (.number 2 L) := by
  rw [liftM_bind]
  exact Follows.getI16 hf

end Lift

/-! ### Readers of all that is left -/

/-- The reader has a value just on `k` bytes and more. -/
def Needs {α : Type} (p : Reader α) (k : ℕ) : Prop :=
  ∀ bs, p.run bs ≠ none ↔ k ≤ bs.length

section Needs

variable {α β : Type} {p : Reader α} {f : α → Reader β} {k m : ℕ} {bs : List UInt8}

lemma needs_zero (h : ∀ bs, p.run bs ≠ none) : Needs p 0 :=
  fun bs => iff_of_true (h bs) (Nat.zero_le _)

/-- A reader of `k` bytes reads just those. -/
lemma Follows.exists_run_eq (hp : Follows (liftM p : Parser Unit α) (.fixed k))
    (h : k ≤ bs.length) : ∃ a, p.run bs = some (a, bs.drop k) := by
  have hword : bs.take k ∈ (Layout.fixed k).complete :=
    Layout.mem_fixed.mpr (List.length_take_of_le h)
  obtain ⟨a, ha⟩ := (hp.ok_iff bs (bs.drop k)).mpr ⟨_, hword, List.take_append_drop k bs⟩
  exact ⟨a, Parser.run_liftM_eq_ok ha⟩

lemma Follows.run_eq_none (hp : Follows (liftM p : Parser Unit α) (.fixed k))
    (h : bs.length < k) : p.run bs = none := by
  by_contra hne
  obtain ⟨⟨a, tail⟩, ha⟩ := Option.ne_none_iff_exists'.mp hne
  obtain ⟨w, hw, rfl⟩ := (hp.ok_iff bs tail).mp ⟨a, run_map_eq_some.mpr ⟨a, ha, rfl⟩⟩
  have hlen := (List.prefix_append w tail).length_le
  rw [Layout.mem_fixed.mp hw] at hlen
  exact absurd h (Nat.not_lt.mpr hlen)

lemma Needs.bind (hp : Follows (liftM p : Parser Unit α) (.fixed k)) (hf : ∀ a, Needs (f a) m) :
    Needs (p >>= f) (k + m) := by
  intro bs
  rw [StateT.run_bind]
  rcases Nat.lt_or_ge bs.length k with hlt | hge
  · rw [hp.run_eq_none hlt]
    exact iff_of_false (fun h => h rfl) (by omega)
  · obtain ⟨a, ha⟩ := hp.exists_run_eq hge
    rw [ha]
    refine (hf a (bs.drop k)).trans ?_
    rw [List.length_drop]
    omega

end Needs

end Bytes
