import Musil.Lib.Parser

/-!
# Canonical readers

`Canonical p g` says that the reader `p` accepts nothing but encodings: whatever it takes off the
front of a byte string is the encoding by `g` of what it reads it as. This is the converse of
`Reads`.
-/

namespace Bytes

open Reader

/-! ### Numbers -/

lemma toBE_add_mul (k n m : ℕ) : toBE k (n + m * 256 ^ k) = toBE k n := by
  induction k generalizing m with
  | zero => rfl
  | succ k ih =>
    have hpow : n + m * 256 ^ (k + 1) = n + m * 256 * 256 ^ k := by ring
    have hhead : (n + m * 256 * 256 ^ k) / 256 ^ k = n / 256 ^ k + m * 256 :=
      Nat.add_mul_div_right _ _ (Nat.pow_pos (by decide))
    have hbyte : UInt8.ofNat (n / 256 ^ k + m * 256) = UInt8.ofNat (n / 256 ^ k) := by
      rw [← UInt8.toNat_inj, UInt8.toNat_ofNat', UInt8.toNat_ofNat']
      exact Nat.add_mul_mod_self_right _ _ _
    rw [toBE, toBE, hpow, hhead, hbyte, ih]

/-- Only the low bytes are written. -/
lemma toBE_mod (k n : ℕ) : toBE k (n % 256 ^ k) = toBE k n := by
  conv_rhs => rw [← Nat.mod_add_div n (256 ^ k), Nat.mul_comm, toBE_add_mul]

/-- A number read from some bytes is written as the same bytes. -/
lemma toBE_ofBE (bs : List UInt8) : toBE bs.length (ofBE bs) = bs := by
  induction bs with
  | nil => rfl
  | cons b bs ih =>
    have hhead : (b.toNat * 256 ^ bs.length + ofBE bs) / 256 ^ bs.length = b.toNat := by
      rw [Nat.mul_comm, Nat.mul_add_div (Nat.pow_pos (by decide)), Nat.div_eq_of_lt (ofBE_lt bs),
        Nat.add_zero]
    rw [List.length_cons, ofBE, toBE, hhead, UInt8.ofNat_toNat, Nat.add_comm, toBE_add_mul, ih]

/-- Enough bytes begin with a number. -/
lemma exists_eq_toBE_append {k : ℕ} {bs : List UInt8} (h : k ≤ bs.length) :
    ∃ n rest, n < 256 ^ k ∧ bs = toBE k n ++ rest := by
  have hlen : (bs.take k).length = k := List.length_take_of_le h
  have hlt := ofBE_lt (bs.take k)
  have hread := toBE_ofBE (bs.take k)
  rw [hlen] at hlt hread
  exact ⟨ofBE (bs.take k), bs.drop k, hlt, by rw [hread, List.take_append_drop]⟩

lemma exists_eq_getU32_append {bs : List UInt8} (h : 4 ≤ bs.length) :
    ∃ (n : UInt32) (rest : List UInt8), bs = toBE 4 n.toNat ++ rest := by
  obtain ⟨n, rest, hn, rfl⟩ := exists_eq_toBE_append h
  exact ⟨UInt32.ofNat n, rest, by rw [UInt32.toNat_ofNat_of_lt' hn]⟩

lemma exists_eq_getU64_append {bs : List UInt8} (h : 8 ≤ bs.length) :
    ∃ (n : UInt64) (rest : List UInt8), bs = toBE 8 n.toNat ++ rest := by
  obtain ⟨n, rest, hn, rfl⟩ := exists_eq_toBE_append h
  exact ⟨UInt64.ofNat n, rest, by rw [UInt64.toNat_ofNat_of_lt' hn]⟩

/-! ### Readers -/

lemma number_run_eq_none {k : ℕ} {bs : List UInt8} (h : bs.length < k) :
    (number k).run bs = none := by
  rw [number, StateT.run_map]
  change Option.map _ (if k ≤ bs.length then _ else _) = none
  rw [if_neg (Nat.not_le.mpr h), Option.map_none]

/-- What the reader takes is the encoding of what it reads it as. -/
def Canonical {α : Type} (p : Reader α) (g : α → List UInt8) : Prop :=
  ∀ ⦃bs a tail⦄, p.run bs = some (a, tail) → bs = g a ++ tail

section Canonical

variable {α β : Type} {p : Reader α} {f : α → Reader β} {g : α → List UInt8}
  {bs tail : List UInt8} {a : α} {b : β}

/-- A reader that goes on behind another one has read with both. -/
lemma run_bind_eq_some : (p >>= f).run bs = some (b, tail) ↔
    ∃ a mid, p.run bs = some (a, mid) ∧ (f a).run mid = some (b, tail) := by
  rw [StateT.run_bind, Option.bind_eq_bind, Option.bind_eq_some_iff]
  exact Prod.exists

lemma run_map_eq_some {h : α → β} : (h <$> p).run bs = some (b, tail) ↔
    ∃ a, p.run bs = some (a, tail) ∧ h a = b := by
  rw [StateT.run_map]
  constructor
  · intro hrun
    obtain ⟨⟨a, mid⟩, ha, heq⟩ := Option.map_eq_some_iff.mp hrun
    obtain ⟨rfl, rfl⟩ := Prod.mk.inj heq
    exact ⟨a, ha, rfl⟩
  · rintro ⟨a, ha, rfl⟩
    rw [ha]
    rfl

lemma run_pure_eq_some {a' : α} : (pure a : Reader α).run bs = some (a', tail) ↔ a = a' ∧ bs = tail := by
  rw [StateT.run_pure]
  simp

lemma take_run_eq_some {n : ℕ} {cs : List UInt8} (h : (take n).run bs = some (cs, tail)) :
    cs.length = n ∧ bs = cs ++ tail := by
  change (if n ≤ bs.length then some (bs.take n, bs.drop n) else none) = _ at h
  split_ifs at h with hn
  obtain ⟨rfl, rfl⟩ := Prod.mk.inj (Option.some.inj h)
  exact ⟨List.length_take_of_le hn, (List.take_append_drop n bs).symm⟩

lemma Canonical.map {g' : β → List UInt8} (hp : Canonical p g) {h : α → β}
    (hg : ∀ a, g' (h a) = g a) : Canonical (h <$> p) g' := by
  intro bs b tail hrun
  obtain ⟨a, ha, rfl⟩ := run_map_eq_some.mp hrun
  rw [hg]
  exact hp ha

lemma canonical_number (k : ℕ) : Canonical (number k) (toBE k) := by
  intro bs n tail hrun
  obtain ⟨cs, hcs, rfl⟩ := run_map_eq_some.mp hrun
  obtain ⟨hlen, hbs⟩ := take_run_eq_some hcs
  rw [← hlen, toBE_ofBE]
  exact hbs

/-- Reading several values in a row, as many as wanted. -/
lemma Canonical.times (hp : Canonical p g) {n : ℕ} {as : List α}
    (h : (times n p).run bs = some (as, tail)) : as.length = n ∧ bs = as.flatMap g ++ tail := by
  induction n generalizing bs as with
  | zero =>
    obtain ⟨rfl, rfl⟩ := run_pure_eq_some.mp h
    exact ⟨rfl, rfl⟩
  | succ n ih =>
    obtain ⟨a, mid, ha, h⟩ := run_bind_eq_some.mp h
    obtain ⟨as', mid', has, h⟩ := run_bind_eq_some.mp h
    obtain ⟨rfl, rfl⟩ := run_pure_eq_some.mp h
    obtain ⟨hlen, hmid⟩ := ih has
    rw [List.length_cons, hlen, List.flatMap_cons, List.append_assoc, ← hmid]
    exact ⟨rfl, hp ha⟩

lemma canonical_getU8 : Canonical getU8 fun n => [n] := by
  refine (canonical_number 1).map fun n => ?_
  rw [toBE, toBE, pow_zero, Nat.div_one]

lemma canonical_getU16 : Canonical getU16 fun n => toBE 2 n.toNat :=
  (canonical_number 2).map fun n => by
    rw [UInt16.toNat_ofNat']
    exact toBE_mod 2 n

lemma canonical_getU32 : Canonical getU32 fun n => toBE 4 n.toNat :=
  (canonical_number 4).map fun n => by
    rw [UInt32.toNat_ofNat']
    exact toBE_mod 4 n

lemma canonical_getU64 : Canonical getU64 fun n => toBE 8 n.toNat :=
  (canonical_number 8).map fun n => by
    rw [UInt64.toNat_ofNat']
    exact toBE_mod 8 n

lemma canonical_getI16 : Canonical getI16 fun n => toBE 2 n.toUInt16.toNat :=
  canonical_getU16.map fun n => by rw [UInt16.toUInt16_toInt16]

lemma canonical_getI32 : Canonical getI32 fun n => toBE 4 n.toUInt32.toNat :=
  canonical_getU32.map fun n => by rw [UInt32.toUInt32_toInt32]

lemma canonical_getI64 : Canonical getI64 fun n => toBE 8 n.toUInt64.toNat :=
  canonical_getU64.map fun n => by rw [UInt64.toUInt64_toInt64]

end Canonical

/-! ### Parsers -/

/-- A parser that goes on behind another one has accepted with both. -/
lemma Parser.run_bind_eq_ok {ε α β : Type} {p : Parser ε α} {f : α → Parser ε β}
    {bs tail : List UInt8} {b : β} (h : (p >>= f).run.run bs = some (.ok b, tail)) :
    ∃ a mid, p.run.run bs = some (.ok a, mid) ∧ (f a).run.run mid = some (.ok b, tail) := by
  change (p.run >>= fun r => ExceptT.bindCont f r).run bs = _ at h
  obtain ⟨r, mid, hr, h⟩ := run_bind_eq_some.mp h
  cases r with
  | ok a => exact ⟨a, mid, hr, h⟩
  | error e => cases (run_pure_eq_some.mp h).1

lemma Parser.run_liftM_eq_ok {ε α : Type} {p : Reader α} {bs tail : List UInt8} {a : α}
    (h : (liftM p : Parser ε α).run.run bs = some (.ok a, tail)) : p.run bs = some (a, tail) := by
  obtain ⟨a', ha, heq⟩ := run_map_eq_some.mp h
  rw [← Except.ok.inj heq]
  exact ha

lemma Parser.run_embed_eq_ok {ε α : Type} {r : Option (Except ε α)} {bs tail : List UInt8} {a : α}
    (h : (embed r).run.run bs = some (.ok a, tail)) : r = some (.ok a) ∧ bs = tail := by
  obtain ⟨e, hr, heq⟩ := Option.map_eq_some_iff.mp h
  obtain ⟨rfl, rfl⟩ := Prod.mk.inj heq
  exact ⟨hr, rfl⟩

end Bytes
