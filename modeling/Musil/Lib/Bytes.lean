import Mathlib.Data.List.Basic
import Mathlib.Tactic.Ring

/-!
# Byte strings: big-endian numbers and readers

`toBE k n` is the number `n` in `k` bytes, most significant first, and `ofBE` reads it back.

A reader takes a value off the front of a byte string, or fails. `Reads p bs a` says that `p`
reads exactly `bs` as `a`, whatever follows; the rules below build it along the reader.
-/

namespace Bytes

/-! ### Big-endian numbers -/

/-- The number `n` in `k` bytes; what does not fit is cut off. -/
def toBE : ℕ → ℕ → List UInt8
  | 0, _ => []
  | k + 1, n => UInt8.ofNat (n / 256 ^ k) :: toBE k n

def ofBE : List UInt8 → ℕ
  | [] => 0
  | b :: bs => b.toNat * 256 ^ bs.length + ofBE bs

@[simp] lemma length_toBE (k n : ℕ) : (toBE k n).length = k := by
  induction k with
  | zero => rfl
  | succ k ih => rw [toBE, List.length_cons, ih]

lemma ofBE_toBE (k n : ℕ) : ofBE (toBE k n) = n % 256 ^ k := by
  induction k with
  | zero => simp [toBE, ofBE, Nat.mod_one]
  | succ k ih =>
    have hbyte : (UInt8.ofNat (n / 256 ^ k)).toNat = n / 256 ^ k % 256 := UInt8.toNat_ofNat'
    rw [toBE, ofBE, ih, length_toBE, hbyte, pow_succ, Nat.mod_mul]
    ring

lemma ofBE_toBE_of_lt {k n : ℕ} (h : n < 256 ^ k) : ofBE (toBE k n) = n := by
  rw [ofBE_toBE, Nat.mod_eq_of_lt h]

lemma ofBE_lt (bs : List UInt8) : ofBE bs < 256 ^ bs.length := by
  induction bs with
  | nil => exact Nat.one_pos
  | cons b bs ih =>
    have hb : b.toNat + 1 ≤ 256 := b.toNat_lt
    calc ofBE (b :: bs) < b.toNat * 256 ^ bs.length + 256 ^ bs.length := Nat.add_lt_add_left ih _
      _ = (b.toNat + 1) * 256 ^ bs.length := by ring
      _ ≤ 256 * 256 ^ bs.length := Nat.mul_le_mul_right _ hb
      _ = 256 ^ (b :: bs).length := by rw [List.length_cons, pow_succ']

/-! ### Reading and writing at a position -/

/-- `n` bytes from `pos` on; a buffer that reaches past the end keeps its zeros there. -/
def readAt (bs : List UInt8) (pos n : ℕ) : List UInt8 :=
  ((bs.drop pos).take n).rightpad n 0

/-- Write `data` over what is at `pos`. -/
def writeAt (bs : List UInt8) (pos : ℕ) (data : List UInt8) : List UInt8 :=
  bs.take pos ++ data ++ bs.drop (pos + data.length)

lemma readAt_append (pre bs rest : List UInt8) :
    readAt (pre ++ bs ++ rest) pre.length bs.length = bs := by
  simp [readAt, List.rightpad]

lemma writeAt_length (bs data : List UInt8) : writeAt bs bs.length data = bs ++ data := by
  simp [writeAt]

/-! ### Readers -/

/-- A reader fails on an input that is too short. -/
abbrev Reader := StateT (List UInt8) Option

namespace Reader

variable {α β : Type}

def take (n : ℕ) : Reader (List UInt8) := fun bs =>
  if n ≤ bs.length then some (bs.take n, bs.drop n) else none

/-- All that is left. -/
def rest : Reader (List UInt8) := fun bs => some (bs, [])

/-- A big-endian number of `k` bytes. -/
def number (k : ℕ) : Reader ℕ := ofBE <$> take k

def getU8 : Reader UInt8 := UInt8.ofNat <$> number 1
def getU16 : Reader UInt16 := UInt16.ofNat <$> number 2
def getU32 : Reader UInt32 := UInt32.ofNat <$> number 4
def getU64 : Reader UInt64 := UInt64.ofNat <$> number 8
def getI16 : Reader Int16 := UInt16.toInt16 <$> getU16
def getI32 : Reader Int32 := UInt32.toInt32 <$> getU32
def getI64 : Reader Int64 := UInt64.toInt64 <$> getU64

def times : ℕ → Reader α → Reader (List α)
  | 0, _ => pure []
  | n + 1, p => do
    let a ← p
    let as ← times n p
    pure (a :: as)

end Reader

open Reader

/-- The reader takes exactly `bs`, and reads it as `a`. -/
def Reads {α : Type} (p : Reader α) (bs : List UInt8) (a : α) : Prop :=
  ∀ tail, p.run (bs ++ tail) = some (a, tail)

section Reads

variable {α β : Type} {p : Reader α} {f : α → Reader β} {bs cs : List UInt8} {a : α} {b : β}

lemma Reads.pure (a : α) : Reads (Pure.pure a) [] a := fun _ => rfl

/-- Reading goes on behind what has been read. -/
lemma Reads.run_bind (hp : Reads p bs a) (f : α → Reader β) (tail : List UInt8) :
    (p >>= f).run (bs ++ tail) = (f a).run tail := by
  rw [StateT.run_bind, hp tail]
  rfl

lemma Reads.bind (hp : Reads p bs a) (hf : Reads (f a) cs b) : Reads (p >>= f) (bs ++ cs) b := by
  intro tail
  rw [List.append_assoc, hp.run_bind]
  exact hf tail

lemma Reads.map (hp : Reads p bs a) (g : α → β) : Reads (g <$> p) bs (g a) := by
  intro tail
  rw [StateT.run_map, hp tail]
  rfl

lemma reads_take (bs : List UInt8) : Reads (take bs.length) bs bs := by
  intro tail
  simp [take, StateT.run]

lemma reads_number {k n : ℕ} (h : n < 256 ^ k) : Reads (number k) (toBE k n) n := by
  have htake := (reads_take (toBE k n)).map ofBE
  rwa [length_toBE, ofBE_toBE_of_lt h] at htake

lemma Reads.times {g : α → List UInt8} {as : List α} (h : ∀ a ∈ as, Reads p (g a) a) :
    Reads (times as.length p) (as.flatMap g) as := by
  induction as with
  | nil => exact Reads.pure []
  | cons a as ih =>
    rw [List.forall_mem_cons] at h
    have hcons := (ih h.2).bind (f := fun as' => Pure.pure (a :: as')) (Reads.pure (a :: as))
    rw [List.append_nil] at hcons
    exact h.1.bind hcons

lemma Reads.bind_pure (hp : Reads p bs a) (g : α → β) :
    Reads (p >>= fun a => Pure.pure (g a)) bs (g a) := by
  have hg := hp.bind (f := fun a => Pure.pure (g a)) (Reads.pure (g a))
  rwa [List.append_nil] at hg

lemma Reads.run_eq (hp : Reads p bs a) : p.run bs = some (a, []) := by
  simpa using hp []

lemma reads_rest_run (bs : List UInt8) : rest.run bs = some (bs, []) := rfl

lemma reads_getU8 (n : UInt8) : Reads getU8 [n] n := by
  have h := (reads_number (k := 1) n.toNat_lt).map UInt8.ofNat
  rwa [UInt8.ofNat_toNat, toBE, toBE, pow_zero, Nat.div_one, UInt8.ofNat_toNat] at h

lemma reads_getU16 (n : UInt16) : Reads getU16 (toBE 2 n.toNat) n := by
  have h := (reads_number (k := 2) n.toNat_lt).map UInt16.ofNat
  rwa [UInt16.ofNat_toNat] at h

lemma reads_getU32 (n : UInt32) : Reads getU32 (toBE 4 n.toNat) n := by
  have h := (reads_number (k := 4) n.toNat_lt).map UInt32.ofNat
  rwa [UInt32.ofNat_toNat] at h

lemma reads_getU64 (n : UInt64) : Reads getU64 (toBE 8 n.toNat) n := by
  have h := (reads_number (k := 8) n.toNat_lt).map UInt64.ofNat
  rwa [UInt64.ofNat_toNat] at h

lemma reads_getU16_nat {n : ℕ} (h : n < 2 ^ 16) : Reads getU16 (toBE 2 n) (UInt16.ofNat n) :=
  (reads_number (k := 2) h).map UInt16.ofNat

lemma reads_getU32_nat {n : ℕ} (h : n < 2 ^ 32) : Reads getU32 (toBE 4 n) (UInt32.ofNat n) :=
  (reads_number (k := 4) h).map UInt32.ofNat

lemma reads_getI16 (n : Int16) : Reads getI16 (toBE 2 n.toUInt16.toNat) n := by
  have h := (reads_getU16 n.toUInt16).map UInt16.toInt16
  rwa [Int16.toInt16_toUInt16] at h

lemma reads_getI32 (n : Int32) : Reads getI32 (toBE 4 n.toUInt32.toNat) n := by
  have h := (reads_getU32 n.toUInt32).map UInt32.toInt32
  rwa [Int32.toInt32_toUInt32] at h

lemma reads_getI64 (n : Int64) : Reads getI64 (toBE 8 n.toUInt64.toNat) n := by
  have h := (reads_getU64 n.toUInt64).map UInt64.toInt64
  rwa [Int64.toInt64_toUInt64] at h

end Reads

end Bytes
