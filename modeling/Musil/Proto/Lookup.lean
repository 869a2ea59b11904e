import Musil.Lib.Canonical
import Musil.Proto.RecordIter
import Musil.Proto.RecordBatch

/-!
# Looking up a record among any bytes

The records of a batch are whatever bytes a producer sent. `Framed d buf` describes the bytes on
which the search for the delta `d` comes to an end: frames of the length they declare, or bare
lengths that reach past the end of the bytes, up to the first frame with the delta or up to the end.
-/

namespace Musil.Proto

open Bytes Bytes.Reader

namespace RecordRefIter

/-- One of the two subtractions of the step goes below zero: that of the length's own bytes, or that
of the fields which have been read. -/
def Underflows (it : RecordRefIter) : Prop :=
  match getU32.run it.buf with
  | none => False
  | some (length, buf) => length.toNat < 4 ∨ length.toNat ≤ buf.length + 4 ∧ length.toNat < 21

instance (it : RecordRefIter) : Decidable it.Underflows := by
  unfold Underflows
  split
  · exact .isFalse id
  · exact inferInstanceAs (Decidable (_ ∨ _))

/-- The step where arithmetic is checked: an underflow is a panic. -/
def pullChecked (it : RecordRefIter) : Iter.Step RecordRefIter (Option RecordRef) :=
  if it.Underflows then .panic else it.pull

end RecordRefIter

/-- What `find_record` looks for: an item that is no error and has the delta `d`. -/
def accept (d : UInt64) : Option RecordRef → Option RecordRef :=
  Option.filter fun r => r.offsetDelta = d

/-- The bytes that are taken for a record. -/
def frame (length : UInt32) (attributes : UInt8) (timestampDelta offsetDelta : UInt64)
    (payload : List UInt8) : List UInt8 :=
  toBE 4 length.toNat
    ++ ([attributes] ++ (toBE 8 timestampDelta.toNat ++ toBE 8 offsetDelta.toNat) ++ payload)

/-- Bytes in which the search for the delta `d` ends. -/
inductive Framed (d : UInt64) : List UInt8 → Prop where
  | nil : Framed d []
  /-- A length that reaches past the end is skipped by itself. -/
  | bare {length : UInt32} {rest : List UInt8} (hlength : rest.length + 4 < length.toNat)
      (hrest : Framed d rest) : Framed d (toBE 4 length.toNat ++ rest)
  /-- Behind the frame that is looked for there may be anything. -/
  | wanted {length : UInt32} {attributes : UInt8} {timestampDelta : UInt64}
      {payload rest : List UInt8} (hlength : length.toNat = payload.length + 21) :
      Framed d (frame length attributes timestampDelta d payload ++ rest)
  | other {length : UInt32} {attributes : UInt8} {timestampDelta offsetDelta : UInt64}
      {payload rest : List UInt8} (hlength : length.toNat = payload.length + 21)
      (hdelta : offsetDelta ≠ d) (hrest : Framed d rest) :
      Framed d (frame length attributes timestampDelta offsetDelta payload ++ rest)

/-! ### The steps of the iterator on any bytes -/

/-- What any bytes begin with. -/
inductive Front : List UInt8 → Prop where
  | nil : Front []
  | short {bs : List UInt8} (hne : bs ≠ []) (hlen : bs.length < 4) : Front bs
  | bare {length : UInt32} {rest : List UInt8} (hlength : rest.length + 4 < length.toNat) :
      Front (toBE 4 length.toNat ++ rest)
  | small {length : UInt32} {rest : List UInt8} (hlength : length.toNat ≤ rest.length + 4)
      (hsmall : length.toNat < 21) : Front (toBE 4 length.toNat ++ rest)
  | frame {length : UInt32} {attributes : UInt8} {timestampDelta offsetDelta : UInt64}
      {payload rest : List UInt8} (hlength : length.toNat = payload.length + 21) :
      Front (frame length attributes timestampDelta offsetDelta payload ++ rest)

lemma exists_frame {length : UInt32} {rest : List UInt8} (hmin : 21 ≤ length.toNat)
    (hmax : length.toNat ≤ rest.length + 4) :
    ∃ attributes timestampDelta offsetDelta payload rest',
      toBE 4 length.toNat ++ rest
        = frame length attributes timestampDelta offsetDelta payload ++ rest' ∧
      length.toNat = payload.length + 21 := by
  obtain ⟨attributes, rest, rfl⟩ :=
    List.exists_cons_of_length_pos (show 0 < rest.length by omega)
  rw [List.length_cons] at hmax
  obtain ⟨timestampDelta, rest, rfl⟩ := exists_eq_getU64_append (show 8 ≤ rest.length by omega)
  rw [List.length_append, length_toBE] at hmax
  obtain ⟨offsetDelta, rest, rfl⟩ := exists_eq_getU64_append (show 8 ≤ rest.length by omega)
  rw [List.length_append, length_toBE] at hmax
  refine ⟨attributes, timestampDelta, offsetDelta, rest.take (length.toNat - 21),
    rest.drop (length.toNat - 21), ?_, ?_⟩
  · simp only [frame, List.append_assoc, List.take_append_drop, List.cons_append, List.nil_append]
  · rw [List.length_take_of_le (by omega)]
    omega

lemma front (bs : List UInt8) : Front bs := by
  rcases Nat.lt_or_ge bs.length 4 with hshort | hlong
  · rcases eq_or_ne bs [] with rfl | hne
    · exact .nil
    · exact .short hne hshort
  · obtain ⟨length, rest, rfl⟩ := exists_eq_getU32_append hlong
    rcases Nat.lt_or_ge (rest.length + 4) length.toNat with hbare | hwhole
    · exact .bare hbare
    · rcases Nat.lt_or_ge length.toNat 21 with hsmall | hmin
      · exact .small hwhole hsmall
      · obtain ⟨_, _, _, _, _, heq, hlength⟩ := exists_frame hmin hwhole
        exact heq ▸ .frame hlength

namespace RecordRefIter

variable {it : RecordRefIter} {length : UInt32} {rest : List UInt8}

lemma next_nil (hbuf : it.buf = []) : it.next = .done := by
  rw [next, if_pos hbuf]

/-- An error on fewer than four bytes leaves the iterator where it is. -/
lemma next_short (hne : it.buf ≠ []) (hlen : it.buf.length < 4) : it.next = .error it := by
  have hread : getU32.run it.buf = none := by
    rw [getU32, StateT.run_map, number_run_eq_none hlen]
    rfl
  rw [next, if_neg hne, hread]

lemma next_bare (hbuf : it.buf = toBE 4 length.toNat ++ rest)
    (hlength : rest.length + 4 < length.toNat) : it.next = .error { it with buf := rest } := by
  have hne : it.buf ≠ [] := by simp [hbuf, toBE]
  have hdata : (length.toUInt64 - 4).toNat = length.toNat - 4 := by
    rw [UInt64.toNat_sub_of_le _ _ (UInt64.le_iff_toNat_le.mpr _), UInt32.toNat_toUInt64]
    · rfl
    · rw [UInt32.toNat_toUInt64]
      exact (Nat.le_add_left 4 _).trans hlength.le
  rw [next, if_neg hne, hbuf, reads_getU32 length rest]
  simp only [hdata]
  rw [if_pos (by omega)]

lemma underflows_iff (hbuf : it.buf = toBE 4 length.toNat ++ rest) : it.Underflows ↔
    length.toNat < 4 ∨ length.toNat ≤ rest.length + 4 ∧ length.toNat < 21 := by
  rw [Underflows, hbuf, reads_getU32 length rest]

lemma not_underflows_of_short (hlen : it.buf.length < 4) : ¬ it.Underflows := by
  have hread : getU32.run it.buf = none := by
    rw [getU32, StateT.run_map, number_run_eq_none hlen]
    rfl
  rw [Underflows, hread]
  exact id

lemma pullChecked_nil (hbuf : it.buf = []) : it.pullChecked = .done := by
  have hlen : it.buf.length < 4 := by
    rw [hbuf]
    decide
  rw [pullChecked, if_neg (not_underflows_of_short hlen), pull, next_nil hbuf]

lemma pullChecked_short (hne : it.buf ≠ []) (hlen : it.buf.length < 4) :
    it.pullChecked = .item none it := by
  rw [pullChecked, if_neg (not_underflows_of_short hlen), pull, next_short hne hlen]

lemma pullChecked_bare (hbuf : it.buf = toBE 4 length.toNat ++ rest)
    (hlength : rest.length + 4 < length.toNat) :
    it.pullChecked = .item none { it with buf := rest } := by
  have hnot : ¬ it.Underflows := by
    rw [underflows_iff hbuf]
    omega
  rw [pullChecked, if_neg hnot, pull, next_bare hbuf hlength]

lemma pullChecked_small (hbuf : it.buf = toBE 4 length.toNat ++ rest)
    (hlength : length.toNat ≤ rest.length + 4) (hsmall : length.toNat < 21) :
    it.pullChecked = .panic := by
  rw [pullChecked, if_pos ((underflows_iff hbuf).mpr (Or.inr ⟨hlength, hsmall⟩))]

lemma pullChecked_frame {attributes : UInt8} {timestampDelta offsetDelta : UInt64}
    {payload : List UInt8}
    (hbuf : it.buf = frame length attributes timestampDelta offsetDelta payload ++ rest)
    (hlength : length.toNat = payload.length + 21) :
    it.pullChecked = .item (some ⟨offsetDelta, it.pos, 4 + length.toNat, it.index⟩)
      ⟨rest, it.totalLen - rest.length, it.totalLen, it.index + 1⟩ := by
  have hnot : ¬ it.Underflows := by
    rw [frame, List.append_assoc] at hbuf
    rw [underflows_iff hbuf, hlength]
    simp only [List.length_append]
    omega
  rw [pullChecked, if_neg hnot, pull, next_frame hlength hbuf]

end RecordRefIter

/-! ### When the search ends -/

section Search

variable {d : UInt64}

lemma accept_of_eq {r : RecordRef} (h : r.offsetDelta = d) : accept d (some r) = some r := by
  simp [accept, Option.filter, h]

lemma accept_of_ne {r : RecordRef} (h : r.offsetDelta ≠ d) : accept d (some r) = none := by
  simp [accept, Option.filter, h]

lemma lt_length_frame {length : UInt32} {attributes : UInt8} {timestampDelta offsetDelta : UInt64}
    {payload rest : List UInt8} : rest.length
      < (frame length attributes timestampDelta offsetDelta payload ++ rest).length := by
  simp only [frame, List.length_append, length_toBE]
  omega

/-- A search that ends has gone through frames only. -/
lemma framed_of_finds {it : RecordRefIter} {out : Option RecordRef}
    (h : Iter.Finds RecordRefIter.pullChecked (accept d) it out) : Framed d it.buf := by
  induction hn : it.buf.length using Nat.strong_induction_on generalizing it with
  | _ n ih =>
    subst hn
    generalize hbuf : it.buf = bs at ih ⊢
    cases front bs with
    | nil => exact .nil
    | short hne hlen =>
      subst hbuf
      exact absurd h (Iter.not_finds_of_loop (RecordRefIter.pullChecked_short hne hlen) rfl)
    | bare hlength =>
      rw [Iter.finds_skip_iff (RecordRefIter.pullChecked_bare hbuf hlength) rfl] at h
      exact .bare hlength (ih _ (by simp) h rfl)
    | small hlength hsmall =>
      exact absurd h
        (Iter.not_finds_of_panic (RecordRefIter.pullChecked_small hbuf hlength hsmall))
    | @frame length attributes timestampDelta offsetDelta payload rest hlength =>
      by_cases hd : offsetDelta = d
      · exact hd ▸ .wanted hlength
      · rw [Iter.finds_skip_iff (RecordRefIter.pullChecked_frame hbuf hlength)
          (accept_of_ne hd)] at h
        exact .other hlength hd (ih _ lt_length_frame h rfl)

/-- On frames the search ends, and so it does without the checks. -/
lemma finds_of_framed {bs : List UInt8} (h : Framed d bs) (it : RecordRefIter)
    (hbuf : it.buf = bs) : ∃ out, Iter.Finds RecordRefIter.pullChecked (accept d) it out ∧
      ∀ fuel, bs.length < fuel → it.find d fuel = some out := by
  induction h generalizing it with
  | nil =>
    refine ⟨none, .done (RecordRefIter.pullChecked_nil hbuf), fun fuel hfuel => ?_⟩
    obtain ⟨fuel, rfl⟩ := Nat.exists_eq_succ_of_ne_zero (Nat.ne_of_gt hfuel)
    rw [RecordRefIter.find, RecordRefIter.next_nil hbuf]
  | bare hlength _ ih =>
    obtain ⟨out, hout, hfind⟩ := ih { it with buf := _ } rfl
    refine ⟨out, .skip (RecordRefIter.pullChecked_bare hbuf hlength) rfl hout, fun fuel hfuel => ?_⟩
    obtain ⟨fuel, rfl⟩ := Nat.exists_eq_succ_of_ne_zero (Nat.ne_of_gt (Nat.zero_lt_of_lt hfuel))
    rw [List.length_append, length_toBE] at hfuel
    rw [RecordRefIter.find, RecordRefIter.next_bare hbuf hlength]
    exact hfind fuel (by omega)
  | wanted hlength =>
    refine ⟨_, .found (RecordRefIter.pullChecked_frame hbuf hlength) (accept_of_eq rfl),
      fun fuel hfuel => ?_⟩
    obtain ⟨fuel, rfl⟩ := Nat.exists_eq_succ_of_ne_zero (Nat.ne_of_gt (Nat.zero_lt_of_lt hfuel))
    rw [RecordRefIter.find, RecordRefIter.next_frame hlength hbuf]
    exact if_pos rfl
  | @other length attributes timestampDelta offsetDelta payload rest hlength hdelta _ ih =>
    obtain ⟨out, hout, hfind⟩ :=
      ih ⟨rest, it.totalLen - rest.length, it.totalLen, it.index + 1⟩ rfl
    refine ⟨out, .skip (RecordRefIter.pullChecked_frame hbuf hlength) (accept_of_ne hdelta) hout,
      fun fuel hfuel => ?_⟩
    obtain ⟨fuel, rfl⟩ := Nat.exists_eq_succ_of_ne_zero (Nat.ne_of_gt (Nat.zero_lt_of_lt hfuel))
    rw [RecordRefIter.find, RecordRefIter.next_frame hlength hbuf]
    simp only [hdelta, if_false]
    exact hfind fuel (lt_length_frame.trans_le (Nat.le_of_lt_succ hfuel))

end Search

namespace RecordBatch

end RecordBatch

end Musil.Proto
