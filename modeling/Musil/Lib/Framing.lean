import Musil.Lib.Bytes

/-!
# Streams of frames

A frame is a byte string behind its length in four bytes. A stream is cut into frames from the
front, whatever the pieces in which its bytes arrive: `Framed bs ps rest` says that the frames `ps`
have been taken off `bs`, and that `rest` is left.
-/

namespace Bytes

/-- The bytes behind their length. -/
def putFrame (p : List UInt8) : List UInt8 :=
  toBE 4 p.length ++ p

/-- The first frame of a stream and what follows it, if the whole frame is there. -/
def getFrame (bs : List UInt8) : Option (List UInt8 × List UInt8) :=
  if 4 ≤ bs.length ∧ ofBE (bs.take 4) ≤ (bs.drop 4).length then
    some ((bs.drop 4).take (ofBE (bs.take 4)), (bs.drop 4).drop (ofBE (bs.take 4)))
  else none

/-- The frames `ps` stand at the front of the stream `bs`, before `rest`. -/
inductive Framed : List UInt8 → List (List UInt8) → List UInt8 → Prop
  | nil (bs : List UInt8) : Framed bs [] bs
  | cons {bs bs' rest p : List UInt8} {ps : List (List UInt8)} (head : getFrame bs = some (p, bs'))
      (tail : Framed bs' ps rest) : Framed bs (p :: ps) rest

section Framing

variable {bs bs' rest rest' p : List UInt8} {ps ps' : List (List UInt8)}

lemma getFrame_nil : getFrame [] = none := rfl

lemma getFrame_putFrame (h : p.length < 2 ^ 32) (rest : List UInt8) :
    getFrame (putFrame p ++ rest) = some (p, rest) := by
  have htake : (putFrame p ++ rest).take 4 = toBE 4 p.length := by
    rw [putFrame, List.append_assoc]
    exact List.take_left' (length_toBE 4 _)
  have hdrop : (putFrame p ++ rest).drop 4 = p ++ rest := by
    rw [putFrame, List.append_assoc]
    exact List.drop_left' (length_toBE 4 _)
  have hlen : ofBE ((putFrame p ++ rest).take 4) = p.length := by
    rw [htake]
    exact ofBE_toBE_of_lt h
  rw [getFrame, hlen, hdrop, if_pos, List.take_left, List.drop_left]
  refine ⟨?_, ?_⟩
  · rw [putFrame, List.append_assoc, List.length_append, length_toBE]
    exact Nat.le_add_right _ _
  · rw [List.length_append]
    exact Nat.le_add_right _ _

/-- A frame that is there stays the first one when more bytes arrive. -/
lemma getFrame_append (h : getFrame bs = some (p, rest)) (more : List UInt8) :
    getFrame (bs ++ more) = some (p, rest ++ more) := by
  rw [getFrame] at h
  split_ifs at h with hlen
  cases h
  have htake : (bs ++ more).take 4 = bs.take 4 := List.take_append_of_le_length hlen.1
  have hdrop : (bs ++ more).drop 4 = bs.drop 4 ++ more := List.drop_append_of_le_length hlen.1
  rw [getFrame, htake, hdrop, if_pos, List.take_append_of_le_length hlen.2,
    List.drop_append_of_le_length hlen.2]
  rw [List.length_append, List.length_append]
  omega

namespace Framed

lemma append (h : Framed bs ps rest) (more : List UInt8) :
    Framed (bs ++ more) ps (rest ++ more) := by
  induction h with
  | nil => exact .nil _
  | cons head _ ih => exact .cons (getFrame_append head more) ih

/-- One more frame is taken off. -/
lemma concat (h : Framed bs ps rest) (hp : getFrame rest = some (p, rest')) :
    Framed bs (ps ++ [p]) rest' := by
  induction h with
  | nil => exact .cons hp (.nil _)
  | cons head _ ih => exact .cons head (ih hp)

/-- What has been written frame by frame is read frame by frame. -/
lemma of_putFrame (h : ∀ p ∈ ps, p.length < 2 ^ 32) (rest : List UInt8) :
    Framed (ps.flatMap putFrame ++ rest) ps rest := by
  induction ps with
  | nil => exact .nil rest
  | cons p ps ih =>
    rw [List.forall_mem_cons] at h
    rw [List.flatMap_cons, List.append_assoc]
    exact .cons (getFrame_putFrame h.1 _) (ih h.2)

/-- A stream is cut into frames in one way. -/
lemma isPrefix (h : Framed bs ps rest) (h' : Framed bs ps' rest') (hrest : getFrame rest' = none) :
    ∃ qs, ps' = ps ++ qs ∧ Framed rest qs rest' := by
  induction h generalizing ps' with
  | nil => exact ⟨ps', rfl, h'⟩
  | cons head _ ih =>
    cases h' with
    | nil =>
      rw [hrest] at head
      cases head
    | cons head' tail' =>
      obtain ⟨rfl, rfl⟩ := Prod.mk.inj (Option.some.inj (head.symm.trans head'))
      obtain ⟨qs, rfl, hqs⟩ := ih tail'
      exact ⟨qs, rfl, hqs⟩

/-- From a part of what has been written, no other frames are read. -/
lemma isPrefix_of_putFrame (h : Framed bs ps rest) (hbs : bs <+: ps'.flatMap putFrame)
    (hsmall : ∀ p ∈ ps', p.length < 2 ^ 32) : ps <+: ps' := by
  obtain ⟨more, hmore⟩ := hbs
  have hall := of_putFrame hsmall []
  rw [List.append_nil, ← hmore] at hall
  obtain ⟨qs, rfl, -⟩ := (h.append more).isPrefix hall getFrame_nil
  exact List.prefix_append ps qs

end Framed

end Framing

end Bytes
