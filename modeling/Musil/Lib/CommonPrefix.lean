import Mathlib.Data.List.Infix

/-!
# The longest common prefix of two lists
-/

namespace List

variable {α : Type*} [DecidableEq α]

/-- The longest list that both lists begin with. -/
def commonPrefix : List α → List α → List α
  | x :: xs, y :: ys => if x = y then x :: commonPrefix xs ys else []
  | _, _ => []

variable {X Y Z : List α}

lemma commonPrefix_prefix_left (X Y : List α) : commonPrefix X Y <+: X := by
  induction X generalizing Y with
  | nil => cases Y <;> exact prefix_refl _
  | cons x xs ih =>
    cases Y with
    | nil => exact nil_prefix
    | cons y ys =>
      rw [commonPrefix]
      split_ifs
      · exact (prefix_cons_inj x).mpr (ih ys)
      · exact nil_prefix

lemma commonPrefix_comm (X Y : List α) : commonPrefix X Y = commonPrefix Y X := by
  induction X generalizing Y with
  | nil => cases Y <;> rfl
  | cons x xs ih =>
    cases Y with
    | nil => rfl
    | cons y ys =>
      rw [commonPrefix, commonPrefix, ih]
      by_cases hxy : x = y
      · rw [if_pos hxy, if_pos hxy.symm, hxy]
      · rw [if_neg hxy, if_neg (Ne.symm hxy)]

lemma commonPrefix_prefix_right (X Y : List α) : commonPrefix X Y <+: Y :=
  commonPrefix_comm X Y ▸ commonPrefix_prefix_left Y X

/-- The common prefix is the greatest one. -/
theorem prefix_commonPrefix (hX : Z <+: X) (hY : Z <+: Y) : Z <+: commonPrefix X Y := by
  induction Z generalizing X Y with
  | nil => exact nil_prefix
  | cons z zs ih =>
    obtain ⟨xs, rfl, hxs⟩ := cons_prefix_iff.mp hX
    obtain ⟨ys, rfl, hys⟩ := cons_prefix_iff.mp hY
    rw [commonPrefix, if_pos rfl]
    exact (prefix_cons_inj z).mpr (ih hxs hys)

end List
