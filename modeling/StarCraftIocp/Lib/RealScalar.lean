import Mathlib.Analysis.Real.Sqrt
import StarCraftIocp.Lib.ExactScalar

/-!
# Exact real numbers

The numbers that `float` stands for, with an exact square root. A division by zero has
a value here, so that where one must not happen it has to be said.
-/

namespace StarCraftIocp

open Classical in
noncomputable instance : Scalar ℝ where
  lit q := q
  ofInt n := n
  toInt x := if 0 ≤ x then ⌊x⌋ else ⌈x⌉
  sqrt := Real.sqrt
  le a b := decide (a ≤ b)
  lt a b := decide (a < b)
  bits x := if x = 0 then 0 else 1

noncomputable instance : ExactScalar ℝ where

instance : LawfulScalar ℝ where
  lit_eq _ := rfl
  ofInt_eq _ := rfl
  le_iff _ _ := decide_eq_true_iff
  lt_iff _ _ := decide_eq_true_iff
  toInt_of_nonneg h := if_pos h
  toInt_of_nonpos {x} h := by
    change (if 0 ≤ x then ⌊x⌋ else ⌈x⌉) = ⌈x⌉
    split
    · next hx => rw [le_antisymm h hx, Int.floor_zero, Int.ceil_zero]
    · rfl

end StarCraftIocp
