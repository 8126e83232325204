import Mathlib.Algebra.Order.Floor.Ring
import Mathlib.Tactic

/-!
# Intervals over a row of cells

A line is cut into cells of equal width. Two closed intervals on it whose insides
overlap have a cell in common, also when one is a point and when one ends where
the row ends.
-/

namespace StarCraftIocp.Intervals

variable {K : Type} [Field K] [LinearOrder K] [IsStrictOrderedRing K] [FloorRing K]

/-- A position before the end of the row is in one of its cells. -/
theorem floor_div_lt {w x : K} {n : ℤ} (hw : 0 < w) (hx : x < n * w) : ⌊x / w⌋ < n :=
  Int.floor_lt.mpr ((div_lt_iff₀ hw).mpr hx)

theorem floor_div_mono {w x y : K} (hw : 0 < w) (h : x ≤ y) : ⌊x / w⌋ ≤ ⌊y / w⌋ :=
  Int.floor_le_floor (div_le_div_of_nonneg_right h hw.le)

/-- The cell where the later of the two begins is a cell of both, also when one begins before the row
or ends behind it. -/
theorem exists_common_cell_of_begins {w a b a' b' : K} {n : ℤ} (hw : 0 < w) (hn : 0 < n) (hab : a ≤ b)
    (hab' : a' ≤ b') (hb : 0 ≤ b) (hb' : 0 ≤ b') (ha : a < n * w) (ha' : a' < n * w) (hlt : a < b')
    (hlt' : a' < b) :
    ∃ k : ℤ, 0 ≤ k ∧ k < n ∧ (⌊a / w⌋ ≤ k ∧ k ≤ ⌊b / w⌋) ∧ ⌊a' / w⌋ ≤ k ∧ k ≤ ⌊b' / w⌋ := by
  have hend : max 0 (max a a') < n * w :=
    max_lt (mul_pos (Int.cast_pos.mpr hn) hw) (max_lt ha ha')
  refine ⟨⌊max 0 (max a a') / w⌋, Int.floor_nonneg.mpr (div_nonneg (le_max_left 0 _) hw.le),
    floor_div_lt hw hend, ⟨?_, ?_⟩, ?_, ?_⟩
  · exact floor_div_mono hw (le_max_of_le_right (le_max_left a a'))
  · exact floor_div_mono hw (max_le hb (max_le hab hlt'.le))
  · exact floor_div_mono hw (le_max_of_le_right (le_max_right a a'))
  · exact floor_div_mono hw (max_le hb' (max_le hlt.le hab'))

/-- Two intervals of the row have a cell in common. -/
theorem exists_common_cell {w a b a' b' : K} {n : ℤ} (hw : 0 < w) (ha : 0 ≤ a) (hab : a ≤ b)
    (hab' : a' ≤ b') (hb : b ≤ n * w) (hb' : b' ≤ n * w) (hlt : a < b') (hlt' : a' < b) :
    ∃ k : ℤ, 0 ≤ k ∧ k < n ∧ (⌊a / w⌋ ≤ k ∧ k ≤ ⌊b / w⌋) ∧ ⌊a' / w⌋ ≤ k ∧ k ≤ ⌊b' / w⌋ := by
  have hrow : (0 : K) < n * w := (ha.trans_lt hlt).trans_le hb'
  have hn : 0 < n := Int.cast_pos.mp (pos_of_mul_pos_left hrow hw.le)
  exact exists_common_cell_of_begins hw hn hab hab' (ha.trans hab) (ha.trans hlt.le) (hlt.trans_le hb')
    (hlt'.trans_le hb) hlt hlt'

end StarCraftIocp.Intervals
