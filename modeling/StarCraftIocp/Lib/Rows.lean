import Mathlib.Tactic.Common

/-!
# Tables, row by row

The cells of a table of `w` columns and `h` rows in the order in which they are
laid out. The cell in column `i` of row `j` comes at `i + w * j`.
-/

namespace StarCraftIocp

def rows (w h : Nat) : List (Nat × Nat) :=
  (List.range h).flatMap fun j => (List.range w).map fun i => (i, j)

theorem rows_succ (w h : Nat) : rows w (h + 1) = rows w h ++ (List.range w).map fun i => (i, h) := by
  simp only [rows, List.range_succ, List.flatMap_append, List.flatMap_cons, List.flatMap_nil,
    List.append_nil]

theorem length_rows (w h : Nat) : (rows w h).length = w * h := by
  induction h with
  | zero => rfl
  | succ h ih =>
      rw [rows_succ, List.length_append, ih, List.length_map, List.length_range, Nat.mul_succ]

theorem getElem?_rows {w h k : Nat} (hk : k < w * h) : (rows w h)[k]? = some (k % w, k / w) := by
  induction h with
  | zero => exact absurd hk (Nat.not_lt_zero k)
  | succ h ih =>
      rw [rows_succ]
      by_cases hrow : k < w * h
      · rw [List.getElem?_append_left (by rwa [length_rows]), ih hrow]
      · rw [Nat.mul_succ] at hk
        obtain ⟨i, rfl⟩ := Nat.exists_eq_add_of_le (Nat.le_of_not_lt hrow)
        have hi : i < w := Nat.lt_of_add_lt_add_left hk
        have hdiv : (w * h + i) / w = h := by
          rw [Nat.mul_add_div (Nat.zero_lt_of_lt hi), Nat.div_eq_of_lt hi, Nat.add_zero]
        rw [List.getElem?_append_right (by rw [length_rows]; exact Nat.le_add_right _ _), length_rows,
          Nat.add_sub_cancel_left, List.getElem?_map, List.getElem?_range hi, Nat.mul_add_mod,
          Nat.mod_eq_of_lt hi, hdiv]
        rfl

theorem index_lt {w h i j : Nat} (hi : i < w) (hj : j < h) : i + w * j < w * h :=
  calc i + w * j < w + w * j := Nat.add_lt_add_right hi _
    _ = w * (j + 1) := by rw [Nat.mul_succ, Nat.add_comm]
    _ ≤ w * h := Nat.mul_le_mul_left w hj

/-- A cell is where its column and row say. -/
theorem getElem?_rows_index {w h i j : Nat} (hi : i < w) (hj : j < h) :
    (rows w h)[i + w * j]? = some (i, j) := by
  rw [getElem?_rows (index_lt hi hj), Nat.add_mul_mod_self_left, Nat.mod_eq_of_lt hi,
    Nat.add_mul_div_left _ _ (Nat.zero_lt_of_lt hi), Nat.div_eq_of_lt hi, Nat.zero_add]

/-- The positions of the cells are their indices. -/
theorem zipIdx_rows (w h : Nat) : (rows w h).zipIdx = (rows w h).map fun c => (c, c.1 + w * c.2) := by
  refine List.ext_getElem? fun k => ?_
  rw [List.getElem?_zipIdx, List.getElem?_map, Nat.zero_add]
  by_cases hk : k < w * h
  · rw [getElem?_rows hk, Option.map_some, Option.map_some, Nat.mod_add_div]
  · rw [List.getElem?_eq_none (by rw [length_rows]; exact Nat.le_of_not_lt hk)]
    rfl

theorem mem_rows {w h : Nat} {c : Nat × Nat} : c ∈ rows w h ↔ c.1 < w ∧ c.2 < h := by
  obtain ⟨i, j⟩ := c
  simp only [rows, List.mem_flatMap, List.mem_map, List.mem_range, Prod.mk.injEq]
  constructor
  · rintro ⟨j', hj, i', hi, rfl, rfl⟩
    exact ⟨hi, hj⟩
  · rintro ⟨hi, hj⟩
    exact ⟨j, hj, i, hi, rfl, rfl⟩

end StarCraftIocp
