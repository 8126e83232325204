import StarCraftIocp.Lib.Scalar

/-!
# Exact numbers

Numbers that form an ordered field, whatever their square root and bit pattern. The
conversion to `int` cuts off what is behind the point.
-/

namespace StarCraftIocp

/-- A field that stands for `float`, with one arithmetic. -/
class ExactScalar (F : Type) extends Field F, Scalar F

/-- Literals, comparisons and conversions are exact. -/
class LawfulScalar (F : Type) [ExactScalar F] [LinearOrder F] [IsStrictOrderedRing F] [FloorRing F] : Prop where
  lit_eq (q : ℚ) : (Scalar.lit q : F) = q
  ofInt_eq (n : Int) : (Scalar.ofInt n : F) = n
  le_iff (a b : F) : Scalar.le a b = true ↔ a ≤ b
  lt_iff (a b : F) : Scalar.lt a b = true ↔ a < b
  toInt_of_nonneg {a : F} (h : 0 ≤ a) : Scalar.toInt a = ⌊a⌋
  toInt_of_nonpos {a : F} (h : a ≤ 0) : Scalar.toInt a = ⌈a⌉

namespace LawfulScalar

variable {F : Type} [ExactScalar F] [LinearOrder F] [IsStrictOrderedRing F] [FloorRing F] [LawfulScalar F]

theorem lit_nonneg {q : ℚ} (h : 0 ≤ q) : (0 : F) ≤ Scalar.lit q := by
  rw [lit_eq]
  exact_mod_cast h

/-- The conversion rounds a negative number up, but not beyond zero. -/
theorem toInt_le {q : F} {k : ℤ} (hk : 0 ≤ k) (h : ⌊q⌋ ≤ k) : Scalar.toInt q ≤ k := by
  rcases le_total 0 q with hq | hq
  · rw [toInt_of_nonneg hq]
    exact h
  · rw [toInt_of_nonpos hq]
    exact Int.ceil_le.mpr (hq.trans (Int.cast_nonneg hk))

/-- It gives back an integer. -/
theorem toInt_intCast (n : ℤ) : Scalar.toInt (n : F) = n := by
  rcases le_total 0 n with hn | hn
  · rw [toInt_of_nonneg (Int.cast_nonneg hn), Int.floor_intCast]
  · rw [toInt_of_nonpos (Int.cast_nonpos.mpr hn), Int.ceil_intCast]

end LawfulScalar

instance : ExactScalar ℚ where

theorem tdiv_eq_floor {q : ℚ} (h : 0 ≤ q) : q.num.tdiv q.den = ⌊q⌋ := by
  rw [Rat.floor_def']
  exact Int.tdiv_eq_ediv_of_nonneg (Rat.num_nonneg.mpr h)

instance : LawfulScalar ℚ where
  lit_eq _ := rfl
  ofInt_eq _ := rfl
  le_iff _ _ := decide_eq_true_iff
  lt_iff _ _ := decide_eq_true_iff
  toInt_of_nonneg := tdiv_eq_floor
  toInt_of_nonpos {q} h := by
    have hneg : (-q).num.tdiv (-q).den = ⌊-q⌋ := tdiv_eq_floor (neg_nonneg.mpr h)
    rw [Rat.num_neg_eq_neg_num, Rat.den_neg_eq_den, Int.neg_tdiv, Int.floor_neg] at hneg
    exact neg_injective hneg

end StarCraftIocp
