import Mathlib.Tactic

/-!
# Floating point, abstractly

Coordinates, speeds and hit points are `float` in the source. The model is
generic in the type that stands for it: a class with the operations the code
applies, and no laws. What is proved for every such type holds of IEEE single
precision, its infinities and its NaNs included.
-/

namespace StarCraftIocp

/-- The operations on `float`. Comparisons are computed, and need not form an order. -/
class Scalar (F : Type) extends Add F, Sub F, Mul F, Div F where
  /-- A literal. -/
  lit : ℚ → F
  /-- The conversion from `int`. -/
  ofInt : Int → F
  /-- The conversion to `int`. -/
  toInt : F → Int
  sqrt : F → F
  le : F → F → Bool
  lt : F → F → Bool
  /-- The bit pattern, as it goes on the wire. -/
  bits : F → Nat

/--
Exact rationals, to run the model on. The square root is exact on squares of
rationals; of the bit pattern only zero and non-zero are told apart.
-/
instance : Scalar ℚ where
  lit q := q
  ofInt n := n
  toInt q := q.num.tdiv q.den
  sqrt q := (Nat.sqrt q.num.toNat : ℚ) / (Nat.sqrt q.den : ℚ)
  le a b := decide (a ≤ b)
  lt a b := decide (a < b)
  bits q := if q = 0 then 0 else 1

end StarCraftIocp
