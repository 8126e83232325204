import Mathlib.Tactic
import Mathlib.Data.Nat.Log

/-!
# Integers in single precision

A `float` has a significand of 24 bits. An integer below `2^24` is a `float`; a
larger one is stored as the closest `float`, and of two that are as close as the one
whose significand is even.
-/

namespace StarCraftIocp.Single

/-- The distance from one `float` to the next, where `n` is. -/
def ulp (n : Nat) : Nat := 2 ^ (n.log2 - 23)

/-- The conversion of an integer that is not negative. -/
def ofNat (n : Nat) : Nat :=
  if 2 * (n % ulp n) < ulp n ∨ 2 * (n % ulp n) = ulp n ∧ n / ulp n % 2 = 0
    then n / ulp n * ulp n else (n / ulp n + 1) * ulp n

/-- Between two powers of two the distance is the same everywhere. -/
theorem ulp_eq {n k : Nat} (h0 : 2 ^ k ≤ n) (h1 : n < 2 ^ (k + 1)) : ulp n = 2 ^ (k - 23) := by
  have hn : n ≠ 0 := by
    have := Nat.two_pow_pos k
    omega
  unfold ulp
  rw [(Nat.log2_eq_iff hn).mpr ⟨h0, h1⟩]

theorem ulp_pos (n : Nat) : 0 < ulp n := Nat.two_pow_pos _

/-- What is stored is a `float`. -/
theorem ulp_dvd_ofNat (n : Nat) : ulp n ∣ ofNat n := by
  unfold ofNat
  split
  · exact Nat.dvd_mul_left _ _
  · exact Nat.dvd_mul_left _ _

theorem ofNat_of_dvd {n : Nat} (h : ulp n ∣ n) : ofNat n = n := by
  have hrem : n % ulp n = 0 := Nat.mod_eq_zero_of_dvd h
  have hpos := ulp_pos n
  unfold ofNat
  rw [if_pos (Or.inl (by omega)), Nat.div_mul_cancel h]

/-- Integers with at most 24 bits are exact. -/
theorem ofNat_of_lt {n : Nat} (h : n < 2 ^ 24) : ofNat n = n := by
  refine ofNat_of_dvd ?_
  have hlog : n.log2 - 23 = 0 := by
    rcases Nat.eq_zero_or_pos n with rfl | hpos
    · rfl
    · have := (Nat.log2_lt (by omega)).mpr h
      omega
  unfold ulp
  rw [hlog]
  exact Nat.one_dvd n

/-- A `float` that is less than half the distance above an integer is the one it is stored as. -/
theorem ofNat_of_near {n m : Nat} (hm : ulp n ∣ m) (hle : n ≤ m) (hnear : 2 * (m - n) < ulp n) :
    ofNat n = m := by
  obtain ⟨q, rfl⟩ := hm
  have hpos := ulp_pos n
  rcases Nat.eq_or_lt_of_le hle with heq | hlt
  · rw [← heq]
    exact ofNat_of_dvd ⟨q, heq⟩
  · -- `n` lies in the upper half of the interval below `m`
    cases q with
    | zero => omega
    | succ q =>
        have hsucc : ulp n * (q + 1) = ulp n * q + ulp n := Nat.mul_succ _ _
        have hdiv : n / ulp n = q := by
          refine Nat.div_eq_of_lt_le ?_ ?_
          · rw [Nat.mul_comm]
            omega
          · rw [Nat.mul_comm]
            exact hlt
        have hmod := Nat.div_add_mod n (ulp n)
        rw [hdiv] at hmod
        unfold ofNat
        rw [if_neg (by omega), hdiv, Nat.mul_comm]

end StarCraftIocp.Single
