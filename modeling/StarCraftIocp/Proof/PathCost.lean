import StarCraftIocp.Lib.ShortestPath
import StarCraftIocp.Proof.PathSearch

/-!
# What the path search counts with

Over exact numbers. All costs are whole numbers of fifths, and so are the sums and the
differences of costs: where two of them differ at all they differ by far more than
the tolerances of the search, which therefore never take one for the other.
-/

namespace StarCraftIocp.AStarMove

/-- What a step to a neighbour costs. -/
def stepCost (c n : Int × Int) : ℚ := if c.1 ≠ n.1 ∧ c.2 ≠ n.2 then 1.4 else 1

theorem stepCost_direction {d : Int × Int × ℚ} (hd : d ∈ directions) (c : Int × Int) :
    stepCost c (c.1 + d.1, c.2 + d.2.1) = d.2.2 := by
  have hall : ∀ d ∈ directions, d.2.2 = if d.1 ≠ 0 ∧ d.2.1 ≠ 0 then 1.4 else 1 := by decide +kernel
  unfold stepCost
  rw [hall d hd]
  simp only [ne_eq, left_eq_add]

theorem one_le_stepCost (c n : Int × Int) : 1 ≤ stepCost c n := by
  unfold stepCost
  split <;> norm_num

/-! ## Fifths -/

/-- A whole number of fifths. -/
def Fifths (q : ℚ) : Prop := ∃ k : ℤ, q = k / 5

namespace Fifths

theorem add {p q : ℚ} (hp : Fifths p) (hq : Fifths q) : Fifths (p + q) := by
  obtain ⟨k, rfl⟩ := hp
  obtain ⟨m, rfl⟩ := hq
  exact ⟨k + m, by push_cast; ring⟩

theorem sub {p q : ℚ} (hp : Fifths p) (hq : Fifths q) : Fifths (p - q) := by
  obtain ⟨k, rfl⟩ := hp
  obtain ⟨m, rfl⟩ := hq
  exact ⟨k - m, by push_cast; ring⟩

theorem zero : Fifths 0 := ⟨0, by norm_num⟩

theorem of_mem_directions {d : Int × Int × ℚ} (hd : d ∈ directions) : Fifths d.2.2 := by
  have hall : ∀ d ∈ directions, d.2.2 = 1 ∨ d.2.2 = 1.4 := by decide +kernel
  rcases hall d hd with h | h <;> rw [h]
  · exact ⟨5, by norm_num⟩
  · exact ⟨7, by norm_num⟩

/-- Fifths above zero are above the tolerance. -/
theorem lt_of_pos {q : ℚ} (h : Fifths q) (hpos : 0 < q) : 0.000001 < q := by
  obtain ⟨k, rfl⟩ := h
  have hk : 0 < k := by
    by_contra hle
    have : (k : ℚ) ≤ 0 := by exact_mod_cast Int.not_lt.mp hle
    linarith
  have : (1 : ℚ) ≤ k := by exact_mod_cast hk
  linarith

theorem floor_lt_floor {p q : ℚ} (hp : Fifths p) (hq : Fifths q) (hnonneg : 0 ≤ p) (hlt : p < q) :
    ⌊5 * p⌋.toNat < ⌊5 * q⌋.toNat := by
  obtain ⟨k, rfl⟩ := hp
  obtain ⟨m, rfl⟩ := hq
  have hfloor : ∀ n : ℤ, ⌊5 * ((n : ℚ) / 5)⌋ = n := by
    intro n
    rw [mul_div_cancel₀ (n : ℚ) (by norm_num), Int.floor_intCast]
  rw [hfloor, hfloor]
  have hk : (0 : ℚ) ≤ k := by linarith
  have hkm : (k : ℚ) < m := by linarith
  have hk : 0 ≤ k := by exact_mod_cast hk
  have hkm : k < m := by exact_mod_cast hkm
  omega

end Fifths

/-! ## The heuristic -/

/-- The heuristic in fifths. -/
def distance (c n : Int × Int) : ℤ :=
  7 * min |c.1 - n.1| |c.2 - n.2| + 5 * (|c.1 - n.1| + |c.2 - n.2| - 2 * min |c.1 - n.1| |c.2 - n.2|)

theorem heuristic_eq (c n : Int × Int) : (heuristic c.1 c.2 n.1 n.2 : ℚ) = distance c n / 5 := by
  change (1.4 : ℚ) * ((min |c.1 - n.1| |c.2 - n.2| : ℤ) : ℚ)
    + 1 * ((|c.1 - n.1| + |c.2 - n.2| - 2 * min |c.1 - n.1| |c.2 - n.2| : ℤ) : ℚ) = _
  unfold distance
  push_cast
  ring

theorem fifths_heuristic (c n : Int × Int) : Fifths (heuristic c.1 c.2 n.1 n.2) :=
  ⟨distance c n, heuristic_eq c n⟩

/-- Both coordinates count, the greater one more. -/
theorem distance_eq_max (c n : Int × Int) :
    distance c n = max (5 * |c.1 - n.1| + 2 * |c.2 - n.2|) (2 * |c.1 - n.1| + 5 * |c.2 - n.2|) := by
  unfold distance
  generalize |c.1 - n.1| = a
  generalize |c.2 - n.2| = b
  omega

theorem distance_triangle (c m n : Int × Int) : distance c n ≤ distance c m + distance m n := by
  have hx := abs_sub_le c.1 m.1 n.1
  have hy := abs_sub_le c.2 m.2 n.2
  rw [distance_eq_max, distance_eq_max, distance_eq_max]
  refine max_le ?_ ?_
  · calc 5 * |c.1 - n.1| + 2 * |c.2 - n.2|
        ≤ (5 * |c.1 - m.1| + 2 * |c.2 - m.2|) + (5 * |m.1 - n.1| + 2 * |m.2 - n.2|) := by linarith
      _ ≤ _ := add_le_add (le_max_left ..) (le_max_left ..)
  · calc 2 * |c.1 - n.1| + 5 * |c.2 - n.2|
        ≤ (2 * |c.1 - m.1| + 5 * |c.2 - m.2|) + (2 * |m.1 - n.1| + 5 * |m.2 - n.2|) := by linarith
      _ ≤ _ := add_le_add (le_max_right ..) (le_max_right ..)

/-- Neighbours are as far from each other as the step costs. -/
theorem distance_direction {d : Int × Int × ℚ} (hd : d ∈ directions) (c : Int × Int) :
    (distance c (c.1 + d.1, c.2 + d.2.1) : ℚ) / 5 = d.2.2 := by
  have hall : ∀ d ∈ directions, ((7 * min |(-d.1)| |(-d.2.1)| + 5 * (|(-d.1)| + |(-d.2.1)|
    - 2 * min |(-d.1)| |(-d.2.1)|) : ℤ) : ℚ) / 5 = d.2.2 := by decide +kernel
  unfold distance
  dsimp only
  rw [sub_add_cancel_left, sub_add_cancel_left]
  exact hall d hd

/-- The heuristic is consistent with the steps that `canMove` allows. -/
theorem consistent_heuristic (behind : Int → Nat) (map : MapSectionData) (goal : Int × Int) :
    Consistent (Steps behind map) stepCost fun c => heuristic c.1 c.2 goal.1 goal.2 := by
  intro c n hstep
  obtain ⟨d, hd, rfl, _⟩ := hstep
  dsimp only
  rw [heuristic_eq c goal, heuristic_eq (c.1 + d.1, c.2 + d.2.1) goal, stepCost_direction hd,
    ← distance_direction hd c, ← add_div]
  have htriangle : (distance c goal : ℚ) ≤ distance c (c.1 + d.1, c.2 + d.2.1)
    + distance (c.1 + d.1, c.2 + d.2.1) goal := by exact_mod_cast distance_triangle c _ goal
  linarith

/-! ## The order of the open list -/

/-- A node as the search makes them. -/
structure Exact (goal : Int × Int) (n : Node ℚ) : Prop where
  g : Fifths n.g
  h : n.h = heuristic n.x n.y goal.1 goal.2
  f : n.f = n.g + n.h

theorem Exact.fifths_f {goal : Int × Int} {n : Node ℚ} (h : Exact goal n) : Fifths n.f := by
  rw [h.f, h.h]
  exact h.g.add (fifths_heuristic (n.x, n.y) goal)

theorem abs_eq (q : ℚ) : abs q = |q| := by
  change (if decide (q < 0) = true then 0 - q else q) = |q|
  split
  · next h => rw [abs_of_neg (of_decide_eq_true h), zero_sub]
  · next h => rw [abs_of_nonneg (not_lt.mp fun hlt => h (decide_eq_true hlt))]

/-- By `f`, and by `h` where that is the same. -/
theorem compare_iff {a b : Node ℚ} (hf : Fifths (a.f - b.f)) :
    compare a b = true ↔ b.f < a.f ∨ b.f = a.f ∧ b.h < a.h := by
  have hclose : |a.f - b.f| < 0.000001 ↔ b.f = a.f := by
    constructor
    · intro h
      by_contra hne
      have habs : Fifths |a.f - b.f| := by
        rcases abs_choice (a.f - b.f) with habs | habs <;> rw [habs]
        · exact hf
        · rw [← zero_sub]
          exact Fifths.zero.sub hf
      exact (habs.lt_of_pos (abs_pos.mpr (sub_ne_zero.mpr (Ne.symm hne)))).not_gt h
    · intro h
      rw [h, sub_self, abs_zero]
      norm_num
  unfold compare
  rw [abs_eq]
  change (if decide (|a.f - b.f| < 0.000001) = true then decide (b.h < a.h) else decide (b.f < a.f)) = true ↔ _
  by_cases h : b.f = a.f
  · rw [if_pos (decide_eq_true (hclose.mpr h)), decide_eq_true_iff]
    exact ⟨fun hlt => .inr ⟨h, hlt⟩, fun hor => hor.elim (fun hlt => absurd h hlt.ne) And.right⟩
  · rw [if_neg (fun hc => h (hclose.mp (of_decide_eq_true hc))), decide_eq_true_iff]
    exact ⟨.inl, fun hor => hor.elim id fun hand => absurd hand.1 h⟩

theorem orders_compare {goal : Int × Int} {l : List (Node ℚ)} (h : ∀ n ∈ l, Exact goal n) :
    Orders compare l := by
  have hiff : ∀ a ∈ l, ∀ b ∈ l, compare a b = true ↔ b.f < a.f ∨ b.f = a.f ∧ b.h < a.h :=
    fun a ha b hb => compare_iff ((h a ha).fifths_f.sub (h b hb).fifths_f)
  refine ⟨?_, ?_⟩
  · intro a ha b hb hab
    rw [← Bool.not_eq_true, hiff b hb a ha]
    rw [hiff a ha b hb] at hab
    grind
  · intro a ha b hb c hc hab hbc
    rw [← Bool.not_eq_true, hiff a ha b hb] at hab
    rw [← Bool.not_eq_true, hiff b hb c hc] at hbc
    rw [← Bool.not_eq_true, hiff a ha c hc]
    grind

/-- What comes out of the queue has the least `f`. -/
theorem f_le_of_pop {goal : Int × Int} (queue : PriorityQueue (Node ℚ) compare) {l rest : List (Node ℚ)}
    {current : Node ℚ} (h : ∀ n ∈ l, Exact goal n) (hpop : queue.pop l = some (current, rest)) {n : Node ℚ}
    (hn : n ∈ l) : current.f ≤ n.f := by
  have hcurrent := queue.mem_of_pop hpop (.inl rfl)
  rcases List.mem_cons.mp ((queue.pop_perm hpop).symm.subset hn) with rfl | hrest
  · exact le_refl _
  · have htop := queue.pop_top (orders_compare h) hpop n hrest
    rw [← Bool.not_eq_true, compare_iff ((h current hcurrent).fifths_f.sub (h n hn).fifths_f)] at htop
    exact not_lt.mp fun hlt => htop (.inl hlt)

end StarCraftIocp.AStarMove
