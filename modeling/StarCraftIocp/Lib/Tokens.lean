import Mathlib.Algebra.GroupWithZero.Nat
import Mathlib.Algebra.Order.BigOperators.Group.Finset
import Mathlib.Algebra.Order.BigOperators.Group.List
import Mathlib.Data.Fintype.BigOperators

/-!
# Tokens

What a protocol has to hold on to is often a token that exactly one thread has. The
states of the threads are given a weight for it, and the weights are added up. Where a
thread has a stack of calls, the innermost first, every call on it has a weight.
-/

namespace StarCraftIocp

open Finset

variable {T F : Type} [Fintype T] [DecidableEq T]

/-- Changing one summand. -/
theorem sum_update_add (f : T → Nat) (t : T) (v : Nat) :
    (∑ u, Function.update f t v u) + f t = (∑ u, f u) + v := by
  have hf : (∑ u, f u) = f t + ∑ u ∈ univ \ {t}, f u := by
    rw [← sum_sdiff (subset_univ ({t} : Finset T)), sum_singleton, Nat.add_comm]
  rw [sum_update_of_mem (mem_univ t), hf]
  omega

/-- What all threads have, weighed one by one. -/
def tally (f : T → F) (w : F → Nat) : Nat := ∑ t, w (f t)

namespace tally

variable {f : T → F} {w : F → Nat} {t : T}

theorem update (v : F) : tally (Function.update f t v) w = tally f w + w v - w (f t) := by
  have hsum := sum_update_add (fun u => w (f u)) t (w v)
  have hfun : (fun u => w (Function.update f t v u)) = Function.update (fun u => w (f u)) t (w v) := by
    funext u
    by_cases hu : u = t
    · subst hu
      simp only [Function.update_self]
    · simp only [Function.update_of_ne hu]
  unfold tally
  rw [hfun]
  exact Nat.eq_sub_of_add_eq hsum

omit [DecidableEq T] in
theorem le (t : T) : w (f t) ≤ tally f w :=
  single_le_sum_of_canonicallyOrdered (f := fun u => w (f u)) (mem_univ t)

omit [DecidableEq T] in
theorem pos (h : 0 < w (f t)) : 0 < tally f w := lt_of_lt_of_le h (le t)

/-- Two threads have their weights apart. -/
theorem le_two {u : T} (h : t ≠ u) : w (f t) + w (f u) ≤ tally f w := by
  have hsum : ∑ v ∈ {t, u}, w (f v) = w (f t) + w (f u) := sum_pair h
  calc w (f t) + w (f u) = ∑ v ∈ {t, u}, w (f v) := hsum.symm
    _ ≤ tally f w := sum_le_sum_of_subset (subset_univ _)

omit [DecidableEq T] in
theorem eq_zero (h : ∀ t, w (f t) = 0) : tally f w = 0 := sum_eq_zero fun t _ => h t

end tally

/-- The weight of all frames of all threads. -/
def weigh (stack : T → List F) (w : F → Nat) : Nat := tally stack fun l => (l.map w).sum

namespace weigh

variable {stack : T → List F} {w : F → Nat} {t : T}

/-- The innermost calls of a thread give way to others. -/
theorem exchange {gone rest : List F} (h : stack t = gone ++ rest) (l : List F) :
    weigh (Function.update stack t (l ++ rest)) w = weigh stack w + (l.map w).sum - (gone.map w).sum := by
  have hupdate := tally.update (f := stack) (w := fun l => (l.map w).sum) (t := t) (l ++ rest)
  rw [h, List.map_append, List.sum_append, List.map_append, List.sum_append] at hupdate
  unfold weigh
  omega

omit [DecidableEq T] in
theorem le {f : F} (h : f ∈ stack t) : w f ≤ weigh stack w :=
  calc w f ≤ ((stack t).map w).sum := List.le_sum_of_mem (List.mem_map_of_mem h)
    _ ≤ weigh stack w := tally.le (w := fun l : List F => (l.map w).sum) t

omit [DecidableEq T] in
theorem pos {f : F} (h : f ∈ stack t) (hw : 0 < w f) : 0 < weigh stack w := lt_of_lt_of_le hw (le h)

omit [DecidableEq T] in
theorem pos_head {f : F} {rest : List F} (h : stack t = f :: rest) (hw : 0 < w f) : 0 < weigh stack w := by
  refine pos (t := t) ?_ hw
  rw [h]
  exact List.mem_cons_self

omit [DecidableEq T] in
theorem mono {w' : F → Nat} (h : ∀ f, w f ≤ w' f) : weigh stack w ≤ weigh stack w' :=
  sum_le_sum fun _ _ => List.sum_le_sum fun f _ => h f

omit [DecidableEq T] in
theorem eq_zero (h : ∀ t, ∀ f ∈ stack t, w f = 0) : weigh stack w = 0 := by
  refine tally.eq_zero ?_
  intro t
  refine List.sum_eq_zero ?_
  intro n hn
  obtain ⟨f, hf, rfl⟩ := List.mem_map.mp hn
  exact h t f hf

end weigh

end StarCraftIocp
