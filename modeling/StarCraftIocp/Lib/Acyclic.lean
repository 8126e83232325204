import Mathlib.Data.List.Chain
import Mathlib.Order.WellFounded

/-!
# Relations without cycles

A vertex from which every path is finite is on no cycle. Where the states of a group of
parties are paths of such a relation that join end to end, they do not close to a ring.
-/

namespace StarCraftIocp

open Relation

variable {V P : Type} {r : V → V → Prop}

/-- No path comes back to where it began. -/
def Acyclic (r : V → V → Prop) : Prop := ∀ x, ¬ TransGen r x x

namespace Acyclic

/-- Every path from each vertex is finite. -/
theorem of_acc (h : ∀ x, Acc (fun y x => r x y) x) : Acyclic r := by
  intro x hx
  have hwf : WellFounded fun y x => r x y := ⟨h⟩
  have hswap : TransGen (fun y x => r x y) x x := transGen_swap.mpr hx
  exact hwf.transGen.irrefl.irrefl x hswap

/-- A ring of parties each of which leads to the next by a path. -/
theorem no_ring (h : Acyclic r) {leads : P → P → Prop} (at_ : P → V)
    (hleads : ∀ p q, leads p q → TransGen r (at_ p) (at_ q)) : Acyclic leads := by
  intro p hp
  have hpath : ∀ q, TransGen leads p q → TransGen r (at_ p) (at_ q) := by
    intro q hq
    induction hq with
    | single hstep => exact hleads _ _ hstep
    | tail _ hstep ih => exact ih.trans (hleads _ _ hstep)
  exact h (at_ p) (hpath p hp)

end Acyclic

/--
In a list in which neighbours are equal or joined by an edge, what stands further back
leads to what stands before.
-/
theorem path_of_isChain {l : List V} {y : V} (h : (y :: l).IsChain fun a b => a = b ∨ r b a) {x : V}
    (hx : x ∈ l) :
    ReflTransGen r x y := by
  induction l generalizing y with
  | nil => cases hx
  | cons z l ih =>
      obtain ⟨hedge, hrest⟩ := List.isChain_cons_cons.mp h
      have hzy : ReflTransGen r z y := by
        rcases hedge with rfl | hedge
        · exact ReflTransGen.refl
        · exact ReflTransGen.single hedge
      rcases List.mem_cons.mp hx with rfl | hx
      · exact hzy
      · exact (ih hrest hx).trans hzy

end StarCraftIocp
