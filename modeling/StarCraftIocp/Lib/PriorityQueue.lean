import Mathlib.Data.List.Perm.Basic

/-!
# Priority queues

What a queue with a comparison promises: an element comes out, the others stay, and
as long as the comparison orders the elements, nothing that stays comes before it.
How ties are broken is the implementation's business.
-/

namespace StarCraftIocp

/-- The comparison orders these elements: a strict weak order among them. -/
structure Orders {α : Type} (lt : α → α → Bool) (l : List α) : Prop where
  asymm : ∀ a ∈ l, ∀ b ∈ l, lt a b = true → lt b a = false
  negTrans : ∀ a ∈ l, ∀ b ∈ l, ∀ c ∈ l, lt a b = false → lt b c = false → lt a c = false

/-- A queue whose greatest element comes out first. -/
structure PriorityQueue (α : Type) (lt : α → α → Bool) where
  pop : List α → Option (α × List α)
  pop_eq_none : ∀ {l}, pop l = none → l = []
  pop_perm : ∀ {l a rest}, pop l = some (a, rest) → (a :: rest).Perm l
  pop_top : ∀ {l a rest}, Orders lt l → pop l = some (a, rest) → ∀ b ∈ rest, lt a b = false

namespace PriorityQueue

variable {α : Type} {lt : α → α → Bool}

theorem pop_singleton (q : PriorityQueue α lt) (a : α) : q.pop [a] = some (a, []) := by
  cases h : q.pop [a] with
  | none => cases q.pop_eq_none h
  | some p =>
      obtain ⟨b, rest⟩ := p
      obtain ⟨rfl, rfl⟩ := List.cons.inj (List.perm_singleton.mp (q.pop_perm h))
      rfl

theorem mem_of_pop (q : PriorityQueue α lt) {l rest : List α} {a b : α} (h : q.pop l = some (a, rest))
    (hb : b = a ∨ b ∈ rest) : b ∈ l := (q.pop_perm h).subset (List.mem_cons.mpr hb)

/-! ## By going through the list -/

/-- The first of the greatest elements, and the rest in order. -/
def scanPop (lt : α → α → Bool) : List α → Option (α × List α)
  | [] => none
  | a :: l =>
      match scanPop lt l with
      | none => some (a, [])
      | some (b, rest) => if lt a b then some (b, a :: rest) else some (a, b :: rest)

theorem scanPop_eq_none {l : List α} (h : scanPop lt l = none) : l = [] := by
  cases l with
  | nil => rfl
  | cons a l =>
      unfold scanPop at h
      split at h
      · cases h
      · split at h <;> cases h

theorem scanPop_perm {l : List α} {a : α} {rest : List α} (h : scanPop lt l = some (a, rest)) :
    (a :: rest).Perm l := by
  induction l generalizing a rest with
  | nil => cases h
  | cons b l ih =>
      unfold scanPop at h
      split at h
      · next hl =>
        obtain ⟨rfl, rfl⟩ := Prod.mk.inj (Option.some.inj h)
        rw [scanPop_eq_none hl]
      · next c r hl =>
        have hperm := ih hl
        split at h
        · obtain ⟨rfl, rfl⟩ := Prod.mk.inj (Option.some.inj h)
          exact (List.Perm.swap b c r).trans (hperm.cons b)
        · obtain ⟨rfl, rfl⟩ := Prod.mk.inj (Option.some.inj h)
          exact hperm.cons b

theorem scanPop_top {l : List α} {a : α} {rest : List α} (ho : Orders lt l)
    (h : scanPop lt l = some (a, rest)) : ∀ b ∈ rest, lt a b = false := by
  induction l generalizing a rest with
  | nil => cases h
  | cons b l ih =>
      have hol : Orders lt l :=
        ⟨fun x hx y hy => ho.asymm x (List.mem_cons_of_mem b hx) y (List.mem_cons_of_mem b hy),
          fun x hx y hy z hz => ho.negTrans x (List.mem_cons_of_mem b hx) y
            (List.mem_cons_of_mem b hy) z (List.mem_cons_of_mem b hz)⟩
      unfold scanPop at h
      split at h
      · obtain ⟨rfl, rfl⟩ := Prod.mk.inj (Option.some.inj h)
        exact fun _ hx => absurd hx List.not_mem_nil
      · next c r hl =>
        have hmem : ∀ x, x = c ∨ x ∈ r → x ∈ b :: l := fun x hx =>
          List.mem_cons_of_mem b ((scanPop_perm hl).subset (List.mem_cons.mpr hx))
        have htop := ih hol hl
        split at h
        · next hbc =>
          obtain ⟨rfl, rfl⟩ := Prod.mk.inj (Option.some.inj h)
          refine List.forall_mem_cons.mpr ⟨?_, htop⟩
          exact ho.asymm b List.mem_cons_self c (hmem c (.inl rfl)) hbc
        · next hbc =>
          obtain ⟨rfl, rfl⟩ := Prod.mk.inj (Option.some.inj h)
          have hbc := eq_false_of_ne_true hbc
          refine List.forall_mem_cons.mpr ⟨hbc, fun x hx => ?_⟩
          exact ho.negTrans b List.mem_cons_self c (hmem c (.inl rfl)) x (hmem x (.inr hx)) hbc
            (htop x hx)

def scan (lt : α → α → Bool) : PriorityQueue α lt where
  pop := scanPop lt
  pop_eq_none := scanPop_eq_none
  pop_perm := scanPop_perm
  pop_top := scanPop_top

end PriorityQueue

end StarCraftIocp
