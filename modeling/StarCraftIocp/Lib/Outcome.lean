import Mathlib.Tactic.Common

/-!
# Computations that can fail

Two readings of a computation `x : Except ε α` with a postcondition `P`.
`Ensures x P` is partial correctness: if `x` returns, what it returns satisfies
`P`. `Yields x P` is total correctness: `x` does return. Each comes with a rule
for every way of building a computation, loops included.
-/

namespace StarCraftIocp

variable {ε α β : Type}

/-- Whatever `x` returns satisfies `P`. -/
def Ensures (x : Except ε α) (P : α → Prop) : Prop := ∀ a, x = .ok a → P a

/-- `x` returns, and what it returns satisfies `P`. -/
def Yields (x : Except ε α) (P : α → Prop) : Prop := ∃ a, x = .ok a ∧ P a

namespace Outcome

theorem bind_eq_ok {x : Except ε α} {f : α → Except ε β} {b : β} :
    x >>= f = .ok b ↔ ∃ a, x = .ok a ∧ f a = .ok b := by
  cases x with
  | error e => simp [bind, Except.bind]
  | ok a => simp [bind, Except.bind]

theorem toOption_eq_some {x : Except ε α} {a : α} : x.toOption = some a ↔ x = .ok a := by
  cases x with
  | error e => simp [Except.toOption]
  | ok b => simp [Except.toOption]

@[simp] theorem ok_bind (a : α) (f : α → Except ε β) : (Except.ok a >>= f) = f a := rfl

@[simp] theorem error_bind (e : ε) (f : α → Except ε β) : (Except.error e >>= f) = .error e := rfl

@[simp] theorem pure_eq (a : α) : (pure a : Except ε α) = .ok a := rfl

end Outcome

open Outcome

/-- In the loop over a list, every element meets a condition at its turn. -/
def Meets (f : β → α → Except ε β) (C : β → α → Prop) : β → List α → Prop
  | _, [] => True
  | b, a :: l => C b a ∧
      match f b a with
      | .ok b' => Meets f C b' l
      | .error _ => True

instance Meets.decide (f : β → α → Except ε β) (C : β → α → Prop) [∀ b a, Decidable (C b a)] :
    (b : β) → (l : List α) → Decidable (Meets f C b l)
  | _, [] => inferInstanceAs (Decidable True)
  | b, a :: l =>
      have : Decidable (match f b a with
          | .ok b' => Meets f C b' l
          | .error _ => True) :=
        match f b a with
        | .ok b' => Meets.decide f C b' l
        | .error _ => inferInstanceAs (Decidable True)
      inferInstanceAs (Decidable (_ ∧ _))

theorem Meets.of_forall {f : β → α → Except ε β} {C : β → α → Prop} (h : ∀ b a, C b a) {l : List α}
    {b : β} : Meets f C b l := by
  induction l generalizing b with
  | nil => trivial
  | cons a l ih =>
      refine ⟨h b a, ?_⟩
      split
      · exact ih
      · trivial

/-- What the loop keeps tells that the condition is met. -/
theorem Meets.of_keeps {I : β → Prop} {f : β → α → Except ε β} {C : β → α → Prop} {l : List α} {b : β}
    (hb : I b) (hf : ∀ b, I b → ∀ a ∈ l, ∀ b', f b a = .ok b' → I b') (hC : ∀ b, I b → ∀ a ∈ l, C b a) :
    Meets f C b l := by
  induction l generalizing b with
  | nil => trivial
  | cons a l ih =>
      refine ⟨hC b hb a List.mem_cons_self, ?_⟩
      split
      · next b' hb' =>
        exact ih (hf b hb a List.mem_cons_self b' hb')
          (fun c hc d hd => hf c hc d (List.mem_cons_of_mem a hd))
          fun c hc d hd => hC c hc d (List.mem_cons_of_mem a hd)
      · trivial

/-! ## Partial correctness -/

namespace Ensures

variable {P : α → Prop} {Q : β → Prop}

theorem ok {a : α} (h : P a) : Ensures (.ok a : Except ε α) P := by
  intro b hb
  obtain rfl := Except.ok.inj hb
  exact h

theorem error (e : ε) : Ensures (.error e : Except ε α) P := by
  intro b hb
  simp at hb

theorem mono {P' : α → Prop} {x : Except ε α} (h : Ensures x P) (hi : ∀ a, P a → P' a) :
    Ensures x P' := fun a ha => hi a (h a ha)

theorem bind {x : Except ε α} {f : α → Except ε β} (hx : Ensures x P)
    (hf : ∀ a, P a → Ensures (f a) Q) : Ensures (x >>= f) Q := by
  intro b hb
  obtain ⟨a, ha, hb⟩ := bind_eq_ok.mp hb
  exact hf a (hx a ha) b hb

/-- What comes next may be looked at with the value there is. -/
theorem bind_of_eq {x : Except ε α} {f : α → Except ε β} (hf : ∀ a, x = .ok a → Ensures (f a) Q) :
    Ensures (x >>= f) Q := by
  intro b hb
  obtain ⟨a, ha, hb⟩ := bind_eq_ok.mp hb
  exact hf a ha b hb

theorem map {x : Except ε α} {f : α → β} (h : Ensures x fun a => Q (f a)) : Ensures (f <$> x) Q := by
  cases x with
  | error e => exact error e
  | ok a => exact ok (h a rfl)

theorem ite {c : Prop} [Decidable c] {x y : Except ε α} (hx : c → Ensures x P)
    (hy : ¬ c → Ensures y P) : Ensures (if c then x else y) P := by
  by_cases h : c
  · rw [if_pos h]; exact hx h
  · rw [if_neg h]; exact hy h

/-- A loop keeps what its body keeps. -/
theorem foldlM {I : β → Prop} {f : β → α → Except ε β} {l : List α} {b : β} (hb : I b)
    (hf : ∀ b, I b → ∀ a ∈ l, Ensures (f b a) I) : Ensures (l.foldlM f b) I := by
  induction l generalizing b with
  | nil => exact ok hb
  | cons a l ih =>
      rw [List.foldlM_cons]
      exact bind (hf b hb a List.mem_cons_self)
        fun b' hb' => ih hb' fun c hc d hd => hf c hc d (List.mem_cons_of_mem a hd)

/-- What holds of the elements done so far, a loop makes hold of all; each meets the condition. -/
theorem foldlM_done {I : List α → β → Prop} {C : β → α → Prop} {f : β → α → Except ε β} {l : List α}
    {b : β} (hb : I [] b) (hC : Meets f C b l)
    (hf : ∀ done b, I done b → ∀ a ∈ l, C b a → Ensures (f b a) (I (done ++ [a]))) :
    Ensures (l.foldlM f b) (I l) := by
  induction l generalizing b I with
  | nil => exact ok hb
  | cons a l ih =>
      rw [List.foldlM_cons]
      obtain ⟨ha, hl⟩ := hC
      refine bind (P := fun b' => f b a = .ok b' ∧ I [a] b')
        (fun b' hb' => ⟨hb', hf [] b hb a List.mem_cons_self ha b' hb'⟩) ?_
      intro b' hb'
      rw [hb'.1] at hl
      exact ih (I := fun done => I (a :: done)) hb'.2 hl
        fun done c hc d hd => hf (a :: done) c hc d (List.mem_cons_of_mem a hd)

/-- A loop keeps what its body keeps on the elements that meet the condition. -/
theorem foldlM_meets {I : β → Prop} {C : β → α → Prop} {f : β → α → Except ε β} {l : List α} {b : β}
    (hb : I b) (hC : Meets f C b l) (hf : ∀ b, I b → ∀ a ∈ l, C b a → Ensures (f b a) I) :
    Ensures (l.foldlM f b) I :=
  foldlM_done (I := fun _ => I) hb hC fun _ => hf

/-- A loop does `l.length` times what its body does once. -/
theorem foldlM_length {I : Nat → β → Prop} {f : β → α → Except ε β} {l : List α} {b : β} (hb : I 0 b)
    (hf : ∀ n b, I n b → ∀ a ∈ l, Ensures (f b a) (I (n + 1))) : Ensures (l.foldlM f b) (I l.length) := by
  refine foldlM_done (I := fun done => I done.length) (C := fun _ _ => True) hb (Meets.of_forall ?_) ?_
  · exact fun _ _ => trivial
  · intro done c hc a ha _
    rw [List.length_append]
    exact hf done.length c hc a ha

/-- A loop does not end in an error that its body does not end in. -/
theorem foldlM_ne_error {I : β → Prop} {f : β → α → Except ε β} {l : List α} {b : β} {e : ε} (hb : I b)
    (hf : ∀ b, I b → ∀ a ∈ l, Ensures (f b a) I ∧ f b a ≠ .error e) : l.foldlM f b ≠ .error e := by
  induction l generalizing b with
  | nil => nofun
  | cons a l ih =>
      rw [List.foldlM_cons]
      obtain ⟨hI, hne⟩ := hf b hb a List.mem_cons_self
      cases hfa : f b a with
      | error e' =>
          rw [hfa] at hne
          exact hne
      | ok b' => exact ih (hI b' hfa) fun c hc d hd => hf c hc d (List.mem_cons_of_mem a hd)

end Ensures

/-! ## Total correctness -/

namespace Yields

variable {P : α → Prop} {Q : β → Prop}

theorem ok {a : α} (h : P a) : Yields (.ok a : Except ε α) P := ⟨a, rfl, h⟩

theorem ensures {x : Except ε α} (h : Yields x P) : Ensures x P := by
  obtain ⟨a, rfl, ha⟩ := h
  exact Ensures.ok ha

theorem mono {P' : α → Prop} {x : Except ε α} (h : Yields x P) (hi : ∀ a, P a → P' a) :
    Yields x P' := by
  obtain ⟨a, ha, hp⟩ := h
  exact ⟨a, ha, hi a hp⟩

/-- What a computation is partially correct for, it yields whenever it returns. -/
theorem and_ensures {P' : α → Prop} {x : Except ε α} (h : Yields x P) (he : Ensures x P') :
    Yields x fun a => P a ∧ P' a := by
  obtain ⟨a, ha, hp⟩ := h
  exact ⟨a, ha, hp, he a ha⟩

theorem bind {x : Except ε α} {f : α → Except ε β} (hx : Yields x P)
    (hf : ∀ a, P a → Yields (f a) Q) : Yields (x >>= f) Q := by
  obtain ⟨a, ha, hp⟩ := hx
  obtain ⟨b, hb, hq⟩ := hf a hp
  exact ⟨b, bind_eq_ok.mpr ⟨a, ha, hb⟩, hq⟩

theorem ite {c : Prop} [Decidable c] {x y : Except ε α} (hx : c → Yields x P)
    (hy : ¬ c → Yields y P) : Yields (if c then x else y) P := by
  by_cases h : c
  · rw [if_pos h]; exact hx h
  · rw [if_neg h]; exact hy h

/-- A loop whose body never fails does not fail, and does for all elements what its body does for one. -/
theorem foldlM_done {I : List α → β → Prop} {f : β → α → Except ε β} {l : List α} {b : β} (hb : I [] b)
    (hf : ∀ done b, I done b → ∀ a ∈ l, Yields (f b a) (I (done ++ [a]))) : Yields (l.foldlM f b) (I l) := by
  induction l generalizing b I with
  | nil => exact ok hb
  | cons a l ih =>
      rw [List.foldlM_cons]
      refine bind (hf [] b hb a List.mem_cons_self) ?_
      intro b' hb'
      exact ih (I := fun done => I (a :: done)) hb' fun done c hc d hd =>
        hf (a :: done) c hc d (List.mem_cons_of_mem a hd)

/-- A loop whose body never fails does not fail. -/
theorem foldlM {I : β → Prop} {f : β → α → Except ε β} {l : List α} {b : β} (hb : I b)
    (hf : ∀ b, I b → ∀ a ∈ l, Yields (f b a) I) : Yields (l.foldlM f b) I :=
  foldlM_done (I := fun _ => I) hb fun _ => hf

end Yields

/-! ## Results and errors together -/

/-- `x` returns something that satisfies `P`, or ends in an error that satisfies `Q`. -/
def Concludes (x : Except ε α) (P : α → Prop) (Q : ε → Prop) : Prop :=
  match x with
  | .ok a => P a
  | .error e => Q e

namespace Concludes

variable {P : α → Prop} {Q : ε → Prop}

theorem bind {R : β → Prop} {x : Except ε α} {f : α → Except ε β} (hx : Concludes x P Q)
    (hf : ∀ a, P a → Concludes (f a) R Q) : Concludes (x >>= f) R Q := by
  cases x with
  | error e => exact hx
  | ok a => exact hf a hx

theorem foldlM {I : β → Prop} {f : β → α → Except ε β} {l : List α} {b : β} (hb : I b)
    (hf : ∀ b, I b → ∀ a ∈ l, Concludes (f b a) I Q) : Concludes (l.foldlM f b) I Q := by
  induction l generalizing b with
  | nil => exact hb
  | cons a l ih =>
      rw [List.foldlM_cons]
      exact bind (hf b hb a List.mem_cons_self)
        fun b' hb' => ih hb' fun c hc d hd => hf c hc d (List.mem_cons_of_mem a hd)

end Concludes

/-- A computation that is looked at less closely, in its results and in its errors. -/
def seen {ε' α' : Type} (g : ε → ε') (f : α → α') : Except ε α → Except ε' α'
  | .ok a => .ok (f a)
  | .error e => .error (g e)

section

variable {ε' α' β' : Type} {g : ε → ε'} {f' : β → β'}

theorem seen_bind (f : α → α') {x : Except ε α} {k : α → Except ε β} (k' : α' → Except ε' β')
    (hk : ∀ a, seen g f' (k a) = k' (f a)) : seen g f' (x >>= k) = seen g f x >>= k' := by
  cases x with
  | error e => rfl
  | ok a => exact hk a

theorem seen_foldlM {l : List α} {k : β → α → Except ε β} {k' : β' → α → Except ε' β'}
    (hk : ∀ b a, seen g f' (k b a) = k' (f' b) a) {b : β} :
    seen g f' (l.foldlM k b) = l.foldlM k' (f' b) := by
  induction l generalizing b with
  | nil => rfl
  | cons a l ih =>
      rw [List.foldlM_cons, List.foldlM_cons, ← hk b a]
      exact seen_bind f' _ fun b' => ih

end

end StarCraftIocp
