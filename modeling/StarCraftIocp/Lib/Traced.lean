import Mathlib.Tactic.Common

/-!
# Computations that leave a trace

A computation returns a value, and records what it did on the way.
-/

namespace StarCraftIocp

/-- A value, and the events on the way to it. -/
structure Traced (ε α : Type) where
  value : α
  trace : List ε

namespace Traced

variable {ε α β : Type}

instance : Monad (Traced ε) where
  pure a := ⟨a, []⟩
  bind x f := ⟨(f x.value).value, x.trace ++ (f x.value).trace⟩

@[simp] theorem value_pure (a : α) : (pure a : Traced ε α).value = a := rfl

@[simp] theorem trace_pure (a : α) : (pure a : Traced ε α).trace = [] := rfl

@[simp] theorem value_bind (x : Traced ε α) (f : α → Traced ε β) :
    (x >>= f).value = (f x.value).value := by
  cases x
  rfl

@[simp] theorem trace_bind (x : Traced ε α) (f : α → Traced ε β) :
    (x >>= f).trace = x.trace ++ (f x.value).trace := by
  cases x
  rfl

/-- What happens on the way happens in the one computation or in the other. -/
theorem forall_trace_bind {x : Traced ε α} {f : α → Traced ε β} {P : ε → Prop} :
    (∀ e ∈ (x >>= f).trace, P e) ↔ (∀ e ∈ x.trace, P e) ∧ ∀ e ∈ (f x.value).trace, P e := by
  rw [trace_bind, List.forall_mem_append]

/-- One computation after the other, each with its value and its trace. -/
theorem bind_eq {x : Traced ε α} {f : α → Traced ε β} {a : α} {b : β} {t t' : List ε} (hx : x = ⟨a, t⟩)
    (hf : f a = ⟨b, t'⟩) : (x >>= f) = ⟨b, t ++ t'⟩ := by
  subst hx
  change (⟨(f a).value, t ++ (f a).trace⟩ : Traced ε β) = _
  rw [hf]

@[simp] theorem value_map (g : α → β) (x : Traced ε α) : (g <$> x).value = g x.value := rfl

@[simp] theorem trace_map (g : α → β) (x : Traced ε α) : (g <$> x).trace = x.trace :=
  List.append_nil _

instance : LawfulMonad (Traced ε) :=
  LawfulMonad.mk' _ (fun x => congrArg (Traced.mk x.value) (trace_map id x))
    (fun _ _ => rfl) fun x f g => congrArg (Traced.mk _) (List.append_assoc ..)

/-- A loop that computes something for every element. -/
@[simp] theorem value_mapM (f : α → Traced ε β) (l : List α) :
    (l.mapM f).value = l.map fun a => (f a).value := by
  induction l with
  | nil => rfl
  | cons a l ih =>
      rw [List.mapM_cons]
      simp [ih]

@[simp] theorem trace_mapM (f : α → Traced ε β) (l : List α) :
    (l.mapM f).trace = l.flatMap fun a => (f a).trace := by
  induction l with
  | nil => rfl
  | cons a l ih =>
      rw [List.mapM_cons]
      simp [ih]

/-- A loop keeps what its body keeps, and does on the way only what its body does. -/
theorem foldlM_keeps {I : β → Prop} {P : ε → Prop} {f : β → α → Traced ε β} {l : List α} {b : β} (hb : I b)
    (hf : ∀ b, I b → ∀ a ∈ l, I (f b a).value ∧ ∀ e ∈ (f b a).trace, P e) :
    I (l.foldlM f b).value ∧ ∀ e ∈ (l.foldlM f b).trace, P e := by
  induction l generalizing b with
  | nil => exact ⟨hb, fun _ he => absurd he List.not_mem_nil⟩
  | cons a l ih =>
      obtain ⟨hkeep, htrace⟩ := hf b hb a List.mem_cons_self
      obtain ⟨hkeep', htrace'⟩ := ih hkeep fun c hc d hd => hf c hc d (List.mem_cons_of_mem a hd)
      rw [List.foldlM_cons, value_bind, trace_bind]
      exact ⟨hkeep', fun e he => (List.mem_append.mp he).elim (htrace e) (htrace' e)⟩

end Traced

end StarCraftIocp
