import Mathlib.Tactic.Common
import Mathlib.Logic.Relation

/-!
# Runs of a labelled transition system

What is reachable, what a step has to preserve for a property to hold in every
reachable state, and runs that only take steps a guard allows. A guard is a
condition on the label of a step and on the state before it.
-/

namespace StarCraftIocp

variable {σ α : Type}

/-- A system that takes a step from one state to the next under a label. -/
abbrev Transition (σ α : Type) : Type := σ → α → σ → Prop

/-- `s` is the end of a run of `step` from `s₀`. -/
def Reachable (step : Transition σ α) (s₀ s : σ) : Prop :=
  Relation.ReflTransGen (fun s s' => ∃ a, step s a s') s₀ s

/-- The runs of `step` whose steps all satisfy `guard`. -/
def Transition.guarded (step : Transition σ α) (guard : σ → α → Prop) : Transition σ α :=
  fun s a s' => guard s a ∧ step s a s'

/-- The transitions of a partial function: `none` is a label that is not enabled. -/
def Transition.ofFun (next : σ → α → Option σ) : Transition σ α := fun s a s' => next s a = some s'

/-- A partial function that takes the allowed steps only. -/
def guardedFun (next : σ → α → Option σ) (guard : σ → α → Prop) [∀ s a, Decidable (guard s a)]
    (s : σ) (a : α) : Option σ :=
  if guard s a then next s a else none

/-- A run, and one step more. -/
theorem run_concat {next : σ → α → Option σ} {l : List α} {a : α} {s s' s'' : σ} (h : l.foldlM next s = some s')
    (hs : next s' a = some s'') : (l ++ [a]).foldlM next s = some s'' := by
  rw [List.foldlM_append, h]
  change (next s' a).bind some = _
  rw [hs]
  rfl

namespace Reachable

variable {step : Transition σ α} {s₀ s s' : σ}

theorem refl : Reachable step s₀ s₀ := Relation.ReflTransGen.refl

theorem tail {a : α} (h : Reachable step s₀ s) (hs : step s a s') : Reachable step s₀ s' :=
  Relation.ReflTransGen.tail h ⟨a, hs⟩

/-- What holds initially and is kept by every step holds in every reachable state. -/
theorem invariant {I : σ → Prop} (h0 : I s₀) (hstep : ∀ s a s', I s → step s a s' → I s')
    (h : Reachable step s₀ s) : I s := by
  induction h with
  | refl => exact h0
  | tail _ hs ih =>
      obtain ⟨a, ha⟩ := hs
      exact hstep _ a _ ih ha

/-- A run, followed step by step in another system that takes a step or stands still. -/
theorem simulates {τ β : Type} {step' : Transition τ β} {f : σ → τ} {I : σ → Prop} (h0 : I s₀)
    (hstep : ∀ s a s', I s → step s a s' → I s' ∧ (f s' = f s ∨ ∃ b, step' (f s) b (f s')))
    (h : Reachable step s₀ s) : I s ∧ Reachable step' (f s₀) (f s) := by
  refine h.invariant (I := fun s => I s ∧ Reachable step' (f s₀) (f s)) ⟨h0, refl⟩ fun s a s' hs ha => ?_
  obtain ⟨hI, hsame | ⟨b, hb⟩⟩ := hstep s a s' hs.1 ha
  · exact ⟨hI, hsame ▸ hs.2⟩
  · exact ⟨hI, hs.2.tail hb⟩

/-- A guarded run is a run. -/
theorem of_guarded {guard : σ → α → Prop} (h : Reachable (step.guarded guard) s₀ s) :
    Reachable step s₀ s := by
  induction h with
  | refl => exact refl
  | tail _ hs ih =>
      obtain ⟨a, -, ha⟩ := hs
      exact ih.tail ha

/-- A run under a guard is one under a weaker guard. -/
theorem guarded_mono {guard guard' : σ → α → Prop} (hg : ∀ s a, guard s a → guard' s a)
    (h : Reachable (step.guarded guard) s₀ s) : Reachable (step.guarded guard') s₀ s := by
  induction h with
  | refl => exact refl
  | tail _ hs ih =>
      obtain ⟨a, ha, hs⟩ := hs
      exact ih.tail ⟨hg _ a ha, hs⟩

/-- The end of a run given by its labels, with the guard checked on the way. -/
theorem of_run_guarded {next : σ → α → Option σ} {guard : σ → α → Prop}
    [∀ s a, Decidable (guard s a)] {l : List α}
    (h : l.foldlM (guardedFun next guard) s = some s')
    (hs : Reachable ((Transition.ofFun next).guarded guard) s₀ s) :
    Reachable ((Transition.ofFun next).guarded guard) s₀ s' := by
  induction l generalizing s with
  | nil =>
      obtain rfl := Option.some.inj h
      exact hs
  | cons a l ih =>
      rw [List.foldlM_cons] at h
      obtain ⟨t, ht, h⟩ := Option.bind_eq_some_iff.mp h
      unfold guardedFun at ht
      by_cases hg : guard s a
      · rw [if_pos hg] at ht
        exact ih h (hs.tail ⟨hg, ht⟩)
      · rw [if_neg hg] at ht
        cases ht

/-- The end of a run given by its labels. -/
theorem of_run {next : σ → α → Option σ} {l : List α} (h : l.foldlM next s = some s')
    (hs : Reachable (Transition.ofFun next) s₀ s) : Reachable (Transition.ofFun next) s₀ s' := by
  have hfun : guardedFun next (fun _ _ => True) = next := by
    funext s a
    exact if_pos trivial
  have hg : Reachable ((Transition.ofFun next).guarded fun _ _ => True) s s' :=
    of_run_guarded (by rw [hfun]; exact h) refl
  exact Relation.ReflTransGen.trans hs hg.of_guarded

end Reachable

end StarCraftIocp
