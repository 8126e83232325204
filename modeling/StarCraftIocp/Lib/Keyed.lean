import Mathlib.Data.List.Nodup
import Mathlib.Tactic.Common

/-!
# Lists of records with a key

The records of a list that have different keys, one of which is replaced by another
with the same key, or taken out.
-/

namespace StarCraftIocp

namespace Keyed

variable {α κ : Type} [DecidableEq κ] {key : α → κ} {l : List α} {a b : α}

/-- Replace the record that has the key of `b`. -/
def set (key : α → κ) (l : List α) (b : α) : List α := l.map fun a => if key a = key b then b else a

/-- Take out the record with this key. -/
def remove (key : α → κ) (l : List α) (k : κ) : List α := l.filter fun a => key a ≠ k

theorem map_set (b : α) : (set key l b).map key = l.map key := by
  unfold set
  rw [List.map_map]
  refine List.map_congr_left ?_
  intro a _
  by_cases h : key a = key b
  · simp only [Function.comp_apply, h, if_true]
  · simp only [Function.comp_apply, if_neg h]

theorem mem_set (h : a ∈ set key l b) : a = b ∨ (a ∈ l ∧ key a ≠ key b) := by
  obtain ⟨a', ha', rfl⟩ := List.mem_map.mp h
  by_cases hkey : key a' = key b
  · rw [if_pos hkey]
    exact Or.inl rfl
  · rw [if_neg hkey]
    exact Or.inr ⟨ha', hkey⟩

omit [DecidableEq κ] in
/-- Records with one key are one record. -/
theorem eq_of_key (hnodup : (l.map key).Nodup) (ha : a ∈ l) (hb : b ∈ l) (h : key a = key b) : a = b :=
  List.inj_on_of_nodup_map hnodup ha hb h

/-- A test that the new record passes as the old one did is passed as often as before. -/
theorem countP_set (hnodup : (l.map key).Nodup) (ha : a ∈ l) (hkey : key a = key b) (p : α → Bool)
    (hp : p b = p a) : (set key l b).countP p = l.countP p := by
  unfold set
  rw [List.countP_map]
  refine List.countP_congr ?_
  intro c hc
  by_cases h : key c = key b
  · have hca : c = a := eq_of_key hnodup hc ha (h.trans hkey.symm)
    rw [Function.comp_apply, if_pos h, hp, hca]
  · simp only [Function.comp_apply, if_neg h]

theorem countP_remove (hnodup : (l.map key).Nodup) (ha : a ∈ l) (p : α → Bool) :
    (remove key l (key a)).countP p = l.countP p - if p a then 1 else 0 := by
  induction l with
  | nil => cases ha
  | cons c l ih =>
      obtain ⟨hc, hrest⟩ := List.nodup_cons.mp hnodup
      unfold remove at ih ⊢
      rcases List.mem_cons.mp ha with rfl | hmem
      · -- the key does not come again
        have hkeep : l.filter (fun b => key b ≠ key a) = l := by
          refine List.filter_eq_self.mpr ?_
          intro b hb
          refine decide_eq_true ?_
          intro heq
          exact hc (heq ▸ List.mem_map_of_mem hb)
        rw [List.filter_cons_of_neg (by simp), hkeep, List.countP_cons]
        omega
      · have hne : key c ≠ key a := by
          intro heq
          exact hc (heq ▸ List.mem_map_of_mem hmem)
        have hpos : (if p a then 1 else 0) ≤ l.countP p := by
          split
          · next hp => exact List.countP_pos_iff.mpr ⟨a, hmem, hp⟩
          · exact Nat.zero_le _
        rw [List.filter_cons_of_pos (by simpa using hne), List.countP_cons, List.countP_cons, ih hrest hmem]
        omega

/-- A relation of all pairs is kept when the new record has it with all the others. -/
theorem pairwise_set {r : α → α → Prop} (hnodup : (l.map key).Nodup) (h : l.Pairwise r)
    (hb : ∀ a ∈ l, key a ≠ key b → r a b ∧ r b a) : (set key l b).Pairwise r := by
  unfold set
  rw [List.pairwise_map]
  have hkeys : l.Pairwise fun a c => key a ≠ key c := List.pairwise_map.mp hnodup
  refine (h.and hkeys).imp_of_mem ?_
  intro a c ha hc hboth
  rcases hboth with ⟨hr, hne⟩
  by_cases hab : key a = key b
  · have hcb : key c ≠ key b := fun heq => hne (hab.trans heq.symm)
    rw [if_pos hab, if_neg hcb]
    exact (hb c hc hcb).2
  · rw [if_neg hab]
    by_cases hcb : key c = key b
    · rw [if_pos hcb]
      exact (hb a ha hab).1
    · rw [if_neg hcb]
      exact hr

end Keyed

end StarCraftIocp
