import Mathlib.Tactic

/-!
# Ordered maps and sets as tables

The lookups of `Std.ExtTreeMap` with the comparison of keys turned into an
equation, for the maps of a `LawfulEqCmp` order, and the sizes of maps and sets
when a key comes or goes.
-/

namespace StarCraftIocp.Table

variable {K V : Type} {cmp : K → K → Ordering} [Std.TransCmp cmp] [Std.LawfulEqCmp cmp]
  [DecidableEq K]

theorem getElem?_insert (t : Std.ExtTreeMap K V cmp) (k a : K) (v : V) :
    (t.insert k v)[a]? = if a = k then some v else t[a]? := by
  rw [Std.ExtTreeMap.getElem?_insert]
  by_cases h : a = k
  · subst h; simp
  · simp [h, Ne.symm h]

theorem getElem?_erase (t : Std.ExtTreeMap K V cmp) (k a : K) :
    (t.erase k)[a]? = if a = k then none else t[a]? := by
  rw [Std.ExtTreeMap.getElem?_erase]
  by_cases h : a = k
  · subst h; simp
  · simp [h, Ne.symm h]

omit [DecidableEq K] [Std.LawfulEqCmp cmp] in
/-- What is left in a table was in it. -/
theorem of_getElem?_erase {t : Std.ExtTreeMap K V cmp} {k a : K} {v : V}
    (h : (t.erase k)[a]? = some v) : t[a]? = some v := by
  rw [Std.ExtTreeMap.getElem?_erase] at h
  split at h
  · cases h
  · exact h

omit [Std.LawfulEqCmp cmp] [DecidableEq K] in
/-- A pointer read with null for a missing entry. -/
theorem getD_none_eq_some (t : Std.ExtTreeMap K (Option V) cmp) (k : K) (v : V) :
    t.getD k none = some v ↔ t[k]? = some (some v) := by
  rw [Std.ExtTreeMap.getD_eq_getD_getElem?]
  cases t[k]? with
  | none => simp
  | some x => simp

omit [DecidableEq K] in
/-- Entries with different keys are written into a table: the others stay. -/
theorem getElem?_foldl_insert {l : List (K × V)} (hnodup : (l.map Prod.fst).Nodup)
    (t : Std.ExtTreeMap K V cmp)
    (a : K) (v : V) : (l.foldl (fun t p => t.insert p.1 p.2) t)[a]? = some v ↔
      (a, v) ∈ l ∨ a ∉ l.map Prod.fst ∧ t[a]? = some v := by
  classical
  induction l generalizing t with
  | nil => simp
  | cons p l ih =>
      obtain ⟨hp, hrest⟩ := List.nodup_cons.mp hnodup
      rw [List.foldl_cons, ih hrest, getElem?_insert]
      by_cases ha : a = p.1
      · subst ha
        -- the key does not come again
        have hv : (p.1, v) ∉ l := fun hv => hp (List.mem_map.mpr ⟨_, hv, rfl⟩)
        rw [if_pos rfl]
        constructor
        · intro h
          rcases h with hmem | ⟨-, hval⟩
          · exact absurd hmem hv
          · obtain rfl := Option.some.inj hval
            exact .inl List.mem_cons_self
        · intro h
          rcases h with hmem | ⟨hkey, -⟩
          · rcases List.mem_cons.mp hmem with heq | hmem
            · exact .inr ⟨hp, congrArg some (congrArg Prod.snd heq).symm⟩
            · exact absurd hmem hv
          · exact absurd List.mem_cons_self hkey
      · have hne : (a, v) ≠ p := fun heq => ha (congrArg Prod.fst heq)
        rw [if_neg ha]
        simp only [List.mem_cons, List.map_cons, hne, ha, false_or]

omit [DecidableEq K] [Std.LawfulEqCmp cmp] in
theorem mem_iff_exists_getElem? {t : Std.ExtTreeMap K V cmp} {a : K} : a ∈ t ↔ ∃ v, t[a]? = some v := by
  rw [Std.ExtTreeMap.mem_iff_isSome_getElem?, Option.isSome_iff_exists]

omit [DecidableEq K] in
/-- No key is there twice. -/
theorem pairwise_toList (t : Std.ExtTreeMap K V cmp) : t.toList.Pairwise fun e e' => e.1 ≠ e'.1 :=
  Std.ExtTreeMap.distinct_keys_toList.imp fun hne heq => hne (Std.LawfulEqCmp.compare_eq_iff_eq.mpr heq)

omit [DecidableEq K] in
theorem set_nodup_toList (t : Std.ExtTreeSet K cmp) : t.toList.Nodup :=
  Std.ExtTreeSet.distinct_toList.imp fun hne heq => hne (Std.LawfulEqCmp.compare_eq_iff_eq.mpr heq)

/-- The entries under one key. -/
theorem filter_toList (t : Std.ExtTreeMap K V cmp) (a : K) :
    t.toList.filter (fun p => p.1 = a) = (t[a]?.map fun v => (a, v)).toList := by
  classical
  cases ha : t[a]? with
  | none =>
      refine List.filter_eq_nil_iff.mpr ?_
      intro p hp heq
      obtain rfl : p.1 = a := of_decide_eq_true heq
      rw [Std.ExtTreeMap.mem_toList_iff_getElem?_eq_some.mp hp] at ha
      cases ha
  | some v =>
      have hmem : (a, v) ∈ t.toList := Std.ExtTreeMap.mem_toList_iff_getElem?_eq_some.mpr ha
      have hnodup : t.toList.Nodup := by
        refine List.Nodup.of_map Prod.fst ?_
        rw [Std.ExtTreeMap.map_fst_toList_eq_keys]
        exact Std.ExtTreeMap.nodup_keys
      have hsame : t.toList.filter (fun p => p.1 = a) = t.toList.filter (fun p => p = (a, v)) := by
        refine List.filter_congr ?_
        intro p hp
        refine decide_eq_decide.mpr ⟨?_, fun heq => congrArg Prod.fst heq⟩
        intro heq
        subst heq
        have hp2 := Std.ExtTreeMap.mem_toList_iff_getElem?_eq_some.mp hp
        exact Prod.ext rfl (Option.some.inj (hp2.symm.trans ha))
      rw [hsame, List.filter_eq, List.count_eq_one_of_mem hnodup hmem]
      rfl

omit [DecidableEq K] in
theorem set_mem_insert {t : Std.ExtTreeSet K cmp} {k a : K} :
    a ∈ t.insert k ↔ a = k ∨ a ∈ t := by
  rw [Std.ExtTreeSet.mem_insert, Std.LawfulEqCmp.compare_eq_iff_eq, eq_comm]

omit [DecidableEq K] in
theorem set_mem_erase {t : Std.ExtTreeSet K cmp} {k a : K} :
    a ∈ t.erase k ↔ a ≠ k ∧ a ∈ t := by
  rw [Std.ExtTreeSet.mem_erase, Ne, Ne, Std.LawfulEqCmp.compare_eq_iff_eq, eq_comm]

section

variable {K V : Type} {cmp : K → K → Ordering} [Std.TransCmp cmp]

theorem size_insert_of_not_mem {t : Std.ExtTreeMap K V cmp} {k : K} (v : V) (h : k ∉ t) :
    (t.insert k v).size = t.size + 1 := by
  rw [Std.ExtTreeMap.size_insert]
  exact if_neg h

theorem size_erase_of_mem {t : Std.ExtTreeMap K V cmp} {k : K} (h : k ∈ t) :
    (t.erase k).size = t.size - 1 := by
  rw [Std.ExtTreeMap.size_erase]
  exact if_pos h

theorem set_size_insert_of_not_mem {t : Std.ExtTreeSet K cmp} {k : K} (h : k ∉ t) :
    (t.insert k).size = t.size + 1 := by
  rw [Std.ExtTreeSet.size_insert]
  exact if_neg h

theorem set_size_erase_of_mem {t : Std.ExtTreeSet K cmp} {k : K} (h : k ∈ t) :
    (t.erase k).size = t.size - 1 := by
  rw [Std.ExtTreeSet.size_erase]
  exact if_pos h

theorem set_size_pos {t : Std.ExtTreeSet K cmp} {k : K} (h : k ∈ t) : 0 < t.size :=
  Nat.pos_of_ne_zero fun h0 =>
    Std.ExtTreeSet.ne_empty_of_mem h (Std.ExtTreeSet.eq_empty_iff_size_eq_zero.mpr h0)

end

end StarCraftIocp.Table
