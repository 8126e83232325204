import Mathlib.Algebra.Order.BigOperators.Group.Finset
import Mathlib.Algebra.Order.Field.Basic
import Mathlib.Data.Prod.Lex
import Mathlib.Logic.Relation
import Mathlib.Tactic.Linarith

/-!
# Shortest paths by labels

A search for a shortest path gives the vertices labels: how far a vertex is from the
root on the best path so far, and from where that path comes. Edges cost at least
one, so that the parents of a vertex lead back to the root, however often labels
are replaced on the way. What a best-first search relies on is that on every walk
the first vertex that is not closed has a label that is right.
-/

namespace StarCraftIocp

open Relation

variable {α K : Type}

/-! ## Walks -/

section Walks

variable [Field K] (edge : α → α → Prop) (cost : α → α → K)

/-- The vertices on the way from one to another. -/
inductive Walk : α → α → List α → Prop
  | single (a : α) : Walk a a [a]
  | cons {a b c : α} {l : List α} : edge a b → Walk b c l → Walk a c (a :: l)

/-- What the edges of a walk cost. -/
def walkCost : List α → K
  | [] => 0
  | [_] => 0
  | a :: b :: l => cost a b + walkCost (b :: l)

variable {edge cost} {a b c : α} {l : List α}

namespace Walk

theorem exists_eq_cons (h : Walk edge a b l) : ∃ l', l = a :: l' := by
  cases h with
  | single => exact ⟨[], rfl⟩
  | cons _ _ => exact ⟨_, rfl⟩

theorem walkCost_cons (h : Walk edge b c l) : walkCost cost (a :: l) = cost a b + walkCost cost l := by
  obtain ⟨l', rfl⟩ := h.exists_eq_cons
  rfl

theorem concat (h : Walk edge a b l) (hedge : edge b c) : Walk edge a c (l ++ [c]) := by
  induction h with
  | single b => exact .cons hedge (.single c)
  | cons hstep _ ih => exact .cons hstep (ih hedge)

theorem walkCost_concat (h : Walk edge a b l) : walkCost cost (l ++ [c]) = walkCost cost l + cost b c := by
  induction h with
  | single b =>
      change cost b c + 0 = 0 + cost b c
      rw [add_zero, zero_add]
  | @cons a b' b l hstep hrest ih =>
      obtain ⟨l', rfl⟩ := hrest.exists_eq_cons
      change cost a b' + walkCost cost ((b' :: l') ++ [c]) = cost a b' + walkCost cost (b' :: l') + cost b c
      rw [ih, add_assoc]

theorem head?_eq (h : Walk edge a b l) : l.head? = some a := by
  obtain ⟨l', rfl⟩ := h.exists_eq_cons
  rfl

theorem getLast?_eq (h : Walk edge a b l) : l.getLast? = some b := by
  induction h with
  | single => rfl
  | cons _ hrest ih =>
      obtain ⟨l', rfl⟩ := hrest.exists_eq_cons
      rw [List.getLast?_cons_cons]
      exact ih

theorem isChain (h : Walk edge a b l) : l.IsChain edge := by
  induction h with
  | single a => exact .singleton a
  | cons hstep hrest ih =>
      obtain ⟨l', rfl⟩ := hrest.exists_eq_cons
      exact List.isChain_cons_cons.mpr ⟨hstep, ih⟩

end Walk

theorem exists_walk_iff : (∃ l, Walk edge a b l) ↔ ReflTransGen edge a b := by
  constructor
  · intro hwalk
    obtain ⟨l, h⟩ := hwalk
    induction h with
    | single => exact .refl
    | cons hstep _ ih => exact ih.head hstep
  · intro h
    induction h with
    | refl => exact ⟨[a], .single a⟩
    | tail _ hstep ih =>
        obtain ⟨l, hl⟩ := ih
        exact ⟨_, hl.concat hstep⟩

variable [LinearOrder K] [IsStrictOrderedRing K]

/-- A bound on the cost to a goal that no edge corrects upwards. -/
def Consistent (edge : α → α → Prop) (cost : α → α → K) (h : α → K) : Prop :=
  ∀ a b, edge a b → h a ≤ cost a b + h b

/-- It is a bound. -/
theorem Consistent.le_walkCost {h : α → K} (hh : Consistent edge cost h) (hl : Walk edge a b l) :
    h a ≤ walkCost cost l + h b := by
  induction hl with
  | single a => exact (zero_add (h a)).ge
  | @cons a b' b l hstep hrest ih =>
      rw [hrest.walkCost_cons, add_assoc]
      exact (hh a b' hstep).trans (add_le_add_right ih _)

end Walks

/-! ## Labels -/

section Labels

/-- The parents of a vertex, up to the root. -/
def traceBack (entry : α → Option (K × Option α)) : ℕ → α → Option (List α)
  | 0, _ => none
  | fuel + 1, c =>
      match entry c with
      | none => none
      | some (_, none) => some [c]
      | some (_, some a) => (traceBack entry fuel a).map fun out => c :: out

theorem traceBack_succ {entry : α → Option (K × Option α)} {fuel : ℕ} {c : α} {out : List α}
    (h : traceBack entry fuel c = some out) :
    traceBack entry (fuel + 1) c = some out := by
  induction fuel generalizing c out with
  | zero => cases h
  | succ fuel ih =>
      unfold traceBack at h ⊢
      cases hc : entry c with
      | none =>
          rw [hc] at h
          cases h
      | some e =>
          rw [hc] at h
          obtain ⟨g, p⟩ := e
          cases p with
          | none => exact h
          | some a =>
              obtain ⟨out', hout, rfl⟩ := Option.map_eq_some_iff.mp h
              exact Option.map_eq_some_iff.mpr ⟨out', ih hout, rfl⟩

variable [DecidableEq α] [Field K] [LinearOrder K] [IsStrictOrderedRing K] (edge : α → α → Prop)
  (cost : α → α → K)

/--
The labels of a search from `root`. A label was right when its vertex was reached;
since then the label of the parent may have become better.
-/
structure Linked (root : α) (entry : α → Option (K × Option α)) : Prop where
  atRoot : entry root = some (0, none)
  nonneg : ∀ {c g p}, entry c = some (g, p) → 0 ≤ g
  parent : ∀ {c g p}, entry c = some (g, p) → c ≠ root → ∃ a ga pa, p = some a ∧ edge a c ∧
    entry a = some (ga, pa) ∧ ga + cost a c ≤ g

variable {edge cost} {root : α} {entry : α → Option (K × Option α)}

namespace Linked

omit [IsStrictOrderedRing K] in
theorem of_root (root : α) :
    Linked edge cost root (Function.update (fun _ => none) root (some (0, none))) := by
  have hcases : ∀ {c : α} {g : K} {p : Option α},
      Function.update (fun _ => none) root (some ((0 : K), none)) c = some (g, p) → c = root ∧ g = 0 := by
    intro c g p hc
    by_cases hroot : c = root
    · subst hroot
      rw [Function.update_self] at hc
      obtain ⟨rfl, -⟩ := Prod.mk.inj (Option.some.inj hc)
      exact ⟨rfl, rfl⟩
    · rw [Function.update_of_ne hroot] at hc
      cases hc
  refine ⟨Function.update_self .., ?_, ?_⟩
  · intro c g p hc
    exact (hcases hc).2.ge
  · intro c g p hc hroot
    exact absurd (hcases hc).1 hroot

/-- The label of a vertex is replaced by a better one. -/
theorem relax (h : Linked edge cost root entry) (hcost : ∀ a b, edge a b → 0 < cost a b) {a c : α} {ga g : K}
    {pa : Option α} (hedge : edge a c) (ha : entry a = some (ga, pa)) (hle : ga + cost a c ≤ g)
    (hbetter : ∀ g' p', entry c = some (g', p') → g < g') :
    Linked edge cost root (Function.update entry c (some (g, some a))) := by
  have hnonneg : 0 ≤ g := (add_nonneg (h.nonneg ha) (hcost a c hedge).le).trans hle
  have hroot : root ≠ c := by
    intro heq
    subst heq
    exact absurd (hbetter 0 none h.atRoot) hnonneg.not_gt
  have hne : a ≠ c := by
    intro heq
    subst heq
    have := hbetter ga pa ha
    have := hcost a a hedge
    linarith
  refine ⟨?_, ?_, ?_⟩
  · rw [Function.update_of_ne hroot]
    exact h.atRoot
  · intro x gx p hx
    by_cases hxc : x = c
    · subst hxc
      rw [Function.update_self] at hx
      obtain ⟨rfl, -⟩ := Prod.mk.inj (Option.some.inj hx)
      exact hnonneg
    · rw [Function.update_of_ne hxc] at hx
      exact h.nonneg hx
  · intro x gx p hx hxroot
    by_cases hxc : x = c
    · subst hxc
      rw [Function.update_self] at hx
      obtain ⟨rfl, rfl⟩ := Prod.mk.inj (Option.some.inj hx)
      refine ⟨a, ga, pa, rfl, hedge, ?_, hle⟩
      rw [Function.update_of_ne hne]
      exact ha
    · rw [Function.update_of_ne hxc] at hx
      obtain ⟨b, gb, pb, rfl, hstep, hb, hsum⟩ := h.parent hx hxroot
      by_cases hbc : b = c
      · -- the parent is the vertex whose label became better
        subst hbc
        exact ⟨b, g, some a, rfl, hstep, Function.update_self .., by linarith [hbetter gb pb hb]⟩
      · refine ⟨b, gb, pb, rfl, hstep, ?_, hsum⟩
        rw [Function.update_of_ne hbc]
        exact hb

/--
The way back is a walk from the root, of no more than the label says; along it the
labels get smaller, so that no vertex is on it twice.
-/
theorem walk_traceBack (h : Linked edge cost root entry) (hcost : ∀ a b, edge a b → 0 < cost a b) {fuel : ℕ}
    {c : α} {out : List α} (hout : traceBack entry fuel c = some out) {g : K} {p : Option α}
    (hc : entry c = some (g, p)) :
    Walk edge root c out.reverse ∧ walkCost cost out.reverse ≤ g ∧ out.Nodup ∧
      ∀ x ∈ out, ∃ gx px, entry x = some (gx, px) ∧ gx ≤ g := by
  induction fuel generalizing c out g p with
  | zero => cases hout
  | succ fuel ih =>
      unfold traceBack at hout
      rw [hc] at hout
      by_cases hroot : c = root
      · subst hroot
        rw [h.atRoot] at hc
        obtain ⟨rfl, rfl⟩ := Prod.mk.inj (Option.some.inj hc)
        obtain rfl := Option.some.inj hout
        refine ⟨.single c, le_refl 0, List.nodup_singleton c, ?_⟩
        intro x hx
        obtain rfl := List.mem_singleton.mp hx
        exact ⟨0, none, h.atRoot, le_refl 0⟩
      · obtain ⟨a, ga, pa, rfl, hedge, ha, hle⟩ := h.parent hc hroot
        obtain ⟨out', hout', rfl⟩ := Option.map_eq_some_iff.mp hout
        obtain ⟨hwalk, hsum, hnodup, hlabels⟩ := ih hout' ha
        have hpos := hcost a c hedge
        rw [List.reverse_cons]
        refine ⟨hwalk.concat hedge, ?_, ?_, ?_⟩
        · rw [hwalk.walkCost_concat]
          linarith
        · refine List.nodup_cons.mpr ⟨?_, hnodup⟩
          intro hmem
          obtain ⟨gx, px, hx, hxle⟩ := hlabels c hmem
          rw [hc] at hx
          obtain ⟨rfl, -⟩ := Prod.mk.inj (Option.some.inj hx)
          linarith
        · intro x hx
          rcases List.mem_cons.mp hx with rfl | hx
          · exact ⟨g, some a, hc, le_refl g⟩
          · obtain ⟨gx, px, hx, hxle⟩ := hlabels x hx
            exact ⟨gx, px, hx, by linarith⟩

omit [DecidableEq α] in
/-- The way back is no longer than the label says. -/
theorem isSome_traceBack (h : Linked edge cost root entry) (hcost : ∀ a b, edge a b → 1 ≤ cost a b) {fuel : ℕ}
    {c : α} {g : K} {p : Option α} (hc : entry c = some (g, p)) (hfuel : g < fuel) :
    (traceBack entry fuel c).isSome := by
  induction fuel generalizing c g p with
  | zero =>
      rw [Nat.cast_zero] at hfuel
      exact absurd (h.nonneg hc) hfuel.not_ge
  | succ fuel ih =>
      unfold traceBack
      rw [hc]
      cases p with
      | none => rfl
      | some a =>
          have hroot : c ≠ root := by
            intro heq
            subst heq
            rw [h.atRoot] at hc
            cases hc
          obtain ⟨a', ga, pa, heq, hedge, ha, hle⟩ := h.parent hc hroot
          obtain rfl := Option.some.inj heq
          dsimp only
          rw [Option.isSome_map]
          refine ih ha ?_
          have := hcost a c hedge
          push_cast at hfuel
          linarith

end Linked

/-! ## Closed vertices -/

/--
The edges of closed vertices have been looked at: where they lead has a label which is
not worse. Edges that are `waived` are still to be looked at.
-/
def Relaxed (edge : α → α → Prop) (cost : α → α → K) (waived : α → α → Prop) (closed : α → Prop)
    (entry : α → Option (K × Option α)) : Prop :=
  ∀ a b g p, closed a → entry a = some (g, p) → edge a b → ¬ waived a b →
    ∃ g' p', entry b = some (g', p') ∧ g' ≤ g + cost a b

namespace Relaxed

variable {waived : α → α → Prop} {closed : α → Prop}

omit [DecidableEq α] in
/-- On a walk from a vertex with a label to one that is not closed, there is a first vertex that is not. -/
theorem exists_frontier (h : Relaxed edge cost (fun _ _ => False) closed entry) {a z : α} {l : List α}
    (hl : Walk edge a z l) (hz : ¬ closed z) {g : K} {p : Option α} (ha : entry a = some (g, p)) :
    ∃ b gb pb l', ¬ closed b ∧ entry b = some (gb, pb) ∧ Walk edge b z l' ∧
      gb + walkCost cost l' ≤ g + walkCost cost l := by
  induction hl generalizing g p with
  | single z => exact ⟨z, g, p, [z], hz, ha, .single z, le_refl _⟩
  | @cons a b z l hedge hrest ih =>
      by_cases hclosed : closed a
      · obtain ⟨gb, pb, hb, hle⟩ := h _ _ _ _ hclosed ha hedge not_false
        obtain ⟨b', gb', pb', l', hopen, hb', hl', hsum⟩ := ih hz hb
        refine ⟨b', gb', pb', l', hopen, hb', hl', ?_⟩
        rw [hrest.walkCost_cons]
        linarith
      · exact ⟨a, g, p, _, hclosed, ha, .cons hedge hrest, le_refl _⟩

omit [IsStrictOrderedRing K] in
/-- A label becomes better, and its vertex is opened again. -/
theorem relax (h : Relaxed edge cost waived closed entry) {c : α} {g : K} {p : Option α}
    (hbetter : ∀ g' p', entry c = some (g', p') → g < g') :
    Relaxed edge cost waived (fun x => x ≠ c ∧ closed x) (Function.update entry c (some (g, p))) := by
  intro a b ga pa hkept ha hedge hwaived
  obtain ⟨hac, hclosed⟩ := hkept
  rw [Function.update_of_ne hac] at ha
  obtain ⟨gb, pb, hb, hle⟩ := h _ _ _ _ hclosed ha hedge hwaived
  by_cases hbc : b = c
  · subst hbc
    exact ⟨g, p, Function.update_self .., (hbetter gb pb hb).le.trans hle⟩
  · refine ⟨gb, pb, ?_, hle⟩
    rw [Function.update_of_ne hbc]
    exact hb

omit [DecidableEq α] [IsStrictOrderedRing K] in
/-- A vertex is closed, and its edges are still to be looked at. -/
theorem close (h : Relaxed edge cost (fun _ _ => False) closed entry) {c : α}
    (hwaived : ∀ b, edge c b → waived c b) :
    Relaxed edge cost waived (fun x => x = c ∨ closed x) entry := by
  intro a b g p ha' ha hedge hnot
  rcases ha' with rfl | hclosed
  · -- the edges of the vertex itself are waived
    exact absurd (hwaived b hedge) hnot
  · exact h _ _ _ _ hclosed ha hedge not_false

omit [DecidableEq α] [IsStrictOrderedRing K] in
/-- Edges are looked at, and where they lead has a label that will do. -/
theorem discharge (h : Relaxed edge cost waived closed entry) {waived' : α → α → Prop}
    (hlooked : ∀ {a b g p}, waived a b → ¬ waived' a b → entry a = some (g, p) → edge a b →
      ∃ g' p', entry b = some (g', p') ∧ g' ≤ g + cost a b) : Relaxed edge cost waived' closed entry := by
  intro a b g p hclosed ha hedge hnot
  by_cases hwaived : waived a b
  · exact hlooked hwaived hnot ha hedge
  · exact h _ _ _ _ hclosed ha hedge hwaived

end Relaxed

/-! ## Labels that only get better -/

/-- How many vertices have no label, and how far the labels are above zero. -/
def remaining (vertices : Finset α) (dist : α → Option ℕ) : ℕ ×ₗ ℕ :=
  toLex ((vertices.filter fun c => dist c = none).card, ∑ c ∈ vertices, (dist c).getD 0)

theorem remaining_update_lt {vertices : Finset α} {dist : α → Option ℕ} {c : α} (hc : c ∈ vertices) {n : ℕ}
    (hbetter : ∀ n', dist c = some n' → n < n') :
    remaining vertices (Function.update dist c (some n)) < remaining vertices dist := by
  unfold remaining
  rw [Prod.Lex.toLex_lt_toLex]
  cases hold : dist c with
  | none =>
      refine .inl (Finset.card_lt_card (Finset.ssubset_iff_of_subset ?_ |>.mpr ⟨c, ?_, ?_⟩))
      · intro x hx
        obtain ⟨hx, hnone⟩ := Finset.mem_filter.mp hx
        have hxc : x ≠ c := by
          intro heq
          subst heq
          rw [Function.update_self] at hnone
          cases hnone
        rw [Function.update_of_ne hxc] at hnone
        exact Finset.mem_filter.mpr ⟨hx, hnone⟩
      · exact Finset.mem_filter.mpr ⟨hc, hold⟩
      · intro hx
        have := (Finset.mem_filter.mp hx).2
        rw [Function.update_self] at this
        cases this
  | some n' =>
      refine .inr ⟨congrArg Finset.card (Finset.filter_congr ?_), Finset.sum_lt_sum ?_ ⟨c, hc, ?_⟩⟩
      · intro x _
        by_cases hxc : x = c
        · subst hxc
          rw [Function.update_self, hold]
          exact ⟨nofun, nofun⟩
        · rw [Function.update_of_ne hxc]
      · intro x _
        by_cases hxc : x = c
        · subst hxc
          rw [Function.update_self, hold]
          exact (hbetter n' hold).le
        · rw [Function.update_of_ne hxc]
      · rw [Function.update_self, hold]
        exact hbetter n' hold

end Labels

end StarCraftIocp
