import Mathlib.Tactic.Common
import Mathlib.Data.List.Basic

/-!
# Streams of length-prefixed frames

A sender writes frames back to back on a byte stream; a receiver sees the stream
in pieces that need not respect the frame boundaries. What makes this work is
that the length of a frame can be read off its own first few elements. Nothing
else about the format matters here, so it is a parameter.

The central notion is `Splits bs fs r`: the stream `bs` is the complete frames
`fs` followed by a rest `r` from which no further frame can be taken. A split is
unique, and splitting commutes with the arrival of more data, which is why a
receiver that keeps its rest between reads sees the frames the sender wrote.
-/

namespace StarCraftIocp

/-- A frame format: the first `header` elements determine the frame's total length. -/
structure Framing (α : Type) where
  /-- The number of elements that have to be present before the length is known. -/
  header : Nat
  /-- The total length of the frame at the head of a stream. -/
  size : List α → Nat
  /-- A header is never empty. -/
  header_pos : 0 < header
  /-- Only the header is looked at. -/
  size_append : ∀ a b : List α, header ≤ a.length → size (a ++ b) = size a

namespace Framing

variable {α : Type} (F : Framing α)

/-- A complete frame holds its header and is as long as the header says. -/
structure IsFrame (f : List α) : Prop where
  /-- The header is there. -/
  header_le : F.header ≤ f.length
  /-- The length is the announced one. -/
  size_eq : F.size f = f.length

/-- No frame can be taken off the head of `r`: its header or its body is unfinished. -/
def Pending (r : List α) : Prop := r.length < F.header ∨ r.length < F.size r

/-- The stream `bs` is the complete frames `fs`, then an unfinished rest `r`. -/
structure Splits (bs : List α) (fs : List (List α)) (r : List α) : Prop where
  /-- Nothing is lost or reordered. -/
  eq : bs = fs.flatten ++ r
  /-- Every frame is complete. -/
  frames : ∀ f ∈ fs, F.IsFrame f
  /-- The rest is not. -/
  pending : F.Pending r

/-- The frames of `fs` whose last element is among the first `n` of the stream. -/
def arrived : List (List α) → Nat → List (List α)
  | [], _ => []
  | f :: fs, n => if f.length ≤ n then f :: arrived fs (n - f.length) else []

variable {F}

theorem IsFrame.length_pos {f : List α} (h : F.IsFrame f) : 0 < f.length :=
  Nat.lt_of_lt_of_le F.header_pos h.header_le

theorem pending_nil : F.Pending ([] : List α) := Or.inl F.header_pos

/-- A frame at the head of a stream is read as that frame, whatever follows it. -/
theorem IsFrame.size_append {f : List α} (h : F.IsFrame f) (r : List α) :
    F.size (f ++ r) = f.length := by
  rw [F.size_append f r h.header_le, h.size_eq]

theorem IsFrame.not_pending {f : List α} (h : F.IsFrame f) (r : List α) :
    ¬ F.Pending (f ++ r) := by
  have hh := h.header_le
  have hs := h.size_append r
  simp only [Pending, List.length_append]
  omega

/-- An unfinished rest stays unfinished when elements are taken off its end. -/
theorem Pending.of_append {p q : List α} (h : F.Pending (p ++ q)) : F.Pending p := by
  rcases Nat.lt_or_ge p.length F.header with hp | hp
  · exact Or.inl hp
  · right
    rcases h with h | h
    · rw [List.length_append] at h; omega
    · rw [F.size_append p q hp, List.length_append] at h; omega

/-- A frame with its last elements missing is unfinished. -/
theorem IsFrame.pending_of_append {p q : List α} (h : F.IsFrame (p ++ q)) (hq : q ≠ []) :
    F.Pending p := by
  rcases Nat.lt_or_ge p.length F.header with hp | hp
  · exact Or.inl hp
  · right
    have hs := h.size_eq
    rw [F.size_append p q hp, List.length_append] at hs
    have := List.length_pos_iff.mpr hq
    omega

/-! ## Splits are unique -/

/-- Two frames at the head of one stream are the same frame. -/
theorem IsFrame.head_unique {f g r s : List α} (hf : F.IsFrame f) (hg : F.IsFrame g)
    (h : f ++ r = g ++ s) : f = g ∧ r = s := by
  have hlen : f.length = g.length := by
    rw [← hf.size_append r, h, hg.size_append s]
  exact List.append_inj h hlen

theorem splits_unique {bs : List α} {fs gs : List (List α)} {r s : List α}
    (h : F.Splits bs fs r) (h' : F.Splits bs gs s) : fs = gs ∧ r = s := by
  induction fs generalizing bs gs with
  | nil =>
      have hr : bs = r := by simpa using h.eq
      cases gs with
      | nil => exact ⟨rfl, by rw [← hr]; simpa using h'.eq⟩
      | cons g gs =>
          exfalso
          refine (h'.frames g (by simp)).not_pending (gs.flatten ++ s) ?_
          have : g ++ (gs.flatten ++ s) = r := by rw [← hr, h'.eq]; simp
          rw [this]; exact h.pending
  | cons f fs ih =>
      cases gs with
      | nil =>
          exfalso
          refine (h.frames f (by simp)).not_pending (fs.flatten ++ r) ?_
          have : f ++ (fs.flatten ++ r) = s := by
            have := h.eq.symm.trans h'.eq; simpa using this
          rw [this]; exact h'.pending
      | cons g gs =>
          have heq : f ++ (fs.flatten ++ r) = g ++ (gs.flatten ++ s) := by
            have := h.eq.symm.trans h'.eq; simpa using this
          obtain ⟨hfg, hrest⟩ :=
            IsFrame.head_unique (h.frames f (by simp)) (h'.frames g (by simp)) heq
          obtain ⟨hfs, hrs⟩ := @ih (fs.flatten ++ r) gs
            ⟨rfl, fun x hx => h.frames x (by simp [hx]), h.pending⟩
            ⟨hrest, fun x hx => h'.frames x (by simp [hx]), h'.pending⟩
          exact ⟨by rw [hfg, hfs], hrs⟩

/-! ## Splitting and the arrival of more data -/

/-- Splitting what was left over together with new data continues the old split. -/
theorem Splits.append {bs c : List α} {fs gs : List (List α)} {r s : List α}
    (h : F.Splits bs fs r) (h' : F.Splits (r ++ c) gs s) :
    F.Splits (bs ++ c) (fs ++ gs) s where
  eq := by rw [h.eq, List.append_assoc, h'.eq]; simp
  frames := by
    intro f hf
    rcases List.mem_append.mp hf with hf | hf
    · exact h.frames f hf
    · exact h'.frames f hf
  pending := h'.pending

/-- The frames of a split are exactly what was taken before the rest, so the rest can be resumed. -/
theorem Splits.resume {bs c : List α} {fs gs : List (List α)} {r s : List α}
    (h : F.Splits bs fs r) (h' : F.Splits (bs ++ c) gs s) :
    ∃ hs, gs = fs ++ hs ∧ F.Splits (r ++ c) hs s := by
  induction fs generalizing bs gs with
  | nil => exact ⟨gs, rfl, by have := h.eq; simp at this; subst this; exact h'⟩
  | cons f fs ih =>
      have hf := h.frames f (by simp)
      have hbs : bs ++ c = f ++ (fs.flatten ++ r ++ c) := by rw [h.eq]; simp
      cases gs with
      | nil =>
          exfalso
          refine hf.not_pending (fs.flatten ++ r ++ c) ?_
          rw [← hbs, h'.eq]; simpa using h'.pending
      | cons g gs =>
          have heq : f ++ (fs.flatten ++ r ++ c) = g ++ (gs.flatten ++ s) := by
            rw [← hbs, h'.eq]; simp
          obtain ⟨hfg, hrest⟩ := IsFrame.head_unique hf (h'.frames g (by simp)) heq
          obtain ⟨hs, hgs, hsp⟩ := @ih (fs.flatten ++ r) gs
            ⟨rfl, fun x hx => h.frames x (by simp [hx]), h.pending⟩
            ⟨hrest, fun x hx => h'.frames x (by simp [hx]), h'.pending⟩
          exact ⟨hs, by rw [hfg, hgs]; rfl, hsp⟩

theorem mem_of_mem_arrived {f : List α} : ∀ {fs : List (List α)} {n : Nat},
    f ∈ arrived fs n → f ∈ fs := by
  intro fs
  induction fs with
  | nil => intro n h; simp [arrived] at h
  | cons g fs ih =>
      intro n h
      unfold arrived at h
      split at h
      · rcases List.mem_cons.mp h with h | h
        · simp [h]
        · exact List.mem_cons_of_mem _ (ih h)
      · simp at h

/-- **A prefix of a stream that splits** splits into the frames that have arrived whole. -/
theorem Splits.of_append : ∀ {fs : List (List α)} {bs cs r : List α},
    F.Splits (bs ++ cs) fs r →
    F.Splits bs (arrived fs bs.length)
      (bs.drop (arrived fs bs.length).flatten.length) := by
  intro fs
  induction fs with
  | nil =>
      intro bs cs r h
      have hr : bs ++ cs = r := by simpa using h.eq
      have hp : F.Pending (bs ++ cs) := hr ▸ h.pending
      exact ⟨by simp [arrived], by simp [arrived], by simpa [arrived] using hp.of_append⟩
  | cons f fs ih =>
      intro bs cs r h
      have hf := h.frames f (by simp)
      have heq : bs ++ cs = f ++ (fs.flatten ++ r) := by rw [h.eq]; simp
      rcases List.append_eq_append_iff.mp heq with ⟨q, hq, _⟩ | ⟨bs', hbs', h'⟩
      · by_cases hne : q = []
        · -- the data ends exactly at the end of the first frame
          have hb : bs = f := by rw [hq, hne]; simp
          subst hb
          have harr : arrived (bs :: fs) bs.length = [bs] := by
            cases fs with
            | nil => simp [arrived]
            | cons g gs =>
                have hg : g ≠ [] := List.length_pos_iff.mp (h.frames g (by simp)).length_pos
                simp [arrived, hg]
          rw [harr]
          exact ⟨by simp, by simpa using hf, by simpa using pending_nil⟩
        · -- the first frame is still incomplete
          have hlt : ¬ f.length ≤ bs.length := by
            have := List.length_pos_iff.mpr hne
            rw [hq, List.length_append]; omega
          rw [show arrived (f :: fs) bs.length = [] by simp [arrived, hlt]]
          exact ⟨by simp, by simp, by simpa using (hq ▸ hf).pending_of_append hne⟩
      · -- the first frame is whole: take it off and split what follows
        subst hbs'
        have hsp := @ih bs' cs r
          ⟨h'.symm, fun x hx => h.frames x (by simp [hx]), h.pending⟩
        rw [show arrived (f :: fs) (f ++ bs').length = f :: arrived fs bs'.length by
          simp [arrived]]
        refine ⟨?_, ?_, by simpa using hsp.pending⟩
        · conv_lhs => rw [hsp.eq]
          simp
        · intro x hx
          rcases List.mem_cons.mp hx with rfl | hx
          · exact hf
          · exact hsp.frames x hx

/-- A concatenation of complete frames splits into just these frames. -/
theorem splits_flatten {fs : List (List α)} (h : ∀ f ∈ fs, F.IsFrame f) :
    F.Splits fs.flatten fs [] :=
  ⟨by simp, h, pending_nil⟩

/-- What is cut off a stream of frames that is cut short are its first frames. -/
theorem Splits.isPrefix {bs rest : List α} {fs gs : List (List α)} (h : F.Splits bs gs rest)
    (hfs : ∀ f ∈ fs, F.IsFrame f) (hpre : bs <+: fs.flatten) : gs <+: fs := by
  obtain ⟨more, hmore⟩ := hpre
  obtain ⟨later, hlater, -⟩ := h.resume (hmore ▸ splits_flatten hfs)
  rw [hlater]
  exact List.prefix_append _ _

end Framing

end StarCraftIocp
