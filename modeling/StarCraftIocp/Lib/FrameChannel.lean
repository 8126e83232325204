import StarCraftIocp.Lib.Framing

/-!
# Frames on their way over a stream

A sender writes frames on a byte stream, and a receiver cuts them off what has
arrived, in whatever pieces. Of such a channel only this matters: the frames that
have not been cut off yet, whose bytes are in part with the receiver and in part
under way.
-/

namespace StarCraftIocp.Framing

variable {α : Type} {F : Framing α} {rest wire chunk : List α} {frames : List (List α)}

/-- An unfinished rest with the receiver, and what is under way, are the bytes of these frames. -/
structure Carries (F : Framing α) (rest wire : List α) (frames : List (List α)) : Prop where
  eq : rest ++ wire = frames.flatten
  frames : ∀ f ∈ frames, F.IsFrame f
  pending : F.Pending rest

theorem Carries.nil : F.Carries [] [] [] := ⟨rfl, nofun, pending_nil⟩

/-- A frame is sent. -/
theorem Carries.send (h : F.Carries rest wire frames) {f : List α} (hf : F.IsFrame f) :
    F.Carries rest (wire ++ f) (frames ++ [f]) where
  eq := by rw [← List.append_assoc, h.eq, List.flatten_append, List.flatten_singleton]
  frames := fun g hg => (List.mem_append.mp hg).elim (h.frames g) fun hg => List.mem_singleton.mp hg ▸ hf
  pending := h.pending

/-- Some frames are sent. -/
theorem Carries.sendAll (h : F.Carries rest wire frames) {fs : List (List α)} (hfs : ∀ f ∈ fs, F.IsFrame f) :
    F.Carries rest (wire ++ fs.flatten) (frames ++ fs) := by
  induction fs generalizing wire frames with
  | nil => simpa using h
  | cons f fs ih =>
      have hsent := ih (h.send (hfs f List.mem_cons_self)) fun g hg => hfs g (List.mem_cons_of_mem _ hg)
      rw [List.append_assoc, List.append_assoc] at hsent
      exact hsent

/-- A piece arrives: the receiver cuts off the frames that are whole now. -/
theorem Carries.arrive (h : F.Carries rest (chunk ++ wire) frames) :
    ∃ new later rest', frames = new ++ later ∧ F.Splits (rest ++ chunk) new rest' ∧ F.Carries rest' wire later := by
  have hwhole : F.Splits ((rest ++ chunk) ++ wire) frames [] := by
    rw [List.append_assoc, h.eq]
    exact splits_flatten h.frames
  have hsplits := hwhole.of_append
  obtain ⟨later, hlater, hresume⟩ := hsplits.resume hwhole
  have heq := hresume.eq
  rw [List.append_nil] at heq
  exact ⟨_, later, _, hlater, hsplits, heq, hresume.frames, hsplits.pending⟩

/-- When there are no bytes, there are no frames. -/
theorem Carries.eq_nil (h : F.Carries [] [] frames) : frames = [] := by
  cases frames with
  | nil => rfl
  | cons f frames =>
      have hpos := (h.frames f List.mem_cons_self).length_pos
      have hlen := congrArg List.length h.eq
      rw [List.flatten_cons, List.length_append, List.length_append] at hlen
      simp only [List.length_nil] at hlen
      omega

end StarCraftIocp.Framing
