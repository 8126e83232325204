import StarCraftIocp.Lib.Bytes

/-!
# Files of tagged chunks

A chunk is a 16-bit code, a 32-bit length and that many bytes; a file is one chunk
after the other. What a reader finds that stands at the beginning of a chunk.
-/

namespace StarCraftIocp

structure Chunk where
  code : Nat
  body : List UInt8
  deriving Repr, DecidableEq

namespace Chunk

def encode (c : Chunk) : List UInt8 := Bytes.le16 c.code ++ Bytes.le32 c.body.length ++ c.body

/-- Code and length fit in their fields; the length does not look negative. -/
structure Valid (c : Chunk) : Prop where
  code : c.code < 65536
  length : c.body.length < 2147483648

theorem length_encode (c : Chunk) : c.encode.length = 6 + c.body.length := by
  simp only [encode, List.length_append, Bytes.length_le16, Bytes.length_le32]

/-- A chunk of a file is not longer than the file. -/
theorem length_body_le {c : Chunk} {cs : List Chunk} (hc : c ∈ cs) :
    c.body.length ≤ (cs.flatMap encode).length := by
  obtain ⟨s, t, rfl⟩ := List.append_of_mem hc
  rw [List.flatMap_append, List.flatMap_cons, List.length_append, List.length_append, c.length_encode]
  omega

/-- Every chunk takes up bytes. -/
theorem length_le_flatMap (cs : List Chunk) : cs.length ≤ (cs.flatMap encode).length := by
  induction cs with
  | nil => exact Nat.zero_le _
  | cons c cs ih =>
      rw [List.flatMap_cons, List.length_append, c.length_encode, List.length_cons]
      omega

section

variable {σ β : Type} (step : σ → Chunk → σ) (view : σ → β) {code : Nat}
  (hframe : ∀ s (c : Chunk), c.code ≠ code → view (step s c) = view s)

include hframe

/-- What depends on one code only is not changed by chunks with others. -/
theorem foldl_frame {cs : List Chunk} (h : code ∉ cs.map Chunk.code) (s : σ) :
    view (cs.foldl step s) = view s := by
  induction cs generalizing s with
  | nil => rfl
  | cons c cs ih =>
      rw [List.map_cons, List.mem_cons, not_or] at h
      rw [List.foldl_cons, ih h.2, hframe s c (Ne.symm h.1)]

/-- The one chunk with a code has the last word on what depends on the code. -/
theorem foldl_unique {cs : List Chunk} (hnodup : (cs.map Chunk.code).Nodup) {body : List UInt8}
    (hmem : Chunk.mk code body ∈ cs) (s : σ) :
    ∃ s', view s' = view s ∧ view (cs.foldl step s) = view (step s' ⟨code, body⟩) := by
  induction cs generalizing s with
  | nil => cases hmem
  | cons c cs ih =>
      rw [List.map_cons, List.nodup_cons] at hnodup
      rcases List.mem_cons.mp hmem with rfl | hmem
      · exact ⟨s, rfl, foldl_frame step view hframe hnodup.1 _⟩
      · have hne : c.code ≠ code := fun heq => hnodup.1 (List.mem_map.mpr ⟨_, hmem, heq.symm⟩)
        obtain ⟨s', hview, hlast⟩ := ih hnodup.2 hmem (step s c)
        exact ⟨s', hview.trans (hframe s c hne), hlast⟩

end

variable {c : Chunk} (h : c.Valid) (pre rest : List UInt8)

include h

theorem readLe16_encode : Bytes.readLe16 (pre ++ (c.encode ++ rest)) pre.length = c.code := by
  have := Bytes.readLe16_le16 h.code pre (Bytes.le32 c.body.length ++ c.body ++ rest)
  simpa only [encode, List.append_assoc] using this

theorem readLe32_encode :
    Bytes.readLe32 (pre ++ (c.encode ++ rest)) (pre.length + 2) = c.body.length := by
  have hlen : c.body.length < 4294967296 := by
    have := h.length
    omega
  have hshift : pre ++ (c.encode ++ rest)
      = (pre ++ Bytes.le16 c.code) ++ (Bytes.le32 c.body.length ++ (c.body ++ rest)) := by
    simp only [encode, List.append_assoc]
  have hread := Bytes.readLe32_append_right (pre ++ Bytes.le16 c.code)
    (Bytes.le32 c.body.length ++ (c.body ++ rest)) 0
  rw [Bytes.readLe32_le32 hlen, List.length_append, Bytes.length_le16] at hread
  rw [hshift]
  exact hread

omit h in
theorem slice_encode : Bytes.slice (pre ++ (c.encode ++ rest)) (pre.length + 6) c.body.length = c.body := by
  have hshift : pre ++ (c.encode ++ rest)
      = (pre ++ (Bytes.le16 c.code ++ Bytes.le32 c.body.length)) ++ (c.body ++ rest) := by
    simp only [encode, List.append_assoc]
  have hlen : pre.length + 6 = (pre ++ (Bytes.le16 c.code ++ Bytes.le32 c.body.length)).length := by
    simp only [List.length_append, Bytes.length_le16, Bytes.length_le32]
  unfold Bytes.slice
  rw [hshift, hlen, List.drop_left, List.take_left]

end Chunk

end StarCraftIocp
