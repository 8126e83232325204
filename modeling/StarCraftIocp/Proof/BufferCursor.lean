import Mathlib.Tactic.Common
import StarCraftIocp.ServerCore.BufferCursor

/-!
# A cursor stays inside its buffer

`FreeSize` is a subtraction of unsigned numbers, and right only while the cursor is
not behind the end. The calls that check keep it there. The operators do not check,
and the first one that does not fit takes the cursor out.
-/

namespace StarCraftIocp

namespace BufferCursor

structure Inside (c : BufferCursor) : Prop where
  pos : c.pos ≤ c.size
  touched : ∀ r ∈ c.touched, r.1 + r.2 ≤ c.size.toNat

/-- What a call leaves behind. -/
structure Safe (c : BufferCursor) (call : CursorCall) : Prop where
  inside : (c.exec call).Inside
  size : (c.exec call).size = c.size
  outside : ∀ i, c.size.toNat ≤ i → (c.exec call).memory i = c.memory i
  refused : ¬ c.Fits call → c.exec call = c

/-- The operators are used where there is room. -/
def Respects (c : BufferCursor) (call : CursorCall) : Prop := call.Unchecked → c.Fits call

instance (c : BufferCursor) (call : CursorCall) : Decidable (c.Respects call) :=
  inferInstanceAs (Decidable (_ → _))

theorem inside_new (buffer : Nat → UInt8) {size pos : UInt32} (h : pos ≤ size) :
    (new buffer size pos).Inside where
  pos := h
  touched _ hmem := absurd hmem List.not_mem_nil

theorem toNat_freeSize {c : BufferCursor} (h : c.Inside) : c.freeSize.toNat = c.size.toNat - c.pos.toNat :=
  UInt32.toNat_sub_of_le _ _ h.pos

/-- A check against `FreeSize` is a check against the room. -/
theorem freeSize_lt {c : BufferCursor} (h : c.Inside) (len : UInt32) :
    c.freeSize < len ↔ ¬ c.pos.toNat + len.toNat ≤ c.size.toNat := by
  have hpos := UInt32.le_iff_toNat_le.mp h.pos
  rw [UInt32.lt_iff_toNat_lt, toNat_freeSize h]
  omega

theorem toNat_pos_add {c : BufferCursor} {len : UInt32} (hfits : c.pos.toNat + len.toNat ≤ c.size.toNat) :
    (c.pos + len).toNat = c.pos.toNat + len.toNat := by
  have hsize := c.size.toNat_lt
  rw [UInt32.toNat_add]
  omega

/-! ## Using the bytes at the cursor -/

/-- Bytes that are there may be used, and the cursor put behind them or left in front. -/
theorem Inside.touch {c : BufferCursor} (h : c.Inside) {n : Nat} (hfits : c.pos.toNat + n ≤ c.size.toNat)
    {memory : Nat → UInt8} {pos : UInt32} (hpos : pos.toNat ≤ c.pos.toNat + n) :
    Inside { c.touch n with memory := memory, pos := pos } where
  pos := by
    refine UInt32.le_iff_toNat_le.mpr ?_
    show pos.toNat ≤ c.size.toNat
    omega
  touched := by
    intro r hr
    rcases List.mem_append.mp hr with hr | hr
    · exact h.touched r hr
    · rw [List.mem_singleton.mp hr]
      exact hfits

theorem store_outside (c : BufferCursor) (src : Nat → UInt8) {n : Nat}
    (hfits : c.pos.toNat + n ≤ c.size.toNat) {i : Nat}
    (hi : c.size.toNat ≤ i) : (c.store src n).memory i = c.memory i :=
  if_neg (by omega)

/-- A call that does nothing is safe. -/
theorem safe_of_refused {c : BufferCursor} {call : CursorCall} (h : c.Inside)
    (hexec : c.exec call = c) : c.Safe call where
  inside := by rw [hexec]; exact h
  size := by rw [hexec]
  outside _ _ := by rw [hexec]
  refused _ := hexec

/-- A call that has room is safe when it uses no more than it asks for. -/
theorem safe_of_fits {c : BufferCursor} {call : CursorCall} (h : c.Inside) (hfits : c.Fits call)
    (memory : Nat → UInt8) (pos : UInt32)
    (hexec : c.exec call = { c.touch call.bytes with memory := memory, pos := pos })
    (hpos : pos.toNat ≤ c.pos.toNat + call.bytes) (hmemory : ∀ i, c.size.toNat ≤ i → memory i = c.memory i) :
    c.Safe call where
  inside := by rw [hexec]; exact h.touch hfits hpos
  size := by rw [hexec]; rfl
  outside := by rw [hexec]; exact hmemory
  refused hno := absurd hfits hno

/-! ## Calls that check -/

theorem safe_write {c : BufferCursor} (h : c.Inside) (src : Nat → UInt8) (len : UInt32) :
    c.Safe (.write src len) := by
  have hcheck := freeSize_lt h len
  by_cases hfits : c.Fits (.write src len)
  · refine safe_of_fits h hfits (c.store src len.toNat).memory (c.pos + len) ?_
      (Nat.le_of_eq (toNat_pos_add hfits)) fun i hi => store_outside c src hfits hi
    show (BufferWriter.write c src len).2 = _
    unfold BufferWriter.write
    rw [if_neg (fun hlt => hcheck.mp hlt hfits)]
    rfl
  · refine safe_of_refused h ?_
    show (BufferWriter.write c src len).2 = _
    unfold BufferWriter.write
    rw [if_pos (hcheck.mpr hfits)]

/-- The product of a `sizeof` and a `uint16` is far from overflowing a `size_t`. -/
theorem toNat_product (sizeofT : UInt32) (count : UInt16) :
    (sizeofT.toUInt64 * count.toUInt64).toNat = sizeofT.toNat * count.toNat := by
  have hbound : sizeofT.toNat * count.toNat ≤ 4294967296 * 65536 :=
    Nat.mul_le_mul (Nat.le_of_lt sizeofT.toNat_lt) (Nat.le_of_lt count.toNat_lt)
  rw [UInt64.toNat_mul, UInt32.toNat_toUInt64, UInt16.toNat_toUInt64, Nat.mod_eq_of_lt (by omega)]

theorem safe_reserve {c : BufferCursor} (h : c.Inside) (sizeofT : UInt32) (count : UInt16) :
    c.Safe (.reserve sizeofT count) := by
  have hbytes := toNat_product sizeofT count
  have hpos := UInt32.le_iff_toNat_le.mp h.pos
  have hsize := c.size.toNat_lt
  have hcheck : c.freeSize.toUInt64 < sizeofT.toUInt64 * count.toUInt64 ↔
      ¬ c.Fits (.reserve sizeofT count) := by
    unfold Fits CursorCall.bytes
    dsimp only
    rw [UInt64.lt_iff_toNat_lt, UInt32.toNat_toUInt64, toNat_freeSize h, hbytes]
    omega
  by_cases hfits : c.Fits (.reserve sizeofT count)
  · refine safe_of_fits h hfits c.memory
      (c.pos.toUInt64 + sizeofT.toUInt64 * count.toUInt64).toUInt32 ?_ ?_ fun _ _ => rfl
    · unfold exec BufferWriter.reserve
      dsimp only
      rw [if_neg (fun hlt => hcheck.mp hlt hfits), hbytes]
      rfl
    · unfold Fits CursorCall.bytes at hfits
      dsimp only at hfits
      rw [UInt64.toNat_toUInt32, UInt64.toNat_add, hbytes, UInt32.toNat_toUInt64]
      show _ ≤ c.pos.toNat + sizeofT.toNat * count.toNat
      omega
  · refine safe_of_refused h ?_
    show (BufferWriter.reserve c sizeofT count).2 = _
    unfold BufferWriter.reserve
    dsimp only
    rw [if_pos (hcheck.mpr hfits)]

theorem safe_peek {c : BufferCursor} (h : c.Inside) (len : UInt32) : c.Safe (.peek len) := by
  have hcheck := freeSize_lt h len
  by_cases hfits : c.Fits (.peek len)
  · refine safe_of_fits h hfits c.memory c.pos ?_ (Nat.le_add_right _ _) fun _ _ => rfl
    show (BufferReader.peek c len).2 = _
    unfold BufferReader.peek
    rw [if_neg (fun hlt => hcheck.mp hlt hfits)]
    rfl
  · refine safe_of_refused h ?_
    show (BufferReader.peek c len).2 = _
    unfold BufferReader.peek
    rw [if_pos (hcheck.mpr hfits)]

theorem safe_read {c : BufferCursor} (h : c.Inside) (len : UInt32) : c.Safe (.read len) := by
  have hcheck := freeSize_lt h len
  by_cases hfits : c.Fits (.read len)
  · refine safe_of_fits h hfits c.memory (c.pos + len) ?_ (Nat.le_of_eq (toNat_pos_add hfits))
      fun _ _ => rfl
    show (BufferReader.read c len).2 = _
    unfold BufferReader.read BufferReader.peek
    rw [if_neg (fun hlt => hcheck.mp hlt hfits)]
    rfl
  · refine safe_of_refused h ?_
    show (BufferReader.read c len).2 = _
    unfold BufferReader.read BufferReader.peek
    rw [if_pos (hcheck.mpr hfits)]

/-! ## Calls that do not check -/

/-- What the operators use, they use whether it is there or not. -/
theorem fits_of_touched {c c' : BufferCursor} {n : Nat} (h : c'.Inside) (hsize : c'.size = c.size)
    (htouched : c'.touched = c.touched ++ [(c.pos.toNat, n)]) : c.pos.toNat + n ≤ c.size.toNat := by
  have hmem : (c.pos.toNat, n) ∈ c'.touched := by
    rw [htouched]
    exact List.mem_append_right _ List.mem_cons_self
  rw [← hsize]
  exact h.touched _ hmem

theorem safe_shiftLeft {c : BufferCursor} (h : c.Inside) (src : Nat → UInt8) (sizeofT : UInt32) :
    c.Safe (.shiftLeft src sizeofT) ↔ c.Fits (.shiftLeft src sizeofT) := by
  constructor
  · exact fun hsafe => fits_of_touched (n := sizeofT.toNat) hsafe.inside rfl rfl
  · intro hfits
    exact safe_of_fits h hfits (c.store src sizeofT.toNat).memory (c.pos + sizeofT) rfl
      (Nat.le_of_eq (toNat_pos_add hfits)) fun i hi => store_outside c src hfits hi

theorem safe_shiftRight {c : BufferCursor} (h : c.Inside) (sizeofT : UInt32) :
    c.Safe (.shiftRight sizeofT) ↔ c.Fits (.shiftRight sizeofT) := by
  constructor
  · exact fun hsafe => fits_of_touched (n := sizeofT.toNat) hsafe.inside rfl rfl
  · intro hfits
    exact safe_of_fits h hfits c.memory (c.pos + sizeofT) rfl (Nat.le_of_eq (toNat_pos_add hfits))
      fun _ _ => rfl

/-- A call is safe exactly when it checks, or there is room. -/
theorem safe_iff {c : BufferCursor} (h : c.Inside) (call : CursorCall) : c.Safe call ↔ c.Respects call := by
  cases call with
  | write src len => exact iff_of_true (safe_write h src len) nofun
  | reserve sizeofT count => exact iff_of_true (safe_reserve h sizeofT count) nofun
  | peek len => exact iff_of_true (safe_peek h len) nofun
  | read len => exact iff_of_true (safe_read h len) nofun
  | shiftLeft src sizeofT =>
      rw [safe_shiftLeft h]
      exact ⟨fun hfits _ => hfits, fun hr => hr trivial⟩
  | shiftRight sizeofT =>
      rw [safe_shiftRight h]
      exact ⟨fun hfits _ => hfits, fun hr => hr trivial⟩

/-! ## Runs -/

/--
**A cursor stays inside its buffer as long as the operators have room**, and in
every state it comes to so, exactly the calls that check or have room are safe.
-/
theorem cursor_inside {buffer : Nat → UInt8} {size pos : UInt32} (hpos : pos ≤ size) {c : BufferCursor}
    (h : Reachable (Transition.guarded (Transition.ofFun next) Respects) (new buffer size pos) c) :
    c.size = size ∧ c.Inside ∧ (∀ i, size.toNat ≤ i → c.memory i = buffer i) ∧
      ∀ call, c.Safe call ↔ c.Respects call := by
  have hrun : c.size = size ∧ c.Inside ∧ ∀ i, size.toNat ≤ i → c.memory i = buffer i := by
    refine h.invariant (I := fun c => c.size = size ∧ c.Inside ∧ ∀ i, size.toNat ≤ i → c.memory i = buffer i)
      ⟨rfl, inside_new buffer hpos, fun _ _ => rfl⟩ ?_
    intro c call c' hc hstep
    obtain ⟨hsize, hinside, hmemory⟩ := hc
    obtain ⟨hrespects, hexec⟩ := hstep
    obtain rfl := Option.some.inj hexec
    have hsafe := (safe_iff hinside call).mpr hrespects
    refine ⟨hsafe.size.trans hsize, hsafe.inside, ?_⟩
    intro i hi
    exact (hsafe.outside i (by rw [hsize]; exact hi)).trans (hmemory i hi)
  exact ⟨hrun.1, hrun.2.1, hrun.2.2, fun call => safe_iff hrun.2.1 call⟩

/-- A header is reserved and six bytes are written; six more do not fit. -/
theorem cursor_inside_packet : ∃ c : BufferCursor, c.pos = 10 ∧ c.Inside ∧
    c.Safe (.write (fun _ => 3) 6) := by
  have hrun : (([.reserve 4 1, .shiftLeft (fun _ => 1) 2, .write (fun _ => 2) 4, .write (fun _ => 3) 6]
      : List CursorCall).foldlM (guardedFun next Respects)
        (new (fun _ => 0) 12 0)).map BufferCursor.pos = some 10 := by
    decide
  obtain ⟨c, hc, hpos⟩ := Option.map_eq_some_iff.mp hrun
  obtain ⟨-, hinside, -, hcalls⟩ := cursor_inside (by decide) (Reachable.of_run_guarded hc .refl)
  exact ⟨c, hpos, hinside, (hcalls _).mpr nofun⟩

/-- After `operator<<` with one byte of room, `FreeSize` is as good as unlimited. -/
theorem not_cursor_inside : ∃ c : BufferCursor,
    Reachable (Transition.ofFun next) (new (fun _ => 0) 12 11) c ∧
      c.size < c.pos ∧ ¬ c.Inside ∧ c.freeSize = 4294967293 := by
  refine ⟨_, Reachable.refl.tail (a := .shiftLeft (fun _ => 1) 4) rfl, by decide, ?_, by decide⟩
  intro h
  exact absurd h.pos (by decide)

end BufferCursor

end StarCraftIocp
