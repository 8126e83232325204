import StarCraftIocp.Lib.Tokens
import StarCraftIocp.ServerCore.SendBufferPool

/-!
# Who has a chunk

A chunk is in the pool, on its way from or to the pool, or the chunk of one thread, and
never in two of these places at once. Buffers keep a chunk that no thread has any more;
none refers to a chunk that is in the pool or on its way. All this comes out of the
reference count, which is the number of references that there are.
-/

namespace StarCraftIocp

namespace SendBufferPool

/-- The references to a chunk. -/
@[ext] structure Refs where
  made : Prop
  useCount : Nat
  /-- In the pool. -/
  pooled : Nat
  /-- Threads of which it is the `LSendBufferChunk`. -/
  held : Nat
  /-- Threads that have popped it. -/
  popped : Nat
  /-- Threads that run its deleter, which is no reference. -/
  returning : Nat
  /-- Buffers of which it is the `_owner`. -/
  live : Nat

/-- What can happen to the references. -/
inductive RefTurn where
  | stay
  | make
  | take
  | assign
  /-- A thread lets go of it; `last` when that was the last reference. -/
  | letGo (last : Bool)
  | giveBack
  | cut
  /-- A buffer is destroyed. -/
  | drop (last : Bool)

namespace Refs

def Can (r : Refs) : RefTurn → Prop
  | .stay => True
  | .make => ¬ r.made
  | .take => 0 < r.pooled
  | .assign => 0 < r.popped
  | .letGo last => 0 < r.held ∧ (last = true ↔ r.useCount = 1)
  | .giveBack => 0 < r.returning
  | .cut => 0 < r.held
  | .drop last => 0 < r.live ∧ (last = true ↔ r.useCount = 1)

def apply (r : Refs) : RefTurn → Refs
  | .stay => r
  | .make => { r with made := True, useCount := 1, popped := r.popped + 1 }
  | .take => { r with pooled := r.pooled - 1, popped := r.popped + 1 }
  | .assign => { r with popped := r.popped - 1, held := r.held + 1 }
  | .letGo last => { r with
      useCount := r.useCount - 1, held := r.held - 1, returning := r.returning + if last then 1 else 0 }
  | .giveBack => { r with useCount := 1, pooled := r.pooled + 1, returning := r.returning - 1 }
  | .cut => { r with useCount := r.useCount + 1, live := r.live + 1 }
  | .drop last => { r with
      useCount := r.useCount - 1, live := r.live - 1, returning := r.returning + if last then 1 else 0 }

/-- The count is right, and nobody shares a chunk but its buffers. -/
structure Counted (r : Refs) : Prop where
  count : r.useCount = r.pooled + r.held + r.popped + r.live
  one : r.pooled + r.held + r.popped + r.returning ≤ 1
  bare : 0 < r.pooled + r.popped + r.returning → r.live = 0
  new : ¬ r.made → r.useCount = 0 ∧ r.returning = 0

theorem Counted.apply {r : Refs} (h : r.Counted) {turn : RefTurn} (hcan : r.Can turn) :
    (r.apply turn).Counted := by
  obtain ⟨hcount, hone, hbare, hnew⟩ := h
  cases turn with
  | stay => exact ⟨hcount, hone, hbare, hnew⟩
  | make =>
      obtain ⟨hzero, hreturning⟩ := hnew hcan
      refine ⟨?_, ?_, ?_, fun h => absurd trivial h⟩ <;> dsimp only [Refs.apply] <;> omega
  | take | assign | giveBack | cut =>
      dsimp only [Refs.Can] at hcan
      refine ⟨?_, ?_, ?_, ?_⟩ <;> dsimp only [Refs.apply]
      · omega
      · omega
      · omega
      · intro hmade
        have := hnew hmade
        omega
  | letGo last | drop last =>
      obtain ⟨hpos, hlast⟩ := hcan
      -- the deleter runs exactly when the last reference goes
      have hreturning : (if last = true then 1 else 0) = if r.useCount = 1 then 1 else 0 := by
        by_cases h : last = true
        · rw [if_pos h, if_pos (hlast.mp h)]
        · rw [if_neg h, if_neg fun heq => h (hlast.mpr heq)]
      refine ⟨?_, ?_, ?_, ?_⟩ <;> dsimp only [Refs.apply]
      · omega
      · rw [hreturning]
        split <;> omega
      · rw [hreturning]
        split <;> omega
      · intro hmade
        have := hnew hmade
        omega

end Refs

/-! ## The references in a state -/

/-- The thread has popped the chunk. -/
def popping (c : Nat) : Pc → Nat
  | .assign c' _ => if c' = c then 1 else 0
  | _ => 0

/-- The thread runs the deleter of the chunk. -/
def returning (c : Nat) : Pc → Nat
  | .pushGlobal c' _ => if c' = c then 1 else 0
  | _ => 0

def holding (c : Nat) (current : Option Nat) : Nat := if current = some c then 1 else 0

/-- The thread is taking no chunk out of the pool or back to it. -/
def Pc.Free : Pc → Prop
  | .assign _ _ | .pushGlobal _ _ => False
  | .rest _ | .nullCheck _ | .pop _ | .destroy _ => True

theorem Pc.Free.popping {pc : Pc} (h : pc.Free) (c : Nat) : popping c pc = 0 := by
  cases pc with
  | assign | pushGlobal => exact h.elim
  | rest | nullCheck | pop | destroy => rfl

theorem Pc.Free.returning {pc : Pc} (h : pc.Free) (c : Nat) : returning c pc = 0 := by
  cases pc with
  | assign | pushGlobal => exact h.elim
  | rest | nullCheck | pop | destroy => rfl

variable {T : Type} [Fintype T]

def refs (s : SendBufferPool T) (c : Nat) : Refs where
  made := c < s.chunkCount
  useCount := s.useCount c
  pooled := s.sendBufferChunks.count c
  held := tally s.current (holding c)
  popped := tally s.pc (popping c)
  returning := tally s.pc (returning c)
  live := s.buffers.countP fun b => b.owner = c

def Counted (s : SendBufferPool T) : Prop := ∀ c, (s.refs c).Counted

/-- The step from `s` to `s'` is a turn of every chunk. -/
def RefTurns (s s' : SendBufferPool T) : Prop :=
  ∀ c, ∃ turn, (s.refs c).Can turn ∧ s'.refs c = (s.refs c).apply turn

theorem RefTurns.counted {s s' : SendBufferPool T} (h : s.RefTurns s') (hs : s.Counted) : s'.Counted := by
  intro c
  obtain ⟨turn, hcan, hrefs⟩ := h c
  rw [hrefs]
  exact (hs c).apply hcan

theorem RefTurns.same {s s' : SendBufferPool T} (h : ∀ c, s'.refs c = s.refs c) : s.RefTurns s' := by
  intro c
  exact ⟨.stay, trivial, h c⟩

/-! ## The turns of the steps -/

section

variable {T : Type} [Fintype T] [DecidableEq T] {s : SendBufferPool T} {t : T} {c c' n : Nat}
  {pc : Pc} {rest : Rest} {b b' : LiveBuffer}

omit [DecidableEq T] in
theorem held_pos (hc : s.current t = some c) : 0 < (s.refs c).held :=
  tally.pos (t := t) (by simp only [hc, holding, if_true, Nat.one_pos])

omit [DecidableEq T] in
theorem popped_pos (hpc : s.pc t = .assign c rest) : 0 < (s.refs c).popped :=
  tally.pos (t := t) (by simp only [hpc, popping, if_true, Nat.one_pos])

omit [DecidableEq T] in
theorem returning_pos (hpc : s.pc t = .pushGlobal c rest) : 0 < (s.refs c).returning :=
  tally.pos (t := t) (by simp only [hpc, returning, if_true, Nat.one_pos])

theorem refs_goto : (s.goto t pc).refs c = { s.refs c with
    popped := (s.refs c).popped + popping c pc - popping c (s.pc t)
    returning := (s.refs c).returning + returning c pc - returning c (s.pc t) } := by
  simp only [refs, goto, tally.update]

/-- A move that has to do with no chunk. -/
theorem refs_goto_of_free (hfree : (s.pc t).Free) (hfree' : pc.Free) : (s.goto t pc).refs c = s.refs c := by
  rw [refs_goto, hfree.popping, hfree.returning, hfree'.popping, hfree'.returning]
  rfl

omit [DecidableEq T] in
theorem refs_setChunk {chunk : SendBufferChunk} : (s.setChunk c' chunk).refs c = s.refs c := rfl

omit [DecidableEq T] in
theorem refs_setUseCount : (s.setUseCount c' n).refs c =
    { s.refs c with useCount := if c = c' then n else s.useCount c } := by
  simp only [refs, setUseCount, Function.update_apply]

omit [DecidableEq T] in
theorem refs_setBuffer (hnodup : (s.buffers.map LiveBuffer.id).Nodup) (hb : b ∈ s.buffers)
    (hid : b.id = b'.id) (howner : b'.owner = b.owner) : (s.setBuffer b').refs c = s.refs c := by
  have hcount := Keyed.countP_set hnodup hb hid (fun b => b.owner = c) (by rw [howner])
  simp only [refs, setBuffer, hcount]

/-- A chunk whose deleter does not run loses a reference. -/
theorem refs_dropChunk (hfree : (s.pc t).Free) :
    (s.dropChunk t c' rest).refs c = { s.refs c with
      useCount := if c = c' then s.useCount c' - 1 else s.useCount c
      returning := (s.refs c).returning + if c = c' ∧ s.useCount c' = 1 then 1 else 0 } := by
  unfold dropChunk
  rw [refs_goto, refs_setUseCount]
  show ({ s.refs c with useCount := _, popped := _, returning := _ } : Refs) = _
  have hpc : (s.setUseCount c' (s.useCount c' - 1)).pc t = s.pc t := rfl
  rw [hpc, hfree.popping, hfree.returning]
  by_cases hone : s.useCount c' = 1
  · rw [if_pos hone]
    by_cases hc : c = c'
    · simp [popping, returning, hc, hone]
    · simp [popping, returning, hc, Ne.symm hc]
  · simp [popping, returning, hone]

theorem count_dropLast {l : List Nat} (h : l.getLast? = some c') (c : Nat) :
    l.dropLast.count c = l.count c - if c = c' then 1 else 0 := by
  have hl : l.dropLast ++ [c'] = l := List.dropLast_append_getLast? c' h
  have hcount : l.count c = l.dropLast.count c + [c'].count c := by rw [← List.count_append, hl]
  rw [hcount, List.count_singleton']
  by_cases hc : c = c'
  · rw [if_pos hc, if_pos hc.symm, Nat.add_sub_cancel]
  · rw [if_neg hc, if_neg (Ne.symm hc)]
    rfl

theorem RefTurns.pop (hpc : s.pc t = .pop rest) : s.RefTurns (s.pop t rest) := by
  have hfree : (s.pc t).Free := by
    rw [hpc]
    trivial
  intro c
  unfold SendBufferPool.pop
  cases hl : s.sendBufferChunks.getLast? with
  | some c' =>
      have hmem : c' ∈ s.sendBufferChunks := List.mem_of_getLast? hl
      refine ⟨if c = c' then .take else .stay, ?_, ?_⟩
      · split
        · next hc =>
            show 0 < s.sendBufferChunks.count c
            rw [hc]
            exact List.count_pos_iff.mpr hmem
        · trivial
      · dsimp only
        rw [refs_goto]
        show Refs.mk _ _ (s.sendBufferChunks.dropLast.count c) _ (_ + _ - popping c (s.pc t))
          (_ + _ - returning c (s.pc t)) _ = _
        rw [count_dropLast hl, hfree.popping, hfree.returning]
        by_cases hc : c = c'
        · simp [refs, Refs.apply, popping, returning, hc]
        · simp [refs, Refs.apply, popping, returning, hc, Ne.symm hc]
  | none =>
      refine ⟨if c = s.chunkCount then .make else .stay, ?_, ?_⟩
      · split
        · next hc =>
            show ¬ c < s.chunkCount
            omega
        · trivial
      · dsimp only
        rw [refs_goto, refs_setUseCount, refs_setChunk]
        show Refs.mk (c < s.chunkCount + 1) _ _ _ (_ + _ - popping c (s.pc t))
          (_ + _ - returning c (s.pc t)) _ = _
        rw [hfree.popping, hfree.returning]
        by_cases hc : c = s.chunkCount
        · simp [refs, Refs.apply, popping, returning, hc]
        · have hlt : (c < s.chunkCount + 1) = (c < s.chunkCount) := propext (by omega)
          simp [refs, Refs.apply, popping, returning, setChunk, hc, Ne.symm hc, hlt]

theorem RefTurns.pushGlobal (hpc : s.pc t = .pushGlobal c' rest) : s.RefTurns (s.pushGlobal t c' rest) := by
  intro c
  refine ⟨if c = c' then .giveBack else .stay, ?_, ?_⟩
  · split
    · next hc =>
        rw [hc]
        exact returning_pos hpc
    · trivial
  · unfold SendBufferPool.pushGlobal
    rw [refs_goto, refs_setUseCount]
    show Refs.mk _ _ ((s.sendBufferChunks ++ [c']).count c) _ (_ + _ - popping c (s.pc t))
      (_ + _ - returning c (s.pc t)) _ = _
    rw [hpc, List.count_append, List.count_singleton']
    by_cases hc : c = c'
    · simp [refs, Refs.apply, popping, returning, hc]
    · simp [refs, Refs.apply, popping, returning, hc, Ne.symm hc]

omit [DecidableEq T] in
/-- A thread that has popped a chunk does not have it already. -/
theorem Counted.ne_of_assign (hs : s.Counted) (hpc : s.pc t = .assign c' rest) {old : Nat}
    (hold : s.current t = some old) : old ≠ c' := by
  intro heq
  subst heq
  have hheld := held_pos hold
  have hpopped := popped_pos hpc
  have hone := (hs old).one
  omega

theorem RefTurns.assign (hs : s.Counted) (hpc : s.pc t = .assign c' rest) :
    s.RefTurns (s.assign t c' rest) := by
  intro c
  cases hold : s.current t with
  | none =>
      refine ⟨if c = c' then .assign else .stay, ?_, ?_⟩
      · split
        · next hc =>
            rw [hc]
            exact popped_pos hpc
        · trivial
      · simp only [SendBufferPool.assign, hold]
        rw [refs_goto, refs_setChunk]
        show Refs.mk _ _ _ (tally (Function.update s.current t (some c')) _) (_ + _ - popping c (s.pc t))
          (_ + _ - returning c (s.pc t)) _ = _
        rw [tally.update, hold, hpc]
        by_cases hc : c = c'
        · simp [refs, Refs.apply, popping, returning, holding, hc]
        · simp [refs, Refs.apply, popping, returning, holding, Ne.symm hc, hc]
  | some old =>
      -- the chunk that the thread had before loses a reference
      have hne : old ≠ c' := hs.ne_of_assign hpc hold
      refine ⟨if c = c' then .assign else if c = old then .letGo (s.useCount c = 1) else .stay, ?_, ?_⟩
      · split
        · next hc =>
            rw [hc]
            exact popped_pos hpc
        · split
          · next hc =>
              rw [hc]
              exact ⟨held_pos hold, decide_eq_true_iff⟩
          · trivial
      · simp only [SendBufferPool.assign, hold, SendBufferPool.dropChunk]
        rw [refs_goto, refs_setUseCount, refs_setChunk]
        show Refs.mk _ _ _ (tally (Function.update s.current t (some c')) _) (_ + _ - popping c (s.pc t))
          (_ + _ - returning c (s.pc t)) _ = _
        rw [tally.update, hold, hpc]
        by_cases hc : c = c'
        · by_cases hone : s.useCount old = 1 <;>
            simp [refs, Refs.apply, popping, returning, holding, hc, hne, Ne.symm hne, hone, setChunk]
        · by_cases ho : c = old
          · subst ho
            by_cases hone : s.useCount c = 1 <;>
              simp [refs, Refs.apply, popping, returning, holding, hc, Ne.symm hc, hone, setChunk]
          · by_cases hone : s.useCount old = 1 <;>
              simp [refs, Refs.apply, popping, returning, holding, hc, Ne.symm hc, ho, Ne.symm ho,
                hone, setChunk]

theorem RefTurns.destroy (hnodup : (s.buffers.map LiveBuffer.id).Nodup) (hb : b ∈ s.buffers)
    (hfree : (s.pc t).Free) : s.RefTurns (s.destroy t b) := by
  intro c
  refine ⟨if c = b.owner then .drop (s.useCount c = 1) else .stay, ?_, ?_⟩
  · split
    · next hc =>
        refine ⟨?_, decide_eq_true_iff⟩
        exact List.countP_pos_iff.mpr ⟨b, hb, decide_eq_true hc.symm⟩
    · trivial
  · have hcount := Keyed.countP_remove hnodup hb (fun b => b.owner = c)
    simp only [decide_eq_true_eq] at hcount
    unfold SendBufferPool.destroy
    rw [refs_dropChunk (s := { s with buffers := Keyed.remove LiveBuffer.id s.buffers b.id }) hfree]
    show Refs.mk _ _ _ _ _ _ (List.countP _ (Keyed.remove LiveBuffer.id s.buffers b.id)) = _
    rw [hcount]
    by_cases hc : c = b.owner
    · subst hc
      simp [refs, Refs.apply]
    · simp [refs, Refs.apply, hc, Ne.symm hc]

omit [DecidableEq T] in
/-- A buffer is cut off the chunk of a thread. -/
theorem RefTurns.cut {s' : SendBufferPool T} (hc : s.current t = some c')
    (hbuffers : s'.buffers = b :: s.buffers) (howner : b.owner = c')
    (hrefs : ∀ c, s'.refs c = { s.refs c with
      useCount := if c = c' then s.useCount c' + 1 else s.useCount c
      live := s'.buffers.countP fun b => b.owner = c }) : s.RefTurns s' := by
  intro c
  refine ⟨if c = c' then .cut else .stay, ?_, ?_⟩
  · split
    · next heq =>
        rw [heq]
        exact held_pos hc
    · trivial
  · rw [hrefs, hbuffers, List.countP_cons, howner]
    by_cases heq : c = c'
    · simp [refs, Refs.apply, heq]
    · simp [refs, Refs.apply, heq, Ne.symm heq]

end

end SendBufferPool

end StarCraftIocp
