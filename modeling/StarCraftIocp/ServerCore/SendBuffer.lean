import StarCraftIocp.Lib.Bytes
import StarCraftIocp.Lib.CInt

/-!
# Send buffers

A thread cuts its send buffers off a 6000-byte chunk of its own,
`LSendBufferChunk`, and takes a new chunk from the manager's pool when the rest
of the current one is too small. `Open` reserves room, `Close` says how much of it
was used.
-/

namespace StarCraftIocp

/-- The ways in which the server goes down. -/
inductive Crash where
  /-- `ASSERT_CRASH` failed. -/
  | assertCrash
  /-- `Open` returned no buffer, and the caller went on with it. -/
  | nullSendBuffer
  /-- A write behind the end of a chunk. -/
  | memoryOverrun
  /-- A null `RoomRef`, `GameObjectRef` or `MapSectionData` pointer was used. -/
  | nullRoom
  | nullObject
  | nullShooter
  | nullMap
  /-- An empty entry of `g_spawners` was called. -/
  | emptySpawner
  /-- `g_spawners` was indexed out of range. -/
  | spawnerIndex
  /-- A `vector` was indexed out of range. -/
  | vectorIndex
  deriving Repr, DecidableEq

structure SendBufferChunk where
  buffer : List UInt8
  opened : Bool
  usedSize : Nat

/-- `SEND_BUFFER_CHUNK_SIZE`. -/
def sendBufferChunkSize : Nat := 6000

/-- A `SendBuffer`: `pos` is where its memory starts in the chunk that owns it. -/
structure SendBuffer where
  pos : Nat
  allocSize : Nat
  writeSize : Nat
  deriving Repr, DecidableEq

namespace SendBufferChunk

def new : SendBufferChunk where
  buffer := List.replicate sendBufferChunkSize 0
  opened := false
  usedSize := 0

def reset (c : SendBufferChunk) : SendBufferChunk := { c with opened := false, usedSize := 0 }

def freeSize (c : SendBufferChunk) : Nat := c.buffer.length - c.usedSize

/-- `SendBufferChunk::Open`; the result `none` is the null pointer. -/
def openBuffer (c : SendBufferChunk) (allocSize : Nat) :
    Except Crash (Option SendBuffer × SendBufferChunk) :=
  if sendBufferChunkSize < allocSize then .error .assertCrash
  else if c.opened then .error .assertCrash
  else if c.freeSize < allocSize then .ok (none, c)
  else .ok (some { pos := c.usedSize, allocSize := allocSize, writeSize := 0 },
    { c with opened := true })

/-- A store into the chunk's array. -/
def write (c : SendBufferChunk) (pos : Nat) (bs : List UInt8) : Except Crash SendBufferChunk :=
  if pos + bs.length ≤ c.buffer.length then .ok { c with buffer := Bytes.write c.buffer pos bs }
  else .error .memoryOverrun

/-- `SendBufferChunk::Close`. -/
def close (c : SendBufferChunk) (writeSize : Nat) : Except Crash SendBufferChunk :=
  if c.opened then .ok { c with opened := false, usedSize := c.usedSize + writeSize }
  else .error .assertCrash

end SendBufferChunk

/-- `SendBuffer::Close`, together with the chunk it closes. -/
def SendBuffer.close (b : SendBuffer) (c : SendBufferChunk) (writeSize : Nat) :
    Except Crash (SendBuffer × SendBufferChunk) :=
  if b.allocSize < writeSize then .error .assertCrash
  else do
    let c ← c.close writeSize
    return ({ b with writeSize := writeSize }, c)

/-- What one thread sees of the manager: its own chunk and the pool. -/
structure SendBufferManager where
  lSendBufferChunk : Option SendBufferChunk
  sendBufferChunks : List SendBufferChunk

namespace SendBufferManager

/-- A thread that has sent nothing yet, and an empty pool. -/
def init : SendBufferManager := { lSendBufferChunk := none, sendBufferChunks := [] }

/-- `Pop`, then `Reset`: a chunk from the back of the pool, or a new one. -/
def popReset (m : SendBufferManager) : SendBufferChunk × SendBufferManager :=
  match m.sendBufferChunks.getLast? with
  | some c =>
      (c.reset, { lSendBufferChunk := some c.reset, sendBufferChunks := m.sendBufferChunks.dropLast })
  | none =>
      let c := SendBufferChunk.new.reset
      (c, { m with lSendBufferChunk := some c })

/-- `SendBufferManager::Open`. -/
def openBuffer (m : SendBufferManager) (size : Nat) :
    Except Crash (Option SendBuffer × SendBufferManager) :=
  let (c, m) := match m.lSendBufferChunk with
    | some c => (c, m)
    | none => m.popReset
  if c.opened then .error .assertCrash
  else
    -- used up: throw it away and take a new one
    let (c, m) := if c.freeSize < size then m.popReset else (c, m)
    do
      let (b, c) ← c.openBuffer size
      return (b, { m with lSendBufferChunk := some c })

/-- The chunks have their full size, and the thread's own is not left open. -/
structure WF (m : SendBufferManager) : Prop where
  current : ∀ c, m.lSendBufferChunk = some c →
    c.buffer.length = sendBufferChunkSize ∧ c.opened = false ∧ c.usedSize ≤ sendBufferChunkSize
  pool : ∀ c ∈ m.sendBufferChunks, c.buffer.length = sendBufferChunkSize

theorem wf_init : init.WF := ⟨by simp [init], by simp [init]⟩

theorem popReset_spec {m : SendBufferManager}
    (h : ∀ c ∈ m.sendBufferChunks, c.buffer.length = sendBufferChunkSize) :
    ∃ c m', m.popReset = (c, m') ∧ c.buffer.length = sendBufferChunkSize ∧ c.opened = false
      ∧ c.usedSize = 0 ∧ ∀ d ∈ m'.sendBufferChunks, d.buffer.length = sendBufferChunkSize := by
  unfold popReset
  cases hl : m.sendBufferChunks.getLast? with
  | none =>
      refine ⟨_, _, rfl, ?_, rfl, rfl, h⟩
      simp [SendBufferChunk.reset, SendBufferChunk.new]
  | some c =>
      have hmem : c ∈ m.sendBufferChunks := List.mem_of_getLast? hl
      exact ⟨_, _, rfl, h c hmem, rfl, rfl, fun d hd => h d (List.dropLast_subset _ hd)⟩

/-- Whatever the state of the thread's chunk, a size of at most 6000 is opened in a chunk with room. -/
theorem openBuffer_spec {m : SendBufferManager} (h : m.WF) {size : Nat}
    (hs : size ≤ sendBufferChunkSize) :
    ∃ (b : SendBuffer) (c : SendBufferChunk) (m' : SendBufferManager),
      m.openBuffer size = .ok (some b, m') ∧ m'.lSendBufferChunk = some c
      ∧ b.allocSize = size ∧ c.opened = true ∧ c.usedSize = b.pos
      ∧ c.buffer.length = sendBufferChunkSize ∧ b.pos + size ≤ sendBufferChunkSize
      ∧ ∀ d ∈ m'.sendBufferChunks, d.buffer.length = sendBufferChunkSize := by
  -- the chunk in hand after the null check
  obtain ⟨c, m1, hcm, hlen, hopen, hused, hpool⟩ : ∃ c m1,
      (match m.lSendBufferChunk with
        | some c => (c, m)
        | none => m.popReset) = (c, m1)
      ∧ c.buffer.length = sendBufferChunkSize ∧ c.opened = false
      ∧ c.usedSize ≤ sendBufferChunkSize
      ∧ ∀ d ∈ m1.sendBufferChunks, d.buffer.length = sendBufferChunkSize := by
    cases hl : m.lSendBufferChunk with
    | some c =>
        obtain ⟨h1, h2, h3⟩ := h.current c hl
        exact ⟨c, m, rfl, h1, h2, h3, h.pool⟩
    | none =>
        obtain ⟨c, m', h1, h2, h3, h4, h5⟩ := popReset_spec h.pool
        exact ⟨c, m', h1, h2, h3, by omega, h5⟩
  unfold openBuffer
  rw [hcm]
  simp only [hopen, Bool.false_eq_true, if_false]
  -- the chunk in hand after the room check
  obtain ⟨c2, m2, hcm2, hlen2, hopen2, hroom, hpool2⟩ : ∃ c2 m2,
      (if c.freeSize < size then m1.popReset else (c, m1)) = (c2, m2)
      ∧ c2.buffer.length = sendBufferChunkSize ∧ c2.opened = false
      ∧ c2.usedSize + size ≤ sendBufferChunkSize
      ∧ ∀ d ∈ m2.sendBufferChunks, d.buffer.length = sendBufferChunkSize := by
    by_cases hf : c.freeSize < size
    · rw [if_pos hf]
      obtain ⟨c2, m2, h1, h2, h3, h4, h5⟩ := popReset_spec hpool
      exact ⟨c2, m2, h1, h2, h3, by omega, h5⟩
    · rw [if_neg hf]
      unfold SendBufferChunk.freeSize at hf
      exact ⟨c, m1, rfl, hlen, hopen, by omega, hpool⟩
  rw [hcm2]
  dsimp only
  unfold SendBufferChunk.openBuffer SendBufferChunk.freeSize
  rw [if_neg (by omega), hopen2, if_neg (by simp), if_neg (by omega)]
  exact ⟨_, _, _, rfl, rfl, rfl, rfl, rfl, hlen2, hroom, hpool2⟩

/-- No buffer longer than a chunk is ever opened. -/
theorem openBuffer_le {m m' : SendBufferManager} {size : Nat} {b : Option SendBuffer}
    (h : m.openBuffer size = .ok (b, m')) : size ≤ sendBufferChunkSize := by
  unfold openBuffer at h
  split at h
  split at h
  · exact absurd h (by simp)
  · split at h
    unfold SendBufferChunk.openBuffer at h
    by_contra hc
    rw [if_pos (by omega)] at h
    exact absurd h (by simp [bind, Except.bind])

end SendBufferManager

end StarCraftIocp
