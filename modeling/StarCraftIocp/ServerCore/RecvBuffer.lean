import StarCraftIocp.Lib.Bytes
import StarCraftIocp.Lib.CInt
import StarCraftIocp.Lib.Traced

/-!
# `RecvBuffer`

The receive buffer of a session: a block of `BUFFER_COUNT` times the nominal
buffer size, a read cursor and a write cursor. Data is appended at the write
cursor and consumed at the read cursor; `clean` moves what is left to the front
once less than one nominal buffer is free behind the write cursor, and records the
`memcpy` by which it does so.
-/

namespace StarCraftIocp

/-- The fields of `RecvBuffer`. The cursors are `int32`, as in the source. -/
structure RecvBuffer where
  capacity : Int
  bufferSize : Int
  readPos : Int
  writePos : Int
  buffer : List UInt8

namespace RecvBuffer

/-- `BUFFER_COUNT`. -/
def bufferCount : Int := 10

/-- The constructor: `_buffer.resize(_capacity)` fills the block with zeros. -/
def new (bufferSize : Int) : RecvBuffer where
  capacity := bufferSize * bufferCount
  bufferSize := bufferSize
  readPos := 0
  writePos := 0
  buffer := List.replicate (bufferSize * bufferCount).toNat 0

def dataSize (b : RecvBuffer) : Int := b.writePos - b.readPos

def freeSize (b : RecvBuffer) : Int := b.capacity - b.writePos

/-- The `n` bytes from `ReadPos()` on. -/
def fromReadPos (b : RecvBuffer) (n : Int) : List UInt8 :=
  Bytes.slice b.buffer b.readPos.toNat n.toNat

/-- The bytes between the two cursors. -/
def readable (b : RecvBuffer) : List UInt8 := b.fromReadPos b.dataSize

/-- What `WSARecv` does: it stores the received bytes from `WritePos()` on. -/
def deposit (b : RecvBuffer) (chunk : List UInt8) : RecvBuffer :=
  { b with buffer := Bytes.write b.buffer b.writePos.toNat chunk }

/-- A `memcpy` inside the block. -/
structure Copy where
  src : Int
  dest : Int
  size : Int
  deriving Repr, DecidableEq

def memcpy (b : RecvBuffer) (c : Copy) : Traced Copy RecvBuffer where
  value := { b with buffer := Bytes.write b.buffer c.dest.toNat (Bytes.slice b.buffer c.src.toNat c.size.toNat) }
  trace := [c]

def clean (b : RecvBuffer) : Traced Copy RecvBuffer :=
  if b.dataSize = 0 then
    -- both cursors meet: reset them
    pure { b with readPos := 0, writePos := 0 }
  else if b.freeSize < b.bufferSize then do
    -- less than one buffer is free: pull the data to the front
    let b' ← b.memcpy { src := b.readPos, dest := 0, size := b.dataSize }
    return { b' with readPos := 0, writePos := b.dataSize }
  else pure b

/-- `none` is the return value `false`, with nothing changed. -/
def onRead (b : RecvBuffer) (numOfBytes : Int) : Option RecvBuffer :=
  if numOfBytes > b.dataSize then none
  else some { b with readPos := b.readPos + numOfBytes }

/-- `none` is the return value `false`, with nothing changed. -/
def onWrite (b : RecvBuffer) (numOfBytes : Int) : Option RecvBuffer :=
  if numOfBytes > b.freeSize then none
  else some { b with writePos := b.writePos + numOfBytes }

/-- The cursors are ordered and inside the block, and the block has its full size. -/
structure WF (b : RecvBuffer) : Prop where
  read_nonneg : 0 ≤ b.readPos
  read_le : b.readPos ≤ b.writePos
  write_le : b.writePos ≤ b.capacity
  length : (b.buffer.length : Int) = b.capacity

theorem wf_new {n : Int} (h : 0 ≤ n) : (new n).WF := by
  refine ⟨by simp [new], by simp [new], ?_, ?_⟩
  · simp only [new, bufferCount]; omega
  · simp only [new, bufferCount, List.length_replicate]; omega

theorem readable_new (n : Int) : (new n).readable = [] := by
  simp [readable, fromReadPos, dataSize, new, Bytes.slice]

theorem length_readable {b : RecvBuffer} (h : b.WF) :
    (b.readable.length : Int) = b.dataSize := by
  have h1 := h.read_nonneg; have h2 := h.read_le; have h3 := h.write_le; have h4 := h.length
  have : b.readable.length = b.dataSize.toNat :=
    Bytes.length_slice (by unfold dataSize; omega)
  unfold dataSize at *; omega

/-! ## What the operations do to the readable bytes -/

/-- Storing a chunk that fits and advancing the write cursor appends the chunk. -/
theorem onWrite_deposit {b : RecvBuffer} (h : b.WF) {chunk : List UInt8}
    (hfit : (chunk.length : Int) ≤ b.freeSize) :
    ∃ b', (b.deposit chunk).onWrite chunk.length = some b' ∧ b'.WF
      ∧ b'.readable = b.readable ++ chunk := by
  have h1 := h.read_nonneg; have h2 := h.read_le; have h3 := h.write_le; have h4 := h.length
  unfold freeSize at hfit
  refine ⟨{ b.deposit chunk with writePos := b.writePos + chunk.length }, ?_, ?_, ?_⟩
  · unfold onWrite
    rw [if_neg (by simp only [deposit, freeSize]; omega)]
    rfl
  · refine ⟨h1, by simp only [deposit]; omega, by simp only [deposit]; omega, ?_⟩
    simp only [deposit]
    rw [Bytes.length_write (by omega)]; exact h4
  · have hw : b.writePos.toNat = b.readPos.toNat + b.dataSize.toNat := by
      unfold dataSize; omega
    have hn : (b.writePos + chunk.length - b.readPos).toNat
        = b.dataSize.toNat + chunk.length := by unfold dataSize; omega
    simp only [readable, fromReadPos, dataSize, deposit] at hw hn ⊢
    rw [hn, hw]
    exact Bytes.slice_write (by omega)

/-- Advancing the read cursor by at most the data drops that much from the front. -/
theorem onRead_spec {b : RecvBuffer} (h : b.WF) {n : Int} (h0 : 0 ≤ n) (hn : n ≤ b.dataSize) :
    ∃ b', b.onRead n = some b' ∧ b'.WF ∧ b'.readable = b.readable.drop n.toNat := by
  have h1 := h.read_nonneg; have h2 := h.read_le; have h3 := h.write_le; have h4 := h.length
  refine ⟨{ b with readPos := b.readPos + n }, ?_, ?_, ?_⟩
  · unfold onRead; rw [if_neg (by omega)]
  · exact ⟨by dsimp only; omega, by unfold dataSize at hn; dsimp only; omega, h3, h4⟩
  · unfold dataSize at hn
    simp only [readable, fromReadPos, dataSize]
    rw [← Bytes.slice_drop]
    congr 1 <;> omega

/-- Cleaning keeps the readable bytes and the cursors in order. -/
theorem clean_spec {b : RecvBuffer} (h : b.WF) : b.clean.value.WF ∧ b.clean.value.readable = b.readable := by
  have h1 := h.read_nonneg; have h2 := h.read_le; have h3 := h.write_le; have h4 := h.length
  have hlen := length_readable h
  unfold clean
  split
  · rename_i h0
    refine ⟨⟨by simp, by simp, ?_, h4⟩, ?_⟩
    · show 0 ≤ b.capacity
      omega
    rw [h0] at hlen
    have : b.readable = [] := by simpa using hlen
    rw [this]
    simp [readable, fromReadPos, dataSize, Bytes.slice]
  · split
    · have hd : 0 ≤ b.dataSize := by unfold dataSize; omega
      have hle : b.readable.length ≤ b.buffer.length := by unfold dataSize at hlen; omega
      refine ⟨⟨by simp, hd, ?_, ?_⟩, ?_⟩
      · show b.dataSize ≤ b.capacity
        unfold dataSize; omega
      · show ((Bytes.write b.buffer 0 b.readable).length : Int) = b.capacity
        rw [Bytes.length_write (by omega)]; exact h4
      · have hn : b.dataSize.toNat = b.readable.length := by omega
        show Bytes.slice (Bytes.write b.buffer 0 b.readable) 0 (b.dataSize - 0).toNat = b.readable
        rw [show b.dataSize - 0 = b.dataSize by omega, hn]
        exact Bytes.slice_write_zero _ _
    · exact ⟨h, rfl⟩

end RecvBuffer

end StarCraftIocp
