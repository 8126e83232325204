import Mathlib.Logic.Function.Basic
import StarCraftIocp.Lib.CInt

/-!
# The pool allocator

`Memory` with its `MemoryPool`s, as it is built without `_STOMP`. A block is known
by the address of its header, and of a header only `allocSize` is kept. Memory comes
from the system, which is asked for a size and hands out an address; `fresh` is the
address it would hand out next.
-/

namespace StarCraftIocp

open CInt

/-- The address of a block's header. -/
abbrev Block : Type := Nat

/-- `MAX_ALLOC_SIZE`. -/
def maxAllocSize : Nat := 4096

/-! ## The size classes -/

/-- What the constructor of `Memory` fills. -/
structure PoolLayout where
  /-- The sizes of `_pools`, in order. -/
  pools : List Nat
  /-- `_poolTable`: the index of a pool; `none` where nothing has been stored. -/
  poolTable : Nat → Option Nat
  tableIndex : Nat

namespace PoolLayout

def init : PoolLayout where
  pools := []
  poolTable := fun _ => none
  tableIndex := 0

/-- The `while` loop of the constructor: the entries up to `size`. -/
def fillTable (pool size : Nat) : Nat → PoolLayout → PoolLayout
  | 0, l => l
  | fuel + 1, l =>
      if l.tableIndex ≤ size then
        fillTable pool size fuel { l with
          poolTable := Function.update l.poolTable l.tableIndex (some pool)
          tableIndex := l.tableIndex + 1 }
      else l

/-- A new pool for blocks of this size. -/
def addPool (l : PoolLayout) (size : Nat) : PoolLayout :=
  fillTable l.pools.length size (size + 1) { l with pools := l.pools ++ [size] }

/-- One of the three `for` loops, from the `size` that the one before has left. -/
def poolLoop (limit step : Nat) : Nat → Nat × PoolLayout → Nat × PoolLayout
  | 0, s => s
  | fuel + 1, (size, l) =>
      if size ≤ limit then poolLoop limit step fuel (size + step, l.addPool size) else (size, l)

/-- The constructor. -/
def constructed : PoolLayout :=
  let s := poolLoop 1024 32 1024 (32, init)
  let s := poolLoop 2048 128 2048 s
  (poolLoop 4096 256 4096 s).2

end PoolLayout

/-! ## Blocks -/

/-- `_pools`, the headers of blocks, and what the system has handed out. -/
structure Memory where
  pools : List Nat
  poolTable : Nat → Option Nat
  /-- The list of each pool; the block pushed last comes first. -/
  freeList : Nat → List Block
  /-- `allocSize` in the header of a block. -/
  allocSize : Block → Int
  /-- The size the system was asked for, of blocks that it has not got back. -/
  system : Block → Option Nat

/-- What goes wrong. -/
inductive MemoryFailure where
  | assertCrash
  /-- An entry of `_poolTable` is used in which nothing has been stored. -/
  | uninitialisedEntry
  deriving Repr, DecidableEq

namespace Memory

/-- The constructor. -/
def new : Memory where
  pools := PoolLayout.constructed.pools
  poolTable := PoolLayout.constructed.poolTable
  freeList := fun _ => []
  allocSize := fun _ => 0
  system := fun _ => none

/-- `_aligned_malloc(size, SLIST_ALIGNMENT)`. -/
def alignedMalloc (m : Memory) (size : Nat) (fresh : Block) : Memory :=
  { m with system := Function.update m.system fresh (some size) }

/-- `_aligned_free`. -/
def alignedFree (m : Memory) (block : Block) : Memory :=
  { m with system := Function.update m.system block none }

/-- `MemoryPool::Pop`. -/
def pop (m : Memory) (pool : Nat) (fresh : Block) : Except MemoryFailure (Block × Memory) :=
  match m.freeList pool with
  | [] => .ok (fresh, m.alignedMalloc (m.pools.getD pool 0) fresh)
  | memory :: rest =>
      if m.allocSize memory = 0 then
        .ok (memory, { m with freeList := Function.update m.freeList pool rest })
      else .error .assertCrash

/-- `MemoryPool::Push`. -/
def push (m : Memory) (pool : Nat) (ptr : Block) : Memory :=
  { m with
    allocSize := Function.update m.allocSize ptr 0
    freeList := Function.update m.freeList pool (ptr :: m.freeList pool) }

/-- `AttachHeader`. -/
def attachHeader (m : Memory) (header : Block) (size : Int) : Memory :=
  { m with allocSize := Function.update m.allocSize header size }

/-- `_poolTable[allocSize]`. -/
def tableEntry (m : Memory) (allocSize : Int) : Option Nat :=
  if 0 ≤ allocSize then m.poolTable allocSize.toNat else none

section

-- `sizeof(MemoryHeader)`
variable (sizeofMemoryHeader : Nat)

/-- `Allocate`. -/
def allocate (m : Memory) (size : Int) (fresh : Block) : Except MemoryFailure (Block × Memory) :=
  let allocSize := int32 (sizeT (sizeT size + sizeofMemoryHeader))
  if allocSize > maxAllocSize then
    .ok (fresh, (m.alignedMalloc allocSize.toNat fresh).attachHeader fresh allocSize)
  else
    match m.tableEntry allocSize with
    | none => .error .uninitialisedEntry
    | some pool => do
        let (header, m) ← m.pop pool fresh
        return (header, m.attachHeader header allocSize)

/-- `Release`. -/
def release (m : Memory) (ptr : Block) : Except MemoryFailure Memory :=
  let allocSize := m.allocSize ptr
  if allocSize > 0 then
    if allocSize > maxAllocSize then .ok (m.alignedFree ptr)
    else
      match m.tableEntry allocSize with
      | none => .error .uninitialisedEntry
      | some pool => .ok (m.push pool ptr)
  else .error .assertCrash

end

end Memory

/-! ## Runs -/

/-- A block that has been allocated and not released. -/
structure Loan where
  block : Block
  /-- The size that was asked for. -/
  size : Int
  /-- The pool it was taken from; `none` when it was the system. -/
  origin : Option Nat

/-- The allocator and the blocks in use. -/
structure Heap where
  memory : Memory
  loans : List Loan

inductive HeapEvent where
  | allocate (size : Int) (fresh : Block)
  | release (block : Block)

namespace Heap

def init : Heap where
  memory := Memory.new
  loans := []

variable (sizeofMemoryHeader : Nat)

/-- Sizes are such that nothing overflows, blocks of the system are fresh, and those released are in use. -/
def Enabled (h : Heap) : HeapEvent → Prop
  | .allocate size fresh => 0 ≤ size ∧ size + sizeofMemoryHeader ≤ intMax ∧ h.memory.system fresh = none
  | .release block => ∃ loan ∈ h.loans, loan.block = block

instance (h : Heap) : (e : HeapEvent) → Decidable (h.Enabled sizeofMemoryHeader e)
  | .allocate _ _ => inferInstanceAs (Decidable (_ ∧ _ ∧ _))
  | .release _ => inferInstanceAs (Decidable (∃ loan ∈ h.loans, _))

/-- Where a block of this size is taken from. -/
def originOf (m : Memory) (size : Int) : Option Nat :=
  if size + sizeofMemoryHeader > maxAllocSize then none else m.tableEntry (size + sizeofMemoryHeader)

def exec (h : Heap) : HeapEvent → Except MemoryFailure Heap
  | .allocate size fresh => do
      let (block, memory) ← h.memory.allocate sizeofMemoryHeader size fresh
      let loan := { block := block, size := size, origin := originOf sizeofMemoryHeader h.memory size }
      return { memory := memory, loans := loan :: h.loans }
  | .release block => do
      let memory ← h.memory.release block
      return { memory := memory, loans := h.loans.filter fun loan => loan.block ≠ block }

def next (h : Heap) (e : HeapEvent) : Option Heap :=
  if h.Enabled sizeofMemoryHeader e then (h.exec sizeofMemoryHeader e).toOption else none

end Heap

end StarCraftIocp
