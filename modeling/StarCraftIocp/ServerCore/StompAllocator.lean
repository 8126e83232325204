import StarCraftIocp.Lib.Transition
import StarCraftIocp.ServerCore.Memory

/-!
# The guard-page allocator

`Memory` as it is built with `_STOMP`. Every block has pages of its own and ends
where they end, so that an access behind it is caught by the hardware. The pages
come from `VirtualAlloc`, and the address it is about to return is an argument here.
An address is an integer. Arithmetic on signed numbers is exact: where it would
overflow nothing is promised.
-/

namespace StarCraftIocp

open CInt

namespace StompAllocator

/-- `PAGE_SIZE`. -/
def pageSize : Int := 4096

def pageCount (size : Int) : Int := (size + pageSize - 1).tdiv pageSize

def dataOffset (size : Int) : Int := pageCount size * pageSize - size

/-- What `VirtualAlloc` is asked for. -/
def reservation (size : Int) : Int := pageCount size * pageSize

/-- What `Alloc` returns when `VirtualAlloc` returns `baseAddress`. -/
def alloc (size : Int) (baseAddress : Int) : Int := baseAddress + dataOffset size

/-- What `Release` passes to `VirtualFree`. -/
def baseAddress (ptr : Int) : Int :=
  let address := int64 ptr
  uint64 (address - address.tmod pageSize)

/-- Whole pages of the lower half of the address space, which is the one that programs are given. -/
structure UserPages (base size : Int) : Prop where
  page : pageSize ∣ base
  lower : 0 ≤ base
  upper : base + size ≤ 9223372036854775808

end StompAllocator

open StompAllocator

/-- The pages handed out, and the headers of blocks. -/
structure StompMemory where
  /-- The size `VirtualAlloc` was asked for, at every base address that has not been freed. -/
  reserved : Int → Option Int
  /-- `allocSize` in the header at an address. -/
  allocSize : Int → Int

namespace StompMemory

def virtualAlloc (m : StompMemory) (base : Int) (size : Int) : StompMemory :=
  { m with reserved := Function.update m.reserved base (some size) }

/-- `VirtualFree` with `MEM_RELEASE`. An address that is not a base address has no effect. -/
def virtualFree (m : StompMemory) (base : Int) : StompMemory :=
  { m with reserved := Function.update m.reserved base none }

section

-- `sizeof(MemoryHeader)`
variable (sizeofMemoryHeader : Nat)

/-- `AttachHeader`. -/
def attachHeader (m : StompMemory) (header : Int) (size : Int) : Int × StompMemory :=
  (header + sizeofMemoryHeader, { m with allocSize := Function.update m.allocSize header size })

/-- `DetachHeader`. -/
def detachHeader (ptr : Int) : Int := ptr - sizeofMemoryHeader

/-- `Allocate`. -/
def allocate (m : StompMemory) (size : Int) (base : Int) : Int × StompMemory :=
  let allocSize := int32 (sizeT (sizeT size + sizeofMemoryHeader))
  let m := m.virtualAlloc base (reservation allocSize)
  m.attachHeader sizeofMemoryHeader (alloc allocSize base) allocSize

/-- `Release`. -/
def release (m : StompMemory) (ptr : Int) : Except MemoryFailure StompMemory :=
  let header := detachHeader sizeofMemoryHeader ptr
  if m.allocSize header > 0 then .ok (m.virtualFree (baseAddress header)) else .error .assertCrash

end

end StompMemory

/-! ## Runs -/

/-- A block that has been allocated and not released. -/
structure StompLoan where
  ptr : Int
  size : Int
  base : Int

/-- The allocator and the blocks in use. -/
structure StompHeap where
  memory : StompMemory
  loans : List StompLoan

inductive StompEvent where
  | allocate (size : Int) (base : Int)
  | write (loan : StompLoan)
  | release (loan : StompLoan)

namespace StompHeap

def init : StompHeap where
  memory := { reserved := fun _ => none, allocSize := fun _ => 0 }
  loans := []

/--
What the program does with the allocator. It gets pages that nobody has, stores
what it likes inside a block in use, and releases one.
-/
inductive Step (sizeofMemoryHeader : Nat) : Transition StompHeap StompEvent where
  | allocate {h : StompHeap} {size base : Int} :
      1 ≤ size → size + sizeofMemoryHeader + 4095 < 2147483648 →
      UserPages base (reservation (size + sizeofMemoryHeader)) →
      (∀ base' size', h.memory.reserved base' = some size' →
        base + reservation (size + sizeofMemoryHeader) ≤ base' ∨ base' + size' ≤ base) →
      Step sizeofMemoryHeader h (.allocate size base)
        { memory := (h.memory.allocate sizeofMemoryHeader size base).2
          loans := ⟨(h.memory.allocate sizeofMemoryHeader size base).1, size, base⟩ :: h.loans }
  | write {h : StompHeap} {loan : StompLoan} {allocSize : Int → Int} :
      loan ∈ h.loans →
      (∀ a, a + sizeofMemoryHeader ≤ loan.ptr ∨ loan.ptr + loan.size ≤ a →
        allocSize a = h.memory.allocSize a) →
      Step sizeofMemoryHeader h (.write loan) { h with memory := { h.memory with allocSize := allocSize } }
  | release {h : StompHeap} {loan : StompLoan} {memory : StompMemory} :
      loan ∈ h.loans → h.memory.release sizeofMemoryHeader loan.ptr = .ok memory →
      Step sizeofMemoryHeader h (.release loan)
        { memory := memory, loans := h.loans.filter fun other => other.ptr ≠ loan.ptr }

end StompHeap

end StarCraftIocp
