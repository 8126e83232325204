import StarCraftIocp.Lib.Transition

/-!
# BufferWriter and BufferReader

Both keep a cursor into a buffer that belongs to somebody else. `memory` is what
stands at an offset from `_buffer`, also behind the buffer's end, and `touched` is a
record of the places a call has written, read or handed out: an offset and a number
of bytes. A type is known by `sizeof`, which the compiler keeps within 32 bits.
-/

namespace StarCraftIocp

structure BufferCursor where
  size : UInt32
  pos : UInt32
  memory : Nat → UInt8
  touched : List (Nat × Nat)

namespace BufferCursor

/-- The constructor of either class. -/
def new (buffer : Nat → UInt8) (size pos : UInt32) : BufferCursor where
  size := size
  pos := pos
  memory := buffer
  touched := []

def freeSize (c : BufferCursor) : UInt32 := c.size - c.pos

/-- The `n` bytes from the cursor on are used. -/
def touch (c : BufferCursor) (n : Nat) : BufferCursor :=
  { c with touched := c.touched ++ [(c.pos.toNat, n)] }

/-- `n` bytes are copied to the cursor. -/
def store (c : BufferCursor) (src : Nat → UInt8) (n : Nat) : BufferCursor :=
  { c.touch n with
    memory := fun i =>
      if c.pos.toNat ≤ i ∧ i < c.pos.toNat + n then src (i - c.pos.toNat) else c.memory i }

/-- The `n` bytes from the cursor on. -/
def load (c : BufferCursor) (n : Nat) : List UInt8 := (List.range n).map fun i => c.memory (c.pos.toNat + i)

end BufferCursor

/-! ## BufferWriter -/

namespace BufferWriter

def write (c : BufferCursor) (src : Nat → UInt8) (len : UInt32) : Bool × BufferCursor :=
  if c.freeSize < len then (false, c)
  else (true, { c.store src len.toNat with pos := c.pos + len })

/-- What is returned is an offset from `_buffer`. The product is a `size_t`. -/
def reserve (c : BufferCursor) (sizeofT : UInt32) (count : UInt16) : Option Nat × BufferCursor :=
  let bytes := sizeofT.toUInt64 * count.toUInt64
  if c.freeSize.toUInt64 < bytes then (none, c)
  else (some c.pos.toNat, { c.touch bytes.toNat with pos := (c.pos.toUInt64 + bytes).toUInt32 })

/-- `operator<<`. -/
def shiftLeft (c : BufferCursor) (src : Nat → UInt8) (sizeofT : UInt32) : BufferCursor :=
  { c.store src sizeofT.toNat with pos := c.pos + sizeofT }

end BufferWriter

/-! ## BufferReader -/

namespace BufferReader

/-- What is copied to `dest`; `none` when `false` is returned. -/
def peek (c : BufferCursor) (len : UInt32) : Option (List UInt8) × BufferCursor :=
  if c.freeSize < len then (none, c) else (some (c.load len.toNat), c.touch len.toNat)

def read (c : BufferCursor) (len : UInt32) : Option (List UInt8) × BufferCursor :=
  match peek c len with
  | (none, c) => (none, c)
  | (some dest, c) => (some dest, { c with pos := c.pos + len })

/-- `operator>>`. -/
def shiftRight (c : BufferCursor) (sizeofT : UInt32) : List UInt8 × BufferCursor :=
  (c.load sizeofT.toNat, { c.touch sizeofT.toNat with pos := c.pos + sizeofT })

end BufferReader

/-! ## Calls -/

inductive CursorCall where
  | write (src : Nat → UInt8) (len : UInt32)
  | reserve (sizeofT : UInt32) (count : UInt16)
  | shiftLeft (src : Nat → UInt8) (sizeofT : UInt32)
  | peek (len : UInt32)
  | read (len : UInt32)
  | shiftRight (sizeofT : UInt32)

namespace CursorCall

/-- The bytes the caller asks for. -/
def bytes : CursorCall → Nat
  | .write _ len => len.toNat
  | .reserve sizeofT count => sizeofT.toNat * count.toNat
  | .shiftLeft _ sizeofT => sizeofT.toNat
  | .peek len => len.toNat
  | .read len => len.toNat
  | .shiftRight sizeofT => sizeofT.toNat

/-- The two operators look at nothing before they go on. -/
def Unchecked : CursorCall → Prop
  | .shiftLeft _ _ => True
  | .shiftRight _ => True
  | _ => False

instance : (call : CursorCall) → Decidable call.Unchecked
  | .write _ _ => inferInstanceAs (Decidable False)
  | .reserve _ _ => inferInstanceAs (Decidable False)
  | .shiftLeft _ _ => inferInstanceAs (Decidable True)
  | .peek _ => inferInstanceAs (Decidable False)
  | .read _ => inferInstanceAs (Decidable False)
  | .shiftRight _ => inferInstanceAs (Decidable True)

end CursorCall

namespace BufferCursor

def exec (c : BufferCursor) : CursorCall → BufferCursor
  | .write src len => (BufferWriter.write c src len).2
  | .reserve sizeofT count => (BufferWriter.reserve c sizeofT count).2
  | .shiftLeft src sizeofT => BufferWriter.shiftLeft c src sizeofT
  | .peek len => (BufferReader.peek c len).2
  | .read len => (BufferReader.read c len).2
  | .shiftRight sizeofT => (BufferReader.shiftRight c sizeofT).2

/-- The room that is left, as it is without wrap-around. -/
def Fits (c : BufferCursor) (call : CursorCall) : Prop := c.pos.toNat + call.bytes ≤ c.size.toNat

instance (c : BufferCursor) (call : CursorCall) : Decidable (c.Fits call) :=
  inferInstanceAs (Decidable (_ ≤ _))

/-- A label is always enabled. -/
def next (c : BufferCursor) (call : CursorCall) : Option BufferCursor := some (c.exec call)

end BufferCursor

end StarCraftIocp
