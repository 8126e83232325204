import Mathlib.Logic.Function.Basic
import StarCraftIocp.Lib.Keyed
import StarCraftIocp.ServerCore.SendBuffer

/-!
# The send buffers of all threads

`SendBufferManager` with its pool, the `LSendBufferChunk` of every thread, and the
`SendBuffer`s that sessions share. A chunk goes back to the pool when the last
reference to it is released: its deleter is `PushGlobal`, and the thread that released
it runs it. A step of a thread is one `WRITE_LOCK` section or the release of one
reference; what a thread does to the chunk of its own in between is put to the step.
-/

namespace StarCraftIocp

namespace SendBufferPool

/-- What is left of a call of `Open`. -/
inductive Rest where
  | return
  /-- The test of the room that is left. -/
  | checkOpen (size : Nat)
  /-- `LSendBufferChunk->Open(size)`. -/
  | openChunk (size : Nat)
  deriving DecidableEq

/-- Where a thread is; each name is what it does next. -/
inductive Pc where
  | rest (rest : Rest)
  /-- `SendBufferManager::Open`, at the null check. -/
  | nullCheck (size : Nat)
  /-- `Pop`. -/
  | pop (rest : Rest)
  /-- `LSendBufferChunk = `, and `Reset`. -/
  | assign (chunk : Nat) (rest : Rest)
  /-- `PushGlobal`, called by the release of the last reference. -/
  | pushGlobal (chunk : Nat) (rest : Rest)
  /-- The destructor of a `SendBuffer`. -/
  | destroy (id : Nat)
  deriving DecidableEq

/-- A `SendBuffer` that has not been destroyed. -/
structure LiveBuffer where
  id : Nat
  /-- The chunk that `_owner` refers to. -/
  owner : Nat
  buffer : SendBuffer
  closed : Bool
  /-- The number of references to it. -/
  useCount : Nat

inductive Failure where
  | crash (crash : Crash)
  /-- `LSendBufferChunk` is null where it is used. -/
  | nullChunk
  deriving DecidableEq

inductive Action where
  /-- `SendBufferManager::Open`. -/
  | openBuffer (size : Nat)
  /-- The thread writes into the buffer it has opened. -/
  | write (offset : Nat) (bytes : List UInt8)
  /-- The thread closes the buffer it has opened. -/
  | close (writeSize : Nat)
  /-- A reference is copied. -/
  | share (id : Nat)
  | release (id : Nat)
  /-- A thread takes its next step. -/
  | next

end SendBufferPool

open SendBufferPool

structure SendBufferPool (T : Type) where
  chunk : Nat → SendBufferChunk
  /-- The number of references to a chunk. -/
  useCount : Nat → Nat
  /-- How many chunks have been made. -/
  chunkCount : Nat
  sendBufferChunks : List Nat
  /-- `LSendBufferChunk`. -/
  current : T → Option Nat
  buffers : List LiveBuffer
  /-- How many buffers have been made. -/
  bufferCount : Nat
  /-- The buffer that a thread has opened and not closed. -/
  opening : T → Option Nat
  pc : T → Pc
  failure : Option Failure

namespace SendBufferPool

variable {T : Type} [DecidableEq T]

def init : SendBufferPool T where
  chunk := fun _ => .new
  useCount := fun _ => 0
  chunkCount := 0
  sendBufferChunks := []
  current := fun _ => none
  buffers := []
  bufferCount := 0
  opening := fun _ => none
  pc := fun _ => .rest .return
  failure := none

def goto (s : SendBufferPool T) (t : T) (pc : Pc) : SendBufferPool T :=
  { s with pc := Function.update s.pc t pc }

def setChunk (s : SendBufferPool T) (c : Nat) (chunk : SendBufferChunk) : SendBufferPool T :=
  { s with chunk := Function.update s.chunk c chunk }

def setUseCount (s : SendBufferPool T) (c n : Nat) : SendBufferPool T :=
  { s with useCount := Function.update s.useCount c n }

/-- The buffer of this id, while it is live. -/
def find (s : SendBufferPool T) (id : Nat) : Option LiveBuffer := s.buffers.find? fun b => b.id = id

def setBuffer (s : SendBufferPool T) (b : LiveBuffer) : SendBufferPool T :=
  { s with buffers := Keyed.set LiveBuffer.id s.buffers b }

def fail (s : SendBufferPool T) (failure : Failure) : SendBufferPool T := { s with failure := some failure }

/-! ## Open -/

/-- The locked section of `Pop`, or the chunk it makes. -/
def pop (s : SendBufferPool T) (t : T) (rest : Rest) : SendBufferPool T :=
  match s.sendBufferChunks.getLast? with
  | some c => { s with sendBufferChunks := s.sendBufferChunks.dropLast }.goto t (.assign c rest)
  | none => (({ s with chunkCount := s.chunkCount + 1 }.setChunk s.chunkCount .new).setUseCount s.chunkCount 1).goto t
      (.assign s.chunkCount rest)

/-- A reference to a chunk is released; the last one calls the deleter. -/
def dropChunk (s : SendBufferPool T) (t : T) (c : Nat) (rest : Rest) : SendBufferPool T :=
  (s.setUseCount c (s.useCount c - 1)).goto t (if s.useCount c = 1 then .pushGlobal c rest else .rest rest)

def assign (s : SendBufferPool T) (t : T) (c : Nat) (rest : Rest) : SendBufferPool T :=
  let s' := { s with current := Function.update s.current t (some c) }.setChunk c (s.chunk c).reset
  match s.current t with
  | none => s'.goto t (.rest rest)
  | some old => s'.dropChunk t old rest

/-- `PushGlobal`: a new reference of its own, and the locked section of `Push`. -/
def pushGlobal (s : SendBufferPool T) (t : T) (c : Nat) (rest : Rest) : SendBufferPool T :=
  ({ s with sendBufferChunks := s.sendBufferChunks ++ [c] }.setUseCount c 1).goto t (.rest rest)

def checkOpen (s : SendBufferPool T) (t : T) (size : Nat) : SendBufferPool T :=
  match s.current t with
  | none => s.fail .nullChunk
  | some c =>
      if (s.chunk c).opened then s.fail (.crash .assertCrash)
      else if (s.chunk c).freeSize < size then s.goto t (.pop (.openChunk size))
      else s.goto t (.rest (.openChunk size))

def openChunk (s : SendBufferPool T) (t : T) (size : Nat) : SendBufferPool T :=
  match s.current t with
  | none => s.fail .nullChunk
  | some c =>
      match (s.chunk c).openBuffer size with
      | .error crash => s.fail (.crash crash)
      | .ok (none, _) => s.goto t (.rest .return)
      | .ok (some buffer, chunk) =>
          let b := { id := s.bufferCount, owner := c, buffer := buffer, closed := false, useCount := 1 }
          ({ s with
            buffers := b :: s.buffers
            bufferCount := s.bufferCount + 1
            opening := Function.update s.opening t (some s.bufferCount) }.setChunk c chunk |>.setUseCount c
              (s.useCount c + 1)).goto t (.rest .return)

/-! ## What is done with a buffer -/

def write (s : SendBufferPool T) (b : LiveBuffer) (offset : Nat) (bytes : List UInt8) : SendBufferPool T :=
  match (s.chunk b.owner).write (b.buffer.pos + offset) bytes with
  | .error crash => s.fail (.crash crash)
  | .ok chunk => s.setChunk b.owner chunk

def close (s : SendBufferPool T) (t : T) (b : LiveBuffer) (writeSize : Nat) : SendBufferPool T :=
  match b.buffer.close (s.chunk b.owner) writeSize with
  | .error crash => s.fail (.crash crash)
  | .ok (buffer, chunk) =>
      { (s.setBuffer { b with buffer := buffer, closed := true }).setChunk b.owner chunk with
        opening := Function.update s.opening t none }

def release (s : SendBufferPool T) (t : T) (b : LiveBuffer) : SendBufferPool T :=
  (s.setBuffer { b with useCount := b.useCount - 1 }).goto t
    (if b.useCount = 1 then .destroy b.id else .rest .return)

def destroy (s : SendBufferPool T) (t : T) (b : LiveBuffer) : SendBufferPool T :=
  { s with buffers := Keyed.remove LiveBuffer.id s.buffers b.id }.dropChunk t b.owner .return

/-- What a thread does between its calls; only references that there are can be used. -/
def idle (s : SendBufferPool T) (t : T) : Action → Option (SendBufferPool T)
  | .openBuffer size =>
      if size ≤ sendBufferChunkSize ∧ s.opening t = none then some (s.goto t (.nullCheck size)) else none
  | .write offset bytes => do
      let b ← s.find (← s.opening t)
      if 0 < b.useCount ∧ offset + bytes.length ≤ b.buffer.allocSize then
        some (s.write b offset bytes)
      else none
  | .close writeSize => do
      let b ← s.find (← s.opening t)
      if 0 < b.useCount ∧ writeSize ≤ b.buffer.allocSize then some (s.close t b writeSize) else none
  | .share id => do
      let b ← s.find id
      if 0 < b.useCount then some (s.setBuffer { b with useCount := b.useCount + 1 }) else none
  | .release id => do
      let b ← s.find id
      if 0 < b.useCount then some (s.release t b) else none
  | .next => none

/-- One step of the thread `a.1`; `none` when the action is not possible now. -/
def next (s : SendBufferPool T) (a : T × Action) : Option (SendBufferPool T) :=
  if s.failure.isSome then none
  else
    match s.pc a.1, a.2 with
    | .rest .return, action => s.idle a.1 action
    | .rest (.checkOpen size), .next => some (s.checkOpen a.1 size)
    | .rest (.openChunk size), .next => some (s.openChunk a.1 size)
    | .nullCheck size, .next =>
        match s.current a.1 with
        | none => some (s.goto a.1 (.pop (.checkOpen size)))
        | some _ => some (s.goto a.1 (.rest (.checkOpen size)))
    | .pop rest, .next => some (s.pop a.1 rest)
    | .assign c rest, .next => some (s.assign a.1 c rest)
    | .pushGlobal c rest, .next => some (s.pushGlobal a.1 c rest)
    | .destroy id, .next => (s.find id).map (s.destroy a.1)
    | _, _ => none

end SendBufferPool

end StarCraftIocp
