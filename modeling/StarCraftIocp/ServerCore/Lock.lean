import Mathlib.Logic.Function.Basic
import Mathlib.Tactic.Common

/-!
# The read/write spin lock

`Lock`, run by any number of threads. A step is one access to `_lockFlag` or to
`_writeCount`. The clock is left out, so that a thread may spin for as long as it
takes, and so are the names, which only the profiler looks at.
-/

namespace StarCraftIocp

/-- `WRITE_THREAD_MASK`. -/
def writeThreadMask : BitVec 32 := 0xFFFF0000#32

/-- `READ_COUNT_MASK`. -/
def readCountMask : BitVec 32 := 0x0000FFFF#32

/-- `EMPTY_FLAG`. -/
def emptyFlag : BitVec 32 := 0#32

/-- Where a thread is; each name is what it does next. -/
inductive LockPc where
  | idle
  /-- `WriteLock`: look for the owner. -/
  | writeLock
  /-- `WriteLock` by the owner: `_writeCount++`. -/
  | writeAgain
  /-- `WriteLock`: `compare_exchange_strong`. -/
  | writeExchange
  /-- `WriteLock`, with the lock in hand: `_writeCount++`. -/
  | writeFirst
  /-- `WriteUnlock`: look for readers. -/
  | writeUnlock
  /-- `WriteUnlock`: `--_writeCount`. -/
  | writeDecrement
  /-- `WriteUnlock`: store `EMPTY_FLAG`. -/
  | writeStore
  /-- `ReadLock`: look for the owner. -/
  | readLock
  /-- `ReadLock` by the owner: `fetch_add`. -/
  | readAgain
  /-- `ReadLock`: load what is expected. -/
  | readExpect
  /-- `ReadLock`: `compare_exchange_strong`. -/
  | readExchange (expected : BitVec 32)
  /-- `ReadUnlock`: `fetch_sub`. -/
  | readUnlock
  deriving DecidableEq

/-- The causes of a `CRASH`, `LOCK_TIMEOUT` apart. -/
inductive LockCrash where
  | invalidUnlockOrder
  | multipleUnlock
  deriving DecidableEq

/-- The lock, where its threads are, and what they hold. -/
structure LockState (T : Type) where
  lockFlag : BitVec 32
  writeCount : BitVec 16
  pc : T → LockPc
  /-- How often a thread holds the lock for writing. -/
  writes : T → Nat
  /-- How often a thread holds the lock for reading. -/
  reads : T → Nat
  crash : Option LockCrash

inductive LockAction where
  | writeLock
  | writeUnlock
  | readLock
  | readUnlock
  /-- A thread takes its next step. -/
  | next
  deriving DecidableEq

/-- The thread that the flag names. -/
def lockThreadId (lockFlag : BitVec 32) : BitVec 32 := (lockFlag &&& writeThreadMask) >>> 16

namespace LockState

variable {T : Type} [DecidableEq T]

def init : LockState T where
  lockFlag := emptyFlag
  writeCount := 0
  pc := fun _ => .idle
  writes := fun _ => 0
  reads := fun _ => 0
  crash := none

def goto (s : LockState T) (t : T) (pc : LockPc) : LockState T :=
  { s with pc := Function.update s.pc t pc }

def setWrites (s : LockState T) (t : T) (n : Nat) : LockState T :=
  { s with writes := Function.update s.writes t n }

def setReads (s : LockState T) (t : T) (n : Nat) : LockState T :=
  { s with reads := Function.update s.reads t n }

/-- What a thread with the id `id` does next. -/
def advance (s : LockState T) (t : T) (id : BitVec 32) : LockPc → Option (LockState T)
  | .idle => none
  | .writeLock =>
      some (if id = lockThreadId s.lockFlag then s.goto t .writeAgain else s.goto t .writeExchange)
  | .writeAgain =>
      some (({ s with writeCount := s.writeCount + 1 }.setWrites t (s.writes t + 1)).goto t .idle)
  | .writeExchange =>
      let desired := (id <<< 16) &&& writeThreadMask
      if s.lockFlag = emptyFlag then
        some (({ s with lockFlag := desired }.setWrites t (s.writes t + 1)).goto t .writeFirst)
      else some s
  | .writeFirst => some ({ s with writeCount := s.writeCount + 1 }.goto t .idle)
  | .writeUnlock =>
      if s.lockFlag &&& readCountMask ≠ 0 then some { s with crash := some .invalidUnlockOrder }
      else some (s.goto t .writeDecrement)
  | .writeDecrement =>
      let lockCount := s.writeCount - 1
      let s := { s with writeCount := lockCount }
      -- the last one is held until the flag is empty
      if lockCount = 0 then some (s.goto t .writeStore)
      else some ((s.setWrites t (s.writes t - 1)).goto t .idle)
  | .writeStore => some (({ s with lockFlag := emptyFlag }.setWrites t (s.writes t - 1)).goto t .idle)
  | .readLock =>
      some (if id = lockThreadId s.lockFlag then s.goto t .readAgain else s.goto t .readExpect)
  | .readAgain => some (({ s with lockFlag := s.lockFlag + 1 }.setReads t (s.reads t + 1)).goto t .idle)
  | .readExpect => some (s.goto t (.readExchange (s.lockFlag &&& readCountMask)))
  | .readExchange expected =>
      if s.lockFlag = expected then
        some (({ s with lockFlag := expected + 1 }.setReads t (s.reads t + 1)).goto t .idle)
      else some (s.goto t .readExpect)
  | .readUnlock =>
      let s' := ({ s with lockFlag := s.lockFlag - 1 }.setReads t (s.reads t - 1)).goto t .idle
      if s.lockFlag &&& readCountMask = 0 then some { s' with crash := some .multipleUnlock }
      else some s'

/-- One step of the thread `a.1`; `none` when the action is not possible now. A thread releases only what it holds. -/
def next (threadId : T → BitVec 32) (s : LockState T) (a : T × LockAction) : Option (LockState T) :=
  if s.crash.isSome then none
  else
    match a.2, s.pc a.1 with
    | .writeLock, .idle => some (s.goto a.1 .writeLock)
    | .writeUnlock, .idle => if 0 < s.writes a.1 then some (s.goto a.1 .writeUnlock) else none
    | .readLock, .idle => some (s.goto a.1 .readLock)
    | .readUnlock, .idle => if 0 < s.reads a.1 then some (s.goto a.1 .readUnlock) else none
    | .next, pc => s.advance a.1 (threadId a.1) pc
    | _, _ => none

end LockState

end StarCraftIocp
