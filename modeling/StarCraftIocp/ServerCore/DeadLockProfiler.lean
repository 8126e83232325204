import Mathlib.Data.List.Sort
import Mathlib.Logic.Function.Basic

/-!
# The deadlock profiler

`DeadLockProfiler` and the `LLockStack` of every thread. Both calls hold the mutex of
the profiler from beginning to end, so that each is one step. What is only there to
print the cycle is left out: `_idToName` and `_parent`.
-/

namespace StarCraftIocp

namespace DeadLockProfiler

/-- The causes of a `CRASH`. -/
inductive Crash where
  | multipleUnlock
  | invalidUnlock
  | deadlockDetected
  /-- No `CRASH`: the recursion went deeper than there are locks. -/
  | outOfFuel
  deriving DecidableEq

/-! ## The search -/

/-- What `CheckCycle` keeps of each lock. -/
structure Marks where
  discoveredOrder : Nat → Int
  discoveredCount : Int
  finished : Nat → Bool

def Marks.new : Marks where
  discoveredOrder := fun _ => -1
  discoveredCount := 0
  finished := fun _ => false

/-- `_discoveredOrder[here] = _discoveredCount++`. -/
def Marks.discover (m : Marks) (here : Nat) : Marks :=
  { m with
    discoveredOrder := Function.update m.discoveredOrder here m.discoveredCount
    discoveredCount := m.discoveredCount + 1 }

def Marks.finish (m : Marks) (here : Nat) : Marks :=
  { m with finished := Function.update m.finished here true }

/-- `Dfs`. -/
def dfs (lockHistory : Nat → List Nat) : Nat → Nat → Marks → Except Crash Marks
  | 0, _, _ => .error .outOfFuel
  | fuel + 1, here, m =>
      if m.discoveredOrder here ≠ -1 then .ok m
      else do
        let m ← (lockHistory here).foldlM (fun m there =>
          if m.discoveredOrder there = -1 then dfs lockHistory fuel there m
          -- found later than `here`: below it
          else if m.discoveredOrder here < m.discoveredOrder there then .ok m
          -- found earlier and not finished: above it
          else if m.finished there = false then .error .deadlockDetected
          else .ok m) (m.discover here)
        return m.finish here

/-- `CheckCycle`. -/
def checkCycle (lockHistory : Nat → List Nat) (lockCount : Nat) : Except Crash Unit := do
  let _ ← (List.range lockCount).foldlM (fun m lockId => dfs lockHistory (lockCount + 1) lockId m) Marks.new
  return ()

end DeadLockProfiler

open DeadLockProfiler

/-- The profiler, and the stacks of the threads, the top first. -/
structure ProfilerState (T N : Type) where
  nameToId : N → Option Nat
  /-- The size of `_nameToId`. -/
  lockCount : Nat
  /-- `_lockHistory`; a lock that is not in the map has no successors. -/
  lockHistory : Nat → List Nat
  lockStack : T → List Nat
  crash : Option Crash

inductive ProfilerAction (N : Type) where
  | pushLock (name : N)
  | popLock (name : N)

namespace ProfilerState

variable {T N : Type} [DecidableEq T] [DecidableEq N]

def init : ProfilerState T N where
  nameToId := fun _ => none
  lockCount := 0
  lockHistory := fun _ => []
  lockStack := fun _ => []
  crash := none

/-- The id of a name, given out if there is none. -/
def findId (s : ProfilerState T N) (name : N) : Nat × ProfilerState T N :=
  match s.nameToId name with
  | some lockId => (lockId, s)
  | none => (s.lockCount, { s with
      nameToId := Function.update s.nameToId name (some s.lockCount)
      lockCount := s.lockCount + 1 })

/-- `LLockStack.push`. -/
def push (s : ProfilerState T N) (t : T) (lockId : Nat) : ProfilerState T N :=
  { s with lockStack := Function.update s.lockStack t (lockId :: s.lockStack t) }

/-- The edge from `prevId` to `lockId`. -/
def insertEdge (s : ProfilerState T N) (prevId lockId : Nat) : ProfilerState T N :=
  let history := (s.lockHistory prevId).orderedInsert (· ≤ ·) lockId
  { s with lockHistory := Function.update s.lockHistory prevId history }

/-- `PushLock`. -/
def pushLock (s : ProfilerState T N) (t : T) (name : N) : ProfilerState T N :=
  let (lockId, s) := s.findId name
  match s.lockStack t with
  | [] => s.push t lockId
  | prevId :: _ =>
      if lockId ≠ prevId ∧ lockId ∉ s.lockHistory prevId then
        let s := s.insertEdge prevId lockId
        match checkCycle s.lockHistory s.lockCount with
        | .ok () => s.push t lockId
        | .error crash => { s with crash := some crash }
      else s.push t lockId

/-- `PopLock`. A name that is not known gets the id 0, as `_nameToId[name]` does it. -/
def popLock (s : ProfilerState T N) (t : T) (name : N) : ProfilerState T N :=
  match s.lockStack t with
  | [] => { s with crash := some .multipleUnlock }
  | top :: rest =>
      let (lockId, s) := match s.nameToId name with
        | some lockId => (lockId, s)
        | none => (0, { s with
            nameToId := Function.update s.nameToId name (some 0)
            lockCount := s.lockCount + 1 })
      if top ≠ lockId then { s with crash := some .invalidUnlock }
      else { s with lockStack := Function.update s.lockStack t rest }

/-- A thread pops the name that is on top of its stack. -/
def Enabled (s : ProfilerState T N) (t : T) : ProfilerAction N → Prop
  | .pushLock _ => True
  | .popLock name => ∃ lockId, s.nameToId name = some lockId ∧ (s.lockStack t).head? = some lockId

instance (s : ProfilerState T N) (t : T) : (a : ProfilerAction N) → Decidable (s.Enabled t a)
  | .pushLock _ => inferInstanceAs (Decidable True)
  | .popLock name => decidable_of_iff
      ((s.nameToId name).isSome = true ∧ (s.lockStack t).head? = s.nameToId name) (by
      cases h : s.nameToId name <;> simp [Enabled, h])

/-- One call of the thread `a.1`. -/
def next (s : ProfilerState T N) (a : T × ProfilerAction N) : Option (ProfilerState T N) :=
  if s.crash = none ∧ s.Enabled a.1 a.2 then
    match a.2 with
    | .pushLock name => some (s.pushLock a.1 name)
    | .popLock name => some (s.popLock a.1 name)
  else none

end ProfilerState

end StarCraftIocp
