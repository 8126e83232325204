import StarCraftIocp.ServerCore.DeadLockProfiler

/-!
# The report of the deadlock profiler

`Dfs` once more, with the array `_parent` that it keeps for the report and the loop that
prints the cycle. Every line of the report is an edge, here the two ids of its locks.
-/

namespace StarCraftIocp.CycleReport

open DeadLockProfiler

/-- How `CheckCycle` can end otherwise than by returning. -/
inductive Stop where
  /-- `CRASH("DEADLOCK_DETECTED")`, after these lines. -/
  | deadlockDetected (printed : List (Nat × Nat))
  /-- The report reads the parent of a root, which is -1, and goes on with it. -/
  | parentOfRoot
  /-- The report goes round more often than there are locks. -/
  | endlessReport
  /-- The recursion went deeper than there are locks. -/
  | outOfFuel
  deriving DecidableEq

structure Search extends Marks where
  parent : Nat → Int

namespace Search

def new : Search := { Marks.new with parent := fun _ => -1 }

def discover (s : Search) (here : Nat) : Search := { s with toMarks := s.toMarks.discover here }

def finish (s : Search) (here : Nat) : Search := { s with toMarks := s.toMarks.finish here }

/-- `_parent[there] = here`. -/
def setParent (s : Search) (there here : Nat) : Search :=
  { s with parent := Function.update s.parent there here }

end Search

/-- The `while (true)` loop of the report, with what it prints. -/
def reportLoop (parent : Nat → Int) (there : Nat) : Nat → Nat → Except Stop (List (Nat × Nat))
  | 0, _ => .error .endlessReport
  | fuel + 1, now =>
      if parent now < 0 then .error .parentOfRoot
      else
        let next := (parent now).toNat
        if next = there then .ok [(next, now)]
        else do
          let lines ← reportLoop parent there fuel next
          return (next, now) :: lines

/-- The report on the edge from `here` to `there`. -/
def report (lockCount : Nat) (s : Search) (here there : Nat) : Stop :=
  match reportLoop s.parent there lockCount here with
  | .ok lines => .deadlockDetected ((here, there) :: lines)
  | .error e => e

/-- `Dfs`. -/
def dfs (lockHistory : Nat → List Nat) (lockCount : Nat) : Nat → Nat → Search → Except Stop Search
  | 0, _, _ => .error .outOfFuel
  | fuel + 1, here, s =>
      if s.discoveredOrder here ≠ -1 then .ok s
      else do
        let s ← (lockHistory here).foldlM (fun s there =>
          if s.discoveredOrder there = -1 then dfs lockHistory lockCount fuel there (s.setParent there here)
          else if s.discoveredOrder here < s.discoveredOrder there then .ok s
          else if s.finished there = false then .error (report lockCount s here there)
          else .ok s) (s.discover here)
        return s.finish here

/-- `CheckCycle`. -/
def checkCycle (lockHistory : Nat → List Nat) (lockCount : Nat) : Except Stop Unit := do
  let _ ← (List.range lockCount).foldlM
    (fun s lockId => dfs lockHistory lockCount (lockCount + 1) lockId s) Search.new
  return ()

/-- What is left of a report for somebody who does not read it. -/
def Stop.crash : Stop → Crash
  | .deadlockDetected _ | .parentOfRoot | .endlessReport => .deadlockDetected
  | .outOfFuel => .outOfFuel

end StarCraftIocp.CycleReport
