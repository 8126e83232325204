import StarCraftIocp.GameServer.Room

/-!
# Minerals

Of a `Mineral` there is here what mining changes. A worker is looked up in its room
with `operator[]`, so that an id nobody has gives null.
-/

namespace StarCraftIocp

structure Mineral where
  occpied : Option ObjRef
  waitingWorker : Option ObjRef → Option Int

/-- What goes wrong. -/
inductive MineralFailure where
  /-- `WaitingWorker.erase(WaitingWorker.end())`. -/
  | eraseEnd
  deriving Repr, DecidableEq

variable {F : Type}

namespace Mineral

def new : Mineral where
  occpied := none
  waitingWorker := fun _ => none

/-- `TryMining`. -/
def tryMining (m : Mineral) (room : Room F) (workerId : Int) : Bool × Mineral × Room F :=
  let (worker, room) := room.indexObject workerId
  if m.occpied ≠ none then
    (false, { m with waitingWorker := Function.update m.waitingWorker worker (some workerId) }, room)
  else (true, { m with occpied := worker }, room)

/-- `RemoveWorker`. -/
def removeWorker (m : Mineral) (room : Room F) (workerId : Int) : Except MineralFailure (Mineral × Room F) :=
  let (worker, room) := room.indexObject workerId
  if m.occpied = worker then .ok ({ m with occpied := none }, room)
  else
    match m.waitingWorker worker with
    | none => .error .eraseEnd
    | some _ => .ok ({ m with waitingWorker := Function.update m.waitingWorker worker none }, room)

end Mineral

/-! ## Runs -/

/-- A call, with the room as it is then. -/
inductive MiningCall (F : Type) where
  | tryMining (room : Room F) (workerId : Int)
  | removeWorker (room : Room F) (workerId : Int)

/-- The object that has the id the call is made with. -/
def MiningCall.worker : MiningCall F → Option ObjRef
  | .tryMining room workerId => (room.indexObject workerId).1
  | .removeWorker room workerId => (room.indexObject workerId).1

namespace Mineral

/-- What `TryMining` returns, and the mineral afterwards. -/
def exec (m : Mineral) : MiningCall F → Except MineralFailure (Option Bool × Mineral)
  | .tryMining room workerId =>
      let (returned, m, _) := m.tryMining room workerId
      .ok (some returned, m)
  | .removeWorker room workerId => do
      let (m, _) ← m.removeWorker room workerId
      return (none, m)

/-- The calls are made by workers in the room. -/
def next (m : Mineral) (call : MiningCall F) : Option Mineral :=
  if call.worker ≠ none then (m.exec call).toOption.map Prod.snd else none

end Mineral

end StarCraftIocp
