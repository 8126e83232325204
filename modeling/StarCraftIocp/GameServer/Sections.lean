import StarCraftIocp.GameServer.Handlers

/-!
# Rooms under concurrent handlers

Creating, joining and leaving a room, cut into the pieces that run undisturbed:
a step is one locked section of the room or the manager, or an access to shared
data outside of a lock. Sessions take turns in any order; what one session does
is one handler after the other.
-/

namespace StarCraftIocp

open Protocol CInt

/-- Who called `Room::Remove`. -/
inductive Leaving where
  | exit
  | disconnect
  deriving Repr, DecidableEq

/-- Where a session's handler is; each name is what it does next. -/
inductive HandlerPc where
  | idle
  /-- `MakeShared<Room>`, with the `roomIdCount` that was read. -/
  | makeRoom (roomIdCount hostId : Int) (gameName gamePassWord mapHash : List UInt8)
  | addRoom (room : RoomRef)
  /-- `Room::Add`, after `AddRoom` or after the look-up of a join. -/
  | add (room : RoomRef) (roomCode : Int)
  /-- The reply to a session that has got into a room. -/
  | roomLobby (room : RoomRef) (roomCode : Int)
  /-- `GetRoom` in `Handle_C_EXIT_GAME`. -/
  | exitRoom (roomId : Int)
  /-- `GetRoom` in `OnDisconnected`. -/
  | disconnectRoom
  /-- The locked section of `Room::Remove`. -/
  | remove (leaving : Leaving) (room : RoomRef)
  | lobbyPlayerInfo (leaving : Leaving) (playersInfo : List SessionRef)
  /-- The loop over the players of a room that closes. -/
  | notifyExit (leaving : Leaving) (room : RoomRef) (playersInfo : List SessionRef)
  | removeRoom (leaving : Leaving) (room : RoomRef)
  /-- What comes after `Room::Remove`. -/
  | setRoomId (leaving : Leaving)
  /-- The end of `OnDisconnected`. -/
  | forget
  deriving Repr, DecidableEq

/-- The server, its sessions' handlers under way. -/
structure Concurrent (F : Type) where
  world : World F
  pc : SessionRef → HandlerPc
  /-- The rooms that have gone through `AddRoom`. -/
  added : List RoomRef
  /-- The rooms that a `Room::Remove` has decided to delete. -/
  closed : List RoomRef

/-- What a session starts to do. -/
inductive HandlerCall where
  | roomCreate (gameId : UInt64) (gameName gamePassWord mapHash : List UInt8)
  | roomRequest (roomCode : Int32) (gamePassWord : List UInt8)
  | exitGame
  | disconnect

inductive Section where
  | connect
  /-- The first access of a handler. -/
  | call (s : SessionRef) (call : HandlerCall)
  /-- The next section of the handler under way. -/
  | next (s : SessionRef)

variable {F : Type} [Scalar F]

namespace Concurrent

def init (maps : List UInt8 → Option MapSectionData) : Concurrent F where
  world := World.init maps
  pc := fun _ => .idle
  added := []
  closed := []

/-- The handler of `s` has come to `pc`, in the world `w`. -/
def goto (c : Concurrent F) (w : World F) (s : SessionRef) (pc : HandlerPc) : Concurrent F :=
  { c with world := w, pc := Function.update c.pc s pc }

/-- The same, for a world that has to be computed first. A crash ends the run. -/
def gotoM (c : Concurrent F) (x : Except Crash (World F)) (s : SessionRef) (pc : HandlerPc) :
    Option (Concurrent F) := x.toOption.map fun w => c.goto w s pc

def start (c : Concurrent F) (s : SessionRef) : HandlerCall → Option (Concurrent F)
  | .roomCreate gameId gameName gamePassWord mapHash =>
      some (c.goto c.world s (.makeRoom c.world.roomManager.roomIdCount (int32 gameId.toNat)
        gameName gamePassWord mapHash))
  | .roomRequest roomCode gamePassWord =>
      -- a null room is a crash: no run goes on with the entry `operator[]` has left
      match (c.world.roomManager.indexRoom roomCode.toInt).1 with
      | none => none
      | some r =>
          if World.admits (c.world.room r) gamePassWord then
            some (c.goto c.world s (.add r roomCode.toInt))
          else c.gotoM (c.world.reply s (.sRoomResponse false (c.world.room r).roomId)) s .idle
  | .exitGame =>
      if (c.world.session s).currentRoom = intMax then some c
      else some (c.goto c.world s (.exitRoom (c.world.session s).currentRoom))
  | .disconnect =>
      let w := c.world.setSession s { c.world.session s with connected := false }
      if (w.session s).currentRoom = intMax then some (c.goto w s .forget)
      else some (c.goto w s .disconnectRoom)

def next (c : Concurrent F) (s : SessionRef) : HandlerPc → Option (Concurrent F)
  | .idle => none
  | .makeRoom roomIdCount hostId gameName gamePassWord mapHash =>
      let (r, w) := c.world.makeRoom (Room.new roomIdCount hostId gameName gamePassWord mapHash)
      some (c.goto w s (.addRoom r))
  | .addRoom r =>
      some ({ c with added := r :: c.added }.goto (c.world.addRoom r) s
        (.add r (c.world.room r).roomId))
  | .add r roomCode => some (c.goto (c.world.roomAdd r s) s (.roomLobby r roomCode))
  | .roomLobby r roomCode =>
      c.gotoM (c.world.reply s (World.roomLobby (c.world.room r) roomCode)) s .idle
  | .exitRoom roomId =>
      match c.world.getRoom roomId with
      | none => none
      | some r => some (c.goto c.world s (.remove .exit r))
  | .disconnectRoom =>
      match c.world.getRoom (c.world.session s).currentRoom with
      | none => some (c.goto c.world s (.setRoomId .disconnect))
      | some r => some (c.goto c.world s (.remove .disconnect r))
  | .remove leaving r =>
      let (playersInfo, deleteRoom, w) := c.world.removeLocked r s
      if deleteRoom then
        some ({ c with closed := r :: c.closed }.goto w s (.notifyExit leaving r playersInfo))
      else some (c.goto w s (.lobbyPlayerInfo leaving playersInfo))
  | .lobbyPlayerInfo leaving playersInfo =>
      c.gotoM (c.world.lobbyPlayerInfo playersInfo) s (.setRoomId leaving)
  | .notifyExit leaving r [] => some (c.goto c.world s (.removeRoom leaving r))
  | .notifyExit leaving r (player :: playersInfo) =>
      -- the packet has two bytes, and fits in any chunk
      some (c.goto (c.world.notifyExit (.sRoomExit .adminExit) player) s
        (.notifyExit leaving r playersInfo))
  | .removeRoom leaving r => c.gotoM (c.world.removeRoom r) s (.setRoomId leaving)
  | .setRoomId .exit =>
      c.gotoM ((c.world.setRoomId s intMax).reply s (.sRoomExit .exit)) s .idle
  | .setRoomId .disconnect => some (c.goto (c.world.setRoomId s intMax) s .forget)
  | .forget => c.gotoM ((c.world.erasePlayerId s).gSessionManagerRemove s) s .idle

/-- A step of the server. Calls come from idle sessions that are connected. -/
def step (c : Concurrent F) : Section → Option (Concurrent F)
  | .connect => some { c with world := c.world.onConnected }
  | .call s call =>
      if c.pc s = .idle ∧ s < c.world.nextSession ∧ (c.world.session s).connected = true
      then c.start s call else none
  | .next s => c.next s (c.pc s)

end Concurrent

end StarCraftIocp
