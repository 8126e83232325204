import StarCraftIocp.GameServer.RoomRun
import StarCraftIocp.Lib.Table
import StarCraftIocp.Lib.Transition
import StarCraftIocp.Proof.Encoding
import StarCraftIocp.Proof.Frame

/-!
# Joining and leaving, seen from the room manager

What each step of the serial server does to the rooms in the manager, to the
members of a room and to the room a session believes to be in. Most steps are
quiet: they change none of it. The rest join a session to a room or make it
leave one, which may close the room.
-/

namespace StarCraftIocp

open Outcome CInt Protocol

variable {F : Type} [Scalar F]

/-- A new room, and one whose last member has just been thrown out. -/
def Membership.empty (m : Membership) : Membership :=
  { m with playerCount := 0, sessions := ∅, sessionPlayers := ∅ }

/-- A room whose members have been thrown out. -/
def Room.cleared (room : Room F) : Room F :=
  { room with sessions := ∅, sessionPlayers := ∅, playerCount := 0 }

namespace World

/-- The room stored under `id`. -/
def Registered (w : World F) (id : Int) (r : RoomRef) : Prop :=
  w.roomManager.rooms[id]? = some (some r)

omit [Scalar F] in
theorem getRoom_eq_some {w : World F} {id : Int} {r : RoomRef} :
    w.getRoom id = some r ↔ w.Registered id r := Table.getD_none_eq_some ..

/-- If there is a room with this id, it satisfies `P`. -/
def IfRoom (w : World F) (id : Int) (P : RoomRef → Prop) : Prop := ∀ r, w.getRoom id = some r → P r

omit [Scalar F] in
theorem ifRoom_none {w : World F} {id : Int} (P : RoomRef → Prop) (h : w.getRoom id = none) :
    w.IfRoom id P := by
  intro r hr
  rw [h] at hr
  cases hr

omit [Scalar F] in
theorem ifRoom_some {w : World F} {id : Int} {r : RoomRef} (P : RoomRef → Prop)
    (h : w.getRoom id = some r) : P r ↔ w.IfRoom id P := by
  refine ⟨?_, fun hif => hif r h⟩
  intro hp q hq
  rw [h] at hq
  exact Option.some.inj hq ▸ hp

omit [Scalar F] in
instance (w : World F) (id : Int) (P : RoomRef → Prop) [DecidablePred P] :
    Decidable (w.IfRoom id P) :=
  match h : w.getRoom id with
  | none => isTrue (ifRoom_none P h)
  | some r => decidable_of_iff (P r) (ifRoom_some P h)

/-! ## One room, or one session, changed -/

section

omit [Scalar F]

theorem room_setRoom (w : World F) (r q : RoomRef) (room : Room F) :
    (w.setRoom r room).room q = if q = r then room else w.room q := Function.update_apply ..

theorem session_setSession (w : World F) (s t : SessionRef) (session : GameSession) :
    (w.setSession s session).session t = if t = s then session else w.session t :=
  Function.update_apply ..

variable {α : Type} (f : GameSession → α)

theorem field_setSession (w : World F) (s t : SessionRef) (session : GameSession) :
    f ((w.setSession s session).session t) = if t = s then f session else f (w.session t) := by
  rw [session_setSession, apply_ite f]

/-- What the session keeps is the same for everybody. -/
theorem field_setSession_of_eq (w : World F) (s : SessionRef) (session : GameSession)
    (h : f session = f (w.session s)) (t : SessionRef) :
    f ((w.setSession s session).session t) = f (w.session t) := by
  rw [field_setSession f w s t session]
  by_cases ht : t = s
  · rw [if_pos ht, h, ht]
  · rw [if_neg ht]

theorem currentRoom_setRoomId (w : World F) (s : SessionRef) (id : Int) (t : SessionRef) :
    ((w.setRoomId s id).session t).currentRoom
      = if t = s then id else (w.session t).currentRoom :=
  field_setSession GameSession.currentRoom ..

theorem connected_setRoomId (w : World F) (s : SessionRef) (id : Int) (t : SessionRef) :
    ((w.setRoomId s id).session t).connected = (w.session t).connected :=
  field_setSession_of_eq GameSession.connected w s { w.session s with currentRoom := id } rfl t

theorem currentRoom_onConnected (w : World F) (t : SessionRef) :
    (w.onConnected.session t).currentRoom
      = if t = w.nextSession then intMax else (w.session t).currentRoom :=
  field_setSession GameSession.currentRoom ..

end

/-! ## What a step changes in rooms and sessions -/

/--
`w'` is what becomes of `w` when the table of rooms becomes `rooms`, the members
of `r` become `m`, and the sessions of `freed` are told that they are in no room.
-/
structure Becomes (w w' : World F) (rooms : Std.ExtTreeMap Int (Option RoomRef)) (r : RoomRef)
    (m : Membership) (freed : List SessionRef) : Prop where
  rooms : w'.roomManager.rooms = rooms
  room : ∀ q, (w'.room q).membership = if q = r then m else (w.room q).membership
  currentRoom : ∀ t, (w'.session t).currentRoom
    = if t ∈ freed then intMax else (w.session t).currentRoom
  roomIdCount : w'.roomManager.roomIdCount = w.roomManager.roomIdCount
  nextRoom : w'.nextRoom = w.nextRoom
  nextSession : w'.nextSession = w.nextSession
  connected : ∀ t, (w'.session t).connected = (w.session t).connected

/-- `w'` differs from `w` in nothing that concerns who is in which room. -/
structure Quiet (w w' : World F) : Prop where
  rooms : w'.roomManager.rooms = w.roomManager.rooms
  room : ∀ q, (w'.room q).membership = (w.room q).membership
  currentRoom : ∀ t, (w'.session t).currentRoom = (w.session t).currentRoom
  roomIdCount : w'.roomManager.roomIdCount = w.roomManager.roomIdCount
  nextRoom : w'.nextRoom = w.nextRoom
  nextSession : w'.nextSession = w.nextSession
  connected : ∀ t, (w'.session t).connected = (w.session t).connected

namespace Quiet

omit [Scalar F]

theorem refl (w : World F) : Quiet w w :=
  ⟨rfl, fun _ => rfl, fun _ => rfl, rfl, rfl, rfl, fun _ => rfl⟩

theorem trans {w w' w'' : World F} (h : Quiet w w') (h' : Quiet w' w'') : Quiet w w'' where
  rooms := h'.rooms.trans h.rooms
  room q := (h'.room q).trans (h.room q)
  currentRoom t := (h'.currentRoom t).trans (h.currentRoom t)
  roomIdCount := h'.roomIdCount.trans h.roomIdCount
  nextRoom := h'.nextRoom.trans h.nextRoom
  nextSession := h'.nextSession.trans h.nextSession
  connected t := (h'.connected t).trans (h.connected t)

theorem symm {w w' : World F} (h : Quiet w w') : Quiet w' w where
  rooms := h.rooms.symm
  room q := (h.room q).symm
  currentRoom t := (h.currentRoom t).symm
  roomIdCount := h.roomIdCount.symm
  nextRoom := h.nextRoom.symm
  nextSession := h.nextSession.symm
  connected t := (h.connected t).symm

theorem setRoom (w : World F) {r : RoomRef} {room : Room F}
    (h : room.membership = (w.room r).membership) : Quiet w (w.setRoom r room) := by
  refine ⟨rfl, ?_, fun _ => rfl, rfl, rfl, rfl, fun _ => rfl⟩
  intro q
  rw [room_setRoom]
  by_cases hq : q = r
  · rw [if_pos hq, h, hq]
  · rw [if_neg hq]

theorem setSession (w : World F) {s : SessionRef} {session : GameSession}
    (hr : session.currentRoom = (w.session s).currentRoom)
    (hc : session.connected = (w.session s).connected) : Quiet w (w.setSession s session) where
  rooms := rfl
  room _ := rfl
  currentRoom := field_setSession_of_eq GameSession.currentRoom w s session hr
  roomIdCount := rfl
  nextRoom := rfl
  nextSession := rfl
  connected := field_setSession_of_eq GameSession.connected w s session hc

end Quiet

theorem quiet_reply (w : World F) (s : SessionRef) (msg : ServerMessage F) :
    Ensures (w.reply s msg) (Quiet w) :=
  Ensures.bind (P := fun _ => True) (fun _ _ => trivial) fun _ _ =>
    .ok ⟨rfl, fun _ => rfl, fun _ => rfl, rfl, rfl, rfl, fun _ => rfl⟩

theorem reply_ok (w : World F) (s : SessionRef) {msg : ServerMessage F}
    (h : msg.byteSizeLong ≤ 5996) : w.reply s msg = .ok { w with sent := w.sent ++ [(s, msg)] } := by
  unfold reply
  rw [ServerMessage.frame_ok h]
  rfl

/-! ## The quiet handlers -/

omit [Scalar F] in
/-- A handler that changes one room and not its members. -/
theorem quiet_of_keeps {w : World F} {r : RoomRef} {x : Except Crash (Room F)}
    (h : (w.room r).Keeps x) : Ensures (x >>= fun room => .ok (w.setRoom r room)) (Quiet w) :=
  Ensures.bind h fun _ hroom => .ok (Quiet.setRoom w hroom)

theorem quiet_handleCLogin (w : World F) (s : SessionRef) (loginCode : UInt64) :
    Ensures (w.handleCLogin s loginCode) (Quiet w) := by
  refine Ensures.ite (fun _ => quiet_reply w s _) ?_
  intro _
  refine (quiet_reply _ s _).mono fun w' h => Quiet.trans ?_ h
  have hid : Quiet w { w with roomManager := { w.roomManager with
      playerIdList := w.roomManager.playerIdList.insert (int32 loginCode.toNat) } } :=
    ⟨rfl, fun _ => rfl, fun _ => rfl, rfl, rfl, rfl, fun _ => rfl⟩
  exact hid.trans (Quiet.setSession _ rfl rfl)

theorem quiet_handleCMove (w : World F) (roomCode : Int32) (objectId : List UInt32)
    (position : Vector3 F) : Ensures (w.handleCMove roomCode objectId position) (Quiet w) := by
  refine Ensures.foldlM (Quiet.refl w) ?_
  intro w' hw id _
  refine Ensures.mono (P := Quiet w') ?_ fun _ h => hw.trans h
  unfold moveObject
  cases w.getRoom roomCode.toInt with
  | none => exact .error _
  | some r =>
      have hi := congrArg Room.Standing.membership (Room.standing_indexObject (w'.room r) (int32 id.toNat))
      dsimp only
      cases ((w'.room r).indexObject (int32 id.toNat)).1 with
      | none => exact .error _
      | some object => exact .ok (Quiet.setRoom w' hi)

theorem quiet_handleCRoomData (w : World F) (s : SessionRef) :
    Ensures (w.handleCRoomData s) (Quiet w) :=
  Ensures.bind (P := fun _ => True) (fun _ _ => trivial) fun _ _ => quiet_reply w s _

theorem quiet_handleCRoomPlayerListRequest (w : World F) (roomCode : Int32) :
    Ensures (w.handleCRoomPlayerListRequest roomCode) (Quiet w) := by
  unfold handleCRoomPlayerListRequest
  cases w.getRoom roomCode.toInt with
  | none => exact .error _
  | some r =>
      exact Ensures.bind (P := fun _ => True) (fun _ _ => trivial) fun _ _ => .ok (Quiet.setRoom w rfl)

theorem quiet_handleCStartGame (env : Env F) (w : World F) (roomCode : Int32) :
    Ensures (w.handleCStartGame env roomCode) (Quiet w) := by
  unfold handleCStartGame
  cases w.getRoom roomCode.toInt with
  | none => exact .error _
  | some r => exact quiet_of_keeps ((Room.keeps_startGame env _).of_eq rfl)

theorem quiet_handleCAttack (w : World F) (roomCode : Int32) (objectId : UInt32) (objectType : Int32)
    (direction : Vector3 F) :
    Ensures (w.handleCAttack roomCode objectId objectType direction) (Quiet w) := by
  unfold handleCAttack
  cases w.getRoom roomCode.toInt with
  | none => exact .error _
  | some r =>
      have hi := congrArg Room.Standing.membership
        (Room.standing_indexObject (w.room r) (int32 objectId.toNat))
      dsimp only
      cases ((w.room r).indexObject (int32 objectId.toNat)).1 with
      | none => exact .error _
      | some shooter => exact .ok (Quiet.setRoom w hi)

theorem quiet_update (env : Env F) (w : World F) : Ensures (w.update env) (Quiet w) := by
  refine Ensures.foldlM (Quiet.refl w) ?_
  intro w' hw entry _
  refine Ensures.mono (P := Quiet w') ?_ fun _ h => hw.trans h
  unfold updateRoom
  cases entry.2 with
  | none => exact .error _
  | some r => exact quiet_of_keeps (Room.stays_update env _).keeps

/-! ## Leaving a room -/

namespace Becomes

omit [Scalar F]

variable {w w' w'' : World F} {rooms : Std.ExtTreeMap Int (Option RoomRef)} {r : RoomRef}
  {m : Membership} {freed : List SessionRef}

theorem refl (w : World F) (r : RoomRef) :
    Becomes w w w.roomManager.rooms r (w.room r).membership [] := by
  refine ⟨rfl, ?_, fun t => (if_neg List.not_mem_nil).symm, rfl, rfl, rfl, fun _ => rfl⟩
  intro q
  by_cases hq : q = r
  · rw [if_pos hq, hq]
  · rw [if_neg hq]

theorem trans_quiet (h : Becomes w w' rooms r m freed) (hq : Quiet w' w'') :
    Becomes w w'' rooms r m freed where
  rooms := hq.rooms.trans h.rooms
  room q := (hq.room q).trans (h.room q)
  currentRoom t := (hq.currentRoom t).trans (h.currentRoom t)
  roomIdCount := hq.roomIdCount.trans h.roomIdCount
  nextRoom := hq.nextRoom.trans h.nextRoom
  nextSession := hq.nextSession.trans h.nextSession
  connected t := (hq.connected t).trans (h.connected t)

/-- One more session is told that it is in no room. -/
theorem setRoomId (h : Becomes w w' rooms r m freed) (s : SessionRef) :
    Becomes w (w'.setRoomId s intMax) rooms r m (s :: freed) := by
  refine ⟨h.rooms, h.room, ?_, h.roomIdCount, h.nextRoom, h.nextSession, ?_⟩
  · intro t
    rw [currentRoom_setRoomId, h.currentRoom]
    by_cases ht : t = s
    · simp [ht]
    · simp [ht]
  · intro t
    rw [connected_setRoomId, h.connected]

end Becomes

omit [Scalar F] in
theorem becomes_setRoom (w : World F) (r : RoomRef) (room : Room F) :
    Becomes w (w.setRoom r room) w.roomManager.rooms r room.membership [] := by
  refine ⟨rfl, ?_, fun t => (if_neg List.not_mem_nil).symm, rfl, rfl, rfl, fun _ => rfl⟩
  intro q
  rw [room_setRoom, apply_ite Room.membership]

omit [Scalar F] in
/-- The loop over the players of a room that closes. -/
theorem becomes_notifyExit {w w' : World F} {rooms : Std.ExtTreeMap Int (Option RoomRef)} {r : RoomRef}
    {m : Membership} {freed : List SessionRef} (packet : ServerMessage F) (players : List SessionRef)
    (h : Becomes w w' rooms r m freed) :
    Becomes w (players.foldl (fun w player => w.notifyExit packet player) w') rooms r m
      (players.reverse ++ freed) := by
  induction players generalizing w' freed with
  | nil => exact h
  | cons player players ih =>
      rw [List.foldl_cons, List.reverse_cons, List.append_assoc]
      refine ih ?_
      exact (h.setRoomId player).trans_quiet
        ⟨rfl, fun _ => rfl, fun _ => rfl, rfl, rfl, rfl, fun _ => rfl⟩

/-- The members of `r` without `s`. -/
def without (w : World F) (r : RoomRef) (s : SessionRef) : Room F := (w.room r).removeGameSession s

/-- Whether the room closes when `s` leaves it. -/
def closes (w : World F) (r : RoomRef) (s : SessionRef) : Bool :=
  (w.without r s).deleteRoom (w.session s).playerName

/-- What `Room::Remove` does, with `freed` told that they are in no room. -/
inductive Leaves (w w' : World F) (r : RoomRef) (s : SessionRef) : List SessionRef → Prop
  | stays {freed : List SessionRef} (hclose : w.closes r s = false)
      (h : Becomes w w' w.roomManager.rooms r (w.without r s).membership freed) : Leaves w w' r s freed
  | closed {freed : List SessionRef} (hclose : w.closes r s = true)
      (h : Becomes w w' (w.roomManager.rooms.erase (w.room r).roomId) r
        (w.without r s).membership.empty ((w.without r s).sessions.toList.reverse ++ freed)) :
      Leaves w w' r s freed

omit [Scalar F] in
theorem without_roomId (w : World F) (r : RoomRef) (s : SessionRef) :
    (w.without r s).roomId = (w.room r).roomId := by
  unfold without Room.removeGameSession
  split
  · dsimp only
    split <;> rfl
  · rfl

theorem becomes_removeRoom {w w' : World F} {rooms : Std.ExtTreeMap Int (Option RoomRef)} {r : RoomRef}
    {m : Membership} {freed : List SessionRef} (h : Becomes w w' rooms r m freed) :
    Ensures (w'.removeRoom r) fun w'' => Becomes w w'' (rooms.erase m.roomId) r m freed := by
  refine Ensures.bind (Room.stays_removeObjects (w'.room r)).keeps ?_
  intro room hroom
  have hm : room.membership = m := by rw [hroom, h.room r, if_pos rfl]
  refine .ok ⟨?_, ?_, h.currentRoom, h.roomIdCount, h.nextRoom, h.nextSession, h.connected⟩
  · rw [← h.rooms, ← hm]; rfl
  · intro q
    change ((w'.setRoom r room).room q).membership = _
    rw [room_setRoom]
    by_cases hq : q = r
    · rw [if_pos hq, if_pos hq, hm]
    · rw [if_neg hq, h.room q]

theorem quiet_lobbyPlayerInfo (w : World F) (playersInfo : List SessionRef) :
    Ensures (w.lobbyPlayerInfo playersInfo) (Quiet w) :=
  Ensures.bind (P := fun _ => True) (fun _ _ => trivial) fun _ _ =>
    .ok ⟨rfl, fun _ => rfl, fun _ => rfl, rfl, rfl, rfl, fun _ => rfl⟩

omit [Scalar F] in
theorem removeLocked_stays {w : World F} {r : RoomRef} {s : SessionRef} (h : w.closes r s = false) :
    w.removeLocked r s = ((w.without r s).sessions.toList, false, w.setRoom r (w.without r s)) := by
  have hd : ((w.room r).removeGameSession s).deleteRoom (w.session s).playerName = false := h
  unfold removeLocked Room.removeLocked
  simp only [hd, Bool.false_eq_true, if_false]
  rfl

omit [Scalar F] in
theorem removeLocked_closed {w : World F} {r : RoomRef} {s : SessionRef} (h : w.closes r s = true) :
    w.removeLocked r s
      = ((w.without r s).sessions.toList, true, w.setRoom r (w.without r s).cleared) := by
  have hd : ((w.room r).removeGameSession s).deleteRoom (w.session s).playerName = true := h
  unfold removeLocked Room.removeLocked
  simp only [hd, if_true]
  rfl

/-- `Room::Remove` in a room that stays. -/
theorem roomRemove_stays {w : World F} {r : RoomRef} {s : SessionRef} (h : w.closes r s = false) :
    w.roomRemove r s
      = (w.setRoom r (w.without r s)).lobbyPlayerInfo (w.without r s).sessions.toList := by
  unfold roomRemove
  rw [removeLocked_stays h]
  rfl

/-- A room that closes, with all its players told and the room still in the table. -/
def emptied (w : World F) (r : RoomRef) (s : SessionRef) : World F :=
  (w.without r s).sessions.toList.foldl (fun w player => w.notifyExit (.sRoomExit .adminExit) player)
    (w.setRoom r (w.without r s).cleared)

/-- `Room::Remove` in a room that closes. The packet for its players always fits in a chunk. -/
theorem roomRemove_closed {w : World F} {r : RoomRef} {s : SessionRef} (h : w.closes r s = true) :
    w.roomRemove r s = (w.emptied r s).removeRoom r := by
  have hframe : (ServerMessage.sRoomExit .adminExit : ServerMessage F).frame = .ok _ :=
    ServerMessage.Scalars.frame_ok trivial
  unfold roomRemove
  rw [removeLocked_closed h]
  simp only [if_true, hframe, ok_bind]
  rfl

theorem leaves_roomRemove (w : World F) (r : RoomRef) (s : SessionRef) :
    Ensures (w.roomRemove r s) fun w' => Leaves w w' r s [] := by
  cases hc : w.closes r s with
  | true =>
      have hb := becomes_notifyExit (.sRoomExit .adminExit) (w.without r s).sessions.toList
        (becomes_setRoom w r (w.without r s).cleared)
      rw [roomRemove_closed hc]
      refine (becomes_removeRoom hb).mono fun w' h => .closed hc ?_
      rw [← without_roomId w r s]
      exact h
  | false =>
      rw [roomRemove_stays hc]
      refine (quiet_lobbyPlayerInfo (w.setRoom r (w.without r s)) _).mono ?_
      intro w' hq
      exact .stays hc ((becomes_setRoom w r (w.without r s)).trans_quiet hq)

omit [Scalar F] in
theorem Leaves.trans_quiet {w w' w'' : World F} {r : RoomRef} {s : SessionRef}
    {freed : List SessionRef} (h : Leaves w w' r s freed) (hq : Quiet w' w'') :
    Leaves w w'' r s freed := by
  cases h with
  | stays hc h => exact .stays hc (h.trans_quiet hq)
  | closed hc h => exact .closed hc (h.trans_quiet hq)

omit [Scalar F] in
theorem Leaves.setRoomId {w w' : World F} {r : RoomRef} {s : SessionRef}
    (h : Leaves w w' r s []) : Leaves w (w'.setRoomId s intMax) r s [s] := by
  cases h with
  | stays hc h => exact .stays hc (h.setRoomId s)
  | closed hc h =>
      refine .closed hc ?_
      have := h.setRoomId s
      refine ⟨this.rooms, this.room, ?_, this.roomIdCount, this.nextRoom, this.nextSession,
        this.connected⟩
      intro t
      rw [this.currentRoom]
      simp [or_comm]

/-! ## What a step can do -/

/-- The world after `Handle_C_ROOM_CREATE`, up to the reply. -/
def created (w : World F) (s : SessionRef) (gameId : UInt64)
    (gameName gamePassWord mapHash : List UInt8) : World F :=
  let (r, w) := w.makeRoom
    (Room.new w.roomManager.roomIdCount (int32 gameId.toNat) gameName gamePassWord mapHash)
  (w.addRoom r).roomAdd r s

/-- The session is marked as disconnected, and has not left its room yet. -/
def dropped (w : World F) (s : SessionRef) : World F :=
  w.setSession s { w.session s with connected := false }

/-- What a step of the server does to rooms and sessions. -/
inductive Moves (w w' : World F) : Event F → Prop
  | quiet {s : SessionRef} {pkt : ClientPacket F} (h : Quiet w w') : Moves w w' (.packet s pkt)
  | tick (h : Quiet w w') : Moves w w' .update
  | connect (h : w' = w.onConnected) : Moves w w' .connect
  | create {s : SessionRef} {gameId : UInt64} {gameName gamePassWord mapHash : List UInt8}
      (h : Quiet (w.created s gameId gameName gamePassWord mapHash) w') :
      Moves w w' (.packet s (.cRoomCreate gameId gameName gamePassWord mapHash))
  | join {s : SessionRef} {roomCode : Int32} {gamePassWord : List UInt8} {r : RoomRef}
      (hr : w.Registered roomCode.toInt r) (ha : admits (w.room r) gamePassWord = true)
      (h : Quiet (w.roomAdd r s) w') : Moves w w' (.packet s (.cRoomRequest roomCode gamePassWord))
  | exit {s : SessionRef} {r : RoomRef} (hr : w.Registered (w.session s).currentRoom r)
      (h : Leaves w w' r s [s]) : Moves w w' (.packet s .cExitGame)
  | disconnect {s : SessionRef} {r : RoomRef} (hr : w.Registered (w.session s).currentRoom r)
      (h : Leaves (w.dropped s) w' r s [s]) : Moves w w' (.disconnect s)
  | gone {s : SessionRef}
      (hr : (w.session s).currentRoom = intMax ∨ ∀ r, ¬ w.Registered (w.session s).currentRoom r)
      (h : Quiet ((w.dropped s).setRoomId s intMax) w') : Moves w w' (.disconnect s)

theorem moves_handleCRoomRequest (w : World F) (s : SessionRef) (roomCode : Int32)
    (gamePassWord : List UInt8) :
    Ensures (w.handleCRoomRequest s roomCode gamePassWord)
      fun w' => Moves w w' (.packet s (.cRoomRequest roomCode gamePassWord)) := by
  unfold handleCRoomRequest RoomManager.indexRoom
  dsimp only
  cases hr : w.roomManager.rooms.getD roomCode.toInt none with
  | none => exact .error _
  | some r =>
      have hreg : w.Registered roomCode.toInt r := (Table.getD_none_eq_some ..).mp hr
      have hmem : roomCode.toInt ∈ w.roomManager.rooms :=
        Table.mem_iff_exists_getElem?.mpr ⟨_, hreg⟩
      -- the entry is there, so that `operator[]` adds none
      simp only [hmem, if_true]
      refine Ensures.ite ?_ ?_
      · intro ha
        exact (quiet_reply _ s _).mono fun w' h => .join hreg ha h
      · intro _
        exact (quiet_reply _ s _).mono fun w' h => .quiet h

theorem moves_handleCExitGame (w : World F) (s : SessionRef) :
    Ensures (w.handleCExitGame s) fun w' => Moves w w' (.packet s .cExitGame) := by
  unfold handleCExitGame
  refine Ensures.ite (fun _ => .ok (.quiet (Quiet.refl w))) ?_
  intro _
  cases hr : w.getRoom (w.session s).currentRoom with
  | none => exact .error _
  | some r =>
      refine Ensures.bind (leaves_roomRemove w r s) ?_
      intro w1 h
      exact (quiet_reply _ s _).mono fun w' hq =>
        .exit (getRoom_eq_some.mp hr) (h.setRoomId.trans_quiet hq)

/-- Once a session is in no room, the rest of `OnDisconnected` is quiet. -/
theorem quiet_gSessionManagerRemove {w : World F} {s : SessionRef}
    (h : (w.session s).currentRoom = intMax) :
    Ensures (w.gSessionManagerRemove s) (Quiet w) := by
  unfold gSessionManagerRemove
  dsimp only
  rw [if_pos h]
  exact .ok ⟨rfl, fun _ => rfl, fun _ => rfl, rfl, rfl, rfl, fun _ => rfl⟩

/-- The end of `OnDisconnected`, from where the session is in no room. -/
theorem quiet_forget {w : World F} {s : SessionRef} (h : (w.session s).currentRoom = intMax) :
    Ensures ((w.erasePlayerId s).gSessionManagerRemove s) (Quiet w) := by
  have hid : Quiet w (w.erasePlayerId s) :=
    ⟨rfl, fun _ => rfl, fun _ => rfl, rfl, rfl, rfl, fun _ => rfl⟩
  have hs : ((w.erasePlayerId s).session s).currentRoom = intMax := h
  exact (quiet_gSessionManagerRemove hs).mono fun _ hq => hid.trans hq

omit [Scalar F] in
theorem dropped_currentRoom (w : World F) (s t : SessionRef) :
    ((w.dropped s).session t).currentRoom = (w.session t).currentRoom :=
  field_setSession_of_eq GameSession.currentRoom w s { w.session s with connected := false } rfl t

theorem moves_onDisconnected (w : World F) (s : SessionRef) :
    Ensures (w.onDisconnected s) fun w' => Moves w w' (.disconnect s) := by
  have hcur := dropped_currentRoom w s s
  unfold onDisconnected
  refine Ensures.bind (P := fun w1 => (w1.session s).currentRoom = intMax ∧
    ∀ w', Quiet w1 w' → Moves w w' (.disconnect s)) ?_ ?_
  · change Ensures ((w.dropped s).leaveRoom s) _
    unfold leaveRoom
    refine Ensures.ite (fun hmax => .ok ⟨hmax, fun w' hq => .gone (.inl (hcur ▸ hmax)) ?_⟩) ?_
    · have hset : Quiet (w.dropped s) ((w.dropped s).setRoomId s intMax) :=
        Quiet.setSession _ hmax.symm rfl
      exact hset.symm.trans hq
    · intro _
      cases hr : (w.dropped s).getRoom ((w.dropped s).session s).currentRoom with
      | none =>
          refine .ok ⟨(currentRoom_setRoomId _ _ _ _).trans (if_pos rfl), fun w' hq => .gone (.inr ?_) hq⟩
          intro r hreg
          rw [← hcur] at hreg
          have := getRoom_eq_some.mpr hreg
          change (w.dropped s).getRoom _ = some r at this
          rw [hr] at this
          cases this
      | some r =>
          have hreg : w.Registered (w.session s).currentRoom r := by
            rw [← hcur]
            exact getRoom_eq_some.mp hr
          refine Ensures.bind (leaves_roomRemove _ r s) fun w1 h => .ok ?_
          exact ⟨(currentRoom_setRoomId _ _ _ _).trans (if_pos rfl), fun w' hq =>
            .disconnect hreg (h.setRoomId.trans_quiet hq)⟩
  · intro w1 h
    exact (quiet_forget h.1).mono fun w' hq => h.2 w' hq

theorem moves_handle (env : Env F) (w : World F) (s : SessionRef) (pkt : ClientPacket F) :
    Ensures (w.handle env s pkt) fun w' => Moves w w' (.packet s pkt) := by
  cases pkt with
  | cLogin => exact (quiet_handleCLogin w s _).mono fun _ h => .quiet h
  | cMove => exact (quiet_handleCMove w _ _ _).mono fun _ h => .quiet h
  | cRoomCreate => exact (quiet_reply _ s _).mono fun _ h => .create h
  | cRoomData => exact (quiet_handleCRoomData w s).mono fun _ h => .quiet h
  | cRoomRequest => exact moves_handleCRoomRequest w s _ _
  | cRoomPlayerListRequest =>
      exact (quiet_handleCRoomPlayerListRequest w _).mono fun _ h => .quiet h
  | cStartGame => exact (quiet_handleCStartGame env w _).mono fun _ h => .quiet h
  | cExitGame => exact moves_handleCExitGame w s
  | cAttack => exact (quiet_handleCAttack w _ _ _ _).mono fun _ h => .quiet h
  | cRttPing => exact (quiet_reply w s _).mono fun _ h => .quiet h

theorem exec_of_next {w w' : World F} {a : Env F × Event F} (h : w.next a = some w') :
    w.exec a.1 a.2 = .ok w' := toOption_eq_some.mp (Option.ite_none_right_eq_some.mp h).2

theorem enabled_of_next {w w' : World F} {a : Env F × Event F} (h : w.next a = some w') :
    w.Enabled a.2 := (Option.ite_none_right_eq_some.mp h).1

/-- **What a step can do.** Every property of rooms and sessions is derived from this. -/
theorem moves_next {w w' : World F} {a : Env F × Event F} (h : w.next a = some w') :
    w.Enabled a.2 ∧ Moves w w' a.2 := by
  refine ⟨enabled_of_next h, ?_⟩
  have hok := exec_of_next h
  obtain ⟨env, e⟩ := a
  cases e with
  | connect => exact .connect (Except.ok.inj hok).symm
  | packet s pkt => exact moves_handle env w s pkt w' hok
  | disconnect s => exact moves_onDisconnected w s w' hok
  | update => exact .tick (quiet_update env w w' hok)

/-! ## Joining a room -/

section

omit [Scalar F]

theorem room_roomAdd (w : World F) (r q : RoomRef) (s : SessionRef) :
    (w.roomAdd r s).room q
      = if q = r then (w.room r).add s (w.session s).playerName else w.room q :=
  Function.update_apply ..

theorem mem_roomAdd {w : World F} {r q : RoomRef} {s t : SessionRef}
    (ht : t ∈ ((w.roomAdd r s).room q).sessions) : t ∈ (w.room q).sessions ∨ t = s ∧ q = r := by
  rw [room_roomAdd] at ht
  by_cases hqr : q = r
  · subst hqr
    rw [if_pos rfl] at ht
    rcases Table.set_mem_insert.mp ht with rfl | ht
    · exact .inr ⟨rfl, rfl⟩
    · exact .inl ht
  · rw [if_neg hqr] at ht
    exact .inl ht

theorem currentRoom_roomAdd (w : World F) (r : RoomRef) (s t : SessionRef) :
    ((w.roomAdd r s).session t).currentRoom
      = if t = s then (w.room r).roomId else (w.session t).currentRoom :=
  currentRoom_setRoomId w s (w.room r).roomId t

theorem connected_roomAdd (w : World F) (r : RoomRef) (s t : SessionRef) :
    ((w.roomAdd r s).session t).connected = (w.session t).connected :=
  connected_setRoomId w s (w.room r).roomId t

theorem roomId_roomAdd (w : World F) (r q : RoomRef) (s : SessionRef) :
    ((w.roomAdd r s).room q).roomId = (w.room q).roomId := by
  rw [room_roomAdd]
  by_cases hq : q = r
  · subst hq; rw [if_pos rfl]; rfl
  · rw [if_neg hq]

end

/-- The room that `Handle_C_ROOM_CREATE` makes. -/
def newRoom (w : World F) (gameId : UInt64) (gameName gamePassWord mapHash : List UInt8) : Room F :=
  Room.new w.roomManager.roomIdCount (int32 gameId.toNat) gameName gamePassWord mapHash

theorem room_created (w : World F) (s : SessionRef) (gameId : UInt64)
    (gameName gamePassWord mapHash : List UInt8) (q : RoomRef) :
    (w.created s gameId gameName gamePassWord mapHash).room q
      = if q = w.nextRoom
        then (w.newRoom gameId gameName gamePassWord mapHash).add s (w.session s).playerName
        else w.room q := by
  unfold created
  refine (room_roomAdd _ _ q s).trans ?_
  by_cases hq : q = w.nextRoom
  · rw [if_pos hq, if_pos hq]
    change (Function.update w.room w.nextRoom _ w.nextRoom).add s _ = _
    rw [Function.update_self]; rfl
  · rw [if_neg hq, if_neg hq]
    exact Function.update_of_ne hq ..

theorem currentRoom_created (w : World F) (s : SessionRef) (gameId : UInt64)
    (gameName gamePassWord mapHash : List UInt8) (t : SessionRef) :
    ((w.created s gameId gameName gamePassWord mapHash).session t).currentRoom
      = if t = s then w.roomManager.roomIdCount else (w.session t).currentRoom := by
  unfold created
  refine (currentRoom_roomAdd _ _ s t).trans ?_
  by_cases ht : t = s
  · rw [if_pos ht, if_pos ht]
    change (Function.update w.room w.nextRoom _ w.nextRoom).roomId = _
    rw [Function.update_self]; rfl
  · rw [if_neg ht, if_neg ht]; rfl

theorem connected_created (w : World F) (s : SessionRef) (gameId : UInt64)
    (gameName gamePassWord mapHash : List UInt8) (t : SessionRef) :
    ((w.created s gameId gameName gamePassWord mapHash).session t).connected
      = (w.session t).connected := connected_roomAdd ..

theorem rooms_created (w : World F) (s : SessionRef) (gameId : UInt64)
    (gameName gamePassWord mapHash : List UInt8) (k : Int) :
    (w.created s gameId gameName gamePassWord mapHash).roomManager.rooms[k]?
      = if k = w.roomManager.roomIdCount then some (some w.nextRoom)
        else w.roomManager.rooms[k]? := Table.getElem?_insert ..

/-! ## The registry -/

/-- Every entry of the table is a room, and stands under the room's own id. -/
structure Registry (w : World F) : Prop where
  entry : ∀ (k : Int) v, w.roomManager.rooms[k]? = some v →
    ∃ r, v = some r ∧ r < w.nextRoom ∧ (w.room r).roomId = k

theorem registry_init (maps : List UInt8 → Option MapSectionData) :
    (World.init maps : World F).Registry := by
  constructor
  intro k v h
  simp [init, RoomManager.init] at h

omit [Scalar F] in
theorem Registry.of_le {w w' : World F} (h : w.Registry)
    (hrooms : ∀ (k : Int) v, w'.roomManager.rooms[k]? = some v → w.roomManager.rooms[k]? = some v)
    (hnext : w.nextRoom ≤ w'.nextRoom) (hid : ∀ r, (w'.room r).roomId = (w.room r).roomId) :
    w'.Registry := by
  constructor
  intro k v hk
  obtain ⟨r, hv, hr, hrid⟩ := h.entry k v (hrooms k v hk)
  exact ⟨r, hv, Nat.lt_of_lt_of_le hr hnext, (hid r).trans hrid⟩

omit [Scalar F] in
theorem Registry.quiet {w w' : World F} (h : w.Registry) (hq : Quiet w w') : w'.Registry :=
  h.of_le (fun k v hk => by rw [← hq.rooms]; exact hk) hq.nextRoom.ge
    fun r => congrArg Membership.roomId (hq.room r)

omit [Scalar F] in
theorem Becomes.roomId {w w' : World F} {rooms : Std.ExtTreeMap Int (Option RoomRef)} {r : RoomRef}
    {m : Membership} {freed : List SessionRef} (h : Becomes w w' rooms r m freed)
    (hm : m.roomId = (w.room r).roomId) (q : RoomRef) : (w'.room q).roomId = (w.room q).roomId := by
  have hq := congrArg Membership.roomId (h.room q)
  by_cases hqr : q = r
  · subst hqr
    rw [if_pos rfl] at hq
    exact hq.trans hm
  · rw [if_neg hqr] at hq
    exact hq

omit [Scalar F] in
theorem Registry.leaves {w w' : World F} {r : RoomRef} {s : SessionRef} {freed : List SessionRef}
    (h : w.Registry) (hl : Leaves w w' r s freed) : w'.Registry := by
  cases hl with
  | stays _ hb =>
      exact h.of_le (fun k v hk => by rw [← hb.rooms]; exact hk) hb.nextRoom.ge
        (hb.roomId (without_roomId w r s))
  | closed _ hb =>
      refine h.of_le ?_ hb.nextRoom.ge (hb.roomId (without_roomId w r s))
      intro k v hk
      rw [hb.rooms] at hk
      exact Table.of_getElem?_erase hk

theorem Registry.created {w : World F} (h : w.Registry) (s : SessionRef) (gameId : UInt64)
    (gameName gamePassWord mapHash : List UInt8) :
    (w.created s gameId gameName gamePassWord mapHash).Registry := by
  constructor
  intro k v hk
  rw [rooms_created] at hk
  by_cases hkc : k = w.roomManager.roomIdCount
  · rw [if_pos hkc] at hk
    obtain rfl := Option.some.inj hk
    refine ⟨w.nextRoom, rfl, Nat.lt_succ_self _, ?_⟩
    rw [room_created, if_pos rfl, hkc]; rfl
  · rw [if_neg hkc] at hk
    obtain ⟨r, hv, hr, hid⟩ := h.entry k v hk
    refine ⟨r, hv, Nat.lt_succ_of_lt hr, ?_⟩
    rw [room_created, if_neg (Nat.ne_of_lt hr), hid]

theorem registry_moves {w w' : World F} {e : Event F} (h : w.Registry) (hm : Moves w w' e) :
    w'.Registry := by
  cases hm with
  | quiet hq => exact h.quiet hq
  | tick hq => exact h.quiet hq
  | connect hw =>
      subst hw
      exact h.of_le (fun _ _ hk => hk) (Nat.le_refl _) fun _ => rfl
  | create hq => exact (h.created ..).quiet hq
  | @join s _ _ r hr ha hq =>
      have hadd : (w.roomAdd r s).Registry :=
        h.of_le (fun _ _ hk => hk) (Nat.le_refl _) fun q => roomId_roomAdd w r q s
      exact hadd.quiet hq
  | exit hr hl => exact h.leaves hl
  | @disconnect s r hr hl =>
      have hdrop : (w.dropped s).Registry := ⟨h.entry⟩
      exact hdrop.leaves hl
  | @gone s hr hq =>
      have hdrop : ((w.dropped s).setRoomId s intMax).Registry := ⟨h.entry⟩
      exact hdrop.quiet hq

end World

/-- Events in an environment where nothing happens. -/
def still (events : List (Event ℚ)) : List (Env ℚ × Event ℚ) := events.map fun e => (Env.still, e)

/-- Two sessions; the second joins the room of the first and leaves it. -/
def joinAndLeave : List (Env ℚ × Event ℚ) :=
  still [.connect, .connect, .packet 0 (.cRoomCreate 1 [] [] []), .packet 1 (.cRoomRequest 0 []),
    .packet 1 .cExitGame]

end StarCraftIocp
