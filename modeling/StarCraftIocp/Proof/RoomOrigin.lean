import StarCraftIocp.Proof.RoomLaws

/-!
# Where the rooms of the server come from

Every room of the server is a new room to which one thing after the other has been
done, and `Undergoes` lists what: with what a handler knows when it does it. So
what a room keeps in each of these holds of all rooms in every run.
-/

namespace StarCraftIocp

open Outcome CInt Protocol

variable {F : Type} [Scalar F]

namespace Room

/-- What the server does to a room, one thing after the other. -/
inductive Undergoes (maps : List UInt8 → Option MapSectionData) (room : Room F) : Room F → Prop
  | add (s : SessionRef) (playerName : Int) : Undergoes maps room (room.add s playerName)
  | removeGameSession (s : SessionRef) : Undergoes maps room (room.removeGameSession s)
  | cleared : Undergoes maps room room.cleared
  | removeObjects {room' : Room F} (h : room.removeObjects = .ok room') : Undergoes maps room room'
  | move {id : Int} {object : ObjRef} (target : Vector3 F) (h : room.objects.getD id none = some object) :
      Undergoes maps room (room.pushJob (Job.ofObject id (room.heap object).position target .move))
  | attack {id : Int} {object : ObjRef} (objectType : Int) (direction : Vector3 F)
      (h : room.objects.getD id none = some object) : Undergoes maps room
        (room.pushJob (Job.ofShooter ⟨objectType⟩ (room.heap object).position direction object .spawn))
  | lobbyPlayerInfo {ids : List Int} {packet : ServerMessage F}
      (h : (ServerMessage.sLobbyPlayerInfo ids : ServerMessage F).frame = .ok packet) :
      Undergoes maps room (room.broadcast packet)
  | startGame {env : Env F} {room' : Room F}
      (h : ({ room with mapSectionData := maps room.mapHash } : Room F).startGame env = .ok room') :
      Undergoes maps room room'
  | update {env : Env F} {room' : Room F} (h : room.update env = .ok room') : Undergoes maps room room'

/-- A name, a password and a hash that a room may be made with. -/
abbrev Wish : Type := List UInt8 → List UInt8 → List UInt8 → Prop

/-- A room that was made as `wish` has it, and what has been done to it since. -/
inductive Origin (wish : Wish) (maps : List UInt8 → Option MapSectionData) : Room F → Prop
  | new (roomId hostId : Int) {gameName gamePassWord mapHash : List UInt8} (h : wish gameName gamePassWord mapHash) :
      Origin wish maps (Room.new roomId hostId gameName gamePassWord mapHash)
  | step {room room' : Room F} (h : Origin wish maps room) (hu : Undergoes maps room room') : Origin wish maps room'

omit [Scalar F] in
/-- An object that is found is looked at and nothing more. -/
theorem indexObject_of_getD {room : Room F} {id : Int} {object : ObjRef}
    (h : room.objects.getD id none = some object) : (room.indexObject id).2 = room := by
  have hmem : id ∈ room.objects := by
    by_contra hnot
    rw [Std.ExtTreeMap.getD_eq_fallback hnot] at h
    cases h
  exact if_pos hmem

end Room

open Room

/-- Rooms are only made as `wish` has it. -/
def Event.Wished (wish : Wish) : Event F → Prop
  | .packet _ (.cRoomCreate _ gameName gamePassWord mapHash) => wish gameName gamePassWord mapHash
  | _ => True

namespace World

variable {wish : Wish} {maps : List UInt8 → Option MapSectionData} {w w' : World F}

theorem roomAdd_origin (h : w.Rooms maps (Origin wish maps)) (r : RoomRef) (s : SessionRef) :
    (w.roomAdd r s).Rooms maps (Origin wish maps) :=
  (h.setRoom r ((h.room r).step (.add s _))).of_eq rfl rfl

theorem created_origin (h : w.Rooms maps (Origin wish maps)) (s : SessionRef) (gameId : UInt64)
    {gameName gamePassWord mapHash : List UInt8} (hwish : wish gameName gamePassWord mapHash) :
    (w.created s gameId gameName gamePassWord mapHash).Rooms maps (Origin wish maps) := by
  refine ⟨h.hashToMap, fun q => ?_⟩
  rw [room_created]
  split
  · exact (Origin.new _ _ hwish).step (.add s _)
  · exact h.room q

theorem roomRemove_origin (h : w.Rooms maps (Origin wish maps)) (r : RoomRef) (s : SessionRef) :
    Ensures (w.roomRemove r s) (Rooms maps (Origin wish maps)) := by
  have hwithout : Origin wish maps (w.without r s) := (h.room r).step (.removeGameSession s)
  cases hc : w.closes r s with
  | false =>
      rw [roomRemove_stays hc]
      exact Ensures.bind (P := fun _ => True) (fun _ _ => trivial) fun _ _ => .ok
        ((h.setRoom r hwithout).of_eq rfl rfl)
  | true =>
      have hemptied : (w.emptied r s).Rooms maps (Origin wish maps) := by
        refine ⟨(hashToMap_emptied w r s).trans h.hashToMap, ?_⟩
        intro q
        rw [room_emptied]
        split
        · exact hwithout.step .cleared
        · exact h.room q
      rw [roomRemove_closed hc]
      exact Ensures.bind_of_eq fun room hroom => .ok
        ((hemptied.setRoom r ((hemptied.room r).step (.removeObjects hroom))).of_eq rfl rfl)

theorem onDisconnected_origin (h : w.Rooms maps (Origin wish maps)) (s : SessionRef) :
    Ensures (w.onDisconnected s) (Rooms maps (Origin wish maps)) := by
  have hdropped : (w.dropped s).Rooms maps (Origin wish maps) := h.of_eq rfl rfl
  have hleave : Ensures ((w.dropped s).leaveRoom s) (Rooms maps (Origin wish maps)) := by
    unfold leaveRoom
    refine Ensures.ite (fun _ => .ok hdropped) fun _ => ?_
    split
    · exact .ok (hdropped.of_eq rfl rfl)
    · exact Ensures.bind (roomRemove_origin hdropped _ s) fun _ h1 => .ok (h1.of_eq rfl rfl)
  refine Ensures.bind hleave fun w1 h1 => ?_
  have herased : ({ w1.erasePlayerId s with gSessions := (w1.erasePlayerId s).gSessions.erase s } : World F).Rooms
    maps (Origin wish maps) := h1.of_eq rfl rfl
  change Ensures ((w1.erasePlayerId s).gSessionManagerRemove s) _
  unfold gSessionManagerRemove
  refine Ensures.ite (fun _ => .ok herased) fun _ => ?_
  split
  · exact .ok herased
  · exact roomRemove_origin herased _ s

/-! ## The handlers -/

theorem moveObject_origin (h : w.Rooms maps (Origin wish maps)) (room : Option RoomRef) (position : Vector3 F)
    (id : UInt32) : Ensures (moveObject room position w id) (Rooms maps (Origin wish maps)) := by
  unfold moveObject
  split
  · exact .error _
  · next r =>
    dsimp only
    split
    · exact .error _
    · next object hobject =>
      refine .ok (h.setRoom r ?_)
      rw [indexObject_of_getD hobject]
      exact (h.room r).step (.move _ hobject)

theorem handleCAttack_origin (h : w.Rooms maps (Origin wish maps)) (roomCode : Int32) (objectId : UInt32)
    (objectType : Int32) (direction : Vector3 F) :
    Ensures (w.handleCAttack roomCode objectId objectType direction) (Rooms maps (Origin wish maps)) := by
  unfold handleCAttack
  split
  · exact .error _
  · next r _ =>
    dsimp only
    split
    · exact .error _
    · next object hobject =>
      refine .ok (h.setRoom r ?_)
      rw [indexObject_of_getD hobject]
      exact (h.room r).step (.attack _ _ hobject)

theorem handle_origin (h : w.Rooms maps (Origin wish maps)) (env : Env F) (s : SessionRef) (pkt : ClientPacket F)
    (hwish : Event.Wished wish (.packet s pkt)) :
    Ensures (w.handle env s pkt) (Rooms maps (Origin wish maps)) := by
  cases pkt with
  | cLogin loginCode =>
      change Ensures (w.handleCLogin s loginCode) _
      unfold handleCLogin
      refine Ensures.ite (fun _ => h.reply s _) fun _ => Rooms.reply ?_ s _
      exact h.of_eq rfl rfl
  | cMove roomCode objectId position =>
      change Ensures (w.handleCMove roomCode objectId position) _
      exact Ensures.foldlM h fun w1 h1 id _ => moveObject_origin h1 _ position id
  | cRoomCreate gameId gameName gamePassWord mapHash =>
      exact (created_origin h s gameId hwish).reply s _
  | cRoomData => exact Ensures.bind (P := fun _ => True) (fun _ _ => trivial) fun _ _ => h.reply s _
  | cRoomRequest roomCode gamePassWord =>
      change Ensures (w.handleCRoomRequest s roomCode gamePassWord) _
      have hindexed : ({ w with roomManager := (w.roomManager.indexRoom roomCode.toInt).2 } : World F).Rooms maps
        (Origin wish maps) := h.of_eq rfl rfl
      unfold handleCRoomRequest
      dsimp only
      split
      · exact .error _
      · exact Ensures.ite (fun _ => (roomAdd_origin hindexed _ s).reply s _) fun _ => hindexed.reply s _
  | cRoomPlayerListRequest roomCode =>
      change Ensures (w.handleCRoomPlayerListRequest roomCode) _
      unfold handleCRoomPlayerListRequest
      split
      · exact .error _
      · next r _ =>
        exact Ensures.bind_of_eq fun packet hpacket =>
          .ok (h.setRoom r ((h.room r).step (.lobbyPlayerInfo hpacket)))
  | cStartGame roomCode =>
      change Ensures (w.handleCStartGame env roomCode) _
      unfold handleCStartGame
      split
      · exact .error _
      · next r _ =>
        rw [h.hashToMap]
        exact Ensures.bind_of_eq fun room hroom => .ok (h.setRoom r ((h.room r).step (.startGame hroom)))
  | cExitGame =>
      change Ensures (w.handleCExitGame s) _
      unfold handleCExitGame
      refine Ensures.ite (fun _ => .ok h) fun _ => ?_
      split
      · exact .error _
      · refine Ensures.bind (roomRemove_origin h _ s) fun w1 h1 => ?_
        have hfreed : (w1.setRoomId s intMax).Rooms maps (Origin wish maps) := h1.of_eq rfl rfl
        exact hfreed.reply s _
  | cAttack roomCode objectId objectType direction =>
      exact handleCAttack_origin h roomCode objectId objectType direction
  | cRttPing clientTime => exact h.reply s _

theorem next_origin (h : w.Rooms maps (Origin wish maps)) {a : Env F × Event F} (hwish : a.2.Wished wish)
    (hs : w.next a = some w') : w'.Rooms maps (Origin wish maps) := by
  have hok := exec_of_next hs
  obtain ⟨env, e⟩ := a
  cases e with
  | connect =>
      obtain rfl := Except.ok.inj hok
      exact h.of_eq rfl rfl
  | packet s pkt => exact handle_origin h env s pkt hwish w' hok
  | disconnect s => exact onDisconnected_origin h s w' hok
  | update =>
      refine Ensures.foldlM h (fun w1 h1 entry _ => ?_) w' hok
      unfold updateRoom
      split
      · exact .error _
      · next r _ =>
        exact Ensures.bind_of_eq fun room hroom => .ok (h1.setRoom r ((h1.room r).step (.update hroom)))

/-- **All rooms have an origin**, in every run in which rooms are only made as `wish` has it. -/
theorem rooms_origin (hnew : wish [] [] [])
    (h : Reachable ((Transition.ofFun World.next).guarded fun _ a => a.2.Wished wish) (World.init maps) w) :
    w.Rooms maps (Origin wish maps) := by
  have hinit : (World.init maps : World F).Rooms maps (Origin wish maps) := ⟨rfl, fun _ => .new 0 0 hnew⟩
  refine h.invariant hinit fun w1 a w2 h1 hs => ?_
  obtain ⟨hwish, hs⟩ := hs
  exact next_origin h1 hwish hs

end World

end StarCraftIocp
