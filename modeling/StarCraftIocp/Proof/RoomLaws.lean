import StarCraftIocp.Proof.Counts
import StarCraftIocp.Proof.NoCrash
import StarCraftIocp.Proof.ObjectTable

/-!
# Laws of rooms

A property of a room that every operation on it keeps holds of all rooms in every
run of the server, whoever sends what. Two are: objects are entered under their
own ids, and the set and the map of members have the same sessions. Orders to move
are looked at apart: some laws hold as long as these meet a condition.
-/

namespace StarCraftIocp

open Outcome CInt Protocol

variable {F : Type} [Scalar F]

/-- What each operation that the server applies to a room keeps, on the maps that are loaded. -/
structure RoomLaw (maps : List UInt8 → Option MapSectionData) (P : Room F → Prop) : Prop where
  new : ∀ roomId hostId gameName gamePassWord mapHash, P
    (Room.new roomId hostId gameName gamePassWord mapHash)
  add : ∀ room s playerName, P room → P (room.add s playerName)
  removeGameSession : ∀ room s, P room → P (room.removeGameSession s)
  cleared : ∀ room, P room → P room.cleared
  removeObjects : ∀ room, P room → Ensures room.removeObjects P
  indexObject : ∀ room id, P room → P (room.indexObject id).2
  pushSpawn : ∀ room job, job.state = .spawn → P room → P (room.pushJob job)
  broadcast : ∀ room msg, P room → P (room.broadcast msg)
  startGame : ∀ env room, P room →
    Ensures (({ room with mapSectionData := maps room.mapHash } : Room F).startGame env) P
  update : ∀ env room, P room → Ensures (room.update env) P

namespace World

/-- The maps are these, and all rooms have the property, the ones no longer registered included. -/
structure Rooms (maps : List UInt8 → Option MapSectionData) (P : Room F → Prop) (w : World F) : Prop where
  hashToMap : w.hashToMap = maps
  room : ∀ r, P (w.room r)

end World

namespace World.Rooms

variable {maps : List UInt8 → Option MapSectionData} {P : Room F → Prop} {w w' : World F}

omit [Scalar F] in
theorem of_eq (h : w.Rooms maps P) (hmaps : w'.hashToMap = w.hashToMap) (hroom : w'.room = w.room) :
    w'.Rooms maps P := by
  refine ⟨hmaps.trans h.hashToMap, ?_⟩
  rw [hroom]
  exact h.room

omit [Scalar F] in
theorem setRoom (h : w.Rooms maps P) (r : RoomRef) {room : Room F} (hroom : P room) :
    (w.setRoom r room).Rooms maps P := by
  refine ⟨h.hashToMap, ?_⟩
  intro q
  rw [room_setRoom]
  split
  · exact hroom
  · exact h.room q

theorem reply (h : w.Rooms maps P) (s : SessionRef) (msg : ServerMessage F) :
    Ensures (w.reply s msg) (Rooms maps P) :=
  Ensures.bind (P := fun _ => True) (fun _ _ => trivial) fun _ _ => .ok (h.of_eq rfl rfl)

end World.Rooms

namespace RoomLaw

open World

variable {maps : List UInt8 → Option MapSectionData} {P : Room F → Prop} {w w' : World F}

theorem roomAdd (law : RoomLaw maps P) (h : w.Rooms maps P) (r : RoomRef) (s : SessionRef) :
    (w.roomAdd r s).Rooms maps P :=
  (h.setRoom r (law.add _ s _ (h.room r))).of_eq rfl rfl

theorem created (law : RoomLaw maps P) (h : w.Rooms maps P) (s : SessionRef) (gameId : UInt64)
    (gameName gamePassWord mapHash : List UInt8) :
    (w.created s gameId gameName gamePassWord mapHash).Rooms maps P := by
  refine ⟨h.hashToMap, ?_⟩
  intro q
  rw [room_created]
  split
  · exact law.add _ s _ (law.new ..)
  · exact h.room q

/-! ## Leaving -/

theorem roomRemove (law : RoomLaw maps P) (h : w.Rooms maps P) (r : RoomRef) (s : SessionRef) :
    Ensures (w.roomRemove r s) (Rooms maps P) := by
  have hwithout : P (w.without r s) := law.removeGameSession _ s (h.room r)
  cases hc : w.closes r s with
  | false =>
      rw [roomRemove_stays hc]
      exact Ensures.bind (P := fun _ => True) (fun _ _ => trivial) fun _ _ => .ok
        ((h.setRoom r hwithout).of_eq rfl rfl)
  | true =>
      have hemptied : (w.emptied r s).Rooms maps P := by
        refine ⟨(hashToMap_emptied w r s).trans h.hashToMap, ?_⟩
        intro q
        rw [room_emptied]
        split
        · exact law.cleared _ hwithout
        · exact h.room q
      rw [roomRemove_closed hc]
      refine Ensures.bind (law.removeObjects _ (hemptied.room r)) ?_
      exact fun room hroom => .ok ((hemptied.setRoom r hroom).of_eq rfl rfl)

theorem leaveRoom (law : RoomLaw maps P) (h : w.Rooms maps P) (s : SessionRef) :
    Ensures (w.leaveRoom s) (Rooms maps P) := by
  unfold World.leaveRoom
  refine Ensures.ite (fun _ => .ok h) ?_
  intro _
  split
  · exact .ok (h.of_eq rfl rfl)
  · exact Ensures.bind (law.roomRemove h _ s) fun _ h1 => .ok (h1.of_eq rfl rfl)

theorem gSessionManagerRemove (law : RoomLaw maps P) (h : w.Rooms maps P) (s : SessionRef) :
    Ensures (w.gSessionManagerRemove s) (Rooms maps P) := by
  have herased : ({ w with gSessions := w.gSessions.erase s } : World F).Rooms maps P := h.of_eq rfl rfl
  unfold World.gSessionManagerRemove
  refine Ensures.ite (fun _ => .ok herased) ?_
  intro _
  split
  · exact .ok herased
  · exact law.roomRemove herased _ s

theorem onDisconnected (law : RoomLaw maps P) (h : w.Rooms maps P) (s : SessionRef) :
    Ensures (w.onDisconnected s) (Rooms maps P) := by
  have hdropped : (w.dropped s).Rooms maps P := h.of_eq rfl rfl
  refine Ensures.bind (law.leaveRoom hdropped s) ?_
  intro w1 h1
  have herased : (w1.erasePlayerId s).Rooms maps P := h1.of_eq rfl rfl
  exact law.gSessionManagerRemove herased s

/-! ## The handlers -/

/-- A law that any job keeps is kept by orders to move. -/
theorem handleCMove (law : RoomLaw maps P) (hpush : ∀ room job, P room → P (room.pushJob job))
    (h : w.Rooms maps P)
    (roomCode : Int32) (objectId : List UInt32) (position : Vector3 F) :
    Ensures (w.handleCMove roomCode objectId position) (Rooms maps P) := by
  refine Ensures.foldlM h ?_
  intro w1 h1 id _
  unfold moveObject
  split
  · exact .error _
  · dsimp only
    split
    · exact .error _
    · exact .ok (h1.setRoom _ (hpush _ _ (law.indexObject _ _ (h1.room _))))

theorem handleCRoomRequest (law : RoomLaw maps P) (h : w.Rooms maps P) (s : SessionRef) (roomCode : Int32)
    (passWord : List UInt8) : Ensures (w.handleCRoomRequest s roomCode passWord) (Rooms maps P) := by
  have hindexed : ({ w with roomManager := (w.roomManager.indexRoom roomCode.toInt).2 } : World F).Rooms maps P :=
    h.of_eq rfl rfl
  unfold World.handleCRoomRequest
  dsimp only
  split
  · exact .error _
  · exact Ensures.ite (fun _ => (law.roomAdd hindexed _ s).reply s _) fun _ => hindexed.reply s _

theorem handleCRoomPlayerListRequest (law : RoomLaw maps P) (h : w.Rooms maps P) (roomCode : Int32) :
    Ensures (w.handleCRoomPlayerListRequest roomCode) (Rooms maps P) := by
  unfold World.handleCRoomPlayerListRequest
  split
  · exact .error _
  · exact Ensures.bind (P := fun _ => True) (fun _ _ => trivial) fun _ _ =>
      .ok (h.setRoom _ (law.broadcast _ _ (h.room _)))

theorem handleCStartGame (law : RoomLaw maps P) (h : w.Rooms maps P) (env : Env F) (roomCode : Int32) :
    Ensures (w.handleCStartGame env roomCode) (Rooms maps P) := by
  unfold World.handleCStartGame
  split
  · exact .error _
  · rw [h.hashToMap]
    exact Ensures.bind (law.startGame env _ (h.room _)) fun _ hroom => .ok (h.setRoom _ hroom)

theorem handleCExitGame (law : RoomLaw maps P) (h : w.Rooms maps P) (s : SessionRef) :
    Ensures (w.handleCExitGame s) (Rooms maps P) := by
  unfold World.handleCExitGame
  refine Ensures.ite (fun _ => .ok h) ?_
  intro _
  split
  · exact .error _
  · refine Ensures.bind (law.roomRemove h _ s) ?_
    intro w1 h1
    have hfreed : (w1.setRoomId s intMax).Rooms maps P := h1.of_eq rfl rfl
    exact hfreed.reply s _

theorem handleCAttack (law : RoomLaw maps P) (h : w.Rooms maps P) (roomCode : Int32) (objectId : UInt32)
    (objectType : Int32) (direction : Vector3 F) :
    Ensures (w.handleCAttack roomCode objectId objectType direction) (Rooms maps P) := by
  unfold World.handleCAttack
  split
  · exact .error _
  · dsimp only
    split
    · exact .error _
    · exact .ok (h.setRoom _ (law.pushSpawn _ _ rfl (law.indexObject _ _ (h.room _))))

theorem handle (law : RoomLaw maps P) (h : w.Rooms maps P) (env : Env F) (s : SessionRef)
    (pkt : ClientPacket F)
    (hmove : ∀ roomCode objectId position, pkt = .cMove roomCode objectId position →
      Ensures (w.handleCMove roomCode objectId position) (Rooms maps P)) :
    Ensures (w.handle env s pkt) (Rooms maps P) := by
  cases pkt with
  | cLogin loginCode =>
      change Ensures (w.handleCLogin s loginCode) _
      unfold handleCLogin
      refine Ensures.ite (fun _ => h.reply s _) fun _ => Rooms.reply ?_ s _
      exact h.of_eq rfl rfl
  | cMove roomCode objectId position => exact hmove roomCode objectId position rfl
  | cRoomCreate gameId gameName gamePassWord mapHash =>
      exact (law.created h s gameId gameName gamePassWord mapHash).reply s _
  | cRoomData => exact Ensures.bind (P := fun _ => True) (fun _ _ => trivial) fun _ _ => h.reply s _
  | cRoomRequest roomCode gamePassWord => exact law.handleCRoomRequest h s roomCode gamePassWord
  | cRoomPlayerListRequest roomCode => exact law.handleCRoomPlayerListRequest h roomCode
  | cStartGame roomCode => exact law.handleCStartGame h env roomCode
  | cExitGame => exact law.handleCExitGame h s
  | cAttack roomCode objectId objectType direction =>
    exact law.handleCAttack h roomCode objectId objectType direction
  | cRttPing clientTime => exact h.reply s _

theorem updateAll (law : RoomLaw maps P) (h : w.Rooms maps P) (env : Env F) :
    Ensures (w.update env) (Rooms maps P) := by
  refine Ensures.foldlM h ?_
  intro w1 h1 entry _
  unfold updateRoom
  split
  · exact .error _
  · exact Ensures.bind (law.update env _ (h1.room _)) fun _ hroom => .ok (h1.setRoom _ hroom)

/-! ## Runs -/

theorem next (law : RoomLaw maps P) (h : w.Rooms maps P) {a : Env F × Event F}
    (hmove : ∀ s roomCode objectId position, a.2 = .packet s (.cMove roomCode objectId position) →
      Ensures (w.handleCMove roomCode objectId position) (Rooms maps P)) (hs : w.next a = some w') :
    w'.Rooms maps P := by
  have hok := exec_of_next hs
  obtain ⟨env, e⟩ := a
  cases e with
  | connect =>
      obtain rfl := Except.ok.inj hok
      exact h.of_eq rfl rfl
  | packet s pkt =>
      refine law.handle h env s pkt ?_ w' hok
      intro roomCode objectId position hpkt
      exact hmove s roomCode objectId position (congrArg (Event.packet s) hpkt)
  | disconnect s => exact law.onDisconnected h s w' hok
  | update => exact law.updateAll h env w' hok

/-- **A law that any job keeps holds of every room, in every run of the server.** -/
theorem reachable (law : RoomLaw maps P) (hpush : ∀ room job, P room → P (room.pushJob job))
    (h : Reachable (Transition.ofFun World.next) (World.init maps) w) (r : RoomRef) : P (w.room r) := by
  have hinit : (World.init maps : World F).Rooms maps P := ⟨rfl, fun _ => law.new 0 0 [] [] []⟩
  have hrooms : w.Rooms maps P := by
    refine h.invariant hinit ?_
    intro w1 a w2 h1 hs
    exact law.next h1 (fun _ roomCode objectId position _ => law.handleCMove hpush h1 roomCode objectId position) hs
  exact hrooms.room r

/-! ## The laws -/

open ObjectTable Room

/-- Objects are entered under their own ids, which no two of a room share. -/
theorem tabled : RoomLaw maps (Tabled (F := F)) where
  new roomId hostId gameName gamePassWord mapHash :=
    (Exact.new roomId hostId gameName gamePassWord mapHash).toTabled
  add _ _ _ h := h.same rfl rfl rfl rfl
  removeGameSession room s h := by
    unfold Room.removeGameSession
    split
    · dsimp only
      split
      · exact h.same rfl rfl rfl rfl
      · exact h.same rfl rfl rfl rfl
    · exact h
  cleared _ h := h.same rfl rfl rfl rfl
  removeObjects _ h := by
    refine Ensures.foldlM h ?_
    intro room h1 object _
    cases object with
    | none => exact .error _
    | some object => exact .ok (h1.removed object)
  indexObject _ id h := h.indexObject id
  pushSpawn _ _ _ h := h.same rfl rfl rfl rfl
  broadcast _ _ h := h.same rfl rfl rfl rfl
  startGame env room h := by
    refine Room.ensures_startGame env (I := fun _ => Tabled) ?_ (fun _ _ _ _ h1 ha => h1.adds ha)
      fun _ _ _ h1 ht => h1.touches ht
    exact h.same rfl rfl rfl rfl
  update env room h := by
    refine Room.ensures_update env (I := Tabled) ?_ fun _ _ h2 ht => h2.touches ht
    intro room1 hjobs
    have h1 : Tabled room1 := by
      refine Room.ensures_processJob env (C := fun _ _ => True) ?_ (Meets.of_forall fun _ _ => trivial)
        (fun _ _ _ h1 _ hr => h1.runs hr) room1 hjobs
      exact h.same rfl rfl rfl rfl
    refine Ensures.foldlM h1 ?_
    intro room2 h2 entry _
    exact (updates_updateEntry env room2 entry).mono fun _ hu => h2.updates hu

omit [Scalar F] in
/-- What keeps the membership keeps who is a member. -/
theorem members_of_keeps {room : Room F} {x : Except Crash (Room F)} (hx : room.Keeps x)
    (h : ∀ s, s ∈ room.sessionPlayers ↔ s ∈ room.sessions) :
    Ensures x fun room' => ∀ s, s ∈ room'.sessionPlayers ↔ s ∈ room'.sessions := by
  refine hx.mono fun room' hm => ?_
  rw [show room'.sessionPlayers = room.sessionPlayers from congrArg Membership.sessionPlayers hm,
    show room'.sessions = room.sessions from congrArg Membership.sessions hm]
  exact h

/-- The set and the map of members have the same sessions. -/
theorem members : RoomLaw maps fun room : Room F => ∀ s, s ∈ room.sessionPlayers ↔ s ∈ room.sessions where
  new _ _ _ _ _ s := by simp [Room.new]
  add _ s playerName h := mem_add h s playerName
  removeGameSession _ s h := mem_removeGameSession h s
  cleared _ _ s := by simp [Room.cleared]
  removeObjects room h := members_of_keeps (stays_removeObjects room).keeps h
  indexObject room id h := by
    have hm := congrArg Standing.membership (standing_indexObject room id)
    exact members_of_keeps (x := .ok (room.indexObject id).2) (.ok hm) h _ rfl
  pushSpawn _ _ _ h := h
  broadcast _ _ h := h
  startGame env _ h := members_of_keeps (keeps_startGame env _) h
  update env room h := members_of_keeps (stays_update env room).keeps h

end RoomLaw

end StarCraftIocp
