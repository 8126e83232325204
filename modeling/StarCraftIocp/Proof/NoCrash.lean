import StarCraftIocp.Proof.Game
import StarCraftIocp.Proof.Pointers

/-!
# Which packets the server survives

Every handler looks things up with keys that the client chose, and few look at
what they got. `Safe` says for each kind of packet what has to be there. In runs
of safe packets no handler crashes, and neither do the ticks that run the jobs.

The handler of a packet and a tick run in one go here, but the states they find
need not come from such runs alone: in between, the handlers of other threads may
leave sessions, members and the table of rooms in any state that `Meddles` allows.
-/

namespace StarCraftIocp

open CInt Protocol Outcome

variable {F : Type} [Scalar F]

/-- Every entry of the table of objects is an object. -/
def Room.NoNull (room : Room F) : Prop := ∀ entry ∈ room.objects.toList, entry.2 ≠ none

instance (room : Room F) : Decidable room.NoNull :=
  inferInstanceAs (Decidable (∀ entry ∈ room.objects.toList, entry.2 ≠ none))

/-- The two rooms are the same, but for who is in them. -/
structure Room.SameGame (room room' : Room F) : Prop where
  idCount : room'.idCount = room.idCount
  objects : room'.objects = room.objects
  heap : room'.heap = room.heap
  jobQueue : room'.jobQueue = room.jobQueue
  mapSectionData : room'.mapSectionData = room.mapSectionData
  mapHash : room'.mapHash = room.mapHash

/-- A room in which nothing has happened yet. -/
def Room.IsNew (room : Room F) : Prop :=
  ∃ roomId hostId gameName gamePassWord mapHash,
    (Room.new roomId hostId gameName gamePassWord mapHash).SameGame room

section

omit [Scalar F]

theorem Room.SameGame.refl (room : Room F) : room.SameGame room := ⟨rfl, rfl, rfl, rfl, rfl, rfl⟩

theorem Room.SameGame.trans {room room' room'' : Room F} (h : room.SameGame room')
    (h' : room'.SameGame room'') : room.SameGame room'' :=
  ⟨h'.idCount.trans h.idCount, h'.objects.trans h.objects, h'.heap.trans h.heap,
    h'.jobQueue.trans h.jobQueue, h'.mapSectionData.trans h.mapSectionData, h'.mapHash.trans h.mapHash⟩

theorem Room.sameGame_add (room : Room F) (s : SessionRef) (name : Int) :
    room.SameGame (room.add s name) := ⟨rfl, rfl, rfl, rfl, rfl, rfl⟩

theorem Room.sameGame_removeGameSession (room : Room F) (s : SessionRef) :
    room.SameGame (room.removeGameSession s) := by
  unfold Room.removeGameSession
  dsimp only
  split
  · split <;> exact ⟨rfl, rfl, rfl, rfl, rfl, rfl⟩
  · exact .refl room

theorem Room.sameGame_cleared (room : Room F) : room.SameGame room.cleared := ⟨rfl, rfl, rfl, rfl, rfl, rfl⟩

theorem Room.SameGame.sound {maps : List UInt8 → Option MapSectionData} {room room' : Room F}
    (hs : room.SameGame room') (h : room.Sound maps) : room'.Sound maps :=
  (h.advances (hs.idCount ▸ h.idCount) hs.objects (fun object => hs.heap ▸ h.calm object) hs.jobQueue
    hs.mapSectionData hs.mapHash).sound

end

theorem Room.NoNull.yields_removeObjects {room : Room F} (h : room.NoNull) :
    Yields room.removeObjects fun _ => True := by
  refine Yields.foldlM trivial ?_
  intro room' _ object hobject
  obtain ⟨entry, hentry, rfl⟩ := List.mem_map.mp hobject
  cases hv : entry.2 with
  | none => exact absurd hv (h entry hentry)
  | some object => exact .ok trivial

namespace World

/-- There is a room with this id, and it satisfies `P`. -/
def WithRoom (w : World F) (id : Int) (P : RoomRef → Prop) : Prop :=
  ∃ r, w.getRoom id = some r ∧ P r

omit [Scalar F] in
theorem not_withRoom {w : World F} {id : Int} (P : RoomRef → Prop) (h : w.getRoom id = none) :
    ¬ w.WithRoom id P := by
  rintro ⟨r, hr, -⟩
  rw [h] at hr
  cases hr

omit [Scalar F] in
theorem withRoom_some {w : World F} {id : Int} {r : RoomRef} (P : RoomRef → Prop)
    (h : w.getRoom id = some r) : P r ↔ w.WithRoom id P := by
  refine ⟨fun hp => ⟨r, h, hp⟩, ?_⟩
  rintro ⟨q, hq, hp⟩
  rw [h] at hq
  exact Option.some.inj hq ▸ hp

omit [Scalar F] in
instance (w : World F) (id : Int) (P : RoomRef → Prop) [DecidablePred P] :
    Decidable (w.WithRoom id P) :=
  match h : w.getRoom id with
  | none => isFalse (not_withRoom P h)
  | some r => decidable_of_iff (P r) (withRoom_some P h)

/-- What `Room::Remove` tells the members of a room that stays. -/
def playersLeft (w : World F) (r : RoomRef) (s : SessionRef) : ServerMessage F :=
  .sLobbyPlayerInfo ((w.without r s).sessions.toList.map fun player => (w.session player).playerName)

/-- `Room::Remove` trips over null objects when the room closes, and sends a list when it stays. -/
def SafeLeave (w : World F) (r : RoomRef) (s : SessionRef) : Prop :=
  if w.closes r s then (w.room r).NoNull else (w.playersLeft r s).byteSizeLong ≤ 5996

instance (w : World F) (r : RoomRef) (s : SessionRef) : Decidable (w.SafeLeave r s) :=
  inferInstanceAs (Decidable (if w.closes r s then _ else _))

/-- What `Handle_C_ROOM_PLAYER_LIST_REQUEST` tells them. -/
def playerList (w : World F) (r : RoomRef) : ServerMessage F :=
  .sLobbyPlayerInfo ((w.room r).sessionPlayers.keys.map fun player => (w.session player).playerName)

/-- What `Handle_C_ROOM_DATA` replies. -/
def roomList (w : World F) : ServerMessage F :=
  .sRoomData (w.roomManager.rooms.toList.filterMap fun entry => entry.2.map (w.roomDataOf entry.1))

/-- The handler of `pkt` finds what it looks for, and what it sends fits in a chunk. -/
def Safe (env : Env F) (w : World F) (s : SessionRef) : ClientPacket F → Prop
  | .cLogin _ => True
  | .cMove roomCode objectId _ => objectId = [] ∨
      w.WithRoom roomCode.toInt fun r => ∀ id ∈ objectId, (w.room r).Live (int32 id.toNat)
  | .cRoomCreate gameId gameName gamePassWord mapHash =>
      (w.createReply s gameId gameName gamePassWord mapHash).byteSizeLong ≤ 5996
  | .cRoomData => w.roomList.byteSizeLong ≤ 5996
  | .cRoomRequest roomCode gamePassWord => w.WithRoom roomCode.toInt fun r =>
      admits (w.room r) gamePassWord = true →
        (roomLobby (w.room r) roomCode.toInt).byteSizeLong ≤ 5996
  | .cRoomPlayerListRequest roomCode =>
      w.WithRoom roomCode.toInt fun r => (w.playerList r).byteSizeLong ≤ 5996
  | .cStartGame roomCode => w.WithRoom roomCode.toInt fun r =>
      { w.room r with mapSectionData := w.hashToMap (w.room r).mapHash }.PlacesAll env
  | .cExitGame => (w.session s).currentRoom = intMax ∨
      w.WithRoom (w.session s).currentRoom fun r => w.SafeLeave r s
  | .cAttack roomCode objectId objectType _ => w.WithRoom roomCode.toInt fun r =>
      (w.room r).Live (int32 objectId.toNat) ∧ GameObjectCode.Spawns ⟨objectType.toInt⟩
  | .cRttPing _ => True

/-- Every packet is safe when it comes. -/
def SafePackets (w : World F) (a : Env F × Event F) : Prop :=
  match a.2 with
  | .packet s pkt => w.Safe a.1 s pkt
  | _ => True

/-- By going through the list: `UInt32` is finite, and could be gone through instead. -/
instance (w : World F) (objectId : List UInt32) :
    DecidablePred fun r : RoomRef => ∀ id ∈ objectId, (w.room r).Live (int32 id.toNat) :=
  fun _ => List.decidableBAll ..

instance (env : Env F) (w : World F) (s : SessionRef) :
    (pkt : ClientPacket F) → Decidable (w.Safe env s pkt)
  | .cLogin _ => inferInstanceAs (Decidable True)
  | .cMove roomCode objectId _ =>
      inferInstanceAs (Decidable (objectId = [] ∨ w.WithRoom roomCode.toInt _))
  | .cRoomCreate .. => inferInstanceAs (Decidable (_ ≤ _))
  | .cRoomData => inferInstanceAs (Decidable (_ ≤ _))
  | .cRoomRequest roomCode _ => inferInstanceAs (Decidable (w.WithRoom roomCode.toInt _))
  | .cRoomPlayerListRequest roomCode => inferInstanceAs (Decidable (w.WithRoom roomCode.toInt _))
  | .cStartGame roomCode => inferInstanceAs (Decidable (w.WithRoom roomCode.toInt _))
  | .cExitGame => inferInstanceAs (Decidable (_ ∨ w.WithRoom (w.session s).currentRoom _))
  | .cAttack roomCode _ _ _ => inferInstanceAs (Decidable (w.WithRoom roomCode.toInt _))
  | .cRttPing _ => inferInstanceAs (Decidable True)

instance (w : World F) : (a : Env F × Event F) → Decidable (w.SafePackets a)
  | (env, .packet s pkt) => inferInstanceAs (Decidable (w.Safe env s pkt))
  | (_, .connect) => inferInstanceAs (Decidable True)
  | (_, .disconnect _) => inferInstanceAs (Decidable True)
  | (_, .update) => inferInstanceAs (Decidable True)

/-- Every room of the manager is one the tick gets through. -/
structure Games (w : World F) : Prop where
  sound : ∀ id r, w.Registered id r → (w.room r).Sound w.hashToMap

/--
What the handlers of other threads may do between two events: whatever they like
to sessions, members and messages. The table of rooms stays one, in which a room
that was there before is still the same game, and any other is new.
-/
structure Meddles (w w' : World F) : Prop where
  hashToMap : w'.hashToMap = w.hashToMap
  registry : w'.Registry
  game : ∀ id r, w'.Registered id r →
    w.Registered id r ∧ (w.room r).SameGame (w'.room r) ∨ (w'.room r).IsNew

/-- An event whose packet is safe, or what other threads do. -/
inductive Turn : Transition (World F) (Option (Env F × Event F))
  | event {w w' : World F} {a : Env F × Event F} (hsafe : w.SafePackets a) (h : w.next a = some w') :
      Turn w (some a) w'
  | meddle {w w' : World F} (h : w.Meddles w') : Turn w none w'

/-- Nothing a client may do in this state crashes the server, now or in the tick to come. -/
structure Survives (w : World F) : Prop where
  handler : ∀ env s pkt, w.Enabled (.packet s pkt) → w.Safe env s pkt →
    ∃ w', w.handle env s pkt = .ok w'
  processJob : ∀ env id r, w.Registered id r → ∃ room, (w.room r).processJob env = .ok room
  update : ∀ env, ∃ w', w.update env = .ok w'

/-! ## What keeps the games going -/

section

omit [Scalar F]

/-- Rooms that the manager still has are as they were. -/
theorem Games.of_le {w w' : World F} (h : w.Games) (hmaps : w'.hashToMap = w.hashToMap)
    (hroom : ∀ id r, w'.Registered id r → w.Registered id r
      ∧ ((w.room r).Sound w.hashToMap → (w'.room r).Sound w.hashToMap)) : w'.Games := by
  constructor
  intro id r hr
  obtain ⟨hold, hsound⟩ := hroom id r hr
  rw [hmaps]
  exact hsound (h.sound id r hold)

theorem Games.setRoom {w : World F} (h : w.Games) {r : RoomRef} {room : Room F}
    (hroom : room.Sound w.hashToMap) : (w.setRoom r room).Games := by
  refine h.of_le rfl fun id q hq => ⟨hq, ?_⟩
  intro hs
  rw [room_setRoom]
  by_cases hqr : q = r
  · rw [if_pos hqr]; exact hroom
  · rw [if_neg hqr]; exact hs

theorem Games.roomAdd {w : World F} (h : w.Games) {id : Int} {r : RoomRef} (hr : w.Registered id r)
    (s : SessionRef) : (w.roomAdd r s).Games := by
  have hset := h.setRoom (r := r) ((Room.sameGame_add _ s (w.session s).playerName).sound (h.sound id r hr))
  exact ⟨hset.sound⟩

end

theorem sound_new (maps : List UInt8 → Option MapSectionData) (roomId hostId : Int)
    (gameName gamePassWord mapHash : List UInt8) :
    (Room.new roomId hostId gameName gamePassWord mapHash : Room F).Sound maps := by
  have hempty : ∀ k : Int, (∅ : Std.ExtTreeMap Int (Option ObjRef))[k]? = none := fun k => by simp
  have hcode : GameObjectCode.mineral ≠ .bullet := by decide
  refine ⟨Int.le_refl 0, ?_, fun _ => ⟨.inl rfl, hcode, nofun⟩, nofun, ?_⟩
  · intro k v hk
    change (∅ : Std.ExtTreeMap Int (Option ObjRef))[k]? = some v at hk
    rw [hempty] at hk
    cases hk
  · intro hl
    rcases hl with ⟨k, object, hk⟩ | hq
    · change (∅ : Std.ExtTreeMap Int (Option ObjRef))[k]? = _ at hk
      rw [hempty] at hk
      cases hk
    · exact absurd rfl hq

theorem games_init (maps : List UInt8 → Option MapSectionData) : (World.init maps : World F).Games :=
  ⟨fun _ _ _ => sound_new maps ..⟩

theorem Games.created {w : World F} (hreg : w.Registry) (h : w.Games) (s : SessionRef)
    (gameId : UInt64) (gameName gamePassWord mapHash : List UInt8) :
    (w.created s gameId gameName gamePassWord mapHash).Games := by
  constructor
  intro id r hr
  change Room.Sound w.hashToMap _
  unfold Registered at hr
  rw [rooms_created] at hr
  rw [room_created]
  by_cases hid : id = w.roomManager.roomIdCount
  · rw [if_pos hid] at hr
    obtain rfl := Option.some.inj (Option.some.inj hr)
    rw [if_pos rfl]
    exact (Room.sameGame_add ..).sound (sound_new ..)
  · rw [if_neg hid] at hr
    obtain ⟨q, hq, hlt, -⟩ := hreg.entry id (some r) hr
    obtain rfl := Option.some.inj hq
    rw [if_neg (Nat.ne_of_lt hlt)]
    exact h.sound id r hr

theorem Games.reply {w : World F} (h : w.Games) (s : SessionRef) {msg : ServerMessage F}
    (hfits : msg.byteSizeLong ≤ 5996) : Yields (w.reply s msg) Games := by
  rw [reply_ok w s hfits]
  exact .ok ⟨h.sound⟩

/-! ## What other threads leave behind -/

namespace Meddles

/-- Rooms may come out of the table, and those that stay are the same but for who is in them. -/
theorem of_le {w w' : World F} (hreg : w.Registry) (hmaps : w'.hashToMap = w.hashToMap)
    (hnext : w.nextRoom ≤ w'.nextRoom)
    (hrooms : ∀ (id : Int) v, w'.roomManager.rooms[id]? = some v → w.roomManager.rooms[id]? = some v)
    (hroom : ∀ id r, w'.Registered id r →
      (w'.room r).roomId = (w.room r).roomId ∧ (w.room r).SameGame (w'.room r)) : w.Meddles w' := by
  refine ⟨hmaps, ⟨?_⟩, fun id r hr => .inl ⟨hrooms id _ hr, (hroom id r hr).2⟩⟩
  intro id v hv
  obtain ⟨r, rfl, hlt, hid⟩ := hreg.entry id v (hrooms id v hv)
  exact ⟨r, rfl, Nat.lt_of_lt_of_le hlt hnext, (hroom id r hv).1.trans hid⟩

/-- Neither the rooms nor their table change. -/
theorem of_eq {w w' : World F} (hreg : w.Registry) (hmaps : w'.hashToMap = w.hashToMap)
    (hnext : w'.nextRoom = w.nextRoom) (hrooms : w'.roomManager.rooms = w.roomManager.rooms)
    (hroom : w'.room = w.room) : w.Meddles w' := by
  refine of_le hreg hmaps hnext.ge (fun id v hv => hrooms ▸ hv) ?_
  intro id r _
  rw [hroom]
  exact ⟨rfl, .refl _⟩

theorem refl {w : World F} (hreg : w.Registry) : w.Meddles w := .of_eq hreg rfl rfl rfl rfl

theorem trans {w w' w'' : World F} (h : w.Meddles w') (h' : w'.Meddles w'') : w.Meddles w'' := by
  refine ⟨h'.hashToMap.trans h.hashToMap, h'.registry, ?_⟩
  intro id r hr
  rcases h'.game id r hr with ⟨hr', hsame'⟩ | hnew
  · rcases h.game id r hr' with ⟨hold, hsame⟩ | ⟨roomId, hostId, gameName, gamePassWord, mapHash, hnew⟩
    · exact .inl ⟨hold, hsame.trans hsame'⟩
    · exact .inr ⟨roomId, hostId, gameName, gamePassWord, mapHash, hnew.trans hsame'⟩
  · exact .inr hnew

theorem setRoom {w : World F} (hreg : w.Registry) {r : RoomRef} {room : Room F}
    (hid : room.roomId = (w.room r).roomId) (hsame : (w.room r).SameGame room) :
    w.Meddles (w.setRoom r room) := by
  refine of_le hreg rfl (Nat.le_refl _) (fun _ _ hv => hv) ?_
  intro id q _
  rw [room_setRoom]
  by_cases hq : q = r
  · subst hq
    rw [if_pos rfl]
    exact ⟨hid, hsame⟩
  · rw [if_neg hq]
    exact ⟨rfl, .refl _⟩

end Meddles

theorem Games.meddles {w w' : World F} (h : w.Games) (hm : w.Meddles w') : w'.Games := by
  constructor
  intro id r hr
  rw [hm.hashToMap]
  rcases hm.game id r hr with ⟨hold, hsame⟩ | ⟨roomId, hostId, gameName, gamePassWord, mapHash, hnew⟩
  · exact hsame.sound (h.sound id r hold)
  · exact hnew.sound (sound_new ..)

/-! ## Leaving -/

section

omit [Scalar F]

theorem foldl_notifyExit (packet : ServerMessage F) (players : List SessionRef) (w : World F) :
    (players.foldl (fun w player => w.notifyExit packet player) w).room = w.room
      ∧ (players.foldl (fun w player => w.notifyExit packet player) w).roomManager = w.roomManager
      ∧ (players.foldl (fun w player => w.notifyExit packet player) w).hashToMap = w.hashToMap
      ∧ (players.foldl (fun w player => w.notifyExit packet player) w).nextRoom = w.nextRoom := by
  induction players generalizing w with
  | nil => exact ⟨rfl, rfl, rfl, rfl⟩
  | cons player players ih => exact ih (w.notifyExit packet player)

theorem room_emptied (w : World F) (r q : RoomRef) (s : SessionRef) :
    (w.emptied r s).room q = if q = r then (w.without r s).cleared else w.room q := by
  unfold emptied
  rw [(foldl_notifyExit ..).1, room_setRoom]

theorem roomManager_emptied (w : World F) (r : RoomRef) (s : SessionRef) :
    (w.emptied r s).roomManager = w.roomManager := (foldl_notifyExit ..).2.1

theorem hashToMap_emptied (w : World F) (r : RoomRef) (s : SessionRef) :
    (w.emptied r s).hashToMap = w.hashToMap := (foldl_notifyExit ..).2.2.1

theorem nextRoom_emptied (w : World F) (r : RoomRef) (s : SessionRef) :
    (w.emptied r s).nextRoom = w.nextRoom := (foldl_notifyExit ..).2.2.2

theorem objects_without (w : World F) (r : RoomRef) (s : SessionRef) :
    (w.without r s).objects = (w.room r).objects := by
  unfold without Room.removeGameSession
  dsimp only
  split
  · split <;> rfl
  · rfl

end

theorem meddles_removeRoom {w : World F} (hreg : w.Registry) (r : RoomRef) :
    Ensures (w.removeRoom r) w.Meddles := by
  refine Ensures.bind (Room.stays_removeObjects _).keeps ?_
  intro room hroom
  have hid : room.roomId = (w.room r).roomId := congrArg Membership.roomId hroom
  have hget : ∀ id v, (w.roomManager.rooms.erase room.roomId)[id]? = some v →
      id ≠ (w.room r).roomId ∧ w.roomManager.rooms[id]? = some v := by
    intro id v hv
    rw [Table.getElem?_erase, hid] at hv
    split at hv
    · cases hv
    · rename_i hne
      exact ⟨hne, hv⟩
  refine .ok (.of_le hreg rfl (Nat.le_refl _) (fun id v hv => (hget id v hv).2) ?_)
  intro id q hq
  obtain ⟨hne, hold⟩ := hget id _ hq
  have hqr : q ≠ r := by
    rintro rfl
    exact hne (Registered.roomId hreg hold).symm
  have hsame : (w.setRoom r room).room q = w.room q := (room_setRoom ..).trans (if_neg hqr)
  change ((w.setRoom r room).room q).roomId = _ ∧ (w.room q).SameGame ((w.setRoom r room).room q)
  rw [hsame]
  exact ⟨rfl, .refl _⟩

theorem meddles_roomRemove {w : World F} (hreg : w.Registry) (r : RoomRef) (s : SessionRef) :
    Ensures (w.roomRemove r s) w.Meddles := by
  cases hc : w.closes r s with
  | false =>
      rw [roomRemove_stays hc]
      refine Ensures.bind (P := fun _ => True) (fun _ _ => trivial) fun _ _ => .ok ?_
      have hset := Meddles.setRoom hreg (without_roomId w r s) (Room.sameGame_removeGameSession _ s)
      exact hset.trans (.of_eq hset.registry rfl rfl rfl rfl)
  | true =>
      have hempty : w.Meddles (w.emptied r s) := by
        refine .of_le hreg (hashToMap_emptied w r s) (nextRoom_emptied w r s).ge ?_ ?_
        · intro id v hv
          rwa [roomManager_emptied] at hv
        · intro id q _
          rw [room_emptied]
          by_cases hq : q = r
          · subst hq
            rw [if_pos rfl]
            exact ⟨without_roomId w q s, (Room.sameGame_removeGameSession (w.room q) s).trans (Room.sameGame_cleared _)⟩
          · rw [if_neg hq]
            exact ⟨rfl, .refl _⟩
      rw [roomRemove_closed hc]
      exact (meddles_removeRoom hempty.registry r).mono fun _ h => hempty.trans h

theorem games_roomRemove {w : World F} (hreg : w.Registry) (h : w.Games) (r : RoomRef) (s : SessionRef) :
    Ensures (w.roomRemove r s) Games :=
  (meddles_roomRemove hreg r s).mono fun _ hm => h.meddles hm

theorem yields_roomRemove {w : World F} (hreg : w.Registry) (h : w.Games) {r : RoomRef} {s : SessionRef}
    (hsafe : w.SafeLeave r s) : Yields (w.roomRemove r s) Games := by
  refine Yields.mono (Yields.and_ensures (P := fun _ => True) ?_ (games_roomRemove hreg h r s))
    fun _ hw => hw.2
  unfold SafeLeave at hsafe
  cases hc : w.closes r s with
  | false =>
      rw [hc] at hsafe
      rw [roomRemove_stays hc]
      exact Yields.bind (P := fun _ => True) ⟨_, ServerMessage.frame_ok hsafe, trivial⟩
        fun _ _ => .ok trivial
  | true =>
      rw [hc, if_pos rfl] at hsafe
      rw [roomRemove_closed hc]
      have hnull : ((w.emptied r s).room r).NoNull := by
        unfold Room.NoNull
        rw [room_emptied, if_pos rfl]
        change ∀ entry ∈ (w.without r s).objects.toList, entry.2 ≠ none
        rw [objects_without]
        exact hsafe
      exact Yields.bind hnull.yields_removeObjects fun _ _ => .ok trivial

omit [Scalar F] in
theorem Games.setRoomId {w : World F} (h : w.Games) (s : SessionRef) (id : Int) :
    (w.setRoomId s id).Games := ⟨h.sound⟩

theorem games_onDisconnected {w : World F} (hreg : w.Registry) (h : w.Games) (s : SessionRef) :
    Ensures (w.onDisconnected s) Games := by
  unfold onDisconnected
  refine Ensures.bind (P := fun w1 => (w1.session s).currentRoom = intMax ∧ w1.Games) ?_ ?_
  · change Ensures ((w.dropped s).leaveRoom s) _
    have hdrop : (w.dropped s).Games := ⟨h.sound⟩
    have hreg' : (w.dropped s).Registry := ⟨hreg.entry⟩
    unfold leaveRoom
    refine Ensures.ite (fun hmax => .ok ⟨hmax, hdrop⟩) ?_
    intro _
    cases hr : (w.dropped s).getRoom ((w.dropped s).session s).currentRoom with
    | none => exact .ok ⟨(currentRoom_setRoomId ..).trans (if_pos rfl), hdrop.setRoomId s _⟩
    | some r =>
        refine Ensures.bind (games_roomRemove hreg' hdrop r s) fun w1 h1 => .ok ?_
        exact ⟨(currentRoom_setRoomId ..).trans (if_pos rfl), h1.setRoomId s _⟩
  · intro w1 h1
    unfold gSessionManagerRemove
    have hmax : ((w1.erasePlayerId s).session s).currentRoom = intMax := h1.1
    dsimp only
    rw [if_pos hmax]
    exact .ok ⟨h1.2.sound⟩

/-! ## The handlers -/

theorem Games.handleCLogin {w : World F} (h : w.Games) (s : SessionRef) (loginCode : UInt64) :
    Yields (w.handleCLogin s loginCode) Games := by
  refine Yields.ite (fun _ => h.reply s (ServerMessage.Scalars.byteSizeLong_le trivial)) ?_
  intro _
  refine Games.reply ?_ s (ServerMessage.Scalars.byteSizeLong_le trivial)
  exact ⟨h.sound⟩

omit [Scalar F] in
theorem sound_pushJob {maps : List UInt8 → Option MapSectionData} {room : Room F}
    (h : room.Sound maps) {job : Job F} (hjob : room.Runnable job) (hlive : ∃ k, room.Live k) :
    (room.pushJob job).Sound maps := by
  refine ⟨h.idCount, h.entry, h.calm, ?_, fun _ => h.map (.inl hlive)⟩
  intro j hj
  rcases List.mem_append.mp hj with hj | hj
  · exact h.jobs j hj
  · obtain rfl := List.mem_singleton.mp hj
    exact hjob

theorem Games.handleCMove {w : World F} (h : w.Games) {roomCode : Int32} {objectId : List UInt32}
    (hsafe : objectId = [] ∨
      w.WithRoom roomCode.toInt fun r => ∀ id ∈ objectId, (w.room r).Live (int32 id.toNat))
    (position : Vector3 F) : Yields (w.handleCMove roomCode objectId position) Games := by
  rcases hsafe with rfl | ⟨r, hr, hlive⟩
  · exact .ok h
  · unfold World.handleCMove
    rw [hr]
    have hreg := getRoom_eq_some.mp hr
    -- the loop adds jobs to the queue and leaves the table of objects alone
    refine Yields.mono (Yields.foldlM
      (I := fun w' => w'.Games ∧ w'.Registered roomCode.toInt r
        ∧ (w'.room r).objects = (w.room r).objects) ⟨h, hreg, rfl⟩ ?_) fun _ hw => hw.1
    rintro w' ⟨h', hreg', hobjects⟩ id hid
    have hl : (w'.room r).Live (int32 id.toNat) := by
      unfold Room.Live
      rw [hobjects]
      exact hlive id hid
    have hsound := h'.sound _ r hreg'
    obtain ⟨object, hobject⟩ := Room.indexObject_live hl
    unfold moveObject
    dsimp only
    rw [hobject]
    refine .ok ⟨h'.setRoom (sound_pushJob hsound (.inl ⟨rfl, hsound.ne_neg_one hl, hl⟩) ⟨_, hl⟩), hreg', ?_⟩
    rw [← hobjects]
    rw [room_setRoom, if_pos rfl]
    rfl

theorem Games.handleCRoomData {w : World F} (hreg : w.Registry) (h : w.Games) (s : SessionRef)
    (hfits : w.roomList.byteSizeLong ≤ 5996) : Yields (w.handleCRoomData s) Games := by
  have hloop : ∀ (entries : List (Int × Option RoomRef)) (roomData : List RoomData),
      (∀ entry ∈ entries, entry.2 ≠ none) → entries.foldlM (addRoomData w) roomData
        = .ok (roomData ++ entries.filterMap fun entry => entry.2.map (w.roomDataOf entry.1)) := by
    intro entries
    induction entries with
    | nil => intro roomData _; simp
    | cons entry entries ih =>
        intro roomData hentries
        obtain ⟨code, v⟩ := entry
        cases v with
        | none => exact absurd rfl (hentries (code, none) List.mem_cons_self)
        | some r =>
            rw [List.foldlM_cons]
            refine (ih (roomData ++ [w.roomDataOf code r]) fun entry he =>
              hentries entry (List.mem_cons_of_mem _ he)).trans ?_
            simp
  unfold World.handleCRoomData
  rw [hloop _ [] fun entry hentry hv => ?_]
  · rw [List.nil_append, ok_bind]
    exact h.reply s hfits
  · obtain ⟨r, hr, -⟩ := hreg.entry entry.1 entry.2
      (Std.ExtTreeMap.mem_toList_iff_getElem?_eq_some.mp hentry)
    rw [hv] at hr
    cases hr

theorem Games.handleCRoomRequest {w : World F} (h : w.Games) {s : SessionRef} {roomCode : Int32}
    {gamePassWord : List UInt8} (hsafe : w.WithRoom roomCode.toInt fun r =>
      admits (w.room r) gamePassWord = true →
        (roomLobby (w.room r) roomCode.toInt).byteSizeLong ≤ 5996) :
    Yields (w.handleCRoomRequest s roomCode gamePassWord) Games := by
  obtain ⟨r, hr, hfits⟩ := hsafe
  have hreg := getRoom_eq_some.mp hr
  have hmem : roomCode.toInt ∈ w.roomManager.rooms :=
    Table.mem_iff_exists_getElem?.mpr ⟨_, hreg⟩
  have hget : w.roomManager.rooms.getD roomCode.toInt none = some r := hr
  unfold World.handleCRoomRequest RoomManager.indexRoom
  simp only [hmem, if_true, hget]
  refine Yields.ite ?_ ?_
  · intro ha
    refine (h.roomAdd hreg s).reply s ?_
    rw [room_roomAdd, if_pos rfl]
    exact hfits ha
  · intro _
    exact h.reply s (ServerMessage.Scalars.byteSizeLong_le trivial)

theorem Games.handleCRoomPlayerListRequest {w : World F} (h : w.Games) {roomCode : Int32}
    (hsafe : w.WithRoom roomCode.toInt fun r => (w.playerList r).byteSizeLong ≤ 5996) :
    Yields (w.handleCRoomPlayerListRequest roomCode) Games := by
  obtain ⟨r, hr, hfits⟩ := hsafe
  unfold World.handleCRoomPlayerListRequest
  rw [hr]
  refine Yields.bind (P := fun _ => True) ⟨_, ServerMessage.frame_ok hfits, trivial⟩ fun packet _ =>
    .ok (h.setRoom ?_)
  exact ((h.sound _ r (getRoom_eq_some.mp hr)).broadcast packet).sound

theorem Games.handleCStartGame (env : Env F) {w : World F} (h : w.Games) {roomCode : Int32}
    (hsafe : w.WithRoom roomCode.toInt fun r =>
      { w.room r with mapSectionData := w.hashToMap (w.room r).mapHash }.PlacesAll env) :
    Yields (w.handleCStartGame env roomCode) Games := by
  obtain ⟨r, hr, hplaces⟩ := hsafe
  have hs := h.sound _ r (getRoom_eq_some.mp hr)
  -- a room with objects already has the map that is looked up again
  have hstart : ({ w.room r with mapSectionData := w.hashToMap (w.room r).mapHash } : Room F).Sound
      w.hashToMap := by
    refine ⟨hs.idCount, hs.entry, hs.calm, hs.jobs, fun hl => ⟨?_, rfl⟩⟩
    have hmap := hs.map hl
    rw [hmap.2] at hmap
    exact hmap.1
  unfold World.handleCStartGame
  rw [hr]
  exact Yields.bind (hstart.startGame env rfl hplaces) fun room hroom => .ok (h.setRoom hroom.sound)

theorem Games.handleCExitGame {w : World F} (hreg : w.Registry) (h : w.Games) {s : SessionRef}
    (hsafe : (w.session s).currentRoom = intMax ∨
      w.WithRoom (w.session s).currentRoom fun r => w.SafeLeave r s) :
    Yields (w.handleCExitGame s) Games := by
  unfold World.handleCExitGame
  refine Yields.ite (fun _ => .ok h) ?_
  intro hne
  obtain ⟨r, hr, hleave⟩ := hsafe.resolve_left hne
  rw [hr]
  refine Yields.bind (yields_roomRemove hreg h hleave) ?_
  intro w' h'
  exact (h'.setRoomId s intMax).reply s (ServerMessage.Scalars.byteSizeLong_le trivial)

theorem Games.handleCAttack {w : World F} (h : w.Games) {roomCode : Int32} {objectId : UInt32}
    {objectType : Int32} (hsafe : w.WithRoom roomCode.toInt fun r =>
      (w.room r).Live (int32 objectId.toNat) ∧ GameObjectCode.Spawns ⟨objectType.toInt⟩)
    (direction : Vector3 F) : Yields (w.handleCAttack roomCode objectId objectType direction) Games := by
  obtain ⟨r, hr, hlive, hcode⟩ := hsafe
  have hs := h.sound _ r (getRoom_eq_some.mp hr)
  obtain ⟨object, hobject⟩ := Room.indexObject_live hlive
  unfold World.handleCAttack
  rw [hr]
  dsimp only
  rw [hobject]
  exact .ok (h.setRoom (sound_pushJob hs (.inr ⟨rfl, rfl, hcode⟩) ⟨_, hlive⟩))

theorem Games.handle (env : Env F) {w : World F} (hreg : w.Registry) (h : w.Games) (s : SessionRef)
    {pkt : ClientPacket F} (hsafe : w.Safe env s pkt) : Yields (w.handle env s pkt) Games := by
  cases pkt with
  | cLogin loginCode => exact h.handleCLogin s loginCode
  | cMove roomCode objectId position => exact h.handleCMove hsafe position
  | cRoomCreate gameId gameName gamePassWord mapHash => exact (h.created hreg ..).reply s hsafe
  | cRoomData => exact h.handleCRoomData hreg s hsafe
  | cRoomRequest roomCode gamePassWord => exact h.handleCRoomRequest hsafe
  | cRoomPlayerListRequest roomCode => exact h.handleCRoomPlayerListRequest hsafe
  | cStartGame roomCode => exact h.handleCStartGame env hsafe
  | cExitGame => exact h.handleCExitGame hreg hsafe
  | cAttack roomCode objectId objectType direction => exact h.handleCAttack hsafe direction
  | cRttPing clientTime => exact h.reply s (ServerMessage.Scalars.byteSizeLong_le trivial)

/-! ## The tick -/

theorem Games.update (env : Env F) {w : World F} (hreg : w.Registry) (h : w.Games) :
    Yields (w.update env) Games := by
  refine Yields.mono (Yields.foldlM
    (I := fun w' => w'.Games ∧ w'.roomManager.rooms = w.roomManager.rooms) ⟨h, rfl⟩ ?_) fun _ hw => hw.1
  rintro w' ⟨h', hrooms⟩ entry hentry
  have hget := Std.ExtTreeMap.mem_toList_iff_getElem?_eq_some.mp hentry
  obtain ⟨r, hr, -⟩ := hreg.entry entry.1 entry.2 hget
  rw [hr, ← hrooms] at hget
  unfold updateRoom
  rw [hr]
  exact Yields.bind ((h'.sound entry.1 r hget).update env) fun room hroom =>
    .ok ⟨h'.setRoom hroom.sound, hrooms⟩

/-! ## Runs -/

theorem games_next {w w' : World F} {a : Env F × Event F} (hreg : w.Registry) (h : w.Games)
    (hsafe : w.SafePackets a) (hs : w.next a = some w') : w'.Games := by
  have hok := exec_of_next hs
  obtain ⟨env, e⟩ := a
  cases e with
  | connect =>
      obtain rfl := Except.ok.inj hok
      exact ⟨h.sound⟩
  | packet s pkt => exact (h.handle env hreg s hsafe).ensures w' hok
  | disconnect s => exact games_onDisconnected hreg h s w' hok
  | update => exact (h.update env hreg).ensures w' hok

theorem Turn.of_guarded {w₀ w : World F}
    (h : Reachable ((Transition.ofFun next).guarded SafePackets) w₀ w) : Reachable Turn w₀ w :=
  h.invariant (I := Reachable Turn w₀) .refl fun _ _ _ hr hs => hr.tail (.event hs.1 hs.2)

theorem Turn.keeps_games {maps : List UInt8 → Option MapSectionData} {w : World F}
    (h : Reachable Turn (World.init maps) w) : w.Registry ∧ w.Games := by
  refine h.invariant (I := fun w => w.Registry ∧ w.Games) ⟨registry_init maps, games_init maps⟩ ?_
  rintro w a w' ⟨hreg, hgames⟩ hturn
  cases hturn with
  | event hsafe hs => exact ⟨registry_moves hreg (moves_next hs).2, games_next hreg hgames hsafe hs⟩
  | meddle hm => exact ⟨hm.registry, hgames.meddles hm⟩

/--
**The server survives** safe packets: in every state that connects, disconnects,
ticks and safe packets can reach, whatever other threads do in between, the
handler of a safe packet returns, and so do the jobs of every room and the tick.
-/
theorem survives {maps : List UInt8 → Option MapSectionData} {w : World F}
    (h : Reachable Turn (World.init maps) w) : w.Survives := by
  obtain ⟨hreg, hgames⟩ := Turn.keeps_games h
  refine ⟨?_, ?_, ?_⟩
  · intro env s pkt _ hsafe
    obtain ⟨w', hw', -⟩ := hgames.handle env hreg s hsafe
    exact ⟨w', hw'⟩
  · intro env id r hr
    obtain ⟨room, hroom, -⟩ := (hgames.sound id r hr).processJob env
    exact ⟨room, hroom⟩
  · intro env
    obtain ⟨w', hw', -⟩ := hgames.update env hreg
    exact ⟨w', hw'⟩

/-- A map with one place to start from. -/
def smallMap : MapSectionData :=
  { mapWidth := 60, mapHeight := 60, height := [], playerPos := [⟨0, 10, 10⟩] }

/-- A game of one player, who moves two probes and has one of them spawn a mineral. -/
def shortGame : List (Env ℚ × Event ℚ) :=
  still [.connect, .packet 0 (.cRoomCreate 1 [] [] []), .packet 0 (.cStartGame 0), .update,
    .packet 0 (.cMove 0 [0, 3] ⟨20, 20, 0⟩), .packet 0 (.cAttack 0 1 4 ⟨0, 0, 0⟩), .update, .update]

/-- After the game, another thread has left its player in a room that does not exist. -/
theorem survives_shortGame : ∃ w : World ℚ, w.Registered 0 0 ∧ (w.room 0).Live 4 ∧
    ¬ w.Safe Env.still 0 .cExitGame ∧ w.Survives := by
  have hrun : (shortGame.foldlM (guardedFun next SafePackets) (World.init fun _ => some smallMap)).map
      (fun w => (w.getRoom 0, w.getRoom 7, decide ((w.room 0).Live 4))) = some (some 0, none, true) := by
    decide +kernel
  obtain ⟨w, hw, hobs⟩ := Option.map_eq_some_iff.mp hrun
  obtain ⟨hroom, hobs⟩ := Prod.mk.inj hobs
  obtain ⟨hnone, hlive⟩ := Prod.mk.inj hobs
  have h := Turn.of_guarded (Reachable.of_run_guarded (l := shortGame) hw .refl)
  have hstranded : w.Meddles (w.setRoomId 0 7) :=
    .of_eq (Turn.keeps_games h).1 rfl rfl rfl rfl
  refine ⟨w.setRoomId 0 7, getRoom_eq_some.mp hroom, of_decide_eq_true hlive, ?_,
    survives (h.tail (.meddle hstranded))⟩
  have hcur : ((w.setRoomId 0 7).session 0).currentRoom = 7 :=
    (currentRoom_setRoomId ..).trans (if_pos rfl)
  rintro (hmax | hroom)
  · rw [hcur] at hmax
    cases hmax
  · rw [hcur] at hroom
    exact not_withRoom _ hnone hroom

/-- A client moves an object of a room that does not exist. -/
theorem not_survives :
    ∃ w : World ℚ, Reachable (Transition.ofFun next) (World.init fun _ => none) w
      ∧ w.Enabled (.packet 0 (.cMove 7 [0] ⟨0, 0, 0⟩))
      ∧ w.handle Env.still 0 (.cMove 7 [0] ⟨0, 0, 0⟩) = .error .nullRoom := by
  have hrun : ((still [.connect]).foldlM next (World.init fun _ => none)).map
      (fun w => (decide (0 < w.nextSession), (w.session 0).connected, w.getRoom 7))
        = some (true, true, none) := by decide +kernel
  obtain ⟨w, hw, hobs⟩ := Option.map_eq_some_iff.mp hrun
  obtain ⟨hlt, hobs⟩ := Prod.mk.inj hobs
  obtain ⟨hconn, hroom⟩ := Prod.mk.inj hobs
  refine ⟨w, Reachable.of_run hw .refl, ⟨of_decide_eq_true hlt, hconn⟩, ?_⟩
  change [(0 : UInt32)].foldlM (moveObject (w.getRoom 7) _) w = _
  rw [hroom]
  rfl

end World

end StarCraftIocp
