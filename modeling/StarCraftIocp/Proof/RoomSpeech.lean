import StarCraftIocp.Proof.RoomNews
import StarCraftIocp.Proof.RoomOrigin

/-!
# What a game says

While a game goes on, its room keeps what identifies it, and sends messages about
objects and the start of the game only, of which each fits in a frame.
-/

namespace StarCraftIocp

open Outcome Protocol

variable {F : Type} [Scalar F]

/-- The messages of a game. -/
def Protocol.ServerMessage.InGame : ServerMessage F → Prop
  | .sMove .. | .sObjectSpawn .. | .sObjectDead .. | .sObjectDamage .. | .sGameStart .. => True
  | _ => False

/-- What a room is made with. -/
structure Room.Card where
  roomId : Int
  hostId : Int
  gameName : List UInt8
  gamePassWord : List UInt8
  mapHash : List UInt8
  deriving Repr, DecidableEq

namespace Room

def card (room : Room F) : Card where
  roomId := room.roomId
  hostId := room.hostId
  gameName := room.gameName
  gamePassWord := room.gamePassWord
  mapHash := room.mapHash

/-- The game of `room` goes on to `room'`. -/
structure Continues (room room' : Room F) : Prop where
  card : room'.card = room.card
  sent : ∃ more, room'.sent = room.sent ++ more ∧ ∀ p ∈ more, p.2.InGame ∧ p.2.byteSizeLong ≤ 5996

namespace Continues

variable {room room' room'' : Room F} {msg packet : ServerMessage F}

theorem of_eq (hcard : room'.card = room.card) (hsent : room'.sent = room.sent) : Continues room room' :=
  ⟨hcard, [], by rw [hsent, List.append_nil], by simp⟩

theorem refl (room : Room F) : Continues room room := .of_eq rfl rfl

theorem trans (h : Continues room room') (h' : Continues room' room'') : Continues room room'' := by
  obtain ⟨more, hmore, hall⟩ := h.sent
  obtain ⟨more', hmore', hall'⟩ := h'.sent
  refine ⟨h'.card.trans h.card, more ++ more', by rw [hmore', hmore, List.append_assoc], ?_⟩
  exact fun p hp => (List.mem_append.mp hp).elim (hall p) (hall' p)

theorem broadcast (h : Continues room room') (hpacket : msg.frame = .ok packet) (hgame : msg.InGame) :
    Continues room (room'.broadcast packet) := by
  obtain rfl := ServerMessage.eq_of_frame hpacket
  refine h.trans ⟨rfl, _, rfl, fun p hp => ?_⟩
  obtain ⟨s, -, rfl⟩ := List.mem_map.mp hp
  exact ⟨hgame, ServerMessage.byteSizeLong_le_of_frame hpacket⟩

theorem send (h : Continues room room') (s : SessionRef) (hpacket : msg.frame = .ok packet) (hgame : msg.InGame) :
    Continues room (room'.send s packet) := by
  obtain rfl := ServerMessage.eq_of_frame hpacket
  refine h.trans ⟨rfl, _, rfl, fun p hp => ?_⟩
  obtain rfl := List.mem_singleton.mp hp
  exact ⟨hgame, ServerMessage.byteSizeLong_le_of_frame hpacket⟩

theorem setObject (room : Room F) (object : ObjRef) (o : GameObject F) : Continues room (room.setObject object o) :=
  .of_eq rfl rfl

theorem indexObject (room : Room F) (id : Int) : Continues room (room.indexObject id).2 := by
  unfold Room.indexObject
  dsimp only
  split
  · exact .refl room
  · exact .of_eq rfl rfl

end Continues

/-! ## The operations -/

/-- The message is a framed one of a game. -/
def Announced (packet : ServerMessage F) : Prop := ∃ msg : ServerMessage F, msg.frame = .ok packet ∧ msg.InGame

theorem Announced.broadcast {room room' : Room F} {packet : ServerMessage F} (hpacket : Announced packet)
    (h : Continues room room') : Continues room (room'.broadcast packet) := by
  obtain ⟨msg, hframe, hgame⟩ := hpacket
  exact h.broadcast hframe hgame

theorem announced_spawn (o : GameObject F) (now : Int) : Ensures (o.spawn now) fun r => Announced r.2 :=
  Ensures.bind_of_eq fun _ hpacket => .ok ⟨_, hpacket, trivial⟩

theorem announced_move (o : GameObject F) : Ensures o.move fun r => ∀ msg ∈ r.2, Announced msg := by
  unfold GameObject.move
  refine Ensures.bind (P := fun r : GameObject F × Option (ServerMessage F) => ∀ msg ∈ r.2, Announced msg) ?_ ?_
  · unfold GameObject.baseMove
    split
    · exact .ok (by simp)
    · refine Ensures.bind_of_eq fun packet hpacket => .ok fun msg hmsg => ?_
      obtain rfl := Option.some.inj hmsg
      exact ⟨_, hpacket, trivial⟩
  · intro r hr
    obtain ⟨o', sendBuffer⟩ := r
    dsimp only at hr ⊢
    split
    · refine .ok fun msg hmsg => ?_
      dsimp only at hmsg
      split at hmsg
      · cases hmsg
      · exact hr msg hmsg
    · exact .ok hr

theorem continues_takeDamage (room : Room F) (object : ObjRef) (damage : F) :
    Ensures (room.takeDamage object damage) (Continues room) :=
  Ensures.bind_of_eq fun _ hpacket => .ok ((Continues.setObject room object _).broadcast hpacket trivial)

theorem continues_attack (room : Room F) (object : ObjRef) : Ensures (room.attack object) (Continues room) := by
  unfold Room.attack
  dsimp only
  split
  · refine Ensures.ite (fun _ => .ok (.refl room)) fun _ => ?_
    split
    · exact .error _
    · refine Ensures.ite (fun _ => .ok (.refl room)) fun _ => Ensures.ite ?_ fun _ => .ok (.refl room)
      exact fun _ => (continues_takeDamage _ _ _).mono fun _ h => (Continues.setObject room object _).trans h
  · exact .ok (.refl room)

theorem continues_hit (room : Room F) (bullet player : ObjRef) : Ensures (room.hit bullet player) (Continues room) :=
  Ensures.ite (fun _ => .ok (.refl room)) fun _ =>
    Ensures.bind (continues_takeDamage room player _) fun _ h => .ok (h.trans (.setObject _ bullet _))

theorem continues_handleCollisions (room : Room F) : Ensures room.handleCollisions (Continues room) := by
  refine Ensures.foldlM (Continues.refl room) fun room1 h1 pair _ => ?_
  have hhit : ∀ bullet player, Ensures (room1.hit bullet player) (Continues room) :=
    fun bullet player => (continues_hit room1 bullet player).mono fun _ h => h1.trans h
  exact Ensures.ite (fun _ => hhit _ _) fun _ => Ensures.ite (fun _ => hhit _ _) fun _ => .ok h1

theorem continues_broadcastSpawn (env : Env F) (room : Room F) (object : ObjRef) :
    Ensures (room.broadcastSpawn env object) (Continues room) :=
  Ensures.bind (announced_spawn _ _) fun _ hr => .ok (hr.broadcast (.setObject room object _))

theorem continues_enter (room : Room F) (o : GameObject F) : Continues room (room.enter o).2 := .of_eq rfl rfl

theorem continues_objectAdd (room : Room F) (env : Env F) (objectCode : GameObjectCode)
    (position direction : Vector3 F) (shooter : Option ObjRef) (owner : Int) (broad : Bool) :
    Ensures (room.objectAdd env objectCode position direction shooter owner broad) fun r => Continues room r.2 := by
  unfold Room.objectAdd
  refine Ensures.ite (fun _ => .error _) fun _ => ?_
  split
  · exact .error _
  · exact .error _
  · refine Ensures.bind (P := Continues room) ?_ fun room1 h1 => .ok (h1.trans (.of_eq rfl rfl))
    refine Ensures.ite (fun _ => ?_) fun _ => .ok (continues_enter room _)
    exact (continues_broadcastSpawn env _ _).mono fun _ h => (continues_enter room _).trans h

theorem continues_objectRemove (room : Room F) (object : Option ObjRef) :
    Ensures (room.objectRemove object) (Continues room) := by
  cases object with
  | none => exact .error _
  | some object => exact .ok (.of_eq rfl rfl)

theorem continues_removeObjects (room : Room F) : Ensures room.removeObjects (Continues room) :=
  Ensures.foldlM (Continues.refl room) fun room1 h1 object _ =>
    (continues_objectRemove room1 object).mono fun _ h => h1.trans h

theorem continues_jobSetMove (env : Env F) (room : Room F) (job : Job F) (object : Option ObjRef) :
    Ensures (room.jobSetMove env job object) (Continues room) := by
  cases object with
  | none => exact .error _
  | some object =>
      exact Ensures.bind (P := fun _ => True) (fun _ _ => trivial) fun o _ => .ok (.setObject room object o)

theorem continues_runJob (env : Env F) (room : Room F) (job : Job F) :
    Ensures (room.runJob env job) (Continues room) := by
  have hindexed := Continues.indexObject room job.objectId
  unfold Room.runJob
  dsimp only
  generalize (if job.objectId = -1 then none else (room.indexObject job.objectId).1) = object
  generalize (room.indexObject job.objectId).2 = room1 at hindexed ⊢
  refine Ensures.mono (P := Continues room1) ?_ fun _ h => hindexed.trans h
  cases job.state with
  | idle => exact continues_jobSetMove env room1 job object
  | move => exact continues_jobSetMove env room1 job object
  | attack =>
      cases object with
      | none => exact .error _
      | some object => exact .ok (.setObject room1 object _)
  | dead =>
      cases object with
      | none => exact .error _
      | some object =>
          have hgrid : Continues room1 (room1.gridRemove object) := .of_eq rfl rfl
          exact (continues_objectRemove _ (some object)).mono fun _ h => hgrid.trans h
  | spawn =>
      refine Ensures.bind (continues_objectAdd room1 env _ _ _ _ _ _) fun r hr => .ok ?_
      exact hr.trans (.of_eq rfl rfl)
  | mining => exact .ok (.refl room1)

theorem continues_processJob (env : Env F) (room : Room F) : Ensures (room.processJob env) (Continues room) := by
  have hemptied : Continues room { room with jobQueue := [] } := .of_eq rfl rfl
  exact Ensures.foldlM hemptied fun room1 h1 job _ => (continues_runJob env room1 job).mono fun _ h => h1.trans h

theorem continues_updateObject (env : Env F) (room : Room F) (object : ObjRef) :
    Ensures (room.updateObject env object) fun r => Continues room r.2 ∧ ∀ msg ∈ r.1, Announced msg := by
  unfold Room.updateObject
  dsimp only
  cases (room.heap object).currentState with
  | move => exact Ensures.bind (announced_move _) fun r hr => .ok ⟨.setObject room object r.1, hr⟩
  | attack => exact Ensures.bind (continues_attack room object) fun room1 h1 => .ok ⟨h1, by simp⟩
  | dead =>
      refine Ensures.bind_of_eq fun packet hpacket => .ok ⟨.of_eq rfl rfl, fun msg hmsg => ?_⟩
      obtain rfl := Option.some.inj hmsg
      exact ⟨_, hpacket, trivial⟩
  | spawn =>
      refine Ensures.bind (announced_spawn _ _) fun r hr => .ok ⟨.setObject room object r.1, fun msg hmsg => ?_⟩
      obtain rfl := Option.some.inj hmsg
      exact hr
  | idle => exact .ok ⟨.refl room, by simp⟩
  | mining => exact .ok ⟨.refl room, by simp⟩

theorem continues_updateEntry (env : Env F) (room : Room F) (entry : Int × Option ObjRef) :
    Ensures (room.updateEntry env entry) (Continues room) := by
  unfold Room.updateEntry
  refine Ensures.ite (fun _ => .ok (.refl room)) fun _ => ?_
  cases entry.2 with
  | none => exact .error _
  | some object =>
      refine Ensures.bind (continues_updateObject env room object) fun r hr => ?_
      obtain ⟨sendBuffer, room1⟩ := r
      have hgrid : ∀ grid, Continues room { room1 with grid := grid } := fun _ => hr.1.trans (.of_eq rfl rfl)
      cases sendBuffer with
      | none => exact .ok (hgrid _)
      | some packet => exact .ok ((hr.2 packet rfl).broadcast (hgrid _))

/-- A tick. -/
theorem continues_update (env : Env F) (room : Room F) : Ensures (room.update env) (Continues room) := by
  refine Ensures.bind (continues_processJob env room) fun room1 h1 => ?_
  refine Ensures.bind (P := Continues room) ?_ fun room2 h2 => ?_
  · exact Ensures.foldlM h1 fun room2 h2 entry _ => (continues_updateEntry env room2 entry).mono fun _ h => h2.trans h
  · exact Ensures.bind (continues_handleCollisions room2) fun room3 h3 => .ok ((h2.trans h3).trans (.of_eq rfl rfl))

/-- The start of a game. -/
theorem continues_startGame (env : Env F) (room : Room F) : Ensures (room.startGame env) (Continues room) := by
  have hindexed : Continues room room.indexPlayers := .of_eq rfl rfl
  refine Ensures.foldlM hindexed fun room1 h1 p _ => ?_
  unfold placePlayer
  split
  · exact .error _
  · split
    · exact .error _
    · refine Ensures.bind (P := Continues room) (Ensures.foldlM h1 fun room2 h2 i _ => ?_) fun room2 h2 => ?_
      · exact Ensures.bind (continues_objectAdd room2 env _ _ _ _ _ _) fun r hr => .ok (h2.trans hr)
      · exact Ensures.bind_of_eq fun packet hpacket => .ok (h2.send p.1 hpacket trivial)

end Room

end StarCraftIocp
