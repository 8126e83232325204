import StarCraftIocp.GameServer.Handlers

/-!
# What leaves the membership of rooms alone

Most of what a room does concerns its objects. The lemmas here say once that
none of it touches the membership, so that what is proved about members looks
at joining and leaving only.
-/

namespace StarCraftIocp

open Outcome

variable {F : Type} [Scalar F]

/-- The part of a room that says who it is and who is in it. -/
structure Membership where
  roomId : Int
  hostId : Int
  playerCount : Int
  sessions : Std.ExtTreeSet SessionRef
  sessionPlayers : Std.ExtTreeMap SessionRef Int

namespace Room

def membership (room : Room F) : Membership where
  roomId := room.roomId
  hostId := room.hostId
  playerCount := room.playerCount
  sessions := room.sessions
  sessionPlayers := room.sessionPlayers

/-- What a room keeps besides its objects: who is in it, and who has an index in the game. -/
structure Standing where
  membership : Membership
  ingamePlayerIndex : Std.ExtTreeMap SessionRef Int

def standing (room : Room F) : Standing where
  membership := room.membership
  ingamePlayerIndex := room.ingamePlayerIndex

/-- `x`, started on `room`, leaves the membership as it is. -/
def Keeps (room : Room F) (x : Except Crash (Room F)) : Prop :=
  Ensures x fun room' => room'.membership = room.membership

omit [Scalar F] in
theorem Keeps.of_eq {room room' : Room F} {x : Except Crash (Room F)} (h : room'.Keeps x)
    (heq : room'.membership = room.membership) : room.Keeps x :=
  h.mono fun _ h' => h'.trans heq

/-- `x`, started on `room`, leaves its standing as it is. -/
def Stays (room : Room F) (x : Except Crash (Room F)) : Prop :=
  Ensures x fun room' => room'.standing = room.standing

omit [Scalar F] in
theorem Stays.keeps {room : Room F} {x : Except Crash (Room F)} (h : room.Stays x) : room.Keeps x :=
  h.mono fun _ h' => congrArg Standing.membership h'

omit [Scalar F] in
theorem Stays.of_eq {room room' : Room F} {x : Except Crash (Room F)} (h : room'.Stays x)
    (heq : room'.standing = room.standing) : room.Stays x :=
  h.mono fun _ h' => h'.trans heq

omit [Scalar F] in
theorem Stays.ok {room room' : Room F} (h : room'.standing = room.standing) :
    room.Stays (.ok room') := Ensures.ok h

omit [Scalar F] in
theorem Stays.bind {α : Type} {room : Room F} {x : Except Crash α} {f : α → Except Crash (Room F)}
    (hf : ∀ a, room.Stays (f a)) : room.Stays (x >>= f) :=
  Ensures.bind (P := fun _ => True) (fun _ _ => trivial) fun a _ => hf a

omit [Scalar F] in
theorem Stays.trans {room : Room F} {x : Except Crash (Room F)} {f : Room F → Except Crash (Room F)}
    (hx : room.Stays x) (hf : ∀ room', Stays room' (f room')) : room.Stays (x >>= f) :=
  Ensures.bind hx fun room' h => (hf room').of_eq h

omit [Scalar F] in
theorem Stays.foldlM {α : Type} {f : Room F → α → Except Crash (Room F)} {l : List α} {room : Room F}
    (hf : ∀ room a, Stays room (f room a)) : room.Stays (l.foldlM f room) :=
  Ensures.foldlM rfl fun room' h a _ => (hf room' a).of_eq h

omit [Scalar F] in
@[simp] theorem standing_indexObject (room : Room F) (id : Int) :
    (room.indexObject id).2.standing = room.standing := by
  unfold indexObject
  dsimp only
  split <;> rfl

/-- The same, for a computation that returns a value besides the room. -/
def StaysSnd {α : Type} (room : Room F) (x : Except Crash (α × Room F)) : Prop :=
  Ensures x fun r => r.2.standing = room.standing

omit [Scalar F] in
theorem StaysSnd.ok {α : Type} {a : α} {room room' : Room F}
    (h : room'.standing = room.standing) : room.StaysSnd (.ok (a, room')) := Ensures.ok h

omit [Scalar F] in
theorem StaysSnd.bind {α β : Type} {room : Room F} {x : Except Crash α}
    {f : α → Except Crash (β × Room F)} (hf : ∀ a, room.StaysSnd (f a)) : room.StaysSnd (x >>= f) :=
  Ensures.bind (P := fun _ => True) (fun _ _ => trivial) fun a _ => hf a

theorem stays_objectAdd (room : Room F) (env : Env F) (code : GameObjectCode)
    (position direction : Vector3 F) (shooter : Option ObjRef) (owner : Int) (broad : Bool) :
    room.StaysSnd (room.objectAdd env code position direction shooter owner broad) := by
  unfold objectAdd
  refine Ensures.ite (fun _ => .error _) ?_
  intro _
  split
  · exact .error _
  · exact .error _
  · refine Ensures.bind (P := fun r : Room F => r.standing = room.standing) ?_
      fun r h => StaysSnd.ok h
    exact Ensures.ite (fun _ => Stays.bind fun _ => .ok rfl) fun _ => Stays.ok rfl

theorem stays_objectRemove (room : Room F) (object : Option ObjRef) :
    room.Stays (room.objectRemove object) := by
  cases object with
  | none => exact .error _
  | some object => exact .ok rfl

theorem stays_removeObjects (room : Room F) : room.Stays room.removeObjects :=
  Stays.foldlM stays_objectRemove

theorem stays_jobSetMove (env : Env F) (room : Room F) (job : Job F) (object : Option ObjRef) :
    room.Stays (room.jobSetMove env job object) := by
  cases object with
  | none => exact .error _
  | some object => exact Stays.bind fun o => .ok rfl

theorem stays_runJob (env : Env F) (room : Room F) (job : Job F) :
    room.Stays (room.runJob env job) := by
  unfold runJob
  have hi := standing_indexObject room job.objectId
  dsimp only
  generalize (if job.objectId = -1 then none else (room.indexObject job.objectId).1) = object
  generalize (room.indexObject job.objectId).2 = room' at hi
  refine Stays.of_eq ?_ hi
  cases job.state with
  | idle => exact stays_jobSetMove env room' job object
  | move => exact stays_jobSetMove env room' job object
  | attack =>
      cases object with
      | none => exact .error _
      | some object => exact .ok rfl
  | dead =>
      cases object with
      | none => exact .error _
      | some object => exact (stays_objectRemove (room'.gridRemove object) (some object)).of_eq rfl
  | spawn => exact Ensures.bind (stays_objectAdd room' env _ _ _ _ _ _) fun r h => Stays.ok h
  | mining => exact .ok rfl

theorem stays_processJob (env : Env F) (room : Room F) : room.Stays (room.processJob env) :=
  Stays.of_eq (Stays.foldlM (stays_runJob env)) rfl

theorem stays_takeDamage (room : Room F) (object : ObjRef) (damage : F) :
    room.Stays (room.takeDamage object damage) := Stays.bind fun _ => .ok rfl

theorem stays_attack (room : Room F) (object : ObjRef) : room.Stays (room.attack object) := by
  unfold attack
  dsimp only
  split
  · refine Ensures.ite (fun _ => Stays.ok rfl) ?_
    intro _
    split
    · exact .error _
    · refine Ensures.ite (fun _ => Stays.ok rfl) ?_
      intro _
      refine Ensures.ite ?_ fun _ => Stays.ok rfl
      intro _
      exact (stays_takeDamage _ _ _).of_eq rfl
  · exact .ok rfl

theorem stays_updateObject (env : Env F) (room : Room F) (object : ObjRef) :
    room.StaysSnd (room.updateObject env object) := by
  unfold updateObject
  dsimp only
  cases (room.heap object).currentState with
  | move => exact StaysSnd.bind fun _ => .ok rfl
  | attack => exact Ensures.bind (stays_attack room object) fun r h => StaysSnd.ok h
  | dead => exact StaysSnd.bind fun _ => .ok rfl
  | spawn => exact StaysSnd.bind fun _ => .ok rfl
  | idle => exact .ok rfl
  | mining => exact .ok rfl

theorem stays_updateEntry (env : Env F) (room : Room F) (entry : Int × Option ObjRef) :
    room.Stays (room.updateEntry env entry) := by
  unfold updateEntry
  refine Ensures.ite (fun _ => Stays.ok rfl) ?_
  intro _
  cases entry.2 with
  | none => exact .error _
  | some object =>
      refine Ensures.bind (stays_updateObject env room object) ?_
      intro r h
      obtain ⟨sendBuffer, room'⟩ := r
      cases sendBuffer with
      | none => exact Stays.ok h
      | some packet => exact Stays.ok h

theorem stays_handleCollisions (room : Room F) : room.Stays room.handleCollisions := by
  have hhit : ∀ (room : Room F) (bullet player : ObjRef), room.Stays (room.hit bullet player) := by
    intro room bullet player
    refine Ensures.ite (fun _ => Stays.ok rfl) ?_
    intro _
    exact (stays_takeDamage room player _).trans fun room' => Stays.ok rfl
  refine Stays.foldlM ?_
  intro room pair
  refine Ensures.ite (fun _ => hhit room _ _) ?_
  intro _
  exact Ensures.ite (fun _ => hhit room _ _) fun _ => Stays.ok rfl

theorem stays_update (env : Env F) (room : Room F) : room.Stays (room.update env) :=
  (stays_processJob env room).trans fun _ =>
    (Stays.foldlM (stays_updateEntry env)).trans fun room2 =>
      (stays_handleCollisions room2).trans fun _ => Stays.ok rfl

theorem stays_placePlayer (env : Env F) (room : Room F) (p : SessionRef × Int) :
    room.Stays (room.placePlayer env p) := by
  unfold placePlayer
  split
  · exact .error _
  · split
    · exact .error _
    · refine Stays.trans (Stays.foldlM ?_) fun room' => Stays.bind fun _ => Stays.ok rfl
      intro room i
      exact Ensures.bind (stays_objectAdd room env _ _ _ _ _ _) fun r h => Stays.ok h

/-- The start of a game gives out indices, and does nothing else to the standing. -/
theorem keeps_startGame (env : Env F) (room : Room F) : room.Keeps (room.startGame env) := by
  refine Keeps.of_eq (?_ : room.indexPlayers.Keeps _) rfl
  exact (Stays.foldlM (stays_placePlayer env)).keeps

end Room

end StarCraftIocp
