import StarCraftIocp.Proof.MapRoundTrip
import StarCraftIocp.Proof.NoCrash
import StarCraftIocp.Proof.PathSearch
import StarCraftIocp.Proof.RoomLaws

/-!
# Where the server's searches look

A search is made for a job, from where its object stood when a client sent it
somewhere. When every object that is sent somewhere can roam its map, every search
of the ticks to come stays inside the map's table.
-/

namespace StarCraftIocp

open CInt Protocol Outcome AStarMove

variable {F : Type} [Scalar F]

/-- An object may be sent from one place to another: there is no search, or it stays inside the table. -/
def Sendable (behind : Int → Nat) (map : MapSectionData) (position target : Vector3 F) : Prop :=
  let direction := position.sub target
  let lengthSq := direction.x * direction.x + direction.y * direction.y + direction.z * direction.z
  Scalar.le lengthSq (Scalar.lit 0.000001) = true
    ∨ Scalar.toInt position.x = Scalar.toInt target.x ∧ Scalar.toInt position.y = Scalar.toInt target.y
    ∨ Roams behind map (Scalar.toInt position.x, Scalar.toInt position.y)

theorem Sendable.inside {behind : Int → Nat} {map : MapSectionData} {position target : Vector3 F}
    (h : Sendable behind map position target) (queue : PriorityQueue (Node F) AStarMove.compare)
    (fuel : Nat) (state : GameObjectState) :
    ∀ i ∈ GameObject.setMoveReads behind queue fuel (some map) state position target, Inside map i := by
  unfold GameObject.setMoveReads
  dsimp only
  split
  · exact fun _ hi => absurd hi List.not_mem_nil
  · next hsearch =>
    rcases h with hle | ⟨hx, hy⟩ | hroams
    · exact absurd (.inr hle) hsearch
    · rw [hx, hy, trace_aStar_self]
      exact fun _ hi => absurd hi List.not_mem_nil
    · exact inside_aStar _ _ queue hroams fuel

namespace Room

/-- The search that a job makes in this room stays inside the table. -/
def ReadsInside (behind : Int → Nat) (queue : PriorityQueue (Node F) AStarMove.compare) (room : Room F)
    (job : Job F) : Prop :=
  job.state = .idle ∨ job.state = .move → ∀ fuel, ∀ i ∈ GameObject.setMoveReads behind queue fuel
    room.mapSectionData job.state job.position job.target, ∃ map, room.mapSectionData = some map ∧
      Inside map i

/-- A room's map is the one of its hash, and every object with an order may be sent where it says. -/
structure Ordered (behind : Int → Nat) (maps : List UInt8 → Option MapSectionData) (room : Room F) :
    Prop where
  map : ∀ m, room.mapSectionData = some m → maps room.mapHash = some m
  jobs : ∀ job ∈ room.jobQueue, job.state = .move → ∀ m, maps room.mapHash = some m →
    Sendable behind m job.position job.target

/-- `room'` has the map and the orders of `room`. -/
structure SameOrders (room room' : Room F) : Prop where
  mapHash : room'.mapHash = room.mapHash
  mapSectionData : room'.mapSectionData = room.mapSectionData
  jobQueue : room'.jobQueue = room.jobQueue

section

omit [Scalar F]

theorem SameOrders.refl (room : Room F) : SameOrders room room := ⟨rfl, rfl, rfl⟩

theorem SameOrders.trans {room room' room'' : Room F} (h : SameOrders room room')
    (h' : SameOrders room' room'') : SameOrders room room'' :=
  ⟨h'.mapHash.trans h.mapHash, h'.mapSectionData.trans h.mapSectionData, h'.jobQueue.trans h.jobQueue⟩

theorem Touches.sameOrders {room room' : Room F} (h : Touches room room') : SameOrders room room' :=
  ⟨h.mapHash, h.mapSectionData, h.jobQueue⟩

theorem Adds.sameOrders {room room' : Room F} {object : ObjRef} (h : Adds room object room') :
    SameOrders room room' := ⟨h.mapHash, h.mapSectionData, h.jobQueue⟩

theorem sameOrders_indexObject (room : Room F) (id : Int) : SameOrders room (room.indexObject id).2 := by
  unfold indexObject
  dsimp only
  split <;> exact ⟨rfl, rfl, rfl⟩

theorem sameOrders_removeGameSession (room : Room F) (session : SessionRef) :
    SameOrders room (room.removeGameSession session) := by
  unfold removeGameSession
  dsimp only
  split
  · split <;> exact ⟨rfl, rfl, rfl⟩
  · exact .refl room

end

theorem sameOrders_startGame (env : Env F) (room : Room F) :
    Ensures (room.startGame env) (SameOrders room) :=
  ensures_startGame env (I := fun _ => SameOrders room) (.refl room)
    (fun _ _ _ _ h hadds => h.trans hadds.sameOrders) fun _ _ _ h ht => h.trans ht.sameOrders

theorem sameOrders_removeObjects (room : Room F) : Ensures room.removeObjects (SameOrders room) := by
  refine Ensures.foldlM (SameOrders.refl room) ?_
  intro room' h object _
  cases object with
  | none => exact .error _
  | some object =>
      rw [objectRemove_some]
      exact .ok (h.trans ⟨rfl, rfl, rfl⟩)

theorem Runs.sameOrders {env : Env F} {room room' : Room F} {job : Job F} (h : Runs env room job room') :
    SameOrders room room' := by
  cases h with
  | moves _ _ _ _ => exact ⟨rfl, rfl, rfl⟩
  | attacks _ _ _ => exact ⟨rfl, rfl, rfl⟩
  | removes _ _ _ => exact ⟨rfl, rfl, rfl⟩
  | spawns _ hadds =>
      have h := (sameOrders_indexObject room job.objectId).trans hadds.sameOrders
      exact ⟨h.mapHash, h.mapSectionData, h.jobQueue⟩
  | mines _ => exact sameOrders_indexObject room job.objectId

/-- The queue of a tick is worked off; what is in it afterwards are dead objects. -/
structure WorkedOff (room room' : Room F) : Prop where
  mapHash : room'.mapHash = room.mapHash
  mapSectionData : room'.mapSectionData = room.mapSectionData
  jobs : ∀ job ∈ room'.jobQueue, job.state = .dead

omit [Scalar F] in
theorem WorkedOff.sameOrders {room room' room'' : Room F} (h : WorkedOff room room')
    (h' : SameOrders room' room'') : WorkedOff room room'' :=
  ⟨h'.mapHash.trans h.mapHash, h'.mapSectionData.trans h.mapSectionData,
    fun job hjob => h.jobs job (h'.jobQueue ▸ hjob)⟩

theorem workedOff_updateEntry (env : Env F) {room room' : Room F} (h : WorkedOff room room')
    (entry : Int × Option ObjRef) : Ensures (room'.updateEntry env entry) (WorkedOff room) := by
  intro room2 hroom
  cases updates_updateEntry env room' entry room2 hroom with
  | skips _ => exact h
  | @object object room1 _ _ _ hacts htouches =>
      have hactsOff : WorkedOff room room1 := by
        cases hacts with
        | touches _ ht => exact h.sameOrders ht.sameOrders
        | moves _ _ => exact h.sameOrders ⟨rfl, rfl, rfl⟩
        | dies _ =>
            refine ⟨h.mapHash, h.mapSectionData, ?_⟩
            intro job hjob
            rcases List.mem_append.mp hjob with hjob | hjob
            · exact h.jobs job hjob
            · obtain rfl := List.mem_singleton.mp hjob
              rfl
      have hgrid : WorkedOff room (room1.regrid object) := hactsOff.sameOrders ⟨rfl, rfl, rfl⟩
      exact hgrid.sameOrders htouches.sameOrders

theorem workedOff_processJob (env : Env F) (room : Room F) :
    Ensures (room.processJob env) (WorkedOff room) := by
  refine ensures_processJob env (C := fun _ _ => True) ⟨rfl, rfl, fun _ hjob => absurd hjob List.not_mem_nil⟩
    (Meets.of_forall fun _ _ => trivial) ?_
  exact fun _ _ _ h _ hr => h.sameOrders hr.sameOrders

theorem workedOff_update (env : Env F) (room : Room F) : Ensures (room.update env) (WorkedOff room) := by
  refine ensures_update env ?_ fun _ _ h ht => h.sameOrders ht.sameOrders
  intro room1 h1
  refine Ensures.foldlM (workedOff_processJob env room room1 h1) ?_
  exact fun _ h entry _ => workedOff_updateEntry env h entry

namespace Ordered

variable {behind : Int → Nat} {maps : List UInt8 → Option MapSectionData} {room room' : Room F}

theorem sameOrders (h : room.Ordered behind maps) (hsame : SameOrders room room') :
    room'.Ordered behind maps := by
  obtain ⟨hhash, hmap, hqueue⟩ := hsame
  constructor
  · rw [hhash, hmap]
    exact h.map
  · rw [hhash, hqueue]
    exact h.jobs

theorem workedOff (h : room.Ordered behind maps) (hoff : WorkedOff room room') :
    room'.Ordered behind maps := by
  constructor
  · rw [hoff.mapHash, hoff.mapSectionData]
    exact h.map
  · intro job hjob hmove
    rw [hoff.jobs job hjob] at hmove
    cases hmove

theorem pushJob (h : room.Ordered behind maps) {job : Job F} (hjob : job.state = .move →
    ∀ m, maps room.mapHash = some m → Sendable behind m job.position job.target) :
    (room.pushJob job).Ordered behind maps := by
  refine ⟨h.map, ?_⟩
  intro j hj
  rcases List.mem_append.mp hj with hj | hj
  · exact h.jobs j hj
  · obtain rfl := List.mem_singleton.mp hj
    exact hjob

theorem new (roomId hostId : Int) (gameName gamePassWord mapHash : List UInt8) :
    (Room.new roomId hostId gameName gamePassWord mapHash : Room F).Ordered behind maps :=
  ⟨nofun, fun _ hjob => absurd hjob List.not_mem_nil⟩

/-- The jobs of a tick read inside the table, each at its turn. -/
theorem meets (h : room.Ordered behind maps) (queue : PriorityQueue (Node F) AStarMove.compare)
    (env : Env F) :
    Meets (runJob env) (ReadsInside behind queue) { room with jobQueue := [] } room.jobQueue := by
  refine Meets.of_keeps (I := fun room1 : Room F => room1.mapSectionData = room.mapSectionData) rfl ?_ ?_
  · intro room1 h1 job _ room2 hroom
    exact (runs_runJob env room1 job room2 hroom).sameOrders.mapSectionData.trans h1
  · intro room1 h1 job hjob hstate fuel i hi
    rw [h1] at hi ⊢
    rcases hstate with hidle | hmove
    · unfold GameObject.setMoveReads at hi
      dsimp only at hi
      rw [if_pos (.inl hidle)] at hi
      cases hi
    · cases hm : room.mapSectionData with
      | none =>
          rw [hm] at hi
          unfold GameObject.setMoveReads at hi
          dsimp only at hi
          split at hi <;> cases hi
      | some m =>
          rw [hm] at hi
          exact ⟨m, rfl, (h.jobs job hjob hmove m (h.map m hm)).inside queue fuel job.state i hi⟩

end Ordered

end Room

/-- Only orders to move have to be looked at. -/
theorem RoomLaw.ordered {behind : Int → Nat} {maps : List UInt8 → Option MapSectionData} :
    RoomLaw maps (Room.Ordered (F := F) behind maps) where
  new _ _ _ _ _ := .new ..
  add _ _ _ h := h.sameOrders ⟨rfl, rfl, rfl⟩
  removeGameSession _ s h := h.sameOrders (Room.sameOrders_removeGameSession _ s)
  cleared _ h := h.sameOrders ⟨rfl, rfl, rfl⟩
  removeObjects room h := (Room.sameOrders_removeObjects room).mono fun _ hsame => h.sameOrders hsame
  indexObject room id h := h.sameOrders (Room.sameOrders_indexObject room id)
  pushSpawn _ job hspawn h := h.pushJob fun hmove => by rw [hspawn] at hmove; cases hmove
  broadcast _ _ h := h.sameOrders ⟨rfl, rfl, rfl⟩
  startGame env room h := by
    have hlooked : ({ room with mapSectionData := maps room.mapHash } : Room F).Ordered behind maps :=
      ⟨fun m hm => hm, h.jobs⟩
    exact (Room.sameOrders_startGame env _).mono fun _ hsame => hlooked.sameOrders hsame
  update env room h := (Room.workedOff_update env room).mono fun _ hoff => h.workedOff hoff

/-! ## The server -/

namespace World

/-- Every room is in order, on the maps there were at the start. -/
structure InOrder (behind : Int → Nat) (maps : List UInt8 → Option MapSectionData) (w : World F) :
    Prop where
  hashToMap : w.hashToMap = maps
  room : ∀ r, (w.room r).Ordered behind maps

/-- An object that a client moves may be sent there. -/
def MaySend (behind : Int → Nat) (w : World F) (roomCode : Int32) (objectId : List UInt32)
    (position : Vector3 F) : Prop :=
  ∀ r, w.getRoom roomCode.toInt = some r → ∀ id ∈ objectId, ∀ object,
    (w.room r).Holds (int32 id.toNat) object → ∀ m, w.hashToMap (w.room r).mapHash = some m →
      Sendable behind m ((w.room r).heap object).position ⟨position.x, position.y, Scalar.lit 0⟩

/-- Every object that is moved may be sent where it is sent. -/
def SafeMoves (behind : Int → Nat) (w : World F) (a : Env F × Event F) : Prop :=
  match a.2 with
  | .packet _ (.cMove roomCode objectId position) => w.MaySend behind roomCode objectId position
  | _ => True

namespace InOrder

variable {behind : Int → Nat} {maps : List UInt8 → Option MapSectionData} {w : World F}

theorem init : (World.init maps : World F).InOrder behind maps :=
  ⟨rfl, fun _ => .new ..⟩

/-- The rooms are in order when a law of rooms says so. -/
theorem of_rooms (h : w.Rooms maps (Room.Ordered behind maps)) : w.InOrder behind maps :=
  ⟨h.hashToMap, h.room⟩

theorem rooms (h : w.InOrder behind maps) : w.Rooms maps (Room.Ordered behind maps) :=
  ⟨h.hashToMap, h.room⟩

/-- The loop adds jobs to the queue, and changes nothing that the next turn looks at. -/
theorem handleCMove (h : w.InOrder behind maps) {roomCode : Int32} {objectId : List UInt32}
    {position : Vector3 F} (hsend : w.MaySend behind roomCode objectId position) :
    Ensures (w.handleCMove roomCode objectId position) (InOrder behind maps) := by
  unfold World.handleCMove
  cases hr : w.getRoom roomCode.toInt with
  | none =>
      refine Ensures.foldlM h ?_
      exact fun _ _ _ _ => .error _
  | some r =>
      refine (Ensures.foldlM (I := fun w' => w'.InOrder behind maps
        ∧ (w'.room r).objects = (w.room r).objects ∧ (w'.room r).heap = (w.room r).heap
        ∧ (w'.room r).mapHash = (w.room r).mapHash) ⟨h, rfl, rfl, rfl⟩ ?_).mono fun _ hw => hw.1
      rintro w' ⟨h', hobjects, hheap, hhash⟩ id hid
      unfold moveObject
      dsimp only
      cases hobject : (w'.room r).objects.getD (int32 id.toNat) none with
      | none =>
          have hnone : ((w'.room r).indexObject (int32 id.toNat)).1 = none := hobject
          rw [hnone]
          exact .error _
      | some object =>
          have hholds : (w'.room r).Holds (int32 id.toNat) object := (Table.getD_none_eq_some ..).mp hobject
          rw [Room.indexObject_holds hholds]
          have hpush : ((w'.room r).pushJob (Job.ofObject (int32 id.toNat)
              ((w'.room r).heap object).position ⟨position.x, position.y, Scalar.lit 0⟩ .move)).Ordered
                behind maps := by
            refine (h'.room r).pushJob fun _ m hm => ?_
            change Sendable behind m ((w'.room r).heap object).position _
            rw [hheap]
            unfold Room.Holds at hholds
            rw [hobjects] at hholds
            refine hsend r hr id hid object hholds m ?_
            rw [h.hashToMap, ← hhash]
            exact hm
          refine .ok ⟨of_rooms (h'.rooms.setRoom r hpush), ?_⟩
          rw [room_setRoom, if_pos rfl]
          exact ⟨hobjects, hheap, hhash⟩

theorem next {w' : World F} (h : w.InOrder behind maps) {a : Env F × Event F}
    (hsafe : w.SafeMoves behind a) (hs : w.next a = some w') : w'.InOrder behind maps := by
  refine of_rooms (RoomLaw.ordered.next h.rooms ?_ hs)
  intro s roomCode objectId position ha
  have hsend : w.MaySend behind roomCode objectId position := by
    unfold SafeMoves at hsafe
    rw [ha] at hsafe
    exact hsafe
  exact (h.handleCMove hsend).mono fun _ hw => hw.rooms

end InOrder

/-! ## Main results -/

/--
**Searches stay inside the table** in every run whose moves are safe: whenever the
jobs of a room are run, what they read of the heights of the room's map is there.
-/
theorem searches_inside {behind : Int → Nat} {maps : List UInt8 → Option MapSectionData} {w : World F}
    (h : Reachable ((Transition.ofFun next).guarded (SafeMoves behind)) (World.init maps) w)
    (queue : PriorityQueue (Node F) AStarMove.compare) (env : Env F) (r : RoomRef) :
    Meets (Room.runJob env) (Room.ReadsInside behind queue) { w.room r with jobQueue := [] }
      (w.room r).jobQueue := by
  have hinv : w.InOrder behind maps :=
    h.invariant .init fun _ _ _ h1 hs => h1.next hs.1 hs.2
  exact (hinv.room r).meets queue env

/-- Every object that is moved stands on a map with an entry for every cell. -/
def OnFullMap (w : World F) (a : Env F × Event F) : Bool :=
  match a.2 with
  | .packet _ (.cMove roomCode objectId _) =>
      objectId.all fun id =>
        match w.getRoom roomCode.toInt with
        | none => true
        | some r =>
            match (w.room r).objects.getD (int32 id.toNat) none, w.hashToMap (w.room r).mapHash with
            | some object, some m =>
                let position := ((w.room r).heap object).position
                decide (InBounds m (Scalar.toInt position.x, Scalar.toInt position.y)
                  ∧ m.mapWidth * m.mapHeight ≤ m.height.length)
            | _, _ => true
  | _ => true

/-- From a map with an entry for every cell, objects that stand on it may be sent anywhere. -/
theorem safeMoves_of_onFullMap (behind : Int → Nat) {w : World F} {a : Env F × Event F}
    (h : w.OnFullMap a = true) : w.SafeMoves behind a := by
  obtain ⟨env, e⟩ := a
  unfold SafeMoves
  dsimp only
  split
  · next _ roomCode objectId position =>
    intro r hr id hid object hobject m hm
    have hall := List.all_eq_true.mp h id hid
    have hget : (w.room r).objects.getD (int32 id.toNat) none = some object :=
      (Table.getD_none_eq_some ..).mpr hobject
    simp only [hr, hget, hm] at hall
    obtain ⟨hin, hfull⟩ := of_decide_eq_true hall
    exact .inr (.inr (Roams.of_full hin fun n hn => inside_of_inBounds hfull hn))
  · trivial

/-! ### A small map -/

open MapEditor MapMaker in
/-- The file of a flat map of four by four cells, with all its starting places in one cell. -/
def flatFile (x y : Int16) : List UInt8 :=
  fileOf zeroSha 4 1 ⟨4, 4⟩ (List.replicate 16 ⟨101, 1⟩) [] (List.replicate 4 ⟨x, y⟩)

/-- What the loader makes of the file. -/
def flatMap (x y : Int16) : LoadedMap :=
  MapEditor.mapOf 4 1 ⟨4, 4⟩ (List.replicate 16 ⟨101, 1⟩) [] (List.replicate 4 ⟨x, y⟩)

/-- The server has loaded this file and no other. -/
def onFlatMap (x y : Int16) : World ℚ :=
  World.init (Function.update (fun _ => none) (List.replicate 32 0) (some (flatMap x y).toMapSectionData))

/-- A game of one player, who moves two probes. -/
def twoMoves : List (Env ℚ × Event ℚ) :=
  still [.connect, .packet 0 (.cRoomCreate 1 [] [] (List.replicate 32 0)), .packet 0 (.cStartGame 0),
    .update, .packet 0 (.cMove 0 [0, 3] ⟨3, 3, 0⟩)]

theorem searches_inside_twoMoves :
    ∃ w : World ℚ, (w.room 0).jobQueue.length = 2 ∧ ∀ env r, Meets (Room.runJob env)
      (Room.ReadsInside (fun _ => 0) (.scan _)) { w.room r with jobQueue := [] } (w.room r).jobQueue := by
  have hrun : (twoMoves.foldlM (guardedFun next fun w a => w.OnFullMap a = true) (onFlatMap 1 3)).map
      (fun w => (w.room 0).jobQueue.length) = some 2 := by decide +kernel
  obtain ⟨w, hw, hlen⟩ := Option.map_eq_some_iff.mp hrun
  have hreach : Reachable _ (onFlatMap 1 3) w := Reachable.of_run_guarded hw .refl
  refine ⟨w, hlen, searches_inside (hreach.guarded_mono ?_) (.scan _)⟩
  exact fun _ _ ha => safeMoves_of_onFullMap _ ha

open MapMaker in
/-- On this map the probes begin above the first row, where the steps into the map are looked at from. -/
theorem not_searches_inside :
    ∃ hash map, (setHashToMap (fun _ => []) (flatFile 1 1)).value = .accepted hash map
      ∧ MapSection.size ∈ map.sections ∧ MapSection.mtxm ∈ map.sections
      ∧ ∃ w : World ℚ, Reachable (Transition.ofFun next)
          (World.init (Function.update (fun _ => none) hash (some map.toMapSectionData))) w
        ∧ ¬ Meets (Room.runJob Env.still) (Room.ReadsInside (fun _ => 0) (.scan _))
          { w.room 0 with jobQueue := [] } (w.room 0).jobQueue := by
  have hlen : (flatFile 1 1).length < 2147483648 := by decide +kernel
  have hrun : (twoMoves.foldlM next (onFlatMap 1 1)).map (fun w =>
      (w.room 0).jobQueue.head?.map fun job => (decide (job.state = .move),
        decide (-4 ∈ GameObject.setMoveReads (fun _ => 0) (.scan _) 1 (w.room 0).mapSectionData job.state
          job.position job.target))) = some (some (true, true)) := by decide +kernel
  obtain ⟨w, hw, hobs⟩ := Option.map_eq_some_iff.mp hrun
  have hreach : Reachable _ (onFlatMap 1 1) w := Reachable.of_run hw .refl
  refine ⟨List.replicate 32 0, flatMap 1 1, MapEditor.setHashToMap_fileOf _ _ _ _ _ _ _ _ hlen,
    by decide +kernel,
    by decide +kernel, w, hreach, ?_⟩
  cases hqueue : (w.room 0).jobQueue with
  | nil =>
      rw [hqueue] at hobs
      cases hobs
  | cons job jobs =>
      rw [hqueue] at hobs
      obtain ⟨hmove, hread⟩ := Prod.mk.inj (Option.some.inj hobs)
      intro h
      obtain ⟨_, _, hinside⟩ := h.1 (.inr (of_decide_eq_true hmove)) 1 (-4) (of_decide_eq_true hread)
      exact absurd hinside.1 (by decide)

end World

end StarCraftIocp
