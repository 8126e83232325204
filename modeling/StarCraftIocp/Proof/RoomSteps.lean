import StarCraftIocp.GameServer.RoomRun
import StarCraftIocp.Lib.Table
import StarCraftIocp.Proof.Encoding

/-!
# What a room does to its objects

Each operation of a room, turned inside out once: which objects it changes, how,
and what it does to the table, the queue and the grid. Everything proved about
the objects of a room is derived from these lemmas.

Most of what objects do to each other changes hit points and states only. Such a
step *touches* the room: no object moves, comes or goes.
-/

namespace StarCraftIocp

open Protocol Outcome

variable {F : Type} [Scalar F]

/-- The two have the same id, the same place and the same way to go. -/
structure GameObject.SameBody (o o' : GameObject F) : Prop where
  id : o'.id = o.id
  position : o'.position = o.position
  path : o'.path = o.path
  speed : o'.speed = o.speed
  width : o'.width = o.width
  height : o'.height = o.height
  bounds : o'.bounds = o.bounds

namespace GameObject.SameBody

omit [Scalar F]

theorem refl (o : GameObject F) : o.SameBody o := ⟨rfl, rfl, rfl, rfl, rfl, rfl, rfl⟩

theorem trans {o o' o'' : GameObject F} (h : o.SameBody o') (h' : o'.SameBody o'') :
    o.SameBody o'' where
  id := h'.id.trans h.id
  position := h'.position.trans h.position
  path := h'.path.trans h.path
  speed := h'.speed.trans h.speed
  width := h'.width.trans h.width
  height := h'.height.trans h.height
  bounds := h'.bounds.trans h.bounds

end GameObject.SameBody

namespace GameObject

/-- What `SetMove` comes to. -/
inductive SetsMove (o : GameObject F) (aStar : AStar) (map : Option MapSectionData)
    (state : GameObjectState) (position target : Vector3 F) : GameObject F → Prop
  | stops : SetsMove o aStar map state position target
      (stop { o with path := [], position := position } position)
  | walks {m : MapSectionData} {path : List (Int × Int)} (hmap : map = some m)
      (hpath : aStar m (Scalar.toInt position.x) (Scalar.toInt position.y) (Scalar.toInt target.x)
        (Scalar.toInt target.y) = some path) :
      SetsMove o aStar map state position target
        { o with position := position, path := path.dropLast, currentState := state }

theorem setsMove_setMove (o : GameObject F) (aStar : AStar) (map : Option MapSectionData)
    (state : GameObjectState) (position target : Vector3 F) :
    Ensures (o.setMove aStar map state position target)
      (SetsMove o aStar map state position target) := by
  unfold setMove
  dsimp only
  refine Ensures.ite (fun _ => .ok .stops) ?_
  intro _
  cases map with
  | none => exact .error _
  | some m =>
      dsimp only
      split
      · exact .ok .stops
      · rename_i hpath
        exact .ok (.walks rfl hpath)

/-- What `move` comes to, apart from where to: an object with no way to go stays in its bounds. -/
structure Moves (o o' : GameObject F) : Prop where
  id : o'.id = o.id
  width : o'.width = o.width
  height : o'.height = o.height
  bounds : o'.bounds = o.bounds ∨ o'.bounds = o'.updateBounds.bounds

theorem moves_move (o : GameObject F) : Ensures o.move fun r => o.Moves r.1 := by
  unfold move
  refine Ensures.bind (P := fun r => o.Moves r.1) ?_ ?_
  · unfold baseMove
    split
    · exact .ok ⟨rfl, rfl, rfl, .inl rfl⟩
    · dsimp only
      refine Ensures.bind (P := fun _ => True) (fun _ _ => trivial) fun packet _ => .ok ?_
      unfold updateBounds
      split <;> exact ⟨rfl, rfl, rfl, .inr rfl⟩
  · intro r hr
    obtain ⟨o', sendBuffer⟩ := r
    dsimp only at hr ⊢
    split
    · refine .ok ?_
      unfold setDead
      split <;> exact ⟨hr.id, hr.width, hr.height, hr.bounds⟩
    · exact .ok hr

end GameObject

namespace Room

omit [Scalar F] in
theorem heap_setObject (room : Room F) (r q : ObjRef) (o : GameObject F) :
    (room.setObject r o).heap q = if q = r then o else room.heap q := Function.update_apply ..

/-! ## Touching -/

/-- `room'` is `room` after something that moves no object, and adds and removes none. -/
structure Touches (room room' : Room F) : Prop where
  body : ∀ r, (room.heap r).SameBody (room'.heap r)
  objects : room'.objects = room.objects
  idList : room'.idList = room.idList
  idCount : room'.idCount = room.idCount
  nextRef : room'.nextRef = room.nextRef
  jobQueue : room'.jobQueue = room.jobQueue
  grid : room'.grid = room.grid
  mapSectionData : room'.mapSectionData = room.mapSectionData
  mapHash : room'.mapHash = room.mapHash

namespace Touches

omit [Scalar F]

theorem refl (room : Room F) : Touches room room :=
  ⟨fun _ => .refl _, rfl, rfl, rfl, rfl, rfl, rfl, rfl, rfl⟩

theorem trans {room room' room'' : Room F} (h : Touches room room') (h' : Touches room' room'') :
    Touches room room'' where
  body r := (h.body r).trans (h'.body r)
  objects := h'.objects.trans h.objects
  idList := h'.idList.trans h.idList
  idCount := h'.idCount.trans h.idCount
  nextRef := h'.nextRef.trans h.nextRef
  jobQueue := h'.jobQueue.trans h.jobQueue
  grid := h'.grid.trans h.grid
  mapSectionData := h'.mapSectionData.trans h.mapSectionData
  mapHash := h'.mapHash.trans h.mapHash

theorem setObject (room : Room F) {r : ObjRef} {o : GameObject F} (h : (room.heap r).SameBody o) :
    Touches room (room.setObject r o) := by
  refine ⟨?_, rfl, rfl, rfl, rfl, rfl, rfl, rfl, rfl⟩
  intro q
  rw [heap_setObject]
  by_cases hq : q = r
  · subst hq
    rw [if_pos rfl]
    exact h
  · rw [if_neg hq]
    exact .refl _

theorem broadcast (room : Room F) (msg : ServerMessage F) : Touches room (room.broadcast msg) :=
  ⟨fun _ => .refl _, rfl, rfl, rfl, rfl, rfl, rfl, rfl, rfl⟩

theorem send (room : Room F) (session : SessionRef) (msg : ServerMessage F) :
    Touches room (room.send session msg) :=
  ⟨fun _ => .refl _, rfl, rfl, rfl, rfl, rfl, rfl, rfl, rfl⟩

end Touches

theorem touches_takeDamage (room : Room F) (object : ObjRef) (damage : F) :
    Ensures (room.takeDamage object damage) (Touches room) := by
  have hset : Touches room
      (room.setObject object { room.heap object with hp := (room.heap object).hp - damage }) :=
    .setObject room ⟨rfl, rfl, rfl, rfl, rfl, rfl, rfl⟩
  refine Ensures.bind (P := fun _ => True) (fun _ _ => trivial) fun packet _ => .ok ?_
  exact hset.trans (.broadcast _ packet)

theorem touches_attack (room : Room F) (object : ObjRef) :
    Ensures (room.attack object) (Touches room) := by
  unfold attack
  dsimp only
  split
  · refine Ensures.ite (fun _ => .ok (.refl room)) ?_
    intro _
    split
    · exact .error _
    · refine Ensures.ite (fun _ => .ok (.refl room)) ?_
      intro _
      refine Ensures.ite ?_ fun _ => .ok (.refl room)
      intro _
      refine (touches_takeDamage _ _ _).mono fun room' h => Touches.trans ?_ h
      exact .setObject room ⟨rfl, rfl, rfl, rfl, rfl, rfl, rfl⟩
  · exact .ok (.refl room)

theorem touches_hit (room : Room F) (bullet player : ObjRef) :
    Ensures (room.hit bullet player) (Touches room) := by
  unfold hit
  refine Ensures.ite (fun _ => .ok (.refl room)) ?_
  intro _
  refine Ensures.bind (touches_takeDamage room player _) fun room' h => .ok ?_
  exact h.trans (.setObject room' ⟨rfl, rfl, rfl, rfl, rfl, rfl, rfl⟩)

theorem touches_handleCollisions (room : Room F) :
    Ensures room.handleCollisions (Touches room) := by
  refine Ensures.foldlM (Touches.refl room) ?_
  intro room' h pair _
  refine Ensures.mono (P := Touches room') ?_ fun _ h' => h.trans h'
  unfold handleCollision
  refine Ensures.ite (fun _ => touches_hit room' _ _) ?_
  intro _
  exact Ensures.ite (fun _ => touches_hit room' _ _) fun _ => .ok (.refl room')

theorem touches_broadcastSpawn (env : Env F) (room : Room F) (object : ObjRef) :
    Ensures (room.broadcastSpawn env object) (Touches room) := by
  unfold broadcastSpawn
  refine Ensures.bind (P := fun r : GameObject F × ServerMessage F => (room.heap object).SameBody r.1) ?_ ?_
  · unfold GameObject.spawn
    dsimp only
    refine Ensures.bind (P := fun _ => True) (fun _ _ => trivial) fun packet _ => .ok ?_
    split <;> exact ⟨rfl, rfl, rfl, rfl, rfl, rfl, rfl⟩
  · intro r hr
    exact .ok ((Touches.setObject room hr).trans (.broadcast _ r.2))

/-! ## Objects that come and go -/

/-- The object with the given id is `object`. -/
def Holds (room : Room F) (id : Int) (object : ObjRef) : Prop := room.objects[id]? = some (some object)

/-- There is an object with this id. -/
def Live (room : Room F) (id : Int) : Prop := ∃ object, room.objects[id]? = some (some object)

instance (room : Room F) (id : Int) : Decidable (room.Live id) :=
  decidable_of_iff ((room.objects.getD id none).isSome = true) (by
    rw [Option.isSome_iff_exists]
    exact exists_congr fun _ => Table.getD_none_eq_some ..)

section

omit [Scalar F]

theorem le_skipTaken (idList : Std.ExtTreeSet Int) (fuel : Nat) (idCount : Int) :
    idCount ≤ skipTaken idList fuel idCount := by
  induction fuel generalizing idCount with
  | zero => exact Int.le_refl _
  | succ fuel ih =>
      unfold skipTaken
      split
      · have := ih (idCount + 1)
        omega
      · exact Int.le_refl _

/-- As long as the search for a free id ends on a taken one, it has seen only taken ones. -/
theorem mem_of_skipTaken (idList : Std.ExtTreeSet Int) (fuel : Nat) (idCount : Int)
    (h : skipTaken idList fuel idCount ∈ idList) : ∀ i ≤ fuel, idCount + (i : Int) ∈ idList := by
  induction fuel generalizing idCount with
  | zero =>
      intro i hi
      obtain rfl := Nat.le_zero.mp hi
      simpa [skipTaken] using h
  | succ fuel ih =>
      unfold skipTaken at h
      split at h
      · rename_i hmem
        intro i hi
        cases i with
        | zero => simpa using hmem
        | succ i =>
            have := ih (idCount + 1) h i (by omega)
            rw [show idCount + ((i + 1 : Nat) : Int) = idCount + 1 + (i : Int) by omega]
            exact this
      · rename_i hmem
        exact absurd h hmem

/-- The loop over taken ids stops at a free one: there are only as many taken ones as it may try. -/
theorem nextId_free (room : Room F) : room.nextId.idCount ∉ room.idList := by
  intro hmem
  have hall := mem_of_skipTaken room.idList room.idList.size room.idCount hmem
  have hnodup : ((List.range (room.idList.size + 1)).map fun i : Nat => room.idCount + (i : Int)).Nodup :=
    List.Nodup.map (fun i j hij => by simpa using hij) List.nodup_range
  have hsub : ((List.range (room.idList.size + 1)).map fun i : Nat => room.idCount + (i : Int))
      ⊆ room.idList.toList := by
    intro k hk
    obtain ⟨i, hi, rfl⟩ := List.mem_map.mp hk
    exact Std.ExtTreeSet.mem_toList.mpr (hall i (by have := List.mem_range.mp hi; omega))
  have hle := (hnodup.subperm hsub).length_le
  rw [List.length_map, List.length_range, Std.ExtTreeSet.length_toList] at hle
  omega

/-- A taken id whose successor is free: the search takes one step. -/
theorem skipTaken_succ {idList : Std.ExtTreeSet Int} {idCount : Int} (h : idCount ∈ idList)
    (hfree : idCount + 1 ∉ idList) : skipTaken idList idList.size idCount = idCount + 1 := by
  cases hsize : idList.size with
  | zero =>
      have := Table.set_size_pos h
      omega
  | succ fuel =>
      unfold skipTaken
      rw [if_pos h]
      cases fuel with
      | zero => rfl
      | succ fuel =>
          unfold skipTaken
          rw [if_neg hfree]

/-- `room'` is `room` with a new object in it, which the grid does not know yet. -/
structure Adds (room : Room F) (object : ObjRef) (room' : Room F) : Prop where
  ref : object = room.nextRef
  nextRef : room'.nextRef = room.nextRef + 1
  objects : room'.objects = room.objects.insert room.idCount (some object)
  idList : room'.idList = room.idList.insert room.idCount
  idCount : room.idCount < room'.idCount
  idCount_succ : room.idCount + 1 ∉ room.idList → room'.idCount = room.idCount + 1
  fresh : room'.idCount ∉ room'.idList
  id : (room'.heap object).id = room.idCount
  body : ∀ r, r ≠ object → (room.heap r).SameBody (room'.heap r)
  jobQueue : room'.jobQueue = room.jobQueue
  grid : room'.grid = room.grid
  mapSectionData : room'.mapSectionData = room.mapSectionData
  mapHash : room'.mapHash = room.mapHash

/-- What is in the table after an object has come is that object or was there before. -/
theorem Adds.of_holds {room room' : Room F} {object q : ObjRef} (h : Adds room object room') {id : Int}
    (hq : room'.Holds id q) : id = room.idCount ∧ q = object ∨ room.Holds id q := by
  unfold Holds at hq
  rw [h.objects, Table.getElem?_insert] at hq
  split at hq
  · rename_i hid
    exact .inl ⟨hid, (Option.some.inj (Option.some.inj hq)).symm⟩
  · exact .inr hq

/-- An object is entered under `idCount`, something touches the room, and `idCount` goes on. -/
theorem adds_enter {room room1 : Room F} {o : GameObject F} (hid : o.id = room.idCount)
    (h : Touches (room.enter o).2 room1) : room.Adds room.nextRef room1.nextId where
  ref := rfl
  nextRef := h.nextRef
  objects := h.objects
  idList := h.idList
  idCount := by
    have hfree := nextId_free room1
    have hle : room.idCount ≤ room1.nextId.idCount := h.idCount ▸ le_skipTaken ..
    have hne : room1.nextId.idCount ≠ room.idCount := by
      intro heq
      rw [heq, h.idList] at hfree
      exact hfree (Table.set_mem_insert.mpr (.inl rfl))
    omega
  idCount_succ := by
    intro hfree
    change skipTaken room1.idList room1.idList.size room1.idCount = _
    rw [h.idList, h.idCount]
    refine skipTaken_succ (Table.set_mem_insert.mpr (.inl rfl)) ?_
    intro hmem
    rcases Table.set_mem_insert.mp hmem with heq | hmem
    · have : room.idCount + 1 = room.idCount := heq
      omega
    · exact hfree hmem
  fresh := nextId_free room1
  id := by
    refine (h.body room.nextRef).id.trans ?_
    change ((room.setObject room.nextRef o).heap room.nextRef).id = _
    rw [heap_setObject, if_pos rfl, hid]
  body := by
    intro r hr
    have hold : (room.enter o).2.heap r = room.heap r := (heap_setObject ..).trans (if_neg hr)
    exact hold ▸ h.body r
  jobQueue := h.jobQueue
  grid := h.grid
  mapSectionData := h.mapSectionData
  mapHash := h.mapHash

end

theorem adds_objectAdd (env : Env F) (room : Room F) (objectCode : GameObjectCode)
    (position direction : Vector3 F) (shooter : Option ObjRef) (owner : Int) (broad : Bool) :
    Ensures (room.objectAdd env objectCode position direction shooter owner broad)
      fun r => room.Adds r.1 r.2 := by
  unfold objectAdd
  refine Ensures.ite (fun _ => .error _) ?_
  intro _
  split
  · exact .error _
  · exact .error _
  · rename_i spawner _
    let o : GameObject F := { spawner.spawn env room.idCount position with ownerId := owner }
    have hid : o.id = room.idCount := by
      change (spawner.spawn env room.idCount position).id = room.idCount
      cases spawner <;> rfl
    refine Ensures.bind (P := Touches (room.enter o).2) ?_ fun room1 h => .ok (adds_enter hid h)
    exact Ensures.ite (fun _ => touches_broadcastSpawn env (room.enter o).2 _) fun _ => .ok (.refl _)

theorem adds_addPlayer (room : Room F) :
    ∃ room', room.Adds room.addPlayer.1 room' ∧ room.addPlayer.2 = room'.gridAdd room.addPlayer.1 :=
  ⟨_, adds_enter rfl (.refl _), rfl⟩

/-- The room without the object, once `ObjectRemove` is through with it. -/
def removed (room : Room F) (object : ObjRef) : Room F :=
  { room with
    idList := room.idList.erase (room.heap object).id
    objects := room.objects.erase (room.heap object).id
    grid := room.grid.removeObject (room.heap object).id (room.heap object).bounds }

theorem objectRemove_some (room : Room F) (object : ObjRef) :
    room.objectRemove (some object) = .ok (room.removed object) := rfl

/-! ## Jobs -/

omit [Scalar F] in
theorem indexObject_holds {room : Room F} {id : Int} {object : ObjRef} (h : room.Holds id object) :
    room.indexObject id = (some object, room) := by
  have hmem : id ∈ room.objects := Table.mem_iff_exists_getElem?.mpr ⟨_, h⟩
  unfold indexObject
  rw [if_pos hmem, (Table.getD_none_eq_some ..).mpr h]

section

omit [Scalar F]

theorem heap_indexObject (room : Room F) (id : Int) : (room.indexObject id).2.heap = room.heap := by
  unfold indexObject
  dsimp only
  split <;> rfl

theorem nextRef_indexObject (room : Room F) (id : Int) : (room.indexObject id).2.nextRef = room.nextRef := by
  unfold indexObject
  dsimp only
  split <;> rfl

theorem idCount_indexObject (room : Room F) (id : Int) : (room.indexObject id).2.idCount = room.idCount := by
  unfold indexObject
  dsimp only
  split <;> rfl

/-- A lookup makes null entries only. -/
theorem of_holds_indexObject {room : Room F} {id k : Int} {object : ObjRef}
    (h : (room.indexObject id).2.Holds k object) : room.Holds k object := by
  unfold indexObject at h
  dsimp only at h
  split at h
  · exact h
  · unfold Holds at h ⊢
    rw [Table.getElem?_insert] at h
    split at h
    · cases h
    · exact h

end

/-- A job that spawns adds an object, whatever object it names, and enters it in the grid. -/
theorem runJob_spawn {env : Env F} {room room' : Room F} {job : Job F} (hstate : job.state = .spawn)
    (hok : room.runJob env job = .ok room') :
    ∃ r, (room.indexObject job.objectId).2.objectAdd env job.objectCode
      job.position job.direction job.shooter (-1) true = .ok r ∧ r.2.gridAdd r.1 = room' := by
  unfold runJob at hok
  simp only [hstate] at hok
  obtain ⟨r, hr, hroom⟩ := bind_eq_ok.mp hok
  exact ⟨r, hr, Except.ok.inj hroom⟩

/-- What running a job comes to. -/
inductive Runs (env : Env F) (room : Room F) (job : Job F) : Room F → Prop
  | moves {object : ObjRef} {o : GameObject F} (hid : job.objectId ≠ -1)
      (hobject : room.Holds job.objectId object) (hstate : job.state = .idle ∨ job.state = .move)
      (h : (room.heap object).setMove env.aStar room.mapSectionData job.state job.position job.target
        = .ok o) : Runs env room job (room.setObject object o)
  | attacks {object : ObjRef} (hid : job.objectId ≠ -1) (hobject : room.Holds job.objectId object)
      (hstate : job.state = .attack) :
      Runs env room job (room.setObject object (room.heap object).setAttack)
  | removes {object : ObjRef} (hid : job.objectId ≠ -1) (hobject : room.Holds job.objectId object)
      (hstate : job.state = .dead) : Runs env room job ((room.gridRemove object).removed object)
  | spawns {object : ObjRef} {room' : Room F} (hstate : job.state = .spawn)
      (h : (room.indexObject job.objectId).2.Adds object room') : Runs env room job (room'.gridAdd object)
  | mines (hstate : job.state = .mining) : Runs env room job (room.indexObject job.objectId).2

theorem runs_jobSetMove (env : Env F) {room : Room F} {job : Job F} {object : ObjRef}
    (hid : job.objectId ≠ -1) (hobject : room.Holds job.objectId object)
    (hstate : job.state = .idle ∨ job.state = .move) :
    Ensures (room.jobSetMove env job (some object)) (Runs env room job) := by
  intro room' h
  obtain ⟨o, ho, hroom⟩ := bind_eq_ok.mp h
  obtain rfl := Except.ok.inj hroom
  exact .moves hid hobject hstate ho

theorem runs_runJob (env : Env F) (room : Room F) (job : Job F) :
    Ensures (room.runJob env job) (Runs env room job) := by
  -- an object that is found was in the table, which the lookup then leaves alone
  have hfound : ∀ object, (if job.objectId = -1 then none else (room.indexObject job.objectId).1)
      = some object → job.objectId ≠ -1 ∧ room.Holds job.objectId object := by
    intro object ho
    split at ho
    · cases ho
    · rename_i hid
      exact ⟨hid, (Table.getD_none_eq_some ..).mp ho⟩
  unfold runJob
  dsimp only
  generalize hobj : (if job.objectId = -1 then none else (room.indexObject job.objectId).1) = object
    at hfound
  cases hstate : job.state with
  | spawn =>
      exact Ensures.bind (adds_objectAdd env _ _ _ _ _ _ _) fun r h => .ok (.spawns hstate h)
  | mining => exact .ok (.mines hstate)
  | idle =>
      cases object with
      | none => exact .error _
      | some object =>
          obtain ⟨hid, hholds⟩ := hfound object rfl
          rw [indexObject_holds hholds]
          exact runs_jobSetMove env hid hholds (.inl hstate)
  | move =>
      cases object with
      | none => exact .error _
      | some object =>
          obtain ⟨hid, hholds⟩ := hfound object rfl
          rw [indexObject_holds hholds]
          exact runs_jobSetMove env hid hholds (.inr hstate)
  | attack =>
      cases object with
      | none => exact .error _
      | some object =>
          obtain ⟨hid, hholds⟩ := hfound object rfl
          rw [indexObject_holds hholds]
          exact .ok (.attacks hid hholds hstate)
  | dead =>
      cases object with
      | none => exact .error _
      | some object =>
          obtain ⟨hid, hholds⟩ := hfound object rfl
          rw [indexObject_holds hholds]
          exact .ok (.removes hid hholds hstate)

/-- The queue keeps what each of its jobs keeps that meets a condition at its turn. -/
theorem ensures_processJob (env : Env F) {I : Room F → Prop} {C : Room F → Job F → Prop} {room : Room F}
    (h : I { room with jobQueue := [] })
    (hC : Meets (runJob env) C { room with jobQueue := [] } room.jobQueue)
    (hrun : ∀ room1 job room2, I room1 → C room1 job → Runs env room1 job room2 → I room2) :
    Ensures (room.processJob env) I :=
  Ensures.foldlM_meets h hC fun room1 h1 job _ hjob =>
    (runs_runJob env room1 job).mono fun room2 hr => hrun room1 job room2 h1 hjob hr

/-! ## The tick -/

/-- `grid->MoveObject(object, object->bounds)`. -/
def regrid (room : Room F) (object : ObjRef) : Room F :=
  let o := room.heap object
  { room with grid := room.grid.moveObject object o.id o.bounds o.bounds }

/-- What `GameObject::Update` comes to for an object of the room. -/
inductive Acts (room : Room F) (object : ObjRef) : Room F → Prop
  | touches {room' : Room F} (hstate : (room.heap object).currentState ≠ .move) (h : Touches room room') :
      Acts room object room'
  | moves {o : GameObject F} {packet : Option (ServerMessage F)}
      (hstate : (room.heap object).currentState = .move)
      (h : (room.heap object).move = .ok (o, packet)) : Acts room object (room.setObject object o)
  | dies (hstate : (room.heap object).currentState = .dead) : Acts room object
      (room.pushJob (Job.ofObject (room.heap object).id Vector3.zero Vector3.zero .dead))

theorem acts_updateObject (env : Env F) (room : Room F) (object : ObjRef) :
    Ensures (room.updateObject env object) fun r => room.Acts object r.2 := by
  unfold updateObject
  dsimp only
  cases hstate : (room.heap object).currentState with
  | move =>
      refine Ensures.bind (P := fun r => (room.heap object).move = .ok r) (fun r hr => hr) ?_
      intro r hr
      exact .ok (.moves hstate hr)
  | attack =>
      refine Ensures.bind (touches_attack room object) fun room' h => .ok (.touches ?_ h)
      rw [hstate]
      simp
  | dead => exact Ensures.bind (P := fun _ => True) (fun _ _ => trivial) fun _ _ => .ok (.dies hstate)
  | spawn =>
      refine Ensures.bind (P := fun r : GameObject F × ServerMessage F =>
        (room.heap object).SameBody r.1) ?_ ?_
      · unfold GameObject.spawn
        dsimp only
        refine Ensures.bind (P := fun _ => True) (fun _ _ => trivial) fun packet _ => .ok ?_
        split <;> exact ⟨rfl, rfl, rfl, rfl, rfl, rfl, rfl⟩
      · intro r hr
        refine .ok (.touches ?_ (.setObject room hr))
        rw [hstate]
        simp
  | idle => exact .ok (.touches (by rw [hstate]; simp) (.refl room))
  | mining => exact .ok (.touches (by rw [hstate]; simp) (.refl room))

theorem Acts.objects {room room' : Room F} {object : ObjRef} (h : Acts room object room') :
    room'.objects = room.objects ∧ ∀ r, (room'.heap r).id = (room.heap r).id := by
  cases h with
  | touches _ ht => exact ⟨ht.objects, fun r => (ht.body r).id⟩
  | moves _ ho =>
      refine ⟨rfl, fun r => ?_⟩
      rw [heap_setObject]
      by_cases hr : r = object
      · rw [if_pos hr, (GameObject.moves_move _ _ ho).id, hr]
      · rw [if_neg hr]
  | dies _ => exact ⟨rfl, fun _ => rfl⟩

/-- What a pass through the loop over the objects comes to. -/
inductive Updates (room : Room F) (entry : Int × Option ObjRef) : Room F → Prop
  | skips (hid : entry.1 = -1) : Updates room entry room
  | object {object : ObjRef} {room1 room' : Room F} (hid : entry.1 ≠ -1) (hobject : entry.2 = some object)
      (hacts : room.Acts object room1) (h : Touches (room1.regrid object) room') :
      Updates room entry room'

/-- Acting makes no objects and removes none. -/
theorem Updates.objects {room room' : Room F} {entry : Int × Option ObjRef} (h : Updates room entry room') :
    room'.objects = room.objects ∧ room'.nextRef = room.nextRef := by
  cases h with
  | skips _ => exact ⟨rfl, rfl⟩
  | object _ _ hacts ht =>
      refine ⟨ht.objects.trans hacts.objects.1, ht.nextRef.trans ?_⟩
      cases hacts with
      | touches _ ht => exact ht.nextRef
      | moves _ _ => rfl
      | dies _ => rfl

theorem updates_updateEntry (env : Env F) (room : Room F) (entry : Int × Option ObjRef) :
    Ensures (room.updateEntry env entry) (Updates room entry) := by
  unfold updateEntry
  refine Ensures.ite (fun hid => .ok (.skips hid)) ?_
  intro hid
  cases hobject : entry.2 with
  | none => exact .error _
  | some object =>
      refine Ensures.bind (acts_updateObject env room object) ?_
      intro r hacts
      obtain ⟨sendBuffer, room1⟩ := r
      cases sendBuffer with
      | none => exact .ok (.object hid hobject hacts (.refl _))
      | some packet => exact .ok (.object hid hobject hacts (.broadcast _ packet))

/-- The last part of a tick keeps what touching keeps. -/
theorem ensures_update (env : Env F) {room : Room F} {I : Room F → Prop}
    (hentries : ∀ room1, room.processJob env = .ok room1 →
      Ensures (room1.objects.toList.foldlM (updateEntry env) room1) I)
    (htouches : ∀ room2 room3, I room2 → Touches room2 room3 → I room3) :
    Ensures (room.update env) I := by
  intro room' hroom
  obtain ⟨room1, h1, hroom⟩ := bind_eq_ok.mp hroom
  obtain ⟨room2, h2, hroom⟩ := bind_eq_ok.mp hroom
  obtain ⟨room3, h3, hroom⟩ := bind_eq_ok.mp hroom
  obtain rfl := Except.ok.inj hroom
  have h := htouches room2 room3 (hentries room1 h1 room2 h2) (touches_handleCollisions room2 room3 h3)
  exact htouches room3 _ h ⟨fun _ => .refl _, rfl, rfl, rfl, rfl, rfl, rfl, rfl, rfl⟩

/-- The start of a game adds four objects for every player, and tells everybody where to start. -/
theorem ensures_startGame_of (env : Env F) {room : Room F} {I : Nat → Room F → Prop}
    (h : I 0 room.indexPlayers)
    (hadd : ∀ n room1 position owner, I n room1 → Ensures
      (room1.objectAdd env .probe position Vector3.zero none owner true) fun r => I (n + 1) r.2)
    (hsend : ∀ n room1 session position player, I n room1 →
      I n (room1.send session (.sGameStart position player))) :
    Ensures (room.startGame env) (I (4 * room.indexPlayers.ingamePlayerIndex.toList.length)) := by
  refine Ensures.foldlM_length (I := fun n => I (4 * n)) h ?_
  intro n room1 h1 p _
  unfold placePlayer
  split
  · exact .error _
  · split
    · exact .error _
    · refine Ensures.bind (P := I (4 * n + 4)) ?_ ?_
      · refine Ensures.foldlM_length (I := fun k => I (4 * n + k)) h1 ?_
        intro k room2 h2 i _
        exact Ensures.bind (hadd (4 * n + k) room2 _ _ h2) fun r hr => .ok hr
      · intro room2 h2
        refine Ensures.bind (P := fun packet => ∃ position player,
          packet = ServerMessage.sGameStart position player)
          ?_ ?_
        · intro packet hpacket
          obtain ⟨_, _, hok⟩ := bind_eq_ok.mp hpacket
          exact ⟨_, _, (Except.ok.inj hok).symm⟩
        · rintro packet ⟨position, player, rfl⟩
          exact .ok (hsend (4 * n + 4) room2 _ _ _ h2)

/-- The start of a game adds four objects for every player, and does no more than touch others. -/
theorem ensures_startGame (env : Env F) {room : Room F} {I : Nat → Room F → Prop} (h : I 0 room)
    (hadds : ∀ n room1 object room2, I n room1 → Adds room1 object room2 → I (n + 1) room2)
    (htouches : ∀ n room1 room2, I n room1 → Touches room1 room2 → I n room2) :
    Ensures (room.startGame env) (I (4 * room.indexPlayers.ingamePlayerIndex.toList.length)) := by
  refine ensures_startGame_of env ?_ ?_ ?_
  · exact htouches 0 room _ h ⟨fun _ => .refl _, rfl, rfl, rfl, rfl, rfl, rfl, rfl, rfl⟩
  · intro n room1 position owner h1
    exact (adds_objectAdd env room1 _ _ _ _ _ _).mono fun r hr => hadds n room1 r.1 r.2 h1 hr
  · intro n room1 session position player h1
    exact htouches n room1 _ h1 (.send ..)

/-! ## Steps -/

theorem next_eq_some {room room' : Room F} {a : Env F × RoomEvent F} (h : room.next a = some room') :
    room.Enabled a.2 ∧ room.exec a.1 a.2 = .ok room' := by
  obtain ⟨henabled, hexec⟩ := Option.ite_none_right_eq_some.mp h
  exact ⟨henabled, toOption_eq_some.mp hexec⟩

theorem adds_exec {env : Env F} {room room' : Room F} {objectCode : GameObjectCode}
    {position direction : Vector3 F} {shooter : Option ObjRef} {owner : Int} {broad : Bool}
    (h : room.exec env (.objectAdd objectCode position direction shooter owner broad) = .ok room') :
    ∃ object, Adds room object room' := by
  have hadds := adds_objectAdd env room objectCode position direction shooter owner broad
  have hexec : Ensures (room.exec env (.objectAdd objectCode position direction shooter owner broad))
      fun room1 => ∃ object, Adds room object room1 := Ensures.map (hadds.mono fun r hr => ⟨r.1, hr⟩)
  exact hexec room' h

end Room

end StarCraftIocp
