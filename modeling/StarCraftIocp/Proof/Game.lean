import StarCraftIocp.Proof.Replies
import StarCraftIocp.Proof.RoomSteps

/-!
# A game that does not crash

What a room's objects, its jobs and its map have to do with each other for the
tick to get through. Clients can only spawn minerals, gas and probes, none of
which ever dies, so that an object a job was queued for is still there when the
job is run.
-/

namespace StarCraftIocp

open Protocol Outcome

variable {F : Type} [Scalar F]

/-- Neither player nor bullet, and not dead or about to attack. -/
structure GameObject.Calm (o : GameObject F) : Prop where
  state : o.currentState = .idle ∨ o.currentState = .move
  code : o.objectCode ≠ .bullet
  kind : ∀ shooter lifeTick, o.kind ≠ .bullet shooter lifeTick

/-- Spawned by `g_spawners`. -/
def GameObjectCode.Spawns (code : GameObjectCode) : Prop :=
  code = .mineral ∨ code = .gas ∨ code = .probe

instance (code : GameObjectCode) : Decidable code.Spawns := inferInstanceAs (Decidable (_ ∨ _ ∨ _))

namespace Room

/-- A job that can be run: the object is there, or the spawner is. -/
def Runnable (room : Room F) (job : Job F) : Prop :=
  job.state = .move ∧ job.objectId ≠ -1 ∧ room.Live job.objectId
    ∨ job.state = .spawn ∧ job.objectId = -1 ∧ job.objectCode.Spawns

/--
A room the tick gets through, on a server with these maps. The only null entry
is the one that `objects[-1]` leaves behind, and objects are on a map.
-/
structure Sound (maps : List UInt8 → Option MapSectionData) (room : Room F) : Prop where
  idCount : 0 ≤ room.idCount
  entry : ∀ (k : Int) v, room.objects[k]? = some v → (v = none ↔ k = -1)
  calm : ∀ object, (room.heap object).Calm
  jobs : ∀ job ∈ room.jobQueue, room.Runnable job
  map : (∃ k, room.Live k) ∨ room.jobQueue ≠ [] →
    room.mapSectionData ≠ none ∧ room.mapSectionData = maps room.mapHash

end Room

/-! ## Objects -/

namespace GameObject

theorem calm_spawn (env : Env F) (id : Int) (pos : Vector3 F) (spawner : Spawner) (owner : Int) :
    ({ spawner.spawn env id pos with ownerId := owner } : GameObject F).Calm := by
  have hm : GameObjectCode.mineral ≠ .bullet := by decide
  have hg : GameObjectCode.gas ≠ .bullet := by decide
  have hp : GameObjectCode.probe ≠ .bullet := by decide
  cases spawner with
  | mineral => exact ⟨.inl rfl, hm, nofun⟩
  | gas => exact ⟨.inl rfl, hg, nofun⟩
  | protossProbe => exact ⟨.inl rfl, hp, nofun⟩

theorem Calm.yields_setMove {o : GameObject F} (h : o.Calm) (aStar : AStar) {map : Option MapSectionData}
    (hmap : map ≠ none) (position target : Vector3 F) :
    Yields (o.setMove aStar map .move position target) GameObject.Calm := by
  unfold setMove
  dsimp only
  refine Yields.ite (fun _ => .ok ⟨.inl rfl, h.code, h.kind⟩) ?_
  intro _
  cases map with
  | none => exact absurd rfl hmap
  | some map =>
      dsimp only
      split
      · exact .ok ⟨.inl rfl, h.code, h.kind⟩
      · exact .ok ⟨.inr rfl, h.code, h.kind⟩

theorem Calm.yields_baseMove {o : GameObject F} (h : o.Calm) : Yields o.baseMove fun r => r.1.Calm := by
  unfold baseMove
  split
  · exact .ok ⟨.inl rfl, h.code, h.kind⟩
  · dsimp only
    refine Yields.bind (P := fun _ => True)
      ⟨_, ServerMessage.Scalars.frame_ok trivial, trivial⟩ fun packet _ => .ok ?_
    unfold updateBounds
    split <;> exact ⟨h.state, h.code, h.kind⟩

theorem Calm.yields_move {o : GameObject F} (h : o.Calm) : Yields o.move fun r => r.1.Calm := by
  unfold move
  refine Yields.bind h.yields_baseMove ?_
  intro r hr
  obtain ⟨o', sendBuffer⟩ := r
  dsimp only
  split
  · rename_i hk
    exact absurd hk (hr.kind _ _)
  · exact .ok hr

theorem Calm.yields_spawn {o : GameObject F} (h : o.Calm) (now : Int) :
    Yields (o.spawn now) fun r => r.1.Calm := by
  unfold spawn
  dsimp only
  refine Yields.bind (P := fun _ => True)
    ⟨_, ServerMessage.Scalars.frame_ok trivial, trivial⟩ fun packet _ => .ok ?_
  split
  · rename_i hk
    exact absurd hk (h.kind _ _)
  · exact ⟨h.state, h.code, h.kind⟩

end GameObject

/-! ## Rooms -/

namespace Room

variable {maps : List UInt8 → Option MapSectionData}

/-- `room'` comes after `room` in a game: it is sound, on the same map, and no object is gone. -/
structure Advances (maps : List UInt8 → Option MapSectionData) (room room' : Room F) : Prop where
  sound : room'.Sound maps
  mapSectionData : room'.mapSectionData = room.mapSectionData
  mapHash : room'.mapHash = room.mapHash
  live : ∀ k, room.Live k → room'.Live k

section

omit [Scalar F]

theorem Advances.refl {room : Room F} (h : room.Sound maps) : Advances maps room room :=
  ⟨h, rfl, rfl, fun _ hk => hk⟩

theorem Advances.trans {room room' room'' : Room F} (h : Advances maps room room')
    (h' : Advances maps room' room'') : Advances maps room room'' :=
  ⟨h'.sound, h'.mapSectionData.trans h.mapSectionData, h'.mapHash.trans h.mapHash,
    fun k hk => h'.live k (h.live k hk)⟩

theorem Runnable.mono {room room' : Room F} (h : ∀ k, room.Live k → room'.Live k) {job : Job F}
    (hj : room.Runnable job) : room'.Runnable job := by
  rcases hj with ⟨hs, hid, hl⟩ | hj
  · exact .inl ⟨hs, hid, h _ hl⟩
  · exact .inr hj

/-- Changes to a room that leave the table of objects, the queue and the map alone. -/
theorem Sound.advances {room room' : Room F} (h : room.Sound maps) (hid : 0 ≤ room'.idCount)
    (hobjects : room'.objects = room.objects) (hcalm : ∀ object, (room'.heap object).Calm)
    (hjobs : room'.jobQueue = room.jobQueue) (hmap : room'.mapSectionData = room.mapSectionData)
    (hhash : room'.mapHash = room.mapHash) : Advances maps room room' := by
  have hlive : ∀ k, room'.Live k ↔ room.Live k := fun k => by unfold Live; rw [hobjects]
  refine ⟨⟨hid, fun k v hk => h.entry k v (hobjects ▸ hk), hcalm, ?_, ?_⟩,
    hmap, hhash, fun k hk => (hlive k).mpr hk⟩
  · intro job hj
    exact (h.jobs job (hjobs ▸ hj)).mono fun k hk => (hlive k).mpr hk
  · intro hl
    rw [hmap, hhash]
    refine h.map (hl.imp (fun ⟨k, hk⟩ => ⟨k, (hlive k).mp hk⟩) fun hq => hjobs ▸ hq)

theorem Sound.setObject {room : Room F} (h : room.Sound maps) (object : ObjRef) {o : GameObject F}
    (ho : o.Calm) : Advances maps room (room.setObject object o) := by
  refine h.advances h.idCount rfl ?_ rfl rfl rfl
  intro q
  change (Function.update room.heap object o q).Calm
  rw [Function.update_apply]
  by_cases hq : q = object
  · rw [if_pos hq]; exact ho
  · rw [if_neg hq]; exact h.calm q

theorem Sound.broadcast {room : Room F} (h : room.Sound maps) (msg : ServerMessage F) :
    Advances maps room (room.broadcast msg) := h.advances h.idCount rfl h.calm rfl rfl rfl

theorem Sound.ne_neg_one {room : Room F} (h : room.Sound maps) {k : Int} (hk : room.Live k) :
    k ≠ -1 := by
  obtain ⟨object, hobject⟩ := hk
  intro hk
  have := (h.entry k _ hobject).mpr hk
  cases this

/-- `objects[id]` of an object that is there. -/
theorem indexObject_live {room : Room F} {id : Int} (h : room.Live id) :
    ∃ object, room.indexObject id = (some object, room) := by
  obtain ⟨object, hobject⟩ := h
  have hmem : id ∈ room.objects := Table.mem_iff_exists_getElem?.mpr ⟨_, hobject⟩
  refine ⟨object, ?_⟩
  unfold indexObject
  rw [if_pos hmem, (Table.getD_none_eq_some ..).mpr hobject]

/-- `objects[-1]`, of which no object comes. -/
theorem Sound.indexObject_neg_one {room : Room F} (h : room.Sound maps) :
    Advances maps room (room.indexObject (-1)).2 := by
  unfold indexObject
  dsimp only
  split
  · exact .refl h
  · rename_i hmem
    have hget : ∀ k : Int, (room.objects.insert (-1) none)[k]?
        = if k = -1 then some none else room.objects[k]? := fun k => Table.getElem?_insert ..
    have hlive : ∀ k, ({ room with objects := room.objects.insert (-1) none } : Room F).Live k ↔
        room.Live k := by
      intro k
      unfold Live
      dsimp only
      rw [hget]
      by_cases hk : k = -1
      · rw [if_pos hk]
        refine ⟨fun ⟨_, ho⟩ => (by cases ho), fun hl => absurd hk (h.ne_neg_one hl)⟩
      · rw [if_neg hk]
    refine ⟨⟨h.idCount, ?_, h.calm, ?_, ?_⟩, rfl, rfl,
      fun k hk => (hlive k).mpr hk⟩
    · intro k v hk
      change (room.objects.insert (-1) none)[k]? = some v at hk
      rw [hget] at hk
      by_cases hkn : k = -1
      · rw [if_pos hkn] at hk
        exact ⟨fun _ => hkn, fun _ => (Option.some.inj hk).symm⟩
      · rw [if_neg hkn] at hk
        exact h.entry k v hk
    · intro job hj
      exact (h.jobs job hj).mono fun k hk => (hlive k).mpr hk
    · intro hl
      exact h.map (hl.imp (fun ⟨k, hk⟩ => ⟨k, (hlive k).mp hk⟩) id)

theorem Sound.nextId {room : Room F} (h : room.Sound maps) : Advances maps room room.nextId :=
  h.advances (h.idCount.trans (le_skipTaken ..)) rfl h.calm rfl rfl rfl

/-- A new object, on a map. -/
theorem Sound.enter {room : Room F} (h : room.Sound maps)
    (hmap : room.mapSectionData ≠ none ∧ room.mapSectionData = maps room.mapHash)
    {o : GameObject F} (ho : o.Calm) : Advances maps room (room.enter o).2 := by
  have hid := h.idCount
  have hcalm := (h.setObject room.nextRef ho).sound.calm
  have hget : ∀ k : Int, (room.enter o).2.objects[k]?
      = if k = room.idCount then some (some room.nextRef) else room.objects[k]? :=
    fun k => Table.getElem?_insert ..
  have hlive : ∀ k, room.Live k → (room.enter o).2.Live k := by
    rintro k ⟨object, hobject⟩
    unfold Live
    rw [hget]
    by_cases hk : k = room.idCount
    · rw [if_pos hk]; exact ⟨_, rfl⟩
    · rw [if_neg hk]; exact ⟨object, hobject⟩
  refine ⟨⟨hid, ?_, hcalm, ?_, fun _ => hmap⟩, rfl, rfl, hlive⟩
  · intro k v hk
    rw [hget] at hk
    by_cases hkc : k = room.idCount
    · rw [if_pos hkc] at hk
      obtain rfl := Option.some.inj hk
      refine ⟨fun hv => (by cases hv), ?_⟩
      intro hk
      omega
    · rw [if_neg hkc] at hk
      exact h.entry k v hk
  · intro job hj
    exact (h.jobs job hj).mono hlive

end

/-! ## Jobs -/

theorem Spawns.spawner {code : GameObjectCode} (h : code.Spawns) :
    ¬ code.toInt < 0 ∧ ∃ spawner, gSpawners[code.toInt.toNat]? = some (some spawner) := by
  rcases h with rfl | rfl | rfl
  · exact ⟨by decide, .mineral, by decide⟩
  · exact ⟨by decide, .gas, by decide⟩
  · exact ⟨by decide, .protossProbe, by decide⟩

theorem Sound.broadcastSpawn (env : Env F) {room : Room F} (h : room.Sound maps) (object : ObjRef) :
    Yields (room.broadcastSpawn env object) (Advances maps room) := by
  refine Yields.bind ((h.calm object).yields_spawn env.now) fun r hr => .ok ?_
  have hset := h.setObject object hr
  exact hset.trans (hset.sound.broadcast _)

/-- `ObjectAdd` of something that can be spawned, in a room with a map. -/
theorem Sound.objectAdd (env : Env F) {room : Room F} (h : room.Sound maps)
    (hmap : room.mapSectionData ≠ none ∧ room.mapSectionData = maps room.mapHash)
    {code : GameObjectCode} (hcode : code.Spawns) (position direction : Vector3 F)
    (shooter : Option ObjRef) (owner : Int) :
    Yields (room.objectAdd env code position direction shooter owner true)
      fun r => Advances maps room r.2 := by
  obtain ⟨hneg, spawner, hspawner⟩ := Spawns.spawner hcode
  unfold Room.objectAdd
  rw [if_neg hneg, hspawner]
  dsimp only
  have henter := h.enter hmap (GameObject.calm_spawn env room.idCount position spawner owner)
  refine Yields.bind (henter.sound.broadcastSpawn env _) fun room' h' => .ok ?_
  exact henter.trans (h'.trans h'.sound.nextId)

theorem Sound.runJob (env : Env F) {room : Room F} (h : room.Sound maps)
    (hmap : room.mapSectionData ≠ none ∧ room.mapSectionData = maps room.mapHash) {job : Job F}
    (hjob : room.Runnable job) : Yields (room.runJob env job) (Advances maps room) := by
  unfold Room.runJob
  rcases hjob with ⟨hstate, hid, hlive⟩ | ⟨hstate, hid, hcode⟩
  · obtain ⟨object, hobject⟩ := indexObject_live hlive
    rw [hobject, hstate]
    dsimp only
    rw [if_neg hid]
    unfold jobSetMove
    rw [hstate]
    exact Yields.bind ((h.calm object).yields_setMove env.aStar hmap.1 _ _)
      fun o ho => .ok (h.setObject object ho)
  · have hindex := h.indexObject_neg_one
    rw [hid, hstate]
    dsimp only
    have hmap' : (room.indexObject (-1)).2.mapSectionData ≠ none
        ∧ (room.indexObject (-1)).2.mapSectionData = maps (room.indexObject (-1)).2.mapHash := by
      rw [hindex.mapSectionData, hindex.mapHash]
      exact hmap
    refine Yields.bind (hindex.sound.objectAdd env hmap' hcode _ _ _ _) fun r hr => .ok ?_
    refine hindex.trans (hr.trans ?_)
    exact hr.sound.advances hr.sound.idCount rfl hr.sound.calm rfl rfl rfl

/-- `ProcessJob` runs every job of the queue. -/
theorem Sound.processJob (env : Env F) {room : Room F} (h : room.Sound maps) :
    Yields (room.processJob env) (Advances maps room) := by
  by_cases hq : room.jobQueue = []
  · unfold Room.processJob
    rw [hq]
    have heq : ({ room with jobQueue := [] } : Room F) = room := by rw [← hq]
    rw [heq]
    exact .ok (.refl h)
  · have hmap := h.map (.inr hq)
    have hstart : Advances maps room { room with jobQueue := [] } :=
      ⟨⟨h.idCount, h.entry, h.calm, fun job hj => (by cases hj), fun _ => hmap⟩, rfl, rfl,
        fun k hk => hk⟩
    -- the loop may rely on the jobs it started with, since no object goes
    refine Yields.foldlM hstart ?_
    intro room' h' job hj
    have hmap' : room'.mapSectionData ≠ none ∧ room'.mapSectionData = maps room'.mapHash := by
      rw [h'.mapSectionData, h'.mapHash]
      exact hmap
    exact (h'.sound.runJob env hmap' ((h.jobs job hj).mono h'.live)).mono fun _ h'' => h'.trans h''

/-! ## The tick -/

theorem Sound.updateObject (env : Env F) {room : Room F} (h : room.Sound maps) (object : ObjRef) :
    Yields (room.updateObject env object) fun r => Advances maps room r.2 := by
  unfold Room.updateObject
  dsimp only
  rcases (h.calm object).state with hs | hs
  · rw [hs]; exact .ok (.refl h)
  · rw [hs]
    exact Yields.bind (h.calm object).yields_move fun r hr => .ok (h.setObject object hr)

theorem Sound.updateEntry (env : Env F) {room : Room F} (h : room.Sound maps)
    {entry : Int × Option ObjRef} (hentry : entry.2 = none ↔ entry.1 = -1) :
    Yields (room.updateEntry env entry) (Advances maps room) := by
  unfold Room.updateEntry
  refine Yields.ite (fun _ => .ok (.refl h)) ?_
  intro hne
  cases hv : entry.2 with
  | none => exact absurd (hentry.mp hv) hne
  | some object =>
      refine Yields.bind (h.updateObject env object) ?_
      intro r hr
      obtain ⟨sendBuffer, room'⟩ := r
      have hgrid : ∀ grid, Advances maps room { room' with grid := grid } := fun grid =>
        hr.trans (hr.sound.advances hr.sound.idCount rfl hr.sound.calm rfl rfl rfl)
      cases sendBuffer with
      | none => exact .ok (hgrid _)
      | some packet => exact .ok ((hgrid _).trans ((hgrid _).sound.broadcast packet))

/-- No object is a bullet, so that nothing is hit. -/
theorem Sound.handleCollisions {room : Room F} (h : room.Sound maps) :
    Yields room.handleCollisions (Advances maps room) := by
  refine Yields.foldlM (.refl h) ?_
  intro room' h' pair _
  unfold Room.handleCollision
  dsimp only
  rw [if_neg fun hc => (h'.sound.calm pair.1).code hc.1,
    if_neg fun hc => (h'.sound.calm pair.2).code hc.2]
  exact .ok h'

theorem Sound.update (env : Env F) {room : Room F} (h : room.Sound maps) :
    Yields (room.update env) (Advances maps room) := by
  refine Yields.bind (h.processJob env) ?_
  intro room1 h1
  have hobjects : Yields (room1.objects.toList.foldlM (Room.updateEntry env) room1)
      (Advances maps room) := by
    refine Yields.foldlM h1 ?_
    intro room' h' entry hentry
    have hk := h1.sound.entry entry.1 entry.2 (Std.ExtTreeMap.mem_toList_iff_getElem?_eq_some.mp hentry)
    exact (h'.sound.updateEntry env hk).mono fun _ h'' => h'.trans h''
  refine Yields.bind hobjects ?_
  intro room2 h2
  refine Yields.bind h2.sound.handleCollisions fun room3 h3 => .ok ?_
  refine h2.trans (h3.trans ?_)
  exact h3.sound.advances h3.sound.idCount rfl h3.sound.calm rfl rfl rfl

/-! ## The start of a game -/

/-- There is a map, and a place on it for every player. -/
def PlacesAll (env : Env F) (room : Room F) : Prop :=
  ∀ p ∈ room.indexPlayers.ingamePlayerIndex.toList, ∃ map ∈ room.mapSectionData,
    ((env.shuffled[p.2.toNat]?.bind fun v => map.playerPos[v]?).isSome = true)

instance (env : Env F) (room : Room F) : Decidable (room.PlacesAll env) := by
  unfold PlacesAll
  cases room.mapSectionData with
  | none => exact decidable_of_iff (∀ p ∈ room.indexPlayers.ingamePlayerIndex.toList, False) (by simp)
  | some map =>
      exact decidable_of_iff (∀ p ∈ room.indexPlayers.ingamePlayerIndex.toList,
        ((env.shuffled[p.2.toNat]?.bind fun v => map.playerPos[v]?).isSome = true)) (by simp)

theorem Sound.placePlayer (env : Env F) {room : Room F} (h : room.Sound maps)
    {map : MapSectionData} (hmap : room.mapSectionData = some map)
    (hmaps : room.mapSectionData = maps room.mapHash) {p : SessionRef × Int}
    (hp : (env.shuffled[p.2.toNat]?.bind fun v => map.playerPos[v]?).isSome = true) :
    Yields (room.placePlayer env p) (Advances maps room) := by
  obtain ⟨spos, hspos⟩ := Option.isSome_iff_exists.mp hp
  unfold Room.placePlayer
  rw [hmap]
  dsimp only
  rw [hspos]
  dsimp only
  refine Yields.bind (P := Advances maps room) ?_ ?_
  · refine Yields.foldlM (.refl h) ?_
    intro room' h' i _
    have hmap' : room'.mapSectionData ≠ none ∧ room'.mapSectionData = maps room'.mapHash := by
      rw [h'.mapSectionData, h'.mapHash, hmap]
      exact ⟨nofun, hmap.symm.trans hmaps⟩
    have hprobe : GameObjectCode.probe.Spawns := .inr (.inr rfl)
    exact Yields.bind (h'.sound.objectAdd env hmap' hprobe _ _ _ _)
      fun r hr => .ok (h'.trans hr)
  · intro room' h'
    refine Yields.bind (P := fun _ => True)
      ⟨_, ServerMessage.Scalars.frame_ok trivial, trivial⟩ fun packet _ => .ok ?_
    exact h'.trans (h'.sound.advances h'.sound.idCount rfl h'.sound.calm rfl rfl rfl)

theorem Sound.startGame (env : Env F) {room : Room F} (h : room.Sound maps)
    (hmaps : room.mapSectionData = maps room.mapHash) (hplaces : room.PlacesAll env) :
    Yields (room.startGame env) (Advances maps room) := by
  have hindex : Advances maps room room.indexPlayers :=
    h.advances h.idCount rfl h.calm rfl rfl rfl
  refine Yields.foldlM hindex ?_
  intro room' h' p hp
  obtain ⟨map, hmap, hpos⟩ := hplaces p hp
  have hmap' : room'.mapSectionData = some map := h'.mapSectionData.trans hmap
  have hmaps' : room'.mapSectionData = maps room'.mapHash := by
    rw [h'.mapSectionData, h'.mapHash, hmaps]
  exact (h'.sound.placePlayer env hmap' hmaps' hpos).mono fun _ h'' => h'.trans h''

end Room

end StarCraftIocp
