import StarCraftIocp.Client.Replica
import StarCraftIocp.Proof.ObjectTable

/-!
# What a room tells its members

A room of objects that spawners have made announces each of them once, when it is added,
and sends nothing else that would change a client's units: it does no damage, and the
code that `dead` sends in the place of a state is not that of `Dead`.
-/

namespace StarCraftIocp

open Protocol Outcome Room

variable {F : Type} [Scalar F]

/-! ## Objects and messages -/

/-- As the spawners make objects, whatever happens to them later. -/
structure GameObject.Plain (o : GameObject F) : Prop where
  code : o.objectCode.Spawns
  state : o.currentState ≠ .spawn
  kind : ∀ shooter lifeTick, o.kind ≠ .bullet shooter lifeTick
  target : ∀ u, o.kind = .unit u → u.directTarget = none

/-- The id of an object that a message announces. -/
def Protocol.ServerMessage.announces : ServerMessage F → Option Int
  | .sObjectSpawn data _ => some data.objectId
  | _ => none

/-- A message that adds units at most. -/
def Protocol.ServerMessage.Quiet : ServerMessage F → Prop
  | .sObjectSpawn data _ => GameObjectCode.HasSpawner ⟨data.type⟩
  | .sObjectDead _ state => state ≠ protocolDead
  | .sObjectDamage .. => False
  | _ => True

theorem Protocol.ServerMessage.eq_of_frame {msg msg' : ServerMessage F} (h : msg.frame = .ok msg') :
    msg' = msg := by
  obtain ⟨_, _, hok⟩ := bind_eq_ok.mp h
  exact (Except.ok.inj hok).symm

namespace GameObject

variable {o o' : GameObject F}

omit [Scalar F] in
/-- A change of what `Plain` does not look at. -/
theorem Plain.of_eq (h : o.Plain) (hcode : o'.objectCode = o.objectCode) (hstate : o'.currentState ≠ .spawn)
    (hkind : o'.kind = o.kind) : o'.Plain := by
  refine ⟨?_, hstate, ?_, ?_⟩
  · rw [hcode]
    exact h.code
  · rw [hkind]
    exact h.kind
  · rw [hkind]
    exact h.target

theorem plain_spawn (env : Env F) (id : Int) (pos : Vector3 F) (spawner : Spawner) (owner : Int) :
    ({ spawner.spawn env id pos with ownerId := owner } : GameObject F).Plain := by
  cases spawner with
  | mineral =>
      exact ⟨Or.inl rfl, by simp [Spawner.spawn, mineral, new], by simp [Spawner.spawn, mineral, new],
        by simp [Spawner.spawn, mineral, new]⟩
  | gas =>
      exact ⟨Or.inr (Or.inl rfl), by simp [Spawner.spawn, gas, new], by simp [Spawner.spawn, gas, new],
        by simp [Spawner.spawn, gas, new]⟩
  | protossProbe =>
      refine ⟨Or.inr (Or.inr rfl), by simp [Spawner.spawn, protossProbe, new],
        by simp [Spawner.spawn, protossProbe, new], ?_⟩
      intro u hu
      simp only [Spawner.spawn, protossProbe, new, GameObjectKind.unit.injEq] at hu
      rw [← hu]

omit [Scalar F] in
theorem Plain.hasSpawner (h : o.Plain) : o.objectCode.HasSpawner := by
  rcases h.code with hcode | hcode | hcode <;> rw [hcode] <;> decide

omit [Scalar F] in
theorem Plain.ne_bullet (h : o.Plain) : o.objectCode ≠ .bullet := by
  rcases h.code with hcode | hcode | hcode <;> rw [hcode] <;> decide

omit [Scalar F] in
theorem Plain.ne_dead (h : o.Plain) : o.objectCode.toInt ≠ protocolDead := by
  rcases h.code with hcode | hcode | hcode <;> rw [hcode] <;> decide

theorem Plain.ensures_setMove (h : o.Plain) (aStar : AStar) (map : Option MapSectionData)
    {state : GameObjectState}
    (hstate : state ≠ .spawn) (position target : Vector3 F) :
    Ensures (o.setMove aStar map state position target) Plain := by
  refine (setsMove_setMove o aStar map state position target).mono ?_
  intro o' ho
  cases ho with
  | stops => exact h.of_eq rfl (by simp [stop]) rfl
  | walks _ _ => exact h.of_eq rfl hstate rfl

/-- A step says where the object is now. -/
theorem Plain.ensures_move (h : o.Plain) : Ensures o.move fun r => r.1.Plain ∧
    ∀ msg ∈ r.2, ∃ id state position,
    msg = ServerMessage.sMove id state position := by
  unfold move
  refine Ensures.bind (P := fun r : GameObject F × Option (ServerMessage F) => r.1.Plain ∧
    ∀ msg ∈ r.2, ∃ id state position,
    msg = ServerMessage.sMove id state position) ?_ ?_
  · unfold baseMove
    split
    · exact .ok ⟨h.of_eq rfl (by simp) rfl, by simp⟩
    · dsimp only
      refine Ensures.bind (P := fun packet => ∃ id state position,
        packet = ServerMessage.sMove id state position) ?_ ?_
      · intro packet hpacket
        exact ⟨_, _, _, ServerMessage.eq_of_frame hpacket⟩
      · intro packet hpacket
        refine .ok ⟨?_, ?_⟩
        · unfold updateBounds
          split <;> exact h.of_eq rfl h.state rfl
        · intro msg hmsg
          obtain rfl := Option.some.inj hmsg
          exact hpacket
  · intro r hr
    obtain ⟨o', sendBuffer⟩ := r
    dsimp only
    split
    · next hkind => exact absurd hkind (hr.1.kind _ _)
    · exact .ok hr

end GameObject

/-! ## A room that has told a member what is in it -/

namespace Room

variable {room room' : Room F} {session : SessionRef} {base : List (ServerMessage F)} {log : List Int}
  {object : ObjRef} {o : GameObject F} {msg : ServerMessage F}

/-- Up to now the session has been told of these objects; `base` is what it had heard at some time. -/
structure Told (session : SessionRef) (base : List (ServerMessage F)) (log : List Int)
    (room : Room F) : Prop where
  member : session ∈ room.sessions
  since : base <+: room.heard session
  plain : ∀ r, (room.heap r).Plain
  announced : (room.heard session).filterMap ServerMessage.announces = log
  quiet : ∀ msg ∈ room.heard session, msg.Quiet

/-- The messages that tell of no object. -/
def Plainly (msg : ServerMessage F) : Prop := msg.Quiet ∧ msg.announces = none

omit [Scalar F] in
/-- A member hears a broadcast once. -/
theorem heard_broadcast (hmember : session ∈ room.sessions) (msg : ServerMessage F) :
    (room.broadcast msg).heard session = room.heard session ++ [msg] := by
  have hnodup := Table.set_nodup_toList room.sessions
  have hfilter : room.sessions.toList.filter (fun s => decide (s = session)) = [session] := by
    rw [List.filter_eq, List.count_eq_one_of_mem hnodup (Std.ExtTreeSet.mem_toList.mpr hmember)]
    rfl
  unfold heard broadcast
  rw [List.filter_append, List.map_append, List.filter_map, List.map_map]
  show _ ++ ((room.sessions.toList.filter fun s => decide (s = session)).map fun _ => msg) = _
  rw [hfilter]
  rfl

omit [Scalar F] in
theorem heard_send (room : Room F) (session s : SessionRef) (msg : ServerMessage F) :
    (room.send s msg).heard session = room.heard session ++ if s = session then [msg] else [] := by
  unfold heard send
  by_cases hs : s = session
  · simp [hs]
  · simp [hs]

namespace Told

omit [Scalar F] in
/-- What neither sends nor touches an object. -/
theorem frame (h : Told session base log room) (hsessions : room'.sessions = room.sessions)
    (hheap : room'.heap = room.heap) (hsent : room'.sent = room.sent) : Told session base log room' := by
  have hheard : room'.heard session = room.heard session := by
    unfold heard
    rw [hsent]
  refine ⟨?_, ?_, ?_, ?_, ?_⟩
  · rw [hsessions]
    exact h.member
  · rw [hheard]
    exact h.since
  · rw [hheap]
    exact h.plain
  · rw [hheard]
    exact h.announced
  · rw [hheard]
    exact h.quiet

omit [Scalar F] in
theorem setObject (h : Told session base log room) (object : ObjRef) (ho : o.Plain) :
    Told session base log (room.setObject object o) := by
  refine ⟨h.member, h.since, ?_, h.announced, h.quiet⟩
  intro r
  rw [heap_setObject]
  split
  · exact ho
  · exact h.plain r

omit [Scalar F] in
theorem broadcast (h : Told session base log room) (hmsg : msg.Quiet) :
    Told session base (log ++ msg.announces.toList) (room.broadcast msg) := by
  have hheard := heard_broadcast h.member msg
  refine ⟨h.member, ?_, h.plain, ?_, ?_⟩
  · rw [hheard]
    exact h.since.trans (List.prefix_append _ _)
  · rw [hheard, List.filterMap_append, h.announced]
    cases hid : msg.announces <;> simp [hid]
  · rw [hheard]
    intro m hm
    rcases List.mem_append.mp hm with hm | hm
    · exact h.quiet m hm
    · rw [List.mem_singleton.mp hm]
      exact hmsg

omit [Scalar F] in
theorem broadcast_plainly (h : Told session base log room) (hmsg : Plainly msg) :
    Told session base log (room.broadcast msg) := by
  have htold := h.broadcast hmsg.1
  rw [hmsg.2] at htold
  simpa using htold

omit [Scalar F] in
theorem send_plainly (h : Told session base log room) (s : SessionRef) (hmsg : Plainly msg) :
    Told session base log (room.send s msg) := by
  have hheard := heard_send room session s msg
  refine ⟨h.member, ?_, h.plain, ?_, ?_⟩
  · rw [hheard]
    exact h.since.trans (List.prefix_append _ _)
  · rw [hheard, List.filterMap_append, h.announced]
    split <;> simp [hmsg.2]
  · rw [hheard]
    intro m hm
    rcases List.mem_append.mp hm with hm | hm
    · exact h.quiet m hm
    · split at hm
      · rw [List.mem_singleton.mp hm]
        exact hmsg.1
      · cases hm

/-! ### What the operations tell -/

theorem attack (h : Told session base log room) : Ensures (room.attack object) (Told session base log) := by
  unfold Room.attack
  dsimp only
  split
  · next u hkind =>
      refine Ensures.ite (fun _ => .ok h) ?_
      intro _
      rw [(h.plain object).target u hkind]
      exact .error _
  · exact .ok h

/-- What `Update` returns tells of no object. -/
theorem updateObject (h : Told session base log room) (env : Env F) :
    Ensures (room.updateObject env object) fun r => (∀ msg ∈ r.1, Plainly msg) ∧
    Told session base log r.2 := by
  have hplain := h.plain object
  unfold Room.updateObject
  dsimp only
  split
  · refine Ensures.bind hplain.ensures_move ?_
    intro r hr
    refine .ok ⟨?_, h.setObject object hr.1⟩
    intro msg hmsg
    obtain ⟨id, state, position, rfl⟩ := hr.2 msg hmsg
    exact ⟨trivial, rfl⟩
  · exact Ensures.bind h.attack fun room' hroom => .ok ⟨by simp, hroom⟩
  · refine Ensures.bind (P := fun packet => packet = ServerMessage.sObjectDead _ _)
      (fun packet hpacket => ServerMessage.eq_of_frame hpacket) ?_
    intro packet hpacket
    refine .ok ⟨?_, h.frame rfl rfl rfl⟩
    intro msg hmsg
    obtain rfl := Option.some.inj hmsg
    rw [hpacket]
    exact ⟨hplain.ne_dead, rfl⟩
  · next hstate => exact absurd hstate hplain.state
  · exact .ok ⟨by simp, h⟩
  · exact .ok ⟨by simp, h⟩

theorem updateEntry (h : Told session base log room) (env : Env F) (entry : Int × Option ObjRef) :
    Ensures (room.updateEntry env entry) (Told session base log) := by
  unfold Room.updateEntry
  refine Ensures.ite (fun _ => .ok h) ?_
  intro _
  split
  · exact .error _
  · next object _ =>
    refine Ensures.bind (h.updateObject env) ?_
    intro r hr
    obtain ⟨sendBuffer, room1⟩ := r
    have hgrid : Told session base log (room1.regrid object) := hr.2.frame rfl rfl rfl
    dsimp only
    split
    · next packet => exact .ok (hgrid.broadcast_plainly (hr.1 packet rfl))
    · exact .ok hgrid

/-- Nothing happens to objects that overlap. -/
theorem handleCollisions (h : Told session base log room) :
    Ensures room.handleCollisions (Told session base log) := by
  refine Ensures.foldlM h ?_
  intro room1 h1 pair _
  unfold handleCollision
  refine Ensures.ite (fun hb => absurd hb.1 (h1.plain pair.1).ne_bullet) ?_
  intro _
  exact Ensures.ite (fun hb => absurd hb.2 (h1.plain pair.2).ne_bullet) fun _ => .ok h1

/-- `spawn` announces the object, and leaves it as it is but for the time. -/
theorem broadcastSpawn (h : Told session base log room) (env : Env F) :
    Ensures (room.broadcastSpawn env object)
      (Told session base (log ++ [CInt.uint32 (room.heap object).id])) := by
  have hplain := h.plain object
  refine Ensures.bind (P := fun r : GameObject F × ServerMessage F => r.1.Plain ∧ r.2.Quiet ∧
    r.2.announces = some (CInt.uint32 (room.heap object).id)) ?_ ?_
  · unfold GameObject.spawn
    split
    · next hkind => exact absurd hkind (hplain.kind _ _)
    · refine Ensures.bind (P := fun packet => packet = ServerMessage.sObjectSpawn _ _)
        (fun packet hpacket => ServerMessage.eq_of_frame hpacket) ?_
      intro packet hpacket
      rw [hpacket]
      exact .ok ⟨hplain.of_eq rfl hplain.state rfl, hplain.hasSpawner, rfl⟩
  · intro r hr
    obtain ⟨hr1, hquiet, hid⟩ := hr
    refine .ok ?_
    have htold := (h.setObject object hr1).broadcast hquiet
    rw [hid] at htold
    exact htold

/-- An object is told of when it is added. -/
theorem objectAdd (h : Told session base log room) (env : Env F) (code : GameObjectCode)
    (position direction : Vector3 F)
    (shooter : Option ObjRef) (owner : Int) :
    Ensures (room.objectAdd env code position direction shooter owner true) fun r =>
      Told session base (log ++ [CInt.uint32 room.idCount]) r.2 := by
  unfold Room.objectAdd
  refine Ensures.ite (fun _ => .error _) ?_
  intro _
  split
  · exact .error _
  · exact .error _
  · next spawner _ =>
      let o : GameObject F := { spawner.spawn env room.idCount position with ownerId := owner }
      have hplain : o.Plain := GameObject.plain_spawn env room.idCount position spawner owner
      have henter : Told session base log (room.enter o).2 :=
        (h.setObject room.nextRef hplain).frame rfl rfl rfl
      have hid : ((room.enter o).2.heap room.nextRef).id = room.idCount := by
        show ((room.setObject room.nextRef o).heap room.nextRef).id = _
        rw [heap_setObject, if_pos rfl]
        cases spawner <;> rfl
      refine Ensures.bind (henter.broadcastSpawn env) ?_
      intro room1 h1
      rw [hid] at h1
      exact .ok (h1.frame rfl rfl rfl)

end Told

end Room

/-! ## The table and what was told of it -/

open ObjectTable

variable {room room' : Room F} {session : SessionRef} {base : List (ServerMessage F)} {bound : Int}
  {object : ObjRef}

/-- The session has been told of the objects of the table, and of no others. -/
structure Announced (session : SessionRef) (base : List (ServerMessage F)) (bound : Int)
    (room : Room F) : Prop where
  exact : Exact bound room
  told : ∃ log, room.Told session base log ∧ log.Nodup ∧ ∀ id, id ∈ log ↔ id ∈ room.objects

namespace Announced

omit [Scalar F] in
/-- What leaves the table alone, and tells of no object. -/
theorem keep (h : Announced session base bound room) (hexact : Exact bound room')
    (hobjects : room'.objects = room.objects)
    (htold : ∀ log, room.Told session base log → room'.Told session base log) :
    Announced session base bound room' := by
  obtain ⟨log, hlog, hnodup, hmem⟩ := h.told
  exact ⟨hexact, log, htold log hlog, hnodup, by rw [hobjects]; exact hmem⟩

omit [Scalar F] in
theorem mono (h : Announced session base bound room) {bound' : Int} (hb : room.idCount ≤ bound') :
    Announced session base bound' room := ⟨h.exact.mono hb, h.told⟩

theorem objectAdd (h : Announced session base bound room) (hcount : room.idCount ≤ CInt.intMax) (env : Env F)
    (code : GameObjectCode) (position direction : Vector3 F) (shooter : Option ObjRef) (owner : Int) :
    Ensures (room.objectAdd env code position direction shooter owner true) fun r =>
      Announced session base (bound + 1) r.2 ∧ r.2.idCount = room.idCount + 1 := by
  intro r hr
  have hadds := adds_objectAdd env room code position direction shooter owner true r hr
  obtain ⟨log, hlog, hnodup, hmem⟩ := h.told
  have htold := hlog.objectAdd env code position direction shooter owner r hr
  have hid : CInt.uint32 room.idCount = room.idCount := by
    have hnonneg := h.exact.nonneg
    unfold CInt.intMax at hcount
    unfold CInt.uint32
    omega
  rw [hid] at htold
  refine ⟨⟨h.exact.adds hadds, _, htold, ?_, ?_⟩, h.exact.idCount_adds hadds⟩
  · refine List.nodup_append.mpr ⟨hnodup, List.nodup_singleton _, ?_⟩
    intro a ha b hb
    have hlt := (h.exact.below ((h.exact.keys a).mp ((hmem a).mp ha))).2
    rw [List.mem_singleton.mp hb]
    omega
  · intro id
    rw [hadds.objects, List.mem_append, List.mem_singleton, Std.ExtTreeMap.mem_insert,
      Std.LawfulEqCmp.compare_eq_iff_eq, hmem id]
    tauto

/-- An order moves an object, or makes it attack. -/
theorem runJob (h : Announced session base bound room) (env : Env F) {job : Job F}
    (hjob : job.state = .idle ∨ job.state = .move ∨ job.state = .attack) :
    Ensures (room.runJob env job) (Announced session base bound) := by
  refine (runs_runJob env room job).mono ?_
  intro room' hr
  have hspawn : job.state ≠ .spawn := by
    rcases hjob with heq | heq | heq <;> rw [heq] <;> decide
  cases hr with
  | moves _ _ _ ho =>
      refine h.keep (h.exact.setObject ?_) rfl ?_
      · cases GameObject.setsMove_setMove _ _ _ _ _ _ _ ho with
        | stops => rfl
        | walks _ _ => rfl
      · intro log hlog
        exact hlog.setObject _ ((hlog.plain _).ensures_setMove _ _ hspawn _ _ _ ho)
  | attacks _ _ _ =>
      refine h.keep (h.exact.setObject rfl) rfl ?_
      intro log hlog
      exact hlog.setObject _ ((hlog.plain _).of_eq rfl (by simp [GameObject.setAttack]) rfl)
  | removes _ _ hstate => rcases hjob with heq | heq | heq <;> rw [hstate] at heq <;> cases heq
  | spawns hstate _ => exact absurd hstate hspawn
  | mines hstate => rcases hjob with heq | heq | heq <;> rw [hstate] at heq <;> cases heq

theorem processJob (h : Announced session base bound room) (env : Env F)
    (hjobs : ∀ job ∈ room.jobQueue, job.state = .idle ∨ job.state = .move ∨ job.state = .attack) :
    Ensures (room.processJob env) (Announced session base bound) := by
  refine Ensures.foldlM ?_ fun room1 h1 job hjob => h1.runJob env (hjobs job hjob)
  exact h.keep (h.exact.frame (fun _ => rfl) rfl rfl rfl rfl) rfl fun log hlog => hlog.frame rfl rfl rfl

theorem updateEntry (h : Announced session base bound room) (env : Env F) (entry : Int × Option ObjRef) :
    Ensures (room.updateEntry env entry) (Announced session base bound) := by
  intro room' hroom
  have hu := updates_updateEntry env room entry room' hroom
  refine h.keep (h.exact.updates hu) ?_ fun log hlog => hlog.updateEntry env entry room' hroom
  cases hu with
  | skips _ => rfl
  | object _ _ hacts ht => exact ht.objects.trans hacts.objects.1

theorem update (h : Announced session base bound room) (env : Env F)
    (hjobs : ∀ job ∈ room.jobQueue, job.state = .idle ∨ job.state = .move ∨ job.state = .attack) :
    Ensures (room.update env) (Announced session base bound) := by
  unfold Room.update
  refine Ensures.bind (h.processJob env hjobs) ?_
  intro room1 h1
  refine Ensures.bind (Ensures.foldlM h1 fun room2 h2 entry _ => h2.updateEntry env entry) ?_
  intro room2 h2
  refine Ensures.bind (P := Announced session base bound) ?_ ?_
  · intro room3 hroom
    have ht := touches_handleCollisions room2 room3 hroom
    exact h2.keep (h2.exact.touches ht) ht.objects fun log hlog => hlog.handleCollisions room3 hroom
  · intro room3 h3
    refine .ok (h3.keep (h3.exact.frame (fun _ => rfl) rfl rfl rfl rfl) rfl ?_)
    exact fun log hlog => hlog.frame rfl rfl rfl

theorem startGame (h : Announced session base CInt.intMax room) (env : Env F)
    (hcount : room.idCount + 4 * room.indexPlayers.ingamePlayerIndex.toList.length ≤ CInt.intMax) :
    Ensures (room.startGame env) (Announced session base CInt.intMax) := by
  have hindex : Announced session base CInt.intMax room.indexPlayers :=
    h.keep (h.exact.frame (fun _ => rfl) rfl rfl rfl rfl) rfl fun log hlog => hlog.frame rfl rfl rfl
  -- there is an id for the next object as long as the count of all of them fits
  refine (ensures_startGame_of env (I := fun n room1 => room.idCount + (n : Int) ≤ CInt.intMax →
    Announced session base (room.idCount + (n : Int)) room1) ?_ ?_ ?_).mono ?_
  · intro _
    exact hindex.mono (show room.idCount ≤ _ by omega)
  · intro n room1 position owner h1 r hr hn
    have h1 := h1 (by omega)
    have hfits := h1.exact.fits
    obtain ⟨h2, hnext⟩ := h1.objectAdd (by omega) env _ _ _ _ _ r hr
    exact h2.mono (by omega)
  · intro n room1 s position player h1 hn
    have h1 := h1 hn
    refine h1.keep (h1.exact.touches (.send ..)) rfl ?_
    exact fun log hlog => hlog.send_plainly s ⟨trivial, rfl⟩
  · intro room1 h1
    have h1 := h1 (by push_cast; omega)
    exact h1.mono (by have := h1.exact.fits; push_cast at this; omega)

/-- A step of the room. -/
theorem exec (h : Announced session base CInt.intMax room) {env : Env F} {event : RoomEvent F}
    (hallowed : event.Allowed)
    (hcounts : room.Counts event)
    (hjobs : ∀ job ∈ room.dueJobs event, job.state = .idle ∨ job.state = .move ∨ job.state = .attack) :
    Ensures (room.exec env event) (Announced session base CInt.intMax) := by
  cases event with
  | objectAdd code position direction shooter owner broad =>
      obtain ⟨-, rfl⟩ := hallowed
      have hcount : room.idCount < CInt.intMax := hcounts
      refine Ensures.map ((h.objectAdd (Int.le_of_lt hcount) env code position direction shooter owner).mono ?_)
      intro r hr
      obtain ⟨h1, hnext⟩ := hr
      exact h1.mono (by omega)
  | addPlayer => exact hallowed.elim
  | objectRemove object => exact hallowed.elim
  | setMap map =>
      exact .ok (h.keep (h.exact.frame (fun _ => rfl) rfl rfl rfl rfl) rfl fun log hlog => hlog.frame rfl rfl rfl)
  | pushJob job =>
      exact .ok (h.keep (h.exact.frame (fun _ => rfl) rfl rfl rfl rfl) rfl fun log hlog => hlog.frame rfl rfl rfl)
  | processJob => exact h.processJob env hjobs
  | startGame => exact h.startGame env hcounts
  | update => exact h.update env hjobs

omit [Scalar F] in
/-- `SetDead`. -/
theorem setDead (h : Announced session base bound room) (object : ObjRef) :
    Announced session base bound (room.setObject object (room.heap object).setDead) := by
  refine h.keep (h.exact.setObject rfl) rfl ?_
  intro log hlog
  exact hlog.setObject _ ((hlog.plain object).of_eq rfl (by simp [GameObject.setDead]) rfl)

end Announced

end StarCraftIocp
