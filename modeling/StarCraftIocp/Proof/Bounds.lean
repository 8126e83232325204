import StarCraftIocp.Proof.Deaths
import StarCraftIocp.Proof.JobQueue
import StarCraftIocp.Proof.ObjectTable

/-!
# Where the bounds of an object are

`UpdateBounds` is called by `AddPlayer` and by the step of an object that walks, and
by nothing else: a new object of any other kind has no bounds until it walks, and
`SetMove` leaves the bounds behind where the object was. A walk that an order starts
is made up for in the same tick.
-/

namespace StarCraftIocp

open Outcome

variable {F : Type} [Scalar F]

namespace GameObject

/-- The bounds are the box of the object's size around its position. -/
def Boxed (o : GameObject F) : Prop := o.bounds = o.updateBounds.bounds

/-- The object has somewhere to go in the next tick. -/
def Walks (o : GameObject F) : Prop := o.currentState = .move ∧ o.path ≠ []

instance (o : GameObject F) [DecidableEq F] : Decidable o.Boxed := inferInstanceAs (Decidable (_ = _))

theorem Boxed.sameBody {o o' : GameObject F} (h : o.Boxed) (hbody : o.SameBody o') : o'.Boxed := by
  unfold Boxed updateBounds at h ⊢
  rw [hbody.bounds, hbody.position, hbody.width, hbody.height]
  exact h

/-- A step that is taken sets the bounds; without one the object is where it was. -/
theorem boxed_move (o : GameObject F) (h : o.Boxed ∨ o.path ≠ []) : Ensures o.move fun r => r.1.Boxed := by
  unfold move
  refine Ensures.bind (P := fun r => r.1.Boxed) ?_ ?_
  · unfold baseMove
    split
    · rename_i hnone
      exact .ok (h.resolve_right fun hpath => hpath (List.getLast?_eq_none_iff.mp hnone))
    · dsimp only
      exact Ensures.bind (P := fun _ => True) (fun _ _ => trivial) fun packet _ => .ok rfl
  · intro r hr
    obtain ⟨o', sendBuffer⟩ := r
    dsimp only at hr ⊢
    split
    · refine .ok ?_
      unfold setDead
      split <;> exact hr
    · exact .ok hr

/-- An order that is given where the object's bounds are. -/
theorem boxed_setMove {o : GameObject F} {position : Vector3 F}
    (h : ({ o with position := position } : GameObject F).Boxed)
    (aStar : AStar) (map : Option MapSectionData) (state : GameObjectState) (target : Vector3 F) :
    Ensures (o.setMove aStar map state position target) Boxed := by
  intro o' ho
  cases setsMove_setMove _ _ _ _ _ _ _ ho with
  | stops => exact h
  | walks _ _ => exact h

end GameObject

namespace Bounds

open Room ObjectTable

/-- All objects in the room have a property. -/
def Every (P : GameObject F → Prop) (room : Room F) : Prop := ∀ id object, room.Holds id object →
    P (room.heap object)

/-- The bounds of every object are where the object is. -/
def Follow (room : Room F) : Prop := Every GameObject.Boxed room

/-- The order makes its object walk: there is a path to the target that has a next cell. -/
def StartsWalk (env : Env F) (room : Room F) (job : Job F) : Prop :=
  JobQueue.Travels job ∧ ∃ map path, room.mapSectionData = some map ∧
    env.aStar map (Scalar.toInt job.position.x) (Scalar.toInt job.position.y) (Scalar.toInt job.target.x)
      (Scalar.toInt job.target.y) = some path ∧ path.dropLast ≠ []

/-- An object of this kind starts with bounds of zero, which are right at this position. -/
def NewBoxed (env : Env F) (objectCode : GameObjectCode) (position : Vector3 F) : Prop :=
  ∀ spawner, gSpawners[objectCode.toInt.toNat]? = some (some spawner) → (spawner.spawn env 0 position).Boxed

/-- The order's position is where the bounds of its object are. -/
def InPlace (room : Room F) (job : Job F) : Prop :=
  ∀ object, room.Holds job.objectId object →
    ({ room.heap object with position := job.position } : GameObject F).Boxed

/-- A job that leaves the bounds right. -/
def Harmless (env : Env F) (room : Room F) (job : Job F) : Prop :=
  match job.state with
  | .idle | .move => InPlace room job
  | .spawn => NewBoxed env job.objectCode job.position
  | .attack | .dead | .mining => True

/-- A job after which the tick that runs it leaves the bounds right. -/
def TickHarmless (env : Env F) (room : Room F) (job : Job F) : Prop :=
  match job.state with
  | .idle => InPlace room job
  | .move => InPlace room job ∨ StartsWalk env room job
  | .attack => ∀ object, room.Holds job.objectId object → (room.heap object).Boxed
  | .spawn => NewBoxed env job.objectCode job.position
  | .dead | .mining => True

/-- What is added or ordered leaves the bounds right; a game starts for nobody. -/
def Respects (room : Room F) (a : Env F × RoomEvent F) : Prop :=
  match a.2 with
  | .objectAdd objectCode position .. => NewBoxed a.1 objectCode position
  | .startGame => room.indexPlayers.ingamePlayerIndex.toList = []
  | .processJob => Meets (runJob a.1) (Harmless a.1) { room with jobQueue := [] } room.jobQueue
  | .update => Meets (runJob a.1) (TickHarmless a.1) { room with jobQueue := [] } room.jobQueue
  | .addPlayer | .objectRemove _ | .setMap _ | .pushJob _ => True

section

variable [DecidableEq F]

/-- What is asked of the object that a job is for. -/
instance (room : Room F) (id : Int) (P : ObjRef → Prop) [DecidablePred P] :
    Decidable (∀ object, room.Holds id object → P object) :=
  decidable_of_iff (∀ object ∈ room.objects.getD id none, P object)
    (forall_congr' fun _ => imp_congr_left (Table.getD_none_eq_some ..))

instance (env : Env F) (objectCode : GameObjectCode) (position : Vector3 F) :
    Decidable (NewBoxed env objectCode position) :=
  decidable_of_iff (∀ spawner ∈ gSpawners[objectCode.toInt.toNat]?.join, (spawner.spawn env 0 position).Boxed)
    (forall_congr' fun _ => imp_congr_left Option.join_eq_some_iff)

instance (job : Job F) : Decidable (JobQueue.Travels job) := inferInstanceAs (Decidable (_ ∧ _))

instance (env : Env F) (room : Room F) (job : Job F) : Decidable (StartsWalk env room job) :=
  have : Decidable (∃ map path, room.mapSectionData = some map ∧
      env.aStar map (Scalar.toInt job.position.x) (Scalar.toInt job.position.y) (Scalar.toInt job.target.x)
        (Scalar.toInt job.target.y) = some path ∧ path.dropLast ≠ []) :=
    decidable_of_iff (∃ map ∈ room.mapSectionData, ∃ path ∈ env.aStar map (Scalar.toInt job.position.x)
      (Scalar.toInt job.position.y) (Scalar.toInt job.target.x) (Scalar.toInt job.target.y),
        path.dropLast ≠ [])
      (by simp only [Option.mem_def, exists_and_left])
  inferInstanceAs (Decidable (_ ∧ _))

instance (room : Room F) (job : Job F) : Decidable (InPlace room job) :=
  inferInstanceAs (Decidable (∀ object, room.Holds job.objectId object → GameObject.Boxed _))

instance (env : Env F) (room : Room F) (job : Job F) : Decidable (Harmless env room job) := by
  unfold Harmless
  split <;> infer_instance

instance (env : Env F) (room : Room F) (job : Job F) : Decidable (TickHarmless env room job) := by
  unfold TickHarmless
  split <;> infer_instance

instance (room : Room F) : (a : Env F × RoomEvent F) → Decidable (Respects room a)
  | (env, .objectAdd objectCode position ..) => inferInstanceAs (Decidable (NewBoxed env objectCode position))
  | (_, .startGame) => inferInstanceAs (Decidable (_ = []))
  | (_, .processJob) | (_, .update) => inferInstanceAs (Decidable (Meets ..))
  | (_, .addPlayer) | (_, .objectRemove _) | (_, .setMap _) | (_, .pushJob _) =>
    inferInstanceAs (Decidable True)

end

namespace Every

variable {P : GameObject F → Prop} {room room' : Room F}

omit [Scalar F] in
theorem frame (h : Every P room) (hheap : ∀ r, P (room.heap r) → P (room'.heap r))
    (hobjects : ∀ id r, room'.Holds id r → room.Holds id r) : Every P room' :=
  fun id r hr => hheap r (h id r (hobjects id r hr))

omit [Scalar F] in
theorem setObject (h : Every P room) (object : ObjRef) {o : GameObject F} (ho : P o) :
    Every P (room.setObject object o) := by
  intro id r hr
  rw [heap_setObject]
  split
  · exact ho
  · exact h id r hr

omit [Scalar F] in
theorem indexObject (h : Every P room) (id : Int) : Every P (room.indexObject id).2 := by
  refine h.frame ?_ fun _ _ => of_holds_indexObject
  intro r hr
  rw [heap_indexObject]
  exact hr

omit [Scalar F] in
theorem adds {object : ObjRef} (h : Every P room) (ht : Tabled room) (ha : Adds room object room')
    (hold : ∀ r, r ≠ object → P (room.heap r) → P (room'.heap r)) (hnew : P (room'.heap object)) :
    Every P room' := by
  intro id r hr
  rcases ha.of_holds hr with ⟨-, rfl⟩ | hin
  · exact hnew
  · refine hold r ?_ (h id r hin)
    -- an object that was there is not the new one
    have := (ht.holds id r hin).1
    rw [ha.ref]
    exact Nat.ne_of_lt this

end Every

/-! ## New objects -/

/-- A new object is what its spawner made of it. -/
theorem body_objectAdd (env : Env F) (room : Room F) (objectCode : GameObjectCode)
    (position direction : Vector3 F) (shooter : Option ObjRef) (owner : Int) (broad : Bool) :
    Ensures (room.objectAdd env objectCode position direction shooter owner broad) fun r =>
      ∃ spawner, gSpawners[objectCode.toInt.toNat]? = some (some spawner) ∧
        GameObject.SameBody { spawner.spawn env room.idCount position with ownerId := owner } (r.2.heap r.1) := by
  unfold objectAdd
  refine Ensures.ite (fun _ => .error _) ?_
  intro _
  split
  · exact .error _
  · exact .error _
  · rename_i spawner hspawner
    let o : GameObject F := { spawner.spawn env room.idCount position with ownerId := owner }
    have henter : (room.enter o).2.heap room.nextRef = o := by
      change (room.setObject room.nextRef o).heap room.nextRef = o
      rw [heap_setObject, if_pos rfl]
    refine Ensures.bind (P := Touches (room.enter o).2) ?_ fun room1 h => .ok ⟨spawner, hspawner, ?_⟩
    · exact Ensures.ite (fun _ => touches_broadcastSpawn env (room.enter o).2 _) fun _ => .ok (.refl _)
    · have hbody := h.body room.nextRef
      rw [henter] at hbody
      exact hbody

theorem NewBoxed.boxed {env : Env F} {objectCode : GameObjectCode} {position : Vector3 F}
    (h : NewBoxed env objectCode position) (room : Room F) (direction : Vector3 F) (shooter : Option ObjRef)
    (owner : Int) (broad : Bool) :
    Ensures (room.objectAdd env objectCode position direction shooter owner broad) fun r =>
    (r.2.heap r.1).Boxed := by
  refine (body_objectAdd env room _ _ _ _ _ _).mono ?_
  intro r hr
  obtain ⟨spawner, hspawner, hbody⟩ := hr
  refine GameObject.Boxed.sameBody ?_ hbody
  -- neither the id nor the owner is looked at
  have := h spawner hspawner
  cases spawner <;> exact this

/-! ## Jobs -/

/-- A queue of jobs keeps a property of objects that each job keeps of the object it is for. -/
theorem every_processJob {P : GameObject F → Prop} {C : Room F → Job F → Prop} {env : Env F} {room : Room F}
    (ht : Tabled room) (h : Every P room)
    (hC : Meets (runJob env) C { room with jobQueue := [] } room.jobQueue)
    (hbody : ∀ o o' : GameObject F, P o → o.SameBody o' → o'.currentState = o.currentState → P o')
    (hmove : ∀ room1 job object o, C room1 job → job.state = .idle ∨ job.state = .move →
      room1.Holds job.objectId object →
      (room1.heap object).setMove env.aStar room1.mapSectionData job.state job.position job.target = .ok o → P o)
    (hattack : ∀ room1 job object, C room1 job → job.state = .attack → room1.Holds job.objectId object →
      P (room1.heap object) → P (room1.heap object).setAttack)
    (hspawn : ∀ room1 job, C room1 job → job.state = .spawn → NewBoxed env job.objectCode job.position)
    (hboxed : ∀ o : GameObject F, o.Boxed → P o) :
    Ensures (room.processJob env) fun room' => Tabled room' ∧ Every P room' := by
  refine Ensures.foldlM_meets ⟨ht.same rfl rfl rfl rfl, h⟩ hC ?_
  intro room1 h1 job _ hjob room2 hok
  obtain ⟨ht1, h1⟩ := h1
  have hruns := runs_runJob env room1 job room2 hok
  refine ⟨ht1.runs hruns, ?_⟩
  cases hruns with
  | moves _ hq hstate ho => exact h1.setObject _ (hmove room1 job _ _ hjob hstate hq ho)
  | attacks _ hq hstate => exact h1.setObject _ (hattack room1 job _ hjob hstate hq (h1 _ _ hq))
  | removes _ _ _ => exact h1.frame (fun _ hr => hr) fun id r hid => Table.of_getElem?_erase hid
  | mines _ => exact h1.indexObject job.objectId
  | spawns hstate _ =>
      obtain ⟨r, hr, hroom⟩ := runJob_spawn hstate hok
      have hadds := adds_objectAdd env _ _ _ _ _ _ _ r hr
      have hnew : P (r.2.heap r.1) := hboxed _ ((hspawn room1 job hjob hstate).boxed _ _ _ _ _ r hr)
      have hadded : Every P r.2 := by
        refine (h1.indexObject job.objectId).adds (ht1.indexObject _) hadds ?_ hnew
        intro q hq hP
        refine hbody _ _ hP (hadds.body q hq) (othersKeep_objectAdd env _ _ _ _ _ _ _ r hr q ?_)
        rw [← hadds.ref]
        exact hq
      rw [← hroom]
      exact hadded

/-- The jobs between two ticks. -/
theorem ensures_processJob {env : Env F} {room : Room F} (ht : Tabled room) (h : Follow room)
    (hC : Meets (runJob env) (Harmless env) { room with jobQueue := [] } room.jobQueue) :
    Ensures (room.processJob env) fun room' => Tabled room' ∧ Follow room' := by
  refine every_processJob ht h hC (fun _ _ ho hbody _ => ho.sameBody hbody) ?_
    (fun _ _ _ _ _ _ ho => ho) ?_ fun _ ho => ho
  · intro room1 job object o hjob hstate hq ho
    refine GameObject.boxed_setMove ?_ _ _ _ _ o ho
    unfold Harmless at hjob
    rcases hstate with hs | hs <;> (rw [hs] at hjob; exact hjob object hq)
  · intro room1 job hjob hstate
    unfold Harmless at hjob
    rw [hstate] at hjob
    exact hjob

theorem walks_setMove {env : Env F} {room : Room F} {job : Job F} (hjob : StartsWalk env room job)
    (o : GameObject F) :
    Ensures (o.setMove env.aStar room.mapSectionData job.state job.position job.target) GameObject.Walks := by
  obtain ⟨⟨hmove, hfar⟩, map, path, hmap, hpath, hne⟩ := hjob
  unfold GameObject.setMove
  rw [hmap]
  dsimp only
  rw [if_neg (by rw [hmove, hfar]; simp), hpath]
  exact .ok ⟨hmove, hne⟩

/-- The jobs of a tick: whose bounds are not right is about to walk. -/
theorem ensures_processJob_tick {env : Env F} {room : Room F} (ht : Tabled room) (h : Follow room)
    (hC : Meets (runJob env) (TickHarmless env) { room with jobQueue := [] } room.jobQueue) :
    Ensures (room.processJob env) fun room' => Tabled room' ∧ Every (fun o => o.Boxed ∨ o.Walks) room' := by
  refine every_processJob ht (fun id r hr => .inl (h id r hr)) hC ?_ ?_ ?_ ?_ fun _ ho => .inl ho
  · intro o o' ho hbody hstate
    rcases ho with hbox | ⟨hmove, hpath⟩
    · exact .inl (hbox.sameBody hbody)
    · exact .inr ⟨hstate.trans hmove, hbody.path ▸ hpath⟩
  · intro room1 job object o hjob hstate hq ho
    have hplace : InPlace room1 job → o.Boxed := fun hin =>
      GameObject.boxed_setMove (hin object hq) _ _ _ _ o ho
    unfold TickHarmless at hjob
    rcases hstate with hs | hs
    · rw [hs] at hjob
      exact .inl (hplace hjob)
    · rw [hs] at hjob
      rcases hjob with hin | hwalk
      · exact .inl (hplace hin)
      · exact .inr (walks_setMove hwalk _ o ho)
  · intro room1 job object hjob hstate hq _
    unfold TickHarmless at hjob
    rw [hstate] at hjob
    exact .inl (hjob object hq)
  · intro room1 job hjob hstate
    unfold TickHarmless at hjob
    rw [hstate] at hjob
    exact hjob

/-! ## The tick -/

/-- An object that is to walk has its bounds set, and right bounds stay right. -/
theorem boxed_acts {room room' : Room F} {object : ObjRef} (hacts : Acts room object room') :
    ((room.heap object).Boxed ∨ (room.heap object).Walks → (room'.heap object).Boxed) ∧
      (∀ r, (room.heap r).Boxed → (room'.heap r).Boxed) ∧ ∀ r, r ≠ object → (room'.heap r).path =
      (room.heap r).path := by
  cases hacts with
  | touches hstate ht =>
      refine ⟨?_, fun r hr => hr.sameBody (ht.body r), fun r _ => (ht.body r).path⟩
      intro hor
      exact (hor.resolve_right fun hwalks => hstate hwalks.1).sameBody (ht.body object)
  | @moves o packet hstate hmove =>
      have hbox := fun h => GameObject.boxed_move _ h _ hmove
      refine ⟨?_, ?_, ?_⟩
      · intro hor
        rw [heap_setObject, if_pos rfl]
        refine hbox ?_
        rcases hor with hboxed | hwalks
        · exact .inl hboxed
        · exact .inr hwalks.2
      · intro r hr
        rw [heap_setObject]
        split
        · rename_i hobject
          exact hbox (.inl (hobject ▸ hr))
        · exact hr
      · intro r hr
        rw [heap_setObject, if_neg hr]
  | dies hstate =>
      refine ⟨?_, fun r hr => hr, fun r _ => rfl⟩
      intro hor
      exact hor.resolve_right fun hwalks => absurd (hstate.symm.trans hwalks.1) (by decide)

/-- Once the tick has been through all objects, all bounds are right. -/
theorem follow_entries (env : Env F) {room : Room F} (ht : Tabled room)
    (h : Every (fun o => o.Boxed ∨ o.Walks) room) :
    Ensures (room.objects.toList.foldlM (updateEntry env) room) fun room' => Tabled room' ∧ Follow room' := by
  let I := fun (done : List (Int × Option ObjRef)) (room' : Room F) =>
    Tabled room' ∧ room'.objects = room.objects ∧ Every (fun o => o.Boxed ∨ o.Walks) room' ∧
      ∀ entry ∈ done, ∀ r, entry.1 ≠ -1 → entry.2 = some r → (room'.heap r).Boxed
  refine Ensures.mono (P := I room.objects.toList) ?_ ?_
  · refine Ensures.foldlM_done (I := I) (C := fun _ _ => True) ⟨ht, rfl, h, nofun⟩
      (Meets.of_forall fun _ _ => trivial) ?_
    intro done room1 h1 entry hentry _ room2 hok
    obtain ⟨ht1, hobjects, hevery, hdone⟩ := h1
    have hupdates := updates_updateEntry env room1 entry room2 hok
    have hothers := othersKeep_updateEntry env room1 entry room2 hok
    have hobjects2 := hupdates.objects.1.trans hobjects
    refine ⟨ht1.updates hupdates, hobjects2, ?_⟩
    cases hupdates with
    | skips hid =>
        refine ⟨hevery, ?_⟩
        intro e he r hne
        rcases List.mem_append.mp he with he | he
        · exact hdone e he r hne
        · exact absurd (List.mem_singleton.mp he ▸ hid) hne
    | @object object room3 _ hid hobject hacts htouches =>
        obtain ⟨hself, hkept, hpath⟩ := boxed_acts hacts
        have hin : room1.Holds entry.1 object := by
          unfold Holds
          rw [hobjects, ← hobject]
          exact Std.ExtTreeMap.mem_toList_iff_getElem?_eq_some.mp hentry
        have hnow : (room2.heap object).Boxed := (hself (hevery _ _ hin)).sameBody (htouches.body object)
        have hstill : ∀ r, (room1.heap r).Boxed → (room2.heap r).Boxed :=
          fun r hr => (hkept r hr).sameBody (htouches.body r)
        refine ⟨?_, ?_⟩
        · intro id r hr
          have hr1 : room1.Holds id r := by
            unfold Holds at hr ⊢
            rw [hobjects2, ← hobjects] at hr
            exact hr
          by_cases hro : r = object
          · exact .inl (hro ▸ hnow)
          · rcases hevery id r hr1 with hbox | ⟨hmove, hne⟩
            · exact .inl (hstill r hbox)
            · refine .inr ⟨(hothers object hobject r hro).trans hmove, ?_⟩
              rw [(htouches.body r).path]
              exact (hpath r hro).symm ▸ hne
        · intro e he r hne hr
          rcases List.mem_append.mp he with he | he
          · exact hstill r (hdone e he r hne hr)
          · rw [List.mem_singleton.mp he, hobject] at hr
            exact Option.some.inj hr ▸ hnow
  · intro room' h'
    obtain ⟨ht', hobjects, -, hall⟩ := h'
    refine ⟨ht', fun id r hr => ?_⟩
    have hr0 : room.Holds id r := by
      unfold Holds at hr ⊢
      rw [← hobjects]
      exact hr
    -- ids are not negative, so that no object is skipped
    have hid := (ht.made r (ht.holds id r hr0).1).1
    rw [(ht.holds id r hr0).2] at hid
    exact hall (id, some r) (Std.ExtTreeMap.mem_toList_iff_getElem?_eq_some.mpr hr0) r
      (by dsimp only; omega) rfl

/-! ## Runs -/

/-- The invariant: the table is as it should be, and the bounds are right. -/
structure Right (room : Room F) : Prop where
  tabled : Tabled room
  follow : Follow room

namespace Right

variable {room room' : Room F}

omit [Scalar F] in
/-- What changes no object and enters none. -/
theorem frame [Scalar F] (h : Right room) (htabled : Tabled room') (hheap : room'.heap = room.heap)
    (hobjects : ∀ id r, room'.Holds id r → room.Holds id r) : Right room' := by
  refine ⟨htabled, h.follow.frame ?_ hobjects⟩
  intro r hr
  rw [hheap]
  exact hr

theorem ensures_objectAdd (h : Right room) {env : Env F} {objectCode : GameObjectCode} {position : Vector3 F}
    (hnew : NewBoxed env objectCode position) (direction : Vector3 F) (shooter : Option ObjRef)
    (owner : Int) (broad : Bool) :
    Ensures (room.objectAdd env objectCode position direction shooter owner broad) fun r => Right r.2 := by
  intro r hr
  have ha := adds_objectAdd env room _ _ _ _ _ _ r hr
  refine ⟨h.tabled.adds ha, h.follow.adds h.tabled ha ?_ (hnew.boxed room _ _ _ _ r hr)⟩
  exact fun q hq hbox => hbox.sameBody (ha.body q hq)

theorem addPlayer (h : Right room) : Right room.addPlayer.2 := by
  obtain ⟨room1, ha, hroom⟩ := adds_addPlayer room
  have hplayer : (room.addPlayer.2.heap room.addPlayer.1).Boxed := by
    change ((room.setObject room.nextRef _).heap room.nextRef).Boxed
    rw [heap_setObject, if_pos rfl]
    rfl
  rw [hroom] at hplayer ⊢
  have hfollow := h.follow.adds h.tabled ha (fun q hq hbox => hbox.sameBody (ha.body q hq)) hplayer
  exact ⟨(h.tabled.adds ha).setGrid _, hfollow⟩

theorem ensures_update (h : Right room) {env : Env F}
    (hC : Meets (runJob env) (TickHarmless env) { room with jobQueue := [] } room.jobQueue) :
    Ensures (room.update env) Right := by
  refine (Room.ensures_update env (I := fun room1 => Tabled room1 ∧ Follow room1) ?_ ?_).mono
    fun room1 h1 => ⟨h1.1, h1.2⟩
  · intro room1 h1
    obtain ⟨ht1, hevery⟩ := ensures_processJob_tick h.tabled h.follow hC room1 h1
    exact follow_entries env ht1 hevery
  · intro room2 room3 h2 ht
    refine ⟨h2.1.touches ht, h2.2.frame (fun r hr => hr.sameBody (ht.body r)) ?_⟩
    intro id r hr
    unfold Holds at hr ⊢
    rw [ht.objects] at hr
    exact hr

theorem next {a : Env F × RoomEvent F} (h : Right room) (hrespects : Respects room a)
    (hnext : room.next a = some room') :
    Right room' := by
  obtain ⟨env, e⟩ := a
  obtain ⟨-, hexec⟩ := next_eq_some hnext
  cases e with
  | objectAdd objectCode position direction shooter owner broad =>
      exact (h.ensures_objectAdd hrespects direction shooter owner broad).map room' hexec
  | addPlayer =>
      obtain rfl := Except.ok.inj hexec
      exact h.addPlayer
  | objectRemove object =>
      obtain rfl := Except.ok.inj hexec
      exact h.frame (h.tabled.removed object) rfl fun _ _ hr => Table.of_getElem?_erase hr
  | setMap map =>
      obtain rfl := Except.ok.inj hexec
      exact h.frame (h.tabled.same rfl rfl rfl rfl) rfl fun _ _ hr => hr
  | pushJob job =>
      obtain rfl := Except.ok.inj hexec
      exact h.frame (h.tabled.same rfl rfl rfl rfl) rfl fun _ _ hr => hr
  | processJob =>
      obtain ⟨htabled, hfollow⟩ := ensures_processJob h.tabled h.follow hrespects room' hexec
      exact ⟨htabled, hfollow⟩
  | startGame =>
      -- nobody has an index, so that there is nothing to do
      unfold exec startGame at hexec
      dsimp only at hexec
      rw [show room.indexPlayers.ingamePlayerIndex.toList = [] from hrespects] at hexec
      obtain rfl := Except.ok.inj hexec
      exact h.frame (h.tabled.same rfl rfl rfl rfl) rfl fun _ _ hr => hr
  | update => exact h.ensures_update hrespects room' hexec

end Right

/-! ## Main results -/

/--
**The bounds follow the objects as long as nothing is put or ordered away from its
bounds**: in every state of such a run the bounds of every object in the room are
the box of its size around its position.
-/
theorem bounds_follow (roomId hostId : Int) (gameName gamePassWord mapHash : List UInt8) {room : Room F}
    (h : Reachable (Transition.guarded (Transition.ofFun Room.next) Respects)
      (Room.new roomId hostId gameName gamePassWord mapHash) room) : Follow room := by
  refine (h.invariant (I := Right) ⟨?_, ?_⟩ fun _ _ _ h1 hs => h1.next hs.1 hs.2).follow
  · exact (Exact.new roomId hostId gameName gamePassWord mapHash).toTabled
  · intro id object hr
    unfold Holds at hr
    simp [Room.new] at hr

/-- A player is sent to the cell on its right, from a place where its bounds are not; a tick later they are. -/
theorem bounds_follow_walk : ∃ room : Room ℚ, (room.heap 0).bounds = ⟨32.51, 29.5, 33.51, 30.5⟩ ∧
    room.Live 0 ∧ Follow room := by
  have hrun : (([.setMap (some { mapWidth := 60, mapHeight := 60, height := [], playerPos := [] }), .addPlayer,
      .pushJob (Job.ofObject 0 ⟨33, 30, 0⟩ ⟨34, 30, 0⟩ .move), .update].map fun e =>
        (({ Env.still with aStar := fun _ x y _ _ => some [(x + 1, y), (x, y)] } : Env ℚ), e)).foldlM
          (guardedFun Room.next Respects) (Room.new 0 0 [] [] [])).map
        (fun room => ((room.heap 0).bounds, decide (room.Live 0))) =
          some (⟨32.51, 29.5, 33.51, 30.5⟩, true) := by
    decide +kernel
  obtain ⟨room, hroom, hobs⟩ := Option.map_eq_some_iff.mp hrun
  obtain ⟨hbounds, hlive⟩ := Prod.mk.inj hobs
  exact ⟨room, hbounds, of_decide_eq_true hlive,
    bounds_follow 0 0 [] [] [] (Reachable.of_run_guarded hroom .refl)⟩

/-- A mineral is spawned by a job: its bounds are at the corner of the map. -/
theorem not_bounds_follow : ∃ room : Room ℚ, Reachable (Transition.ofFun Room.next) (Room.new 0 0 [] [] []) room
    ∧ ¬ Follow room := by
  have hrun : (([.pushJob { Job.ofObject (-1) ⟨5, 5, 0⟩ Vector3.zero .spawn with objectCode := .mineral },
      .update].map fun e => (Env.still, e)).foldlM Room.next (Room.new 0 0 [] [] [])).map (fun room =>
        (room.objects.getD 0 none, decide (room.heap 0).Boxed)) = some (some 0, false) := by
    decide +kernel
  obtain ⟨room, hroom, hobs⟩ := Option.map_eq_some_iff.mp hrun
  obtain ⟨hholds, hbox⟩ := Prod.mk.inj hobs
  refine ⟨room, Reachable.of_run hroom .refl, ?_⟩
  intro hfollow
  exact of_decide_eq_false hbox (hfollow 0 0 ((Table.getD_none_eq_some ..).mp hholds))

end Bounds

end StarCraftIocp
