import StarCraftIocp.Proof.Cells
import StarCraftIocp.Proof.ObjectTable

/-!
# The grid as an index of a room's objects

Between ticks the grid lists objects of the room only, and only in cells that
their bounds overlap (`GridSound`); the tick then enters every object anew, after
which nothing is missing either (`GridExact`).

An object is taken off the grid by its current bounds. When it moves, `Update`
changes its bounds before `MoveObject` is called, so cells that the old bounds
overlap and the new ones do not keep the object for good, even when it is gone.
The invariant holds as long as no object leaves a cell that lists it.
-/

namespace StarCraftIocp.GridIndex

open Outcome Room ObjectTable GridManager

variable {F : Type} [Scalar F]

/-- The grid lists objects of the room, in cells that their bounds overlap. -/
structure GridSound (room : Room F) : Prop where
  full : room.grid.Full
  listed : ∀ c, room.grid.InRange c → ∀ (k : Int) r, (room.grid.cell c)[k]? = some r →
    room.Holds k r ∧ c ∈ room.grid.getOverlappingCells (room.heap r).bounds

/-- The object is listed in every cell that its bounds overlap. -/
def Complete (room : Room F) (k : Int) (r : ObjRef) : Prop :=
  ∀ c, c ∈ room.grid.getOverlappingCells (room.heap r).bounds → (room.grid.cell c)[k]? = some r

/-- A cell lists the objects of the room whose bounds overlap it. -/
def GridExact (room : Room F) : Prop :=
  ∀ c, room.grid.InRange c → ∀ (k : Int) r, (room.grid.cell c)[k]? = some r ↔
    room.Holds k r ∧ c ∈ room.grid.getOverlappingCells (room.heap r).bounds

/-- The bounds an object has after its next step. -/
def nextBounds (o : GameObject F) : AABB F :=
  match o.move with
  | .ok (o', _) => o'.bounds
  | .error _ => o.bounds

/-- An object that is about to move does not leave a cell that lists it. -/
def Stays (room : Room F) (entry : Int × Option ObjRef) : Prop :=
  match entry.2 with
  | none => True
  | some object => (room.heap object).currentState = .move →
      ∀ c ∈ room.grid.cells, ((room.grid.cell c)[(room.heap object).id]?).isSome = true →
        c ∈ room.grid.getOverlappingCells (nextBounds (room.heap object))

instance (room : Room F) : (entry : Int × Option ObjRef) → Decidable (Stays room entry)
  | (_, none) => inferInstanceAs (Decidable True)
  | (_, some _) => inferInstanceAs (Decidable (_ → _))

/-- In a tick, every object stays in its cells at its turn. -/
def Settled (room : Room F) (a : Env F × RoomEvent F) : Prop :=
  match a.2 with
  | .update =>
      match room.processJob a.1 with
      | .ok room1 => Meets (updateEntry a.1) Stays room1 room1.objects.toList
      | .error _ => True
  | _ => True

instance (room : Room F) : (a : Env F × RoomEvent F) → Decidable (Settled room a)
  | (env, .update) =>
      have : Decidable (match room.processJob env with
          | .ok room1 => Meets (updateEntry env) Stays room1 room1.objects.toList
          | .error _ => True) :=
        match room.processJob env with
        | .ok room1 =>
            inferInstanceAs (Decidable (Meets (updateEntry env) Stays room1 room1.objects.toList))
        | .error _ => inferInstanceAs (Decidable True)
      this
  | (_, .objectAdd ..) | (_, .addPlayer) | (_, .objectRemove _) | (_, .setMap _) | (_, .pushJob _)
  | (_, .processJob) | (_, .startGame) => inferInstanceAs (Decidable True)

/-! ## What keeps the grid sound -/

namespace GridSound

variable {room room' : Room F}

/-- What leaves grid and bounds alone, and takes no object away. -/
theorem frame (h : GridSound room) (hgrid : room'.grid = room.grid)
    (hobjects : ∀ k r, room.Holds k r → room'.Holds k r
      ∧ (room'.heap r).bounds = (room.heap r).bounds) : GridSound room' where
  full := hgrid ▸ h.full
  listed := by
    rw [hgrid]
    intro c hc k r hr
    obtain ⟨hholds, hover⟩ := h.listed c hc k r hr
    obtain ⟨hholds, hbounds⟩ := hobjects k r hholds
    exact ⟨hholds, hbounds ▸ hover⟩

theorem touches (h : GridSound room) (ht : Touches room room') : GridSound room' := by
  refine h.frame ht.grid fun k r hr => ⟨?_, (ht.body r).bounds⟩
  unfold Holds at hr ⊢
  rw [ht.objects]
  exact hr

theorem setObject (h : GridSound room) {object : ObjRef} {o : GameObject F}
    (ho : o.bounds = (room.heap object).bounds) : GridSound (room.setObject object o) := by
  refine h.frame rfl fun k r hr => ⟨hr, ?_⟩
  rw [heap_setObject]
  by_cases hr : r = object
  · rw [if_pos hr, ho, hr]
  · rw [if_neg hr]

theorem adds (h : GridSound room) (htable : Tabled room) {object : ObjRef}
    (ha : Adds room object room') : GridSound room' := by
  refine h.frame ha.grid fun k r hr => ?_
  obtain ⟨hr', hid⟩ := htable.holds k r hr
  have hne : r ≠ object := ha.ref ▸ Nat.ne_of_lt hr'
  refine ⟨?_, (ha.body r hne).bounds⟩
  have hk : k ≠ room.idCount := by
    have := (htable.made r hr').2
    omega
  unfold Holds at hr ⊢
  rw [ha.objects, Table.getElem?_insert, if_neg hk]
  exact hr

theorem indexObject (h : GridSound room) (id : Int) : GridSound (room.indexObject id).2 := by
  unfold Room.indexObject
  dsimp only
  split
  · exact h
  · rename_i hmem
    refine h.frame rfl fun k r hr => ⟨?_, rfl⟩
    unfold Holds at hr ⊢
    rw [Table.getElem?_insert, if_neg ?_]
    · exact hr
    · rintro rfl
      exact hmem (Table.mem_iff_exists_getElem?.mpr ⟨_, hr⟩)

theorem gridRemove (h : GridSound room) (object : ObjRef) : GridSound (room.gridRemove object) := by
  obtain ⟨hshape, hcell⟩ := removeObject_spec h.full (room.heap object).id (room.heap object).bounds
  refine ⟨hshape.full h.full, ?_⟩
  intro c hc k r hr
  have hc := hshape.inRange.mp hc
  change ((room.grid.removeObject _ _).cell c)[k]? = some r at hr
  rw [hcell c hc k] at hr
  split at hr
  · cases hr
  · obtain ⟨hholds, hover⟩ := h.listed c hc k r hr
    exact ⟨hholds, (hshape.getOverlappingCells _).symm ▸ hover⟩

/-- The grid loses the object together with the table, wherever it is listed. -/
theorem removed (h : GridSound room) (htable : Tabled room) {object : ObjRef}
    (hobject : object < room.nextRef) : GridSound (room.removed object) := by
  obtain ⟨hshape, hcell⟩ := removeObject_spec h.full (room.heap object).id (room.heap object).bounds
  refine ⟨hshape.full h.full, ?_⟩
  intro c hc k r hr
  have hc := hshape.inRange.mp hc
  change ((room.grid.removeObject _ _).cell c)[k]? = some r at hr
  rw [hcell c hc k] at hr
  split at hr
  · cases hr
  · rename_i hkeep
    obtain ⟨hholds, hover⟩ := h.listed c hc k r hr
    refine ⟨?_, (hshape.getOverlappingCells _).symm ▸ hover⟩
    have hk : k ≠ (room.heap object).id := by
      intro hk
      obtain ⟨hr', hid⟩ := htable.holds k r hholds
      have hsame : r = object := htable.unique r hr' object hobject (hid.trans hk)
      exact hkeep ⟨hsame ▸ hover, hk⟩
    change (room.objects.erase _)[k]? = _
    rw [Table.getElem?_erase, if_neg hk]
    exact hholds

/-- An object of the room is entered, or entered again. -/
theorem gridAdd (h : GridSound room) {object : ObjRef}
    (hobject : room.Holds (room.heap object).id object) : GridSound (room.gridAdd object) := by
  obtain ⟨hshape, hcell⟩ := addObject_spec h.full object (room.heap object).id (room.heap object).bounds
  refine ⟨hshape.full h.full, ?_⟩
  intro c hc k r hr
  have hc := hshape.inRange.mp hc
  have hoverlap := hshape.getOverlappingCells (room.heap r).bounds
  change ((room.grid.addObject _ _ _).cell c)[k]? = some r at hr
  rw [hcell c hc k] at hr
  split at hr
  · rename_i hnew
    obtain rfl := Option.some.inj hr
    exact ⟨hnew.2 ▸ hobject, hoverlap.symm ▸ hnew.1⟩
  · obtain ⟨hholds, hover⟩ := h.listed c hc k r hr
    exact ⟨hholds, hoverlap.symm ▸ hover⟩

theorem runs (h : GridSound room) (htable : Tabled room) {env : Env F} {job : Job F}
    (hr : Runs env room job room') : GridSound room' := by
  cases hr with
  | moves _ _ _ ho =>
      refine h.setObject ?_
      cases GameObject.setsMove_setMove _ _ _ _ _ _ _ ho with
      | stops => rfl
      | walks _ _ => rfl
  | attacks _ _ _ => exact h.setObject rfl
  | removes _ hobject _ =>
      exact (h.gridRemove _).removed (htable.setGrid _) (htable.holds _ _ hobject).1
  | spawns _ ha =>
      refine ((h.indexObject _).adds (htable.indexObject _) ha).gridAdd ?_
      unfold Holds
      rw [ha.objects, ha.id, Table.getElem?_insert, if_pos rfl]
  | mines _ => exact h.indexObject _

theorem new (roomId hostId : Int) (gameName gamePassWord mapHash : List UInt8) :
    GridSound (Room.new roomId hostId gameName gamePassWord mapHash : Room F) where
  full := full_new ..
  listed := by
    intro c hc k r hr
    rw [show (Room.new roomId hostId gameName gamePassWord mapHash : Room F).grid.cell c = ∅ from
      cell_new _ _ _ _ hc] at hr
    simp at hr

end GridSound

/-! ## A tick -/

/-- When an object acts without leaving its cells, the grid stays sound, and complete for the others. -/
theorem sound_acts {room room1 : Room F} (h : GridSound room) (htable : Tabled room) {k : Int}
    {object : ObjRef} (hstays : Stays room (k, some object)) (hacts : room.Acts object room1) :
    GridSound room1 ∧ ∀ k' r, r ≠ object → Complete room k' r → Complete room1 k' r := by
  cases hacts with
  | touches _ ht =>
      refine ⟨h.touches ht, fun k' r _ hcomplete => ?_⟩
      unfold Complete
      rw [ht.grid, (ht.body r).bounds]
      exact hcomplete
  | @moves o packet hstate hmove =>
      have hnext : nextBounds (room.heap object) = o.bounds := by
        unfold nextBounds
        rw [hmove]
      refine ⟨⟨h.full, ?_⟩, fun k' r hr hcomplete => ?_⟩
      · intro c hc k' r hr
        obtain ⟨hholds, hover⟩ := h.listed c hc k' r hr
        refine ⟨hholds, ?_⟩
        rw [heap_setObject]
        by_cases hobject : r = object
        · subst hobject
          rw [if_pos rfl, ← hnext]
          refine hstays hstate c (mem_cells.mpr hc) ?_
          rw [(htable.holds k' r hholds).2]
          exact Option.isSome_of_eq_some hr
        · rw [if_neg hobject]
          exact hover
      · unfold Complete
        rw [heap_setObject, if_neg hr]
        exact hcomplete
  | dies _ => exact ⟨h.frame rfl fun _ _ hr => ⟨hr, rfl⟩, fun _ _ _ hcomplete => hcomplete⟩

/-- An object that is entered anew is listed wherever it should be. -/
theorem sound_regrid {room : Room F} (h : GridSound room) {object : ObjRef}
    (hobject : room.Holds (room.heap object).id object) : GridSound (room.regrid object)
      ∧ Complete (room.regrid object) (room.heap object).id object
      ∧ ∀ k r, k ≠ (room.heap object).id → Complete room k r → Complete (room.regrid object) k r := by
  obtain ⟨hshape, hcell⟩ := moveObject_spec h.full object (room.heap object).id
    (room.heap object).bounds (room.heap object).bounds
  have hoverlap : ∀ r, (room.regrid object).grid.getOverlappingCells ((room.regrid object).heap r).bounds
      = room.grid.getOverlappingCells (room.heap r).bounds :=
    fun r => hshape.getOverlappingCells (room.heap r).bounds
  refine ⟨⟨hshape.full h.full, ?_⟩, ?_, ?_⟩
  · intro c hc k r hr
    have hc := hshape.inRange.mp hc
    change ((room.grid.moveObject _ _ _ _).cell c)[k]? = some r at hr
    rw [hcell c hc k] at hr
    rw [hoverlap r]
    by_cases hk : k = (room.heap object).id
    · rw [if_pos hk] at hr
      by_cases hover : c ∈ room.grid.getOverlappingCells (room.heap object).bounds
      · rw [if_pos hover] at hr
        obtain rfl := Option.some.inj hr
        exact ⟨hk ▸ hobject, hover⟩
      · rw [if_neg hover, if_neg hover] at hr
        exact h.listed c hc k r hr
    · rw [if_neg hk] at hr
      exact h.listed c hc k r hr
  · intro c hover
    rw [hoverlap object] at hover
    refine (hcell c (mem_getOverlappingCells.mp hover).1 _).trans ?_
    rw [if_pos rfl, if_pos hover]
  · intro k r hk hcomplete c hover
    rw [hoverlap r] at hover
    refine (hcell c (mem_getOverlappingCells.mp hover).1 k).trans ?_
    rw [if_neg hk]
    exact hcomplete c hover

omit [Scalar F] in
theorem Complete.touches [Scalar F] {room room' : Room F} (ht : Touches room room') {k : Int} {r : ObjRef}
    (h : Complete room k r) : Complete room' k r := by
  unfold Complete
  rw [ht.grid, (ht.body r).bounds]
  exact h

/-- A pass through the loop over the objects completes the object of the entry. -/
theorem sound_updates {room room' : Room F} (h : GridSound room) (htable : Tabled room)
    {entry : Int × Option ObjRef} (hentry : room.objects[entry.1]? = some entry.2)
    (hstays : Stays room entry) (hu : Updates room entry room') :
    GridSound room' ∧ room'.objects = room.objects ∧ ∀ k r, 0 ≤ k → room.Holds k r →
      entry.1 = k ∨ Complete room k r → Complete room' k r := by
  obtain ⟨key, value⟩ := entry
  cases hu with
  | skips hid =>
      refine ⟨h, rfl, fun k r hk hr hor => hor.resolve_left ?_⟩
      intro heq
      have : (-1 : Int) = k := hid.symm.trans heq
      omega
  | @object object room1 _ hid hobject hacts ht =>
      obtain rfl : value = some object := hobject
      have hkey := (htable.holds key object hentry).2
      obtain ⟨hobjects, hids⟩ := hacts.objects
      obtain ⟨h1, hothers⟩ := sound_acts h htable hstays hacts
      have hin : room1.Holds (room1.heap object).id object := by
        unfold Holds
        rw [hids, hkey, hobjects]
        exact hentry
      obtain ⟨h2, hself, hrest⟩ := sound_regrid h1 hin
      refine ⟨h2.touches ht, ht.objects.trans hobjects, fun k r hk hr hor => Complete.touches ht ?_⟩
      by_cases hkk : k = key
      · have hsame : r = object := by
          have := (hkk ▸ hr : room.Holds key r).symm.trans hentry
          simpa using this
        rw [hsame, hkk, ← hkey, ← hids]
        exact hself
      · refine hrest k r (by rw [hids, hkey]; exact hkk) (hothers k r ?_ (hor.resolve_left (Ne.symm hkk)))
        rintro rfl
        exact hkk ((htable.holds k r hr).2.symm.trans hkey)

/-- The objects of the room are all on the grid, once the tick has been through them. -/
theorem sound_entries (env : Env F) {room : Room F} (h : GridSound room) (htable : Tabled room)
    (hstays : Meets (updateEntry env) Stays room room.objects.toList) :
    Ensures (room.objects.toList.foldlM (updateEntry env) room) fun room' =>
      GridSound room' ∧ Tabled room' ∧ ∀ k r, room'.Holds k r → Complete room' k r := by
  let I := fun (done : List (Int × Option ObjRef)) (room' : Room F) =>
    GridSound room' ∧ Tabled room' ∧ room'.objects = room.objects ∧
      ∀ entry ∈ done, ∀ k r, 0 ≤ k → room.Holds k r → entry.1 = k → Complete room' k r
  refine Ensures.mono (P := I room.objects.toList) ?_ ?_
  · refine Ensures.foldlM_done (I := I) ⟨h, htable, rfl, nofun⟩ hstays ?_
    rintro done room1 ⟨h1, htable1, hobjects, hdone⟩ entry hentry hstay
    refine (updates_updateEntry env room1 entry).mono fun room2 hu => ?_
    have hget : room1.objects[entry.1]? = some entry.2 := by
      rw [hobjects]
      exact Std.ExtTreeMap.mem_toList_iff_getElem?_eq_some.mp hentry
    obtain ⟨h2, hobjects2, hcomplete⟩ := sound_updates h1 htable1 hget hstay hu
    refine ⟨h2, htable1.updates hu, hobjects2.trans hobjects, ?_⟩
    intro entry' hin k r hk hr heq
    have hr1 : room1.Holds k r := by
      unfold Holds at hr ⊢
      rw [hobjects]
      exact hr
    rcases List.mem_append.mp hin with hin | hin
    · exact hcomplete k r hk hr1 (.inr (hdone entry' hin k r hk hr heq))
    · rw [List.mem_singleton.mp hin] at heq
      exact hcomplete k r hk hr1 (.inl heq)
  · rintro room' ⟨h', htable', hobjects, hall⟩
    refine ⟨h', htable', fun k r hr => ?_⟩
    have hr0 : room.Holds k r := by
      unfold Holds at hr ⊢
      rw [← hobjects]
      exact hr
    obtain ⟨hlt, hid⟩ := htable.holds k r hr0
    exact hall (k, some r) (Std.ExtTreeMap.mem_toList_iff_getElem?_eq_some.mpr hr0) k r
      (hid ▸ (htable.made r hlt).1) hr0 rfl

theorem GridSound.exact {room : Room F} (h : GridSound room)
    (hcomplete : ∀ k r, room.Holds k r → Complete room k r) : GridExact room :=
  fun c hc k r => ⟨h.listed c hc k r, fun hr => hcomplete k r hr.1 c hr.2⟩

/-! ## Runs -/

/-- The invariant of a room whose objects stay in their cells. -/
structure Indexed (room : Room F) : Prop where
  tabled : Tabled room
  sound : GridSound room

theorem Indexed.touches {room room' : Room F} (h : Indexed room) (ht : Touches room room') :
    Indexed room' := ⟨h.tabled.touches ht, h.sound.touches ht⟩

theorem Indexed.adds {room room' : Room F} (h : Indexed room) {object : ObjRef}
    (ha : Adds room object room') : Indexed room' := ⟨h.tabled.adds ha, h.sound.adds h.tabled ha⟩

theorem Indexed.ensures_processJob {room : Room F} (h : Indexed room) (env : Env F) :
    Ensures (room.processJob env) Indexed := by
  refine Ensures.foldlM ⟨h.tabled.same rfl rfl rfl rfl,
    h.sound.frame rfl fun _ _ hr => ⟨hr, rfl⟩⟩ ?_
  intro room1 h1 job _
  exact (runs_runJob env room1 job).mono fun room2 hr =>
    ⟨h1.tabled.runs hr, h1.sound.runs h1.tabled hr⟩

/-- A tick in which objects stay in their cells leaves the grid as it should be. -/
theorem Indexed.ensures_update {room : Room F} (h : Indexed room) {env : Env F}
    (hsettled : Settled room (env, .update)) :
    Ensures (room.update env) fun room' => Indexed room' ∧ GridExact room' := by
  refine Ensures.mono (P := fun room' => Indexed room' ∧ ∀ k r, room'.Holds k r → Complete room' k r)
    ?_ fun room' hroom => ⟨hroom.1, hroom.1.sound.exact hroom.2⟩
  refine Room.ensures_update env ?_ ?_
  · intro room1 hprocess
    have h1 := h.ensures_processJob env room1 hprocess
    have hstays : Meets (updateEntry env) Stays room1 room1.objects.toList := by
      unfold Settled at hsettled
      dsimp only at hsettled
      rw [hprocess] at hsettled
      exact hsettled
    exact (sound_entries env h1.sound h1.tabled hstays).mono fun room2 h2 => ⟨⟨h2.2.1, h2.1⟩, h2.2.2⟩
  · rintro room1 room2 ⟨h1, hcomplete⟩ ht
    refine ⟨h1.touches ht, fun k r hr => (hcomplete k r ?_).touches ht⟩
    unfold Holds at hr ⊢
    rw [← ht.objects]
    exact hr

theorem Indexed.next {room room' : Room F} (h : Indexed room) {a : Env F × RoomEvent F}
    (hsettled : Settled room a) (hnext : room.next a = some room') : Indexed room' := by
  obtain ⟨env, e⟩ := a
  obtain ⟨henabled, hexec⟩ := next_eq_some hnext
  cases e with
  | objectAdd objectCode position direction shooter owner broad =>
      obtain ⟨object, ha⟩ := adds_exec hexec
      exact h.adds ha
  | addPlayer =>
      obtain ⟨room1, ha, hroom⟩ := adds_addPlayer room
      obtain rfl := Except.ok.inj hexec
      rw [hroom]
      have h1 := h.adds ha
      refine ⟨h1.tabled.setGrid _, h1.sound.gridAdd ?_⟩
      unfold Holds
      rw [ha.objects, ha.id, Table.getElem?_insert, if_pos rfl]
  | objectRemove object =>
      obtain rfl := Except.ok.inj hexec
      exact ⟨h.tabled.removed object, h.sound.removed h.tabled henabled⟩
  | setMap map =>
      obtain rfl := Except.ok.inj hexec
      exact ⟨h.tabled.same rfl rfl rfl rfl,
        h.sound.frame rfl fun _ _ hr => ⟨hr, rfl⟩⟩
  | pushJob job =>
      obtain rfl := Except.ok.inj hexec
      exact ⟨h.tabled.same rfl rfl rfl rfl,
        h.sound.frame rfl fun _ _ hr => ⟨hr, rfl⟩⟩
  | processJob => exact h.ensures_processJob env room' hexec
  | startGame =>
      exact Room.ensures_startGame env (I := fun _ => Indexed) h
        (fun _ _ _ _ h1 ha => h1.adds ha) (fun _ _ _ h1 ht => h1.touches ht) room' hexec
  | update => exact (h.ensures_update hsettled room' hexec).1

theorem Indexed.new (roomId hostId : Int) (gameName gamePassWord mapHash : List UInt8) :
    Indexed (Room.new roomId hostId gameName gamePassWord mapHash : Room F) :=
  ⟨(Exact.new roomId hostId gameName gamePassWord mapHash).toTabled,
    GridSound.new roomId hostId gameName gamePassWord mapHash⟩

/-- Objects that are reported to collide are in the room. -/
theorem GridSound.colliders {room : Room F} (h : GridSound room) {heap : ObjRef → GameObject F}
    {p : ObjRef × ObjRef} (hp : p ∈ room.grid.findAllColliders heap) :
    (∃ k, room.Holds k p.1) ∧ ∃ k, room.Holds k p.2 := by
  obtain ⟨-, -, c, hc, k, k', -, hk, hk'⟩ := of_mem_findAllColliders h.full hp
  exact ⟨⟨k, (h.listed c hc k p.1 hk).1⟩, k', (h.listed c hc k' p.2 hk').1⟩

/-! ## Main results -/

/--
**After every tick the grid is exact**, in the games whose objects never leave a
cell that lists them; and what is reported to collide is in the room.
-/
theorem grid_index (roomId hostId : Int) (gameName gamePassWord mapHash : List UInt8)
    {room room' : Room F} {env : Env F}
    (h : Reachable ((Transition.ofFun Room.next).guarded Settled)
      (Room.new roomId hostId gameName gamePassWord mapHash) room)
    (hsettled : Settled room (env, .update)) (hupdate : room.next (env, .update) = some room') :
    GridExact room' ∧ ∀ heap, ∀ p ∈ room'.grid.findAllColliders heap,
      (∃ k, room'.Holds k p.1) ∧ ∃ k, room'.Holds k p.2 := by
  have hindexed : Indexed room :=
    h.invariant (Indexed.new roomId hostId gameName gamePassWord mapHash)
      fun room1 a room2 h1 hs => h1.next hs.1 hs.2
  obtain ⟨h', hexact⟩ := hindexed.ensures_update hsettled room' (next_eq_some hupdate).2
  exact ⟨hexact, fun _ _ hp => h'.sound.colliders hp⟩

/-- A path search that goes to the cell on the right. -/
def Env.right : Env ℚ := { Env.still with aStar := fun _ x y _ _ => some [(x + 1, y), (x, y)] }

/-- A probe at this place; it is told to go right, and removed afterwards. -/
def probeGame (x : ℚ) : List (Env ℚ × RoomEvent ℚ) :=
  [.setMap (some { mapWidth := 60, mapHeight := 60, height := [], playerPos := [] }),
    .objectAdd .probe ⟨x, 5, 0⟩ Vector3.zero none 0 true, .update,
    .pushJob (Job.ofObject 0 ⟨x, 5, 0⟩ ⟨x + 1, 5, 0⟩ .move), .update,
    .pushJob (Job.ofObject 0 Vector3.zero Vector3.zero .dead)].map fun e => (Env.right, e)

theorem grid_index_probeGame :
    ∃ room : Room ℚ, ¬ room.Live 0 ∧ GridExact room ∧ ∀ heap, ∀ p ∈ room.grid.findAllColliders heap,
      (∃ k, room.Holds k p.1) ∧ ∃ k, room.Holds k p.2 := by
  have hrun : ((probeGame 5).foldlM (guardedFun Room.next Settled) (Room.new 0 0 [] [] [])).map
      (fun room => (decide (Settled room (Env.right, .update)),
        (room.next (Env.right, .update)).map fun room' => decide (room'.Live 0)))
        = some (true, some false) := by decide +kernel
  obtain ⟨room, hroom, hobs⟩ := Option.map_eq_some_iff.mp hrun
  obtain ⟨hsettled, hobs⟩ := Prod.mk.inj hobs
  obtain ⟨room', hupdate, hlive⟩ := Option.map_eq_some_iff.mp hobs
  exact ⟨room', of_decide_eq_false hlive,
    grid_index 0 0 [] [] [] (Reachable.of_run_guarded hroom .refl) (of_decide_eq_true hsettled) hupdate⟩

/-- The probe's first step takes it from the cell of its zero bounds to the next. It stays listed
in the first one, also when it is gone. -/
theorem not_grid_index :
    ∃ room room' : Room ℚ, Reachable (Transition.ofFun Room.next) (Room.new 0 0 [] [] []) room
      ∧ room.next (Env.right, .update) = some room' ∧ ¬ room'.Live 0 ∧ ¬ GridExact room' := by
  have hrun : ((probeGame 25).foldlM Room.next (Room.new 0 0 [] [] [])).map
      (fun room => (room.next (Env.right, .update)).map fun room' =>
        (decide (room'.Live 0), decide (room'.grid.InRange (0, 0)), (room'.grid.cell (0, 0))[(0 : Int)]?))
        = some (some (false, true, some 0)) := by decide +kernel
  obtain ⟨room, hroom, hobs⟩ := Option.map_eq_some_iff.mp hrun
  obtain ⟨room', hupdate, hobs⟩ := Option.map_eq_some_iff.mp hobs
  obtain ⟨hlive, hobs⟩ := Prod.mk.inj hobs
  obtain ⟨hrange, hcell⟩ := Prod.mk.inj hobs
  refine ⟨room, room', Reachable.of_run hroom .refl, hupdate, of_decide_eq_false hlive, ?_⟩
  intro hexact
  exact of_decide_eq_false hlive ⟨0, ((hexact (0, 0) (of_decide_eq_true hrange) 0 0).mp hcell).1⟩

end StarCraftIocp.GridIndex
