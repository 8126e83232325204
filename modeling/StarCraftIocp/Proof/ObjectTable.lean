import StarCraftIocp.Proof.Game
import StarCraftIocp.Lib.Transition

/-!
# The table of a room's objects

`objects`, `idList` and `idCount` are kept apart, and each operation has to keep
them in step. Ids are only ever handed out upwards, so an object the room has
made keeps an id of its own for good: `Tabled`, which nothing can break.

The table itself holds more, as long as every job is for an object that is there
when the job's turn comes. `ProcessJob` looks an object up before it looks at what
the job wants, and the lookup makes an entry where there is none. A `SPAWN` job
carries the id -1, so it always leaves a null object behind, which the tick skips
and `RemoveRoom` does not.
-/

namespace StarCraftIocp.ObjectTable

open Outcome Room

variable {F : Type} [Scalar F]

/-- The ids of the objects a room has made, those that are gone included. -/
structure Tabled (room : Room F) : Prop where
  /-- Ids count up from zero. -/
  nonneg : 0 ≤ room.idCount
  /-- Objects got their ids from the counter. -/
  made : ∀ r < room.nextRef, 0 ≤ (room.heap r).id ∧ (room.heap r).id < room.idCount
  /-- No id was given twice. -/
  unique : ∀ r < room.nextRef, ∀ q < room.nextRef, (room.heap r).id = (room.heap q).id → r = q
  /-- An object is entered under its id. -/
  holds : ∀ id r, room.Holds id r → r < room.nextRef ∧ (room.heap r).id = id

namespace Tabled

section

omit [Scalar F]

variable {room room' : Room F}

/-- What changes no id and enters no object. -/
theorem frame (h : Tabled room) (hid : ∀ r, (room'.heap r).id = (room.heap r).id)
    (hobjects : ∀ id r, room'.Holds id r → room.Holds id r) (hcount : room'.idCount = room.idCount)
    (hnext : room'.nextRef = room.nextRef) : Tabled room' where
  nonneg := hcount ▸ h.nonneg
  made := by
    intro r hr
    rw [hid r, hcount]
    exact h.made r (hnext ▸ hr)
  unique := by
    intro r hr q hq heq
    rw [hid r, hid q] at heq
    exact h.unique r (hnext ▸ hr) q (hnext ▸ hq) heq
  holds := by
    intro id r hr
    rw [hid r, hnext]
    exact h.holds id r (hobjects id r hr)

/-- What changes no object, and neither the table nor the counter. -/
theorem same (h : Tabled room) (hobjects : room'.objects = room.objects) (hheap : room'.heap = room.heap)
    (hcount : room'.idCount = room.idCount) (hnext : room'.nextRef = room.nextRef) : Tabled room' := by
  refine h.frame (fun r => congrArg GameObject.id (congrFun hheap r)) ?_ hcount hnext
  intro id r hr
  unfold Holds at hr ⊢
  rw [hobjects] at hr
  exact hr

theorem touches (h : Tabled room) (ht : Touches room room') : Tabled room' := by
  refine h.frame (fun r => (ht.body r).id) ?_ ht.idCount ht.nextRef
  intro id r hr
  unfold Holds at hr ⊢
  rw [ht.objects] at hr
  exact hr

theorem setObject (h : Tabled room) {object : ObjRef} {o : GameObject F}
    (ho : o.id = (room.heap object).id) : Tabled (room.setObject object o) := by
  refine h.frame ?_ (fun _ _ hr => hr) rfl rfl
  intro r
  rw [heap_setObject]
  by_cases hr : r = object
  · rw [if_pos hr, ho, hr]
  · rw [if_neg hr]

/-- Of the objects after a new one has come, the others were there before. -/
theorem old {object : ObjRef} (ha : Adds room object room') {r : ObjRef} (hr : r < room'.nextRef)
    (hne : r ≠ object) : r < room.nextRef := by
  rw [ha.nextRef] at hr
  exact Nat.lt_of_le_of_ne (Nat.le_of_lt_succ hr) (ha.ref ▸ hne)

theorem adds (h : Tabled room) {object : ObjRef} (ha : Adds room object room') : Tabled room' where
  nonneg := by
    have := h.nonneg
    have := ha.idCount
    omega
  made := by
    intro r hr
    have := ha.idCount
    by_cases hobject : r = object
    · subst hobject
      rw [ha.id]
      exact ⟨h.nonneg, ha.idCount⟩
    · rw [(ha.body r hobject).id]
      have := h.made r (old ha hr hobject)
      omega
  unique := by
    -- the new object's id is beyond those of the others
    have hfresh : ∀ r, r < room'.nextRef → r ≠ object → (room'.heap r).id ≠ room.idCount := by
      intro r hr hne
      have := (h.made r (old ha hr hne)).2
      rw [(ha.body r hne).id]
      omega
    intro r hr q hq heq
    by_cases hro : r = object
    · by_cases hqo : q = object
      · exact hro.trans hqo.symm
      · rw [hro, ha.id] at heq
        exact absurd heq.symm (hfresh q hq hqo)
    · by_cases hqo : q = object
      · rw [hqo, ha.id] at heq
        exact absurd heq (hfresh r hr hro)
      · rw [(ha.body r hro).id, (ha.body q hqo).id] at heq
        exact h.unique r (old ha hr hro) q (old ha hq hqo) heq
  holds := by
    intro id r hr
    unfold Holds at hr
    rw [ha.objects, Table.getElem?_insert] at hr
    rw [ha.nextRef]
    by_cases hid : id = room.idCount
    · rw [if_pos hid] at hr
      have hobject : r = object := (Option.some.inj (Option.some.inj hr)).symm
      rw [hobject, ha.id, ha.ref]
      exact ⟨Nat.lt_succ_self _, hid.symm⟩
    · rw [if_neg hid] at hr
      have hr := h.holds id r hr
      have hne : r ≠ object := ha.ref ▸ Nat.ne_of_lt hr.1
      rw [(ha.body r hne).id]
      exact ⟨Nat.lt_succ_of_lt hr.1, hr.2⟩

/-- `objects[id]` makes null entries only. -/
theorem indexObject (h : Tabled room) (id : Int) : Tabled (room.indexObject id).2 := by
  refine h.frame ?_ (fun _ _ hr => of_holds_indexObject hr) (idCount_indexObject room id)
    (nextRef_indexObject room id)
  intro r
  rw [heap_indexObject]

theorem setGrid (h : Tabled room) (grid : GridManager F) : Tabled { room with grid := grid } :=
  h.same rfl rfl rfl rfl

end

variable {room room' : Room F}

theorem removed (h : Tabled room) (object : ObjRef) : Tabled (room.removed object) :=
  h.frame (fun _ => rfl) (fun _ _ hr => Table.of_getElem?_erase hr) rfl rfl

theorem runs (h : Tabled room) {env : Env F} {job : Job F} (hr : Runs env room job room') :
    Tabled room' := by
  cases hr with
  | moves _ _ _ ho =>
      refine h.setObject ?_
      cases GameObject.setsMove_setMove _ _ _ _ _ _ _ ho with
      | stops => rfl
      | walks _ _ => rfl
  | attacks _ _ _ => exact h.setObject rfl
  | removes _ _ _ => exact (h.setGrid _).removed _
  | spawns _ ha => exact ((h.indexObject _).adds ha).setGrid _
  | mines _ => exact h.indexObject _

theorem updates (h : Tabled room) {entry : Int × Option ObjRef} (hu : Updates room entry room') :
    Tabled room' := by
  cases hu with
  | skips _ => exact h
  | object _ _ hacts ht =>
      refine touches (setGrid ?_ _) ht
      cases hacts with
      | touches _ ht => exact Tabled.touches h ht
      | moves _ ho => exact h.setObject (GameObject.moves_move _ _ ho).id
      | dies _ => exact h.same rfl rfl rfl rfl

end Tabled

/-! ## The table exactly -/

/-- What `objects`, `idList` and `idCount` have to do with each other. -/
structure TableExact (room : Room F) : Prop where
  keys : ∀ id : Int, id ∈ room.objects ↔ id ∈ room.idList
  entry : ∀ (id : Int) v, room.objects[id]? = some v → ∃ object, v = some object ∧ (room.heap object).id = id
  free : room.idCount ∉ room.idList
  once : ∀ r < room.nextRef, ∀ q < room.nextRef, (room.heap r).id = (room.heap q).id → r = q
  /-- The counter has not overflowed. -/
  fits : room.idCount ≤ CInt.intMax

/-- The invariant behind it, with a bound on the counter. -/
structure Exact (bound : Int) (room : Room F) : Prop extends Tabled room where
  keys : ∀ id : Int, id ∈ room.objects ↔ id ∈ room.idList
  entry : ∀ (id : Int) v, room.objects[id]? = some v → ∃ object, v = some object
  fits : room.idCount ≤ bound

namespace Exact

section

omit [Scalar F]

variable {bound : Int} {room room' : Room F}

/-- The taken ids are those handed out so far. -/
theorem below (h : Exact bound room) {id : Int} (hid : id ∈ room.idList) : 0 ≤ id ∧ id < room.idCount := by
  obtain ⟨v, hv⟩ := Table.mem_iff_exists_getElem?.mp ((h.keys id).mpr hid)
  obtain ⟨object, rfl⟩ := h.entry id v hv
  obtain ⟨hobject, hid⟩ := h.holds id object hv
  exact hid ▸ h.made object hobject

theorem mono (h : Exact bound room) {bound' : Int} (hb : room.idCount ≤ bound') : Exact bound' room :=
  { h with fits := hb }

theorem tableExact (h : Exact CInt.intMax room) : TableExact room where
  keys := h.keys
  entry := by
    intro id v hv
    obtain ⟨object, rfl⟩ := h.entry id v hv
    exact ⟨object, rfl, (h.holds id object hv).2⟩
  free := by
    intro hmem
    have := h.below hmem
    omega
  once := h.unique
  fits := h.fits

theorem new (roomId hostId : Int) (gameName gamePassWord mapHash : List UInt8) [Scalar F] :
    Exact CInt.intMax (Room.new roomId hostId gameName gamePassWord mapHash : Room F) where
  nonneg := Int.le_refl _
  made := fun r hr => absurd hr (Nat.not_lt_zero r)
  unique := fun r hr => absurd hr (Nat.not_lt_zero r)
  holds := by
    intro id r hr
    unfold Holds at hr
    simp [Room.new] at hr
  keys := by
    intro id
    simp [Room.new]
  entry := by
    intro id v hv
    simp [Room.new] at hv
  fits := by
    change (0 : Int) ≤ CInt.intMax
    decide

/-- What changes no id and leaves the table alone. -/
theorem frame (h : Exact bound room) (hid : ∀ r, (room'.heap r).id = (room.heap r).id)
    (hobjects : room'.objects = room.objects) (hlist : room'.idList = room.idList)
    (hcount : room'.idCount = room.idCount) (hnext : room'.nextRef = room.nextRef) : Exact bound room' where
  toTabled := by
    refine h.toTabled.frame hid ?_ hcount hnext
    intro id r hr
    unfold Holds at hr ⊢
    rw [hobjects] at hr
    exact hr
  keys := by
    rw [hobjects, hlist]
    exact h.keys
  entry := by
    rw [hobjects]
    exact h.entry
  fits := hcount ▸ h.fits

theorem touches (h : Exact bound room) (ht : Touches room room') : Exact bound room' :=
  h.frame (fun r => (ht.body r).id) ht.objects ht.idList ht.idCount ht.nextRef

theorem setObject (h : Exact bound room) {object : ObjRef} {o : GameObject F}
    (ho : o.id = (room.heap object).id) : Exact bound (room.setObject object o) := by
  refine h.frame ?_ rfl rfl rfl rfl
  intro r
  rw [heap_setObject]
  by_cases hr : r = object
  · rw [if_pos hr, ho, hr]
  · rw [if_neg hr]

theorem idCount_adds (h : Exact bound room) {object : ObjRef} (ha : Adds room object room') :
    room'.idCount = room.idCount + 1 := by
  refine ha.idCount_succ ?_
  intro hmem
  have := (h.below hmem).2
  omega

theorem adds (h : Exact bound room) {object : ObjRef} (ha : Adds room object room') :
    Exact (bound + 1) room' where
  toTabled := h.toTabled.adds ha
  keys := by
    intro id
    rw [ha.objects, ha.idList, Table.set_mem_insert, Std.ExtTreeMap.mem_insert,
      Std.LawfulEqCmp.compare_eq_iff_eq, h.keys, eq_comm]
  entry := by
    intro id v hv
    rw [ha.objects, Table.getElem?_insert] at hv
    split at hv
    · exact ⟨object, (Option.some.inj hv).symm⟩
    · exact h.entry id v hv
  fits := by
    have := h.idCount_adds ha
    have := h.fits
    omega

theorem setGrid (h : Exact bound room) (grid : GridManager F) : Exact bound { room with grid := grid } :=
  h.frame (fun _ => rfl) rfl rfl rfl rfl

end

variable {bound : Int} {room room' : Room F}

theorem removed (h : Exact bound room) (object : ObjRef) : Exact bound (room.removed object) where
  toTabled := h.toTabled.removed object
  keys := by
    intro id
    change id ∈ room.objects.erase _ ↔ id ∈ room.idList.erase _
    rw [Table.set_mem_erase, Std.ExtTreeMap.mem_erase, Ne, Std.LawfulEqCmp.compare_eq_iff_eq, h.keys,
      eq_comm]
  entry := fun id v hv => h.entry id v (Table.of_getElem?_erase hv)
  fits := h.fits

end Exact

/-! ## Runs -/

/-- The jobs a room is made for: an object of a kind that has a spawner, or an order to an object
that is there. -/
def Admitted (room : Room F) (job : Job F) : Prop :=
  job.state = .spawn ∧ job.objectId = -1 ∧ job.objectCode.Spawns
    ∨ (job.state = .move ∨ job.state = .idle ∨ job.state = .dead) ∧ room.Live job.objectId

instance (room : Room F) (job : Job F) : Decidable (Admitted room job) :=
  inferInstanceAs (Decidable (_ ∨ _))

/-- The queue has admitted jobs only. -/
def Served (env : Env F) (room : Room F) : Prop :=
  Meets (runJob env) Admitted { room with jobQueue := [] } room.jobQueue

instance (env : Env F) (room : Room F) : Decidable (Served env room) :=
  inferInstanceAs (Decidable (Meets ..))

/-- Jobs are admitted ones when they are run, and ids do not run out. -/
def InScope (room : Room F) (a : Env F × RoomEvent F) : Prop :=
  match a.2 with
  | .objectAdd .. | .addPlayer => room.idCount < CInt.intMax
  | .startGame => room.idCount + 4 * room.indexPlayers.ingamePlayerIndex.toList.length ≤ CInt.intMax
  | .processJob | .update => Served a.1 room
  | .objectRemove _ | .setMap _ | .pushJob _ => True

instance (room : Room F) : (a : Env F × RoomEvent F) → Decidable (InScope room a)
  | (_, .objectAdd ..) | (_, .addPlayer) => inferInstanceAs (Decidable (_ < _))
  | (_, .startGame) => inferInstanceAs (Decidable (_ ≤ _))
  | (env, .processJob) | (env, .update) => inferInstanceAs (Decidable (Served env room))
  | (_, .objectRemove _) | (_, .setMap _) | (_, .pushJob _) => inferInstanceAs (Decidable True)

/-- The jobs that are run next. -/
def jobsOf (room : Room F) : RoomEvent F → List (Job F)
  | .processJob | .update => room.jobQueue
  | _ => []

/-- No `SPAWN` job is run. -/
def Clean (room : Room F) (a : Env F × RoomEvent F) : Prop :=
  InScope room a ∧ ∀ job ∈ jobsOf room a.2, job.state ≠ .spawn

instance (room : Room F) (a : Env F × RoomEvent F) : Decidable (Clean room a) :=
  inferInstanceAs (Decidable (_ ∧ _))

namespace Exact

variable {bound : Int} {room room' : Room F}

theorem runs (h : Exact bound room) {env : Env F} {job : Job F} (hlive : room.Live job.objectId)
    (hspawn : job.state ≠ .spawn) (hr : Runs env room job room') : Exact bound room' := by
  cases hr with
  | moves _ _ _ ho =>
      refine h.setObject ?_
      cases GameObject.setsMove_setMove _ _ _ _ _ _ _ ho with
      | stops => rfl
      | walks _ _ => rfl
  | attacks _ _ _ => exact h.setObject rfl
  | removes _ _ _ => exact (h.setGrid _).removed _
  | spawns hstate _ => exact absurd hstate hspawn
  | mines _ =>
      obtain ⟨object, hobject⟩ := hlive
      rw [indexObject_holds hobject]
      exact h

theorem updates (h : Exact bound room) {entry : Int × Option ObjRef} (hu : Updates room entry room') :
    Exact bound room' := by
  cases hu with
  | skips _ => exact h
  | object _ _ hacts ht =>
      refine touches (setGrid ?_ _) ht
      cases hacts with
      | touches _ ht => exact Exact.touches h ht
      | moves _ ho => exact h.setObject (GameObject.moves_move _ _ ho).id
      | dies _ => exact h.frame (fun _ => rfl) rfl rfl rfl rfl

theorem ensures_processJob (h : Exact bound room) {env : Env F} (hjobs : Served env room)
    (hspawn : ∀ job ∈ room.jobQueue, job.state ≠ .spawn) : Ensures (room.processJob env) (Exact bound) := by
  refine Ensures.foldlM_meets (h.frame (fun _ => rfl) rfl rfl rfl rfl) hjobs ?_
  intro room1 h1 job hjob hadmit
  refine (runs_runJob env room1 job).mono fun room2 hr => ?_
  rcases hadmit with ⟨hstate, _⟩ | ⟨_, hlive⟩
  · exact absurd hstate (hspawn job hjob)
  · exact h1.runs hlive (hspawn job hjob) hr

theorem ensures_startGame (h : Exact bound room) {env : Env F}
    (hcount : room.idCount + 4 * room.indexPlayers.ingamePlayerIndex.toList.length ≤ bound) :
    Ensures (room.startGame env) (Exact bound) := by
  refine (Room.ensures_startGame env (I := fun n => Exact (room.idCount + n))
    (h.mono (by omega)) ?_ fun n room1 room2 h1 ht => h1.touches ht).mono ?_
  · intro n room1 object room2 h1 ha
    have h2 := h1.adds ha
    exact h2.mono (by have := h2.fits; omega)
  · intro room1 h1
    exact h1.mono (by have := h1.fits; omega)

theorem ensures_update (h : Exact bound room) {env : Env F} (hjobs : Served env room)
    (hspawn : ∀ job ∈ room.jobQueue, job.state ≠ .spawn) : Ensures (room.update env) (Exact bound) := by
  refine Room.ensures_update env ?_ fun room1 room2 h1 ht => h1.touches ht
  intro room1 h1
  refine Ensures.foldlM (h.ensures_processJob hjobs hspawn room1 h1) ?_
  intro room2 h2 entry _
  exact (updates_updateEntry env room2 entry).mono fun room3 hu => h2.updates hu

theorem next (h : Exact CInt.intMax room) {a : Env F × RoomEvent F} (hclean : Clean room a)
    (hnext : room.next a = some room') : Exact CInt.intMax room' := by
  obtain ⟨env, e⟩ := a
  obtain ⟨_, hexec⟩ := next_eq_some hnext
  -- the counter goes up by one for a new object
  have hone : ∀ (object : ObjRef) (room1 : Room F), Adds room object room1 →
      room.idCount < CInt.intMax → Exact CInt.intMax room1 := by
    intro object room1 ha hcount
    refine (h.adds ha).mono ?_
    have := h.idCount_adds ha
    omega
  cases e with
  | objectAdd objectCode position direction shooter owner broad =>
      obtain ⟨object, ha⟩ := adds_exec hexec
      exact hone object room' ha hclean.1
  | addPlayer =>
      obtain ⟨room1, ha, hroom⟩ := adds_addPlayer room
      obtain rfl := Except.ok.inj hexec
      rw [hroom]
      exact (hone _ room1 ha hclean.1).setGrid _
  | objectRemove object =>
      obtain rfl := Except.ok.inj hexec
      exact h.removed object
  | setMap map =>
      obtain rfl := Except.ok.inj hexec
      exact h.frame (fun _ => rfl) rfl rfl rfl rfl
  | pushJob job =>
      obtain rfl := Except.ok.inj hexec
      exact h.frame (fun _ => rfl) rfl rfl rfl rfl
  | processJob => exact h.ensures_processJob hclean.1 hclean.2 room' hexec
  | startGame => exact h.ensures_startGame hclean.1 room' hexec
  | update => exact h.ensures_update hclean.1 hclean.2 room' hexec

end Exact

/-! ## `RemoveRoom` -/

/-- Objects are removed one by one; table and list lose their ids and no others. -/
theorem removeObjects_objects {room : Room F} {objects : List ObjRef} :
    ∃ room', (objects.map some).foldlM objectRemove room = .ok room' ∧ room'.heap = room.heap ∧
      (∀ id : Int, id ∈ room'.objects ↔ id ∈ room.objects ∧ ∀ r ∈ objects, (room.heap r).id ≠ id) ∧
      ∀ id : Int, id ∈ room'.idList ↔ id ∈ room.idList ∧ ∀ r ∈ objects, (room.heap r).id ≠ id := by
  induction objects generalizing room with
  | nil => exact ⟨room, rfl, rfl, fun id => by simp, fun id => by simp⟩
  | cons object objects ih =>
      obtain ⟨room', hok, hheap, hmem, hlist⟩ := @ih (room.removed object)
      refine ⟨room', hok, hheap, ?_, ?_⟩
      · intro id
        rw [hmem id]
        change (id ∈ room.objects.erase _ ∧ ∀ r ∈ objects, (room.heap r).id ≠ id) ↔ _
        rw [Std.ExtTreeMap.mem_erase, Ne, Std.LawfulEqCmp.compare_eq_iff_eq, List.forall_mem_cons]
        tauto
      · intro id
        rw [hlist id]
        change (id ∈ room.idList.erase _ ∧ ∀ r ∈ objects, (room.heap r).id ≠ id) ↔ _
        rw [Table.set_mem_erase, List.forall_mem_cons]
        tauto

/-- Without a null object in the table, `RemoveRoom` gets through and leaves nothing. -/
theorem removeObjects_of_entry {room : Room F} (h : ∀ (id : Int) v, room.objects[id]? = some v →
      ∃ object, v = some object ∧ (room.heap object).id = id) :
    ∃ room', room.removeObjects = .ok room' ∧ room'.objects = ∅ ∧
      ∀ id : Int, id ∈ room'.idList ↔ id ∈ room.idList ∧ id ∉ room.objects := by
  -- the objects of the table, with the pointers taken for granted
  let objects : List ObjRef := room.objects.toList.filterMap Prod.snd
  have hall : room.objects.toList.map Prod.snd = objects.map some := by
    have hentry : ∀ p ∈ room.objects.toList, ∃ object, p.2 = some object := by
      intro p hp
      obtain ⟨object, hobject, _⟩ := h p.1 p.2 (Std.ExtTreeMap.mem_toList_iff_getElem?_eq_some.mp hp)
      exact ⟨object, hobject⟩
    change _ = (room.objects.toList.filterMap Prod.snd).map some
    generalize room.objects.toList = l at hentry
    induction l with
    | nil => rfl
    | cons p l ih =>
        obtain ⟨object, hobject⟩ := hentry p List.mem_cons_self
        rw [List.map_cons, List.filterMap_cons_some hobject, List.map_cons, hobject,
          ih fun q hq => hentry q (List.mem_cons_of_mem p hq)]
  -- their ids are the keys
  have hids : ∀ id : Int, id ∈ room.objects ↔ ∃ r ∈ objects, (room.heap r).id = id := by
    intro id
    constructor
    · intro hid
      obtain ⟨v, hv⟩ := Table.mem_iff_exists_getElem?.mp hid
      obtain ⟨object, rfl, hobject⟩ := h id v hv
      refine ⟨object, List.mem_filterMap.mpr ⟨(id, some object), ?_, rfl⟩, hobject⟩
      exact Std.ExtTreeMap.mem_toList_iff_getElem?_eq_some.mpr hv
    · intro hr
      obtain ⟨r, hr, hid⟩ := hr
      obtain ⟨p, hp, hobject⟩ := List.mem_filterMap.mp hr
      have hv := Std.ExtTreeMap.mem_toList_iff_getElem?_eq_some.mp hp
      obtain ⟨object, hsome, hkey⟩ := h p.1 p.2 hv
      obtain rfl := Option.some.inj (hsome.symm.trans hobject)
      rw [← hid, hkey]
      exact Table.mem_iff_exists_getElem?.mpr ⟨_, hv⟩
  obtain ⟨room', hok, -, hmem, hlist⟩ := @removeObjects_objects F _ room objects
  refine ⟨room', ?_, ?_, ?_⟩
  · unfold Room.removeObjects
    rw [hall]
    exact hok
  · refine Std.ExtTreeMap.eq_empty_iff_forall_not_mem.mpr ?_
    intro id hid
    obtain ⟨hid, hne⟩ := (hmem id).mp hid
    obtain ⟨r, hr, heq⟩ := (hids id).mp hid
    exact hne r hr heq
  · intro id
    rw [hlist id, hids id]
    simp only [not_exists, not_and]

theorem TableExact.removeObjects {room : Room F} (h : TableExact room) :
    ∃ room', room.removeObjects = .ok room' ∧ room'.objects = ∅ := by
  obtain ⟨room', hok, hobjects, -⟩ := removeObjects_of_entry h.entry
  exact ⟨room', hok, hobjects⟩

/-! ## Main results -/

/--
**The table stays clean as long as no `SPAWN` job is run**: its keys are the taken
ids, every entry is an object under its own id, the next id is free, no id is given
twice, and `RemoveRoom` gets through.
-/
theorem object_table (roomId hostId : Int) (gameName gamePassWord mapHash : List UInt8) {room : Room F}
    (h : Reachable ((Transition.ofFun Room.next).guarded Clean)
      (Room.new roomId hostId gameName gamePassWord mapHash) room) :
    TableExact room ∧ ∃ room', room.removeObjects = .ok room' ∧ room'.objects = ∅ := by
  have hexact : Exact CInt.intMax room :=
    h.invariant (Exact.new roomId hostId gameName gamePassWord mapHash)
      fun room1 a room2 h1 hs => h1.next hs.1 hs.2
  exact ⟨hexact.tableExact, hexact.tableExact.removeObjects⟩

/-- A player and a mineral; the player is told to move, and the mineral is removed. -/
def orders : List (Env ℚ × RoomEvent ℚ) :=
  [.addPlayer, .objectAdd .mineral ⟨5, 5, 0⟩ Vector3.zero none 0 true,
    .setMap (some { mapWidth := 60, mapHeight := 60, height := [], playerPos := [] }),
    .pushJob (Job.ofObject 0 ⟨30, 30, 0⟩ ⟨40, 30, 0⟩ .move), .update,
    .pushJob (Job.ofObject 1 Vector3.zero Vector3.zero .dead), .update].map fun e => (Env.still, e)

theorem object_table_orders :
    ∃ room : Room ℚ, room.Live 0 ∧ ¬ room.Live 1 ∧ TableExact room
      ∧ ∃ room', room.removeObjects = .ok room' ∧ room'.objects = ∅ := by
  have hrun : (orders.foldlM (guardedFun Room.next Clean) (Room.new 0 0 [] [] [])).map
      (fun room => (decide (room.Live 0), decide (room.Live 1))) = some (true, false) := by
    decide +kernel
  obtain ⟨room, hroom, hobs⟩ := Option.map_eq_some_iff.mp hrun
  obtain ⟨h0, h1⟩ := Prod.mk.inj hobs
  exact ⟨room, of_decide_eq_true h0, of_decide_eq_false h1,
    object_table 0 0 [] [] [] (Reachable.of_run_guarded (l := orders) hroom .refl)⟩

/-- One mineral is spawned. `RemoveRoom` then crashes on the null object beside it. -/
theorem not_object_table :
    ∃ room : Room ℚ, Reachable ((Transition.ofFun Room.next).guarded InScope) (Room.new 0 0 [] [] []) room
      ∧ ¬ TableExact room ∧ room.removeObjects = .error .nullObject := by
  have hrun : (([.pushJob { Job.ofObject (-1) ⟨5, 5, 0⟩ Vector3.zero .spawn with objectCode := .mineral },
      .processJob].map fun e => (Env.still, e)).foldlM
      (guardedFun Room.next InScope) (Room.new 0 0 [] [] [])).map (fun room =>
        (room.objects.getD (-1) (some 0), room.objects.toList.map Prod.snd))
        = some (none, [none, some 0]) := by
    decide +kernel
  obtain ⟨room, hroom, hobs⟩ := Option.map_eq_some_iff.mp hrun
  obtain ⟨hnull, hlist⟩ := Prod.mk.inj hobs
  refine ⟨room, Reachable.of_run_guarded hroom .refl, ?_, ?_⟩
  · intro h
    have hentry : room.objects[(-1 : Int)]? = some none := by
      rw [Std.ExtTreeMap.getD_eq_getD_getElem?] at hnull
      cases hget : room.objects[(-1 : Int)]? with
      | none =>
          rw [hget] at hnull
          cases hnull
      | some v =>
          rw [hget] at hnull
          exact congrArg some hnull
    obtain ⟨object, hobject, _⟩ := h.entry (-1) none hentry
    cases hobject
  · unfold Room.removeObjects
    rw [hlist]
    rfl

end StarCraftIocp.ObjectTable
