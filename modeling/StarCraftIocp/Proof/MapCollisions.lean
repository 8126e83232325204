import StarCraftIocp.Lib.ExactScalar
import StarCraftIocp.Proof.Bounds
import StarCraftIocp.Proof.Broadphase
import StarCraftIocp.Proof.GridIndex

/-!
# Collisions beyond the grid

A room's grid is made before a map is chosen, and is 60 by 60 wherever the game is
played. An object whose bounds begin beyond is in no cell: the range of its cells
is clamped to an empty one. So two such objects are not compared, unless one of
them is still listed where it was before, since a tick takes no object out of a
cell. Numbers are exact, from any ordered field.
-/

namespace StarCraftIocp.MapCollisions

open Outcome Room ObjectTable GridManager

/-! ## What a tick does to the cells -/

section

variable {F : Type} [Scalar F]

/-- The cell lists the object. -/
def Listed (room : Room F) (c : Int × Int) (k : Int) (r : ObjRef) : Prop := (room.grid.cell c)[k]? = some r

/-- The bounds of an object are the same as before, and so are the cells that list it. -/
structure Kept (room room' : Room F) (k : Int) (r : ObjRef) : Prop where
  bounds : (room'.heap r).bounds = (room.heap r).bounds
  listed : ∀ c, room.grid.InRange c → (Listed room' c k r ↔ Listed room c k r)

/-- The object's bounds, as they are afterwards, overlap the cell, or the cell listed it before. -/
def Shown (room room' : Room F) (c : Int × Int) (k : Int) (r : ObjRef) : Prop :=
  c ∈ room.grid.getOverlappingCells (room'.heap r).bounds ∨ Listed room c k r

/-- An object that has had its turn is listed in the cells of its bounds, and wherever it was before. -/
def Entered (room room' : Room F) (k : Int) (r : ObjRef) : Prop :=
  ∀ c, room.grid.InRange c → (Listed room' c k r ↔ Shown room room' c k r)

variable {room room' room'' : Room F}

omit [Scalar F] in
theorem Kept.refl (room : Room F) (k : Int) (r : ObjRef) : Kept room room k r := ⟨rfl, fun _ _ => Iff.rfl⟩

omit [Scalar F] in
theorem Kept.trans {k : Int} {r : ObjRef} (h : Kept room room' k r) (hshape : SameShape room.grid room'.grid)
    (h' : Kept room' room'' k r) : Kept room room'' k r where
  bounds := h'.bounds.trans h.bounds
  listed := fun c hc => (h'.listed c (hshape.inRange.mpr hc)).trans (h.listed c hc)

/-- First the object has its turn, then others have theirs. -/
theorem Entered.kept {k : Int} {r : ObjRef} (h : Entered room room' k r)
    (hshape : SameShape room.grid room'.grid)
    (h' : Kept room' room'' k r) : Entered room room'' k r := by
  intro c hc
  unfold Shown
  rw [h'.listed c (hshape.inRange.mpr hc), h'.bounds]
  exact h c hc

/-- First others have their turn, then the object has its own. -/
theorem Kept.entered {k : Int} {r : ObjRef} (h : Kept room room' k r)
    (hshape : SameShape room.grid room'.grid)
    (h' : Entered room' room'' k r) : Entered room room'' k r := by
  intro c hc
  refine (h' c (hshape.inRange.mpr hc)).trans ?_
  unfold Shown
  rw [h.listed c hc, hshape.getOverlappingCells]

/-- Acting changes neither the grid nor the bounds of others. -/
theorem acts_frame {object : ObjRef} (hacts : room.Acts object room') : room'.grid = room.grid ∧
    ∀ r, r ≠ object → (room'.heap r).bounds = (room.heap r).bounds := by
  cases hacts with
  | touches _ ht => exact ⟨ht.grid, fun r _ => (ht.body r).bounds⟩
  | moves _ _ =>
      refine ⟨rfl, fun r hr => ?_⟩
      rw [heap_setObject, if_neg hr]
  | dies _ => exact ⟨rfl, fun _ _ => rfl⟩

/-- `MoveObject` takes the object out of the cells of its new bounds, and puts it there again. -/
theorem regrid_spec (h : room.grid.Full) (object : ObjRef) : SameShape room.grid (room.regrid object).grid ∧
    (∀ k r, k ≠ (room.heap object).id → Kept room (room.regrid object) k r) ∧
      Entered room (room.regrid object) (room.heap object).id object := by
  obtain ⟨hshape, hcell⟩ := moveObject_spec h object (room.heap object).id (room.heap object).bounds
    (room.heap object).bounds
  refine ⟨hshape, ?_, ?_⟩
  · intro k r hk
    refine ⟨rfl, fun c hc => ?_⟩
    have hsame := hcell c hc k
    rw [if_neg hk] at hsame
    exact Eq.congr_left hsame
  · intro c hc
    have hnew := hcell c hc (room.heap object).id
    rw [if_pos rfl] at hnew
    refine (Eq.congr_left hnew).trans ?_
    unfold Shown
    change _ ↔ c ∈ room.grid.getOverlappingCells (room.heap object).bounds ∨ _
    by_cases hover : c ∈ room.grid.getOverlappingCells (room.heap object).bounds
    · rw [if_pos hover]
      exact iff_of_true rfl (.inl hover)
    · rw [if_neg hover, if_neg hover]
      exact (or_iff_right hover).symm

omit [Scalar F] in
theorem Kept.touches {k : Int} {r : ObjRef} (ht : Touches room room') : Kept room room' k r := by
  refine ⟨(ht.body r).bounds, fun c _ => ?_⟩
  unfold Listed
  rw [ht.grid]

omit [Scalar F] in
/-- What leaves the grid alone leaves its shape alone. -/
theorem sameShape_of_eq {g g' : GridManager F} (h : g' = g) : SameShape g g' := by
  subst h
  exact ⟨rfl, rfl, rfl, rfl, id⟩

/-- A pass through the loop over the objects enters the object of the entry, and no other. -/
theorem entered_updates (h : room.grid.Full) (htable : Tabled room) {entry : Int × Option ObjRef}
    (hentry : room.objects[entry.1]? = some entry.2) (hu : Updates room entry room') :
    SameShape room.grid room'.grid ∧ ∀ k r, 0 ≤ k → room.Holds k r →
      (entry.1 = k → Entered room room' k r) ∧ (entry.1 ≠ k → Kept room room' k r) := by
  obtain ⟨key, value⟩ := entry
  cases hu with
  | skips hid =>
      refine ⟨sameShape_of_eq rfl, fun k r hk _ => ⟨?_, fun _ => .refl _ _ _⟩⟩
      intro heq
      have : (-1 : Int) = k := hid.symm.trans heq
      omega
  | @object object room1 _ hid hobject hacts ht =>
      obtain rfl : value = some object := hobject
      have hkey := (htable.holds key object hentry).2
      obtain ⟨hgrid, hbounds⟩ := acts_frame hacts
      have hshape1 := sameShape_of_eq hgrid
      obtain ⟨hshape2, hothers, hself⟩ := regrid_spec (hshape1.full h) object
      have hid1 : (room1.heap object).id = key := (hacts.objects.2 object).trans hkey
      rw [hid1] at hothers hself
      have hshape3 := sameShape_of_eq ht.grid
      refine ⟨(hshape1.trans hshape2).trans hshape3, fun k r _ hr => ⟨?_, ?_⟩⟩
      · intro heq
        obtain rfl : key = k := heq
        have hsame : r = object := by
          have := (show room.Holds key r from hr).symm.trans hentry
          simpa using this
        rw [hsame]
        intro c hc
        refine (hself.kept hshape2 (.touches ht) c (hshape1.inRange.mpr hc)).trans ?_
        unfold Shown Listed
        rw [hgrid]
      · intro hne
        have hother : r ≠ object := by
          intro hro
          exact hne (hkey.symm.trans (hro ▸ (htable.holds k r hr).2))
        have hkept : Kept room room1 k r := by
          refine ⟨hbounds r hother, fun c _ => ?_⟩
          unfold Listed
          rw [hgrid]
        exact (hkept.trans hshape1 (hothers k r (Ne.symm hne))).trans (hshape1.trans hshape2) (.touches ht)

/-- The loop over some of the objects enters those and leaves the others alone. -/
theorem entered_loop (env : Env F) {l : List (Int × Option ObjRef)} (hl : l.Pairwise fun e e' => e.1 ≠ e'.1)
    (h : room.grid.Full) (htable : Tabled room) (hentries : ∀ e ∈ l, room.objects[e.1]? = some e.2)
    (hok : l.foldlM (updateEntry env) room = .ok room') :
    SameShape room.grid room'.grid ∧ room'.objects = room.objects ∧ Tabled room' ∧ ∀ k r, 0 ≤ k →
    room.Holds k r →
      ((∃ e ∈ l, e.1 = k) → Entered room room' k r) ∧ ((∀ e ∈ l, e.1 ≠ k) → Kept room room' k r) := by
  induction l generalizing room with
  | nil =>
      obtain rfl := Except.ok.inj hok
      refine ⟨sameShape_of_eq rfl, rfl, htable, fun k r _ _ => ⟨?_, fun _ => .refl _ _ _⟩⟩
      intro hin
      obtain ⟨e, he, -⟩ := hin
      cases he
  | cons e l ih =>
      rw [List.foldlM_cons] at hok
      obtain ⟨room1, h1, hok⟩ := bind_eq_ok.mp hok
      obtain ⟨hhead, htail⟩ := List.pairwise_cons.mp hl
      have hu := updates_updateEntry env room e room1 h1
      obtain ⟨hshape1, hstep⟩ := entered_updates h htable (hentries e List.mem_cons_self) hu
      have hobjects1 := hu.objects.1
      obtain ⟨hshape2, hobjects2, htable2, hrest⟩ := ih htail (hshape1.full h) (htable.updates hu)
        (fun e' he' => hobjects1 ▸ hentries e' (List.mem_cons_of_mem e he')) hok
      refine ⟨hshape1.trans hshape2, hobjects2.trans hobjects1, htable2, fun k r hk hr => ?_⟩
      have hr1 : room1.Holds k r := by
        unfold Holds at hr ⊢
        rw [hobjects1]
        exact hr
      obtain ⟨henter1, hkeep1⟩ := hstep k r hk hr
      obtain ⟨henter2, hkeep2⟩ := hrest k r hk hr1
      refine ⟨?_, ?_⟩
      · intro hin
        obtain ⟨e', he', hek⟩ := hin
        -- the object's turn is now or later, and not both: no key is there twice
        rcases List.mem_cons.mp he' with rfl | he'
        · exact (henter1 hek).kept hshape1 (hkeep2 fun e2 he2 heq => hhead e2 he2 (hek.trans heq.symm))
        · have hne : e.1 ≠ k := fun heq => hhead e' he' (heq.trans hek.symm)
          exact (hkeep1 hne).entered hshape1 (henter2 ⟨e', he', hek⟩)
      · intro hnone
        have hne := hnone e List.mem_cons_self
        exact (hkeep1 hne).trans hshape1 (hkeep2 fun e' he' => hnone e' (List.mem_cons_of_mem e he'))

/-- After the `MoveObject` calls of a tick, every object of the room has been entered. -/
theorem entered_entries (env : Env F) (h : room.grid.Full) (htable : Tabled room)
    (hok : room.objects.toList.foldlM (updateEntry env) room = .ok room') :
    SameShape room.grid room'.grid ∧ Tabled room' ∧ ∀ k r, room'.Holds k r → Entered room room' k r := by
  obtain ⟨hshape, hobjects, htable', hall⟩ := entered_loop env (Table.pairwise_toList room.objects) h htable
    (fun e he => Std.ExtTreeMap.mem_toList_iff_getElem?_eq_some.mp he) hok
  refine ⟨hshape, htable', fun k r hr => ?_⟩
  have hr0 : room.Holds k r := by
    unfold Holds at hr ⊢
    rw [← hobjects]
    exact hr
  obtain ⟨hlt, hid⟩ := htable.holds k r hr0
  have hk : 0 ≤ k := hid ▸ (htable.made r hlt).1
  exact (hall k r hk hr0).1 ⟨(k, some r), Std.ExtTreeMap.mem_toList_iff_getElem?_eq_some.mpr hr0, rfl⟩

/-! ## The tick -/

/-- The first part of a tick: the room after its jobs, and after the `MoveObject` calls. -/
def moved (env : Env F) (room : Room F) : Except Crash (Room F × Room F) := do
  let room0 ← room.processJob env
  let room1 ← room0.objects.toList.foldlM (updateEntry env) room0
  return (room0, room1)

theorem moved_eq_ok {env : Env F} {room0 room1 : Room F} (h : moved env room = .ok (room0, room1)) :
    room.processJob env = .ok room0 ∧ room0.objects.toList.foldlM (updateEntry env) room0 = .ok room1 := by
  obtain ⟨room0', hjobs, h⟩ := bind_eq_ok.mp h
  obtain ⟨room1', hmoves, h⟩ := bind_eq_ok.mp h
  obtain ⟨rfl, rfl⟩ := Prod.mk.inj (Except.ok.inj h)
  exact ⟨hjobs, hmoves⟩

/-- The rest of the tick goes through the pairs that the grid reports then. -/
theorem update_of_moved {env : Env F} {room0 room1 : Room F} (h : moved env room = .ok (room0, room1)) :
    room.update env = (do
      let room ← (room1.grid.findAllColliders room1.heap).foldlM handleCollision room1
      return { room with currentRoomTime := room.currentRoomTime + env.elapsed }) := by
  obtain ⟨hjobs, hmoves⟩ := moved_eq_ok h
  unfold Room.update
  rw [hjobs, ok_bind, hmoves, ok_bind]
  rfl

/-! ## The grid in any run -/

/-- The grid has the size it was made with, and lists objects the room has made, under their ids. -/
structure Laid (room : Room F) : Prop where
  tabled : Tabled room
  shape : SameShape (GridManager.new (Scalar.lit 60) (Scalar.lit 60) 3 3) room.grid
  listed : ∀ c, room.grid.InRange c → ∀ k r, Listed room c k r → r < room.nextRef ∧ (room.heap r).id = k

namespace Laid

theorem full (h : Laid room) : room.grid.Full := h.shape.full (full_new ..)

/-- What leaves the grid and the ids alone. -/
theorem frame (h : Laid room) (htabled : Tabled room') (hgrid : room'.grid = room.grid)
    (hnext : room.nextRef ≤ room'.nextRef) (hid : ∀ r < room.nextRef, (room'.heap r).id = (room.heap r).id) :
    Laid room' where
  tabled := htabled
  shape := hgrid ▸ h.shape
  listed := by
    rw [hgrid]
    intro c hc k r hr
    unfold Listed at hr
    rw [hgrid] at hr
    obtain ⟨hlt, hk⟩ := h.listed c hc k r hr
    exact ⟨Nat.lt_of_lt_of_le hlt hnext, (hid r hlt).trans hk⟩

/-- What changes no object, neither the table nor the counter, and not the grid. -/
theorem same (h : Laid room) (hobjects : room'.objects = room.objects) (hheap : room'.heap = room.heap)
    (hgrid : room'.grid = room.grid) (hcount : room'.idCount = room.idCount)
    (hnext : room'.nextRef = room.nextRef) : Laid room' :=
  h.frame (h.tabled.same hobjects hheap hcount hnext) hgrid (Nat.le_of_eq hnext.symm) fun r _ =>
    congrArg GameObject.id (congrFun hheap r)

theorem touches (h : Laid room) (ht : Touches room room') : Laid room' :=
  h.frame (h.tabled.touches ht) ht.grid (Nat.le_of_eq ht.nextRef.symm) fun r _ => (ht.body r).id

theorem setObject (h : Laid room) {object : ObjRef} {o : GameObject F} (ho : o.id = (room.heap object).id) :
    Laid (room.setObject object o) := by
  refine h.frame (h.tabled.setObject ho) rfl (Nat.le_refl _) fun r _ => ?_
  rw [heap_setObject]
  by_cases hr : r = object
  · rw [if_pos hr, ho, hr]
  · rw [if_neg hr]

theorem adds (h : Laid room) {object : ObjRef} (ha : Adds room object room') : Laid room' := by
  refine h.frame (h.tabled.adds ha) ha.grid (ha.nextRef ▸ Nat.le_succ _) fun r hr => (ha.body r ?_).id
  rw [ha.ref]
  exact Nat.ne_of_lt hr

theorem indexObject (h : Laid room) (id : Int) : Laid (room.indexObject id).2 := by
  refine h.frame (h.tabled.indexObject id) ?_ (Nat.le_of_eq (nextRef_indexObject room id).symm) fun r _ => ?_
  · unfold Room.indexObject
    dsimp only
    split <;> rfl
  · rw [heap_indexObject]

/-- The grid is changed: what it lists then it listed before, or is an object the room has made. -/
theorem setGrid (h : Laid room) {grid : GridManager F} (hshape : SameShape room.grid grid)
    (hlisted : ∀ c, room.grid.InRange c → ∀ k r, (grid.cell c)[k]? = some r →
      Listed room c k r ∨ r < room.nextRef ∧ (room.heap r).id = k) : Laid { room with grid := grid } where
  tabled := h.tabled.setGrid grid
  shape := h.shape.trans hshape
  listed := by
    intro c hc k r hr
    rcases hlisted c (hshape.inRange.mp hc) k r hr with hold | hmade
    · exact h.listed c (hshape.inRange.mp hc) k r hold
    · exact hmade

theorem gridRemove (h : Laid room) (object : ObjRef) : Laid (room.gridRemove object) := by
  obtain ⟨hshape, hcell⟩ := removeObject_spec h.full (room.heap object).id (room.heap object).bounds
  refine h.setGrid hshape fun c hc k r hr => .inl ?_
  rw [hcell c hc k] at hr
  split at hr
  · cases hr
  · exact hr

theorem gridAdd (h : Laid room) {object : ObjRef} (hobject : object < room.nextRef) :
    Laid (room.gridAdd object) := by
  obtain ⟨hshape, hcell⟩ := addObject_spec h.full object (room.heap object).id (room.heap object).bounds
  refine h.setGrid hshape fun c hc k r hr => ?_
  rw [hcell c hc k] at hr
  split at hr
  · rename_i hnew
    obtain rfl := Option.some.inj hr
    exact .inr ⟨hobject, hnew.2.symm⟩
  · exact .inl hr

theorem removed (h : Laid room) (object : ObjRef) : Laid (room.removed object) :=
  (h.gridRemove object).frame (h.tabled.removed object) rfl (Nat.le_refl _) fun _ _ => rfl

theorem regrid (h : Laid room) {object : ObjRef} (hobject : object < room.nextRef) :
    Laid (room.regrid object) := by
  obtain ⟨hshape, hcell⟩ := moveObject_spec h.full object (room.heap object).id (room.heap object).bounds
    (room.heap object).bounds
  refine h.setGrid hshape fun c hc k r hr => ?_
  rw [hcell c hc k] at hr
  by_cases hk : k = (room.heap object).id
  · rw [if_pos hk] at hr
    by_cases hover : c ∈ room.grid.getOverlappingCells (room.heap object).bounds
    · rw [if_pos hover] at hr
      obtain rfl := Option.some.inj hr
      exact .inr ⟨hobject, hk.symm⟩
    · rw [if_neg hover, if_neg hover] at hr
      exact .inl hr
  · rw [if_neg hk] at hr
    exact .inl hr

theorem runs (h : Laid room) {env : Env F} {job : Job F} (hr : Runs env room job room') : Laid room' := by
  cases hr with
  | moves _ _ _ ho =>
      refine h.setObject ?_
      cases GameObject.setsMove_setMove _ _ _ _ _ _ _ ho with
      | stops => rfl
      | walks _ _ => rfl
  | attacks _ _ _ => exact h.setObject rfl
  | removes _ _ _ => exact (h.gridRemove _).removed _
  | spawns _ ha =>
      refine ((h.indexObject _).adds ha).gridAdd ?_
      rw [ha.ref, ha.nextRef]
      exact Nat.lt_succ_self _
  | mines _ => exact h.indexObject _

theorem updates (h : Laid room) {entry : Int × Option ObjRef} (hentry : room.objects[entry.1]? = some entry.2)
    (hu : Updates room entry room') : Laid room' := by
  cases hu with
  | skips _ => exact h
  | @object object room1 _ _ hobject hacts ht =>
      have hlt : object < room.nextRef :=
        (h.tabled.holds entry.1 object (hentry.trans (congrArg some hobject))).1
      refine touches (regrid ?_ ?_) ht
      · cases hacts with
        | touches _ ht => exact Laid.touches h ht
        | moves _ ho => exact h.setObject (GameObject.moves_move _ _ ho).id
        | dies _ => exact h.same rfl rfl rfl rfl rfl
      · cases hacts with
        | touches _ ht => exact ht.nextRef ▸ hlt
        | moves _ _ => exact hlt
        | dies _ => exact hlt

theorem ensures_processJob (h : Laid room) (env : Env F) : Ensures (room.processJob env) Laid := by
  refine Room.ensures_processJob env (C := fun _ _ => True) ?_ (Meets.of_forall fun _ _ => trivial) ?_
  · exact h.same rfl rfl rfl rfl rfl
  · intro room1 job room2 h1 _ hr
    exact h1.runs hr

theorem ensures_entries (h : Laid room) (env : Env F) :
    Ensures (room.objects.toList.foldlM (updateEntry env) room) Laid := by
  refine Ensures.mono (P := fun room1 => Laid room1 ∧ room1.objects = room.objects) ?_ fun _ h1 => h1.1
  refine Ensures.foldlM ⟨h, rfl⟩ ?_
  intro room1 h1 entry hentry
  refine (updates_updateEntry env room1 entry).mono fun room2 hu => ?_
  have hget : room1.objects[entry.1]? = some entry.2 := by
    rw [h1.2]
    exact Std.ExtTreeMap.mem_toList_iff_getElem?_eq_some.mp hentry
  exact ⟨h1.1.updates hget hu, hu.objects.1.trans h1.2⟩

theorem next {a : Env F × RoomEvent F} (h : Laid room) (hnext : room.next a = some room') : Laid room' := by
  obtain ⟨env, e⟩ := a
  obtain ⟨-, hexec⟩ := next_eq_some hnext
  cases e with
  | objectAdd objectCode position direction shooter owner broad =>
      obtain ⟨object, ha⟩ := adds_exec hexec
      exact h.adds ha
  | addPlayer =>
      obtain ⟨room1, ha, hroom⟩ := adds_addPlayer room
      obtain rfl := Except.ok.inj hexec
      rw [hroom]
      refine (h.adds ha).gridAdd ?_
      rw [ha.ref, ha.nextRef]
      exact Nat.lt_succ_self _
  | objectRemove object =>
      obtain rfl := Except.ok.inj hexec
      exact h.removed object
  | setMap map =>
      obtain rfl := Except.ok.inj hexec
      exact h.same rfl rfl rfl rfl rfl
  | pushJob job =>
      obtain rfl := Except.ok.inj hexec
      exact h.same rfl rfl rfl rfl rfl
  | processJob => exact h.ensures_processJob env room' hexec
  | startGame =>
      exact Room.ensures_startGame env (I := fun _ => Laid) h (fun _ _ _ _ h1 ha => h1.adds ha)
        (fun _ _ _ h1 ht => h1.touches ht) room' hexec
  | update =>
      refine Room.ensures_update env (I := Laid) ?_ (fun _ _ h2 ht => h2.touches ht) room' hexec
      intro room1 h1
      exact (h.ensures_processJob env room1 h1).ensures_entries env

theorem new (roomId hostId : Int) (gameName gamePassWord mapHash : List UInt8) :
    Laid (Room.new roomId hostId gameName gamePassWord mapHash : Room F) where
  tabled := (Exact.new roomId hostId gameName gamePassWord mapHash).toTabled
  shape := sameShape_of_eq rfl
  listed := by
    intro c hc k r hr
    unfold Listed at hr
    rw [show (Room.new roomId hostId gameName gamePassWord mapHash : Room F).grid.cell c = ∅ from
      cell_new _ _ _ _ hc] at hr
    simp at hr

end Laid

/-- What the grid reports of two objects, in terms of where they are listed before the loop. -/
theorem mem_findAllColliders_iff {room room' : Room F} {env : Env F} (h : Laid room)
    (hmoves : room.objects.toList.foldlM (updateEntry env) room = .ok room') {ka kb : Int}
    {a b : ObjRef} (hlt : a < b)
    (hA : room'.Holds ka a) (hB : room'.Holds kb b) (hmeet : Meet room'.heap a b) :
    (a, b) ∈ room'.grid.findAllColliders room'.heap ↔
      ∃ c, room.grid.InRange c ∧ Shown room room' c ka a ∧ Shown room room' c kb b := by
  obtain ⟨hshape, htable', hentered⟩ := entered_entries env h.full h.tabled hmoves
  have h' := h.ensures_entries env room' hmoves
  constructor
  · intro hfound
    obtain ⟨-, -, c, hc, k, k', -, hk, hk'⟩ := of_mem_findAllColliders h'.full hfound
    have hca := hshape.inRange.mp hc
    -- a cell lists an object under its id, which is its key in the table
    obtain rfl : ka = k := (htable'.holds ka a hA).2.symm.trans (h'.listed c hc k a hk).2
    obtain rfl : kb = k' := (htable'.holds kb b hB).2.symm.trans (h'.listed c hc k' b hk').2
    exact ⟨c, hca, (hentered ka a hA c hca).mp hk, (hentered kb b hB c hca).mp hk'⟩
  · intro hshown
    obtain ⟨c, hc, ha, hb⟩ := hshown
    exact mem_findAllColliders h'.full hlt hmeet (hshape.inRange.mpr hc) ((hentered ka a hA c hc).mpr ha)
      ((hentered kb b hB c hc).mpr hb)

end

/-! ## Sizes -/

variable {F : Type} [ExactScalar F] [LinearOrder F]

/-- No object of the room has a negative size. -/
def Sized (room : Room F) : Prop := ∀ r, 0 ≤ (room.heap r).width ∧ 0 ≤ (room.heap r).height

namespace Sized

variable {room room' : Room F}

theorem touches (h : Sized room) (ht : Touches room room') : Sized room' := by
  intro r
  rw [(ht.body r).width, (ht.body r).height]
  exact h r

theorem setObject (h : Sized room) (object : ObjRef) {o : GameObject F} (ho : 0 ≤ o.width ∧ 0 ≤ o.height) :
    Sized (room.setObject object o) := by
  intro r
  rw [heap_setObject]
  split
  · exact ho
  · exact h r

theorem indexObject (h : Sized room) (id : Int) : Sized (room.indexObject id).2 := by
  intro r
  rw [heap_indexObject]
  exact h r

theorem ensures_entries (h : Sized room) (env : Env F) :
    Ensures (room.objects.toList.foldlM (updateEntry env) room) Sized := by
  refine Ensures.foldlM h ?_
  intro room1 h1 entry _ room2 hok
  cases updates_updateEntry env room1 entry room2 hok with
  | skips _ => exact h1
  | @object object room3 _ _ _ hacts ht =>
      have h3 : Sized room3 := by
        cases hacts with
        | touches _ hacts => exact h1.touches hacts
        | moves _ ho =>
            have hmoves := GameObject.moves_move _ _ ho
            refine h1.setObject object ?_
            rw [hmoves.width, hmoves.height]
            exact h1 object
        | dies _ => exact h1
      exact touches (show Sized (room3.regrid object) from h3) ht

variable [IsStrictOrderedRing F] [FloorRing F] [LawfulScalar F]

theorem sized_spawn (env : Env F) (id : Int) (pos : Vector3 F) (spawner : Spawner) :
    0 ≤ (spawner.spawn env id pos).width ∧ 0 ≤ (spawner.spawn env id pos).height := by
  have hlit : ∀ q : ℚ, 0 ≤ q → (0 : F) ≤ Scalar.lit q := fun _ => LawfulScalar.lit_nonneg
  cases spawner with
  | mineral => exact ⟨hlit 0.64 (by norm_num), hlit 0.54 (by norm_num)⟩
  | gas => exact ⟨hlit 0.64 (by norm_num), hlit 0.32 (by norm_num)⟩
  | protossProbe => exact ⟨hlit 0 le_rfl, hlit 0 le_rfl⟩

theorem ensures_objectAdd (h : Sized room) (env : Env F) (objectCode : GameObjectCode)
    (position direction : Vector3 F)
    (shooter : Option ObjRef) (owner : Int) (broad : Bool) :
    Ensures (room.objectAdd env objectCode position direction shooter owner broad) fun r => Sized r.2 := by
  intro added hok q
  have ha := adds_objectAdd env room objectCode position direction shooter owner broad added hok
  obtain ⟨spawner, -, hbody⟩ :=
    Bounds.body_objectAdd env room objectCode position direction shooter owner broad added hok
  by_cases hq : q = added.1
  · rw [hq, hbody.width, hbody.height]
    exact sized_spawn env room.idCount position spawner
  · rw [(ha.body q hq).width, (ha.body q hq).height]
    exact h q

theorem ensures_processJob (h : Sized room) (env : Env F) : Ensures (room.processJob env) Sized := by
  refine Ensures.foldlM (show Sized { room with jobQueue := [] } from h) ?_
  intro room1 h1 job _ room2 hok
  cases runs_runJob env room1 job room2 hok with
  | @moves object _ _ _ _ ho =>
      refine h1.setObject object ?_
      cases GameObject.setsMove_setMove _ _ _ _ _ _ _ ho with
      | stops => exact h1 object
      | walks _ _ => exact h1 object
  | @attacks object _ _ _ => exact h1.setObject object (h1 object)
  | removes _ _ _ => exact h1
  | mines _ => exact h1.indexObject job.objectId
  | spawns hstate _ =>
      obtain ⟨added, hadded, hroom⟩ := runJob_spawn hstate hok
      rw [← hroom]
      exact (h1.indexObject job.objectId).ensures_objectAdd env _ _ _ _ _ _ added hadded

theorem next {a : Env F × RoomEvent F} (h : Sized room) (hnext : room.next a = some room') : Sized room' := by
  obtain ⟨env, e⟩ := a
  obtain ⟨-, hexec⟩ := next_eq_some hnext
  cases e with
  | objectAdd objectCode position direction shooter owner broad =>
      exact Ensures.map (h.ensures_objectAdd env objectCode position direction shooter owner broad) room' hexec
  | addPlayer =>
      obtain rfl := Except.ok.inj hexec
      exact h.setObject room.nextRef ⟨LawfulScalar.lit_nonneg zero_le_one, LawfulScalar.lit_nonneg zero_le_one⟩
  | objectRemove object =>
      obtain rfl := Except.ok.inj hexec
      exact h
  | setMap map =>
      obtain rfl := Except.ok.inj hexec
      exact h
  | pushJob job =>
      obtain rfl := Except.ok.inj hexec
      exact h
  | processJob => exact h.ensures_processJob env room' hexec
  | startGame =>
      exact Room.ensures_startGame_of env (I := fun _ => Sized) h
        (fun _ _ _ _ h1 => h1.ensures_objectAdd env _ _ _ _ _ _) (fun _ _ _ _ _ h1 => h1) room' hexec
  | update =>
      refine Room.ensures_update env (I := Sized) ?_ (fun _ _ h2 ht => h2.touches ht) room' hexec
      intro room1 h1
      exact (h.ensures_processJob env room1 h1).ensures_entries env

theorem new (roomId hostId : Int) (gameName gamePassWord mapHash : List UInt8) :
    Sized (Room.new roomId hostId gameName gamePassWord mapHash : Room F) :=
  fun _ => ⟨LawfulScalar.lit_nonneg (by norm_num), LawfulScalar.lit_nonneg (by norm_num)⟩

end Sized

/-! ## Which cells the bounds are in -/

/-- The bounds begin on the grid. -/
def Begins (bounds : AABB F) : Prop := bounds.minX < 60 ∧ bounds.minY < 60

/-- The bounds are not inside out, and end on the map. -/
structure Spread (bounds : AABB F) : Prop where
  x : bounds.minX ≤ bounds.maxX
  y : bounds.minY ≤ bounds.maxY
  maxX : 0 ≤ bounds.maxX
  maxY : 0 ≤ bounds.maxY

variable [IsStrictOrderedRing F] [FloorRing F] [LawfulScalar F]

section

variable {g : GridManager F} (hshape : SameShape (GridManager.new (Scalar.lit 60) (Scalar.lit 60) 3 3) g)

include hshape

theorem cell_size : g.gridWidth = 20 ∧ g.gridHeight = 20 ∧ g.gridCols = 3 ∧ g.gridRows = 3 := by
  have hsize : (GridManager.new (Scalar.lit 60) (Scalar.lit 60) 3 3 : GridManager F).gridWidth = 20 := by
    change (Scalar.lit 60 : F) / Scalar.ofInt 3 = 20
    rw [LawfulScalar.lit_eq, LawfulScalar.ofInt_eq]
    norm_num
  exact ⟨hshape.gridWidth.trans hsize, hshape.gridHeight.trans hsize, hshape.gridCols, hshape.gridRows⟩

/-- Bounds that begin beyond the grid overlap no cell. -/
theorem begins_of_mem {bounds : AABB F} {c : Int × Int} (hc : c ∈ g.getOverlappingCells bounds) :
    Begins bounds := by
  obtain ⟨hwidth, hheight, hcols, hrows⟩ := cell_size hshape
  obtain ⟨hrange, hminX, -, hminY, -⟩ := mem_getOverlappingCells.mp hc
  have hbefore : ∀ {q : F} {k : ℤ}, Scalar.toInt (q / 20) ≤ k → k < 3 → q < 60 := by
    intro q k hle hk
    by_contra hq
    have h3 : (3 : F) ≤ q / 20 := by
      rw [le_div_iff₀ (by norm_num)]
      linarith
    have hfloor : (3 : ℤ) ≤ ⌊q / 20⌋ := Int.le_floor.mpr (by exact_mod_cast h3)
    rw [LawfulScalar.toInt_of_nonneg (le_trans (by norm_num) h3)] at hle
    omega
  rw [hwidth] at hminX
  rw [hheight] at hminY
  exact ⟨hbefore hminX (hcols ▸ hrange.2.1), hbefore hminY (hrows ▸ hrange.2.2.2)⟩

/-- Bounds that begin on the grid and overlap have a cell in common. -/
theorem exists_cell {a b : AABB F} (ha : Spread a) (hb : Spread b) (hA : Begins a) (hB : Begins b)
    (hcollider : a.collider b = true) :
    ∃ c, g.InRange c ∧ c ∈ g.getOverlappingCells a ∧ c ∈ g.getOverlappingCells b := by
  obtain ⟨hwidth, hheight, hcols, hrows⟩ := cell_size hshape
  obtain ⟨⟨hx, hx'⟩, hy, hy'⟩ := (Broadphase.collider_iff a b).mp hcollider
  have hend : ((3 : ℤ) : F) * 20 = 60 := by norm_num
  have h20 : (0 : F) < 20 := by norm_num
  obtain ⟨x, hx0, hxn, hxa, hxb⟩ := Intervals.exists_common_cell_of_begins h20
    (by norm_num : (0 : ℤ) < 3) ha.x hb.x
    ha.maxX hb.maxX (hend ▸ hA.1) (hend ▸ hB.1) hx hx'
  obtain ⟨y, hy0, hyn, hya, hyb⟩ := Intervals.exists_common_cell_of_begins h20
    (by norm_num : (0 : ℤ) < 3) ha.y hb.y
    ha.maxY hb.maxY (hend ▸ hA.2) (hend ▸ hB.2) hy hy'
  have hrange : g.InRange (x, y) := ⟨hx0, hcols ▸ hxn, hy0, hrows ▸ hyn⟩
  refine ⟨(x, y), hrange, mem_getOverlappingCells.mpr ⟨hrange, ?_⟩, mem_getOverlappingCells.mpr ⟨hrange, ?_⟩⟩
  · rw [hwidth, hheight]
    refine ⟨LawfulScalar.toInt_le hx0 hxa.1, ?_, LawfulScalar.toInt_le hy0 hya.1, ?_⟩
    · rw [LawfulScalar.toInt_of_nonneg (div_nonneg ha.maxX h20.le)]
      exact hxa.2
    · rw [LawfulScalar.toInt_of_nonneg (div_nonneg ha.maxY h20.le)]
      exact hya.2
  · rw [hwidth, hheight]
    refine ⟨LawfulScalar.toInt_le hx0 hxb.1, ?_, LawfulScalar.toInt_le hy0 hyb.1, ?_⟩
    · rw [LawfulScalar.toInt_of_nonneg (div_nonneg hb.maxX h20.le)]
      exact hxb.2
    · rw [LawfulScalar.toInt_of_nonneg (div_nonneg hb.maxY h20.le)]
      exact hyb.2

end

/-! ## Main results -/

/-- The object is at a place of the room's map. -/
def OnMap (room : Room F) (o : GameObject F) : Prop :=
  ∃ map, room.mapSectionData = some map ∧ (0 ≤ o.position.x ∧ o.position.x < map.mapWidth) ∧
    0 ≤ o.position.y ∧ o.position.y < map.mapHeight

instance (room : Room F) (o : GameObject F) : Decidable (OnMap room o) :=
  decidable_of_iff (∃ map ∈ room.mapSectionData, (0 ≤ o.position.x ∧ o.position.x < map.mapWidth) ∧
    0 ≤ o.position.y ∧ o.position.y < map.mapHeight) Iff.rfl

/-- An object of the room that is on the map, with its bounds up to date. -/
structure Placed (room : Room F) (k : Int) (r : ObjRef) : Prop where
  holds : room.Holds k r
  boxed : (room.heap r).Boxed
  onMap : OnMap room (room.heap r)

/-- One of the two is still listed, from earlier, in a cell where the other one is. -/
def Lingers (room room' : Room F) (ka : Int) (a : ObjRef) (kb : Int) (b : ObjRef) : Prop :=
  ∃ c, room.grid.InRange c ∧
    (Listed room c ka a ∧ Shown room room' c kb b ∨ Shown room room' c ka a ∧ Listed room c kb b)

theorem Placed.spread {room : Room F} {k : Int} {r : ObjRef} (h : Placed room k r) (hsized : Sized room) :
    Spread (room.heap r).bounds := by
  obtain ⟨hwidth, hheight⟩ := hsized r
  obtain ⟨-, -, ⟨hx, -⟩, hy, -⟩ := h.onMap
  have hw : 0 ≤ (room.heap r).width / Scalar.lit 2 := div_nonneg hwidth (LawfulScalar.lit_nonneg zero_le_two)
  have hh : 0 ≤ (room.heap r).height / Scalar.lit 2 := div_nonneg hheight (LawfulScalar.lit_nonneg zero_le_two)
  rw [h.boxed]
  exact ⟨(sub_le_self _ hw).trans (le_add_of_nonneg_right hw), (sub_le_self _ hh).trans
    (le_add_of_nonneg_right hh),
    add_nonneg hx hw, add_nonneg hy hh⟩

/-- On a map that is not larger than the grid, bounds begin on the grid. -/
theorem Placed.begins {room : Room F} {k : Int} {r : ObjRef} (h : Placed room k r) (hsized : Sized room)
    (hsmall : ∀ map, room.mapSectionData = some map → map.mapWidth ≤ 60 ∧ map.mapHeight ≤ 60) :
    Begins (room.heap r).bounds := by
  obtain ⟨hwidth, hheight⟩ := hsized r
  obtain ⟨map, hmap, ⟨-, hx⟩, -, hy⟩ := h.onMap
  obtain ⟨hw60, hh60⟩ := hsmall map hmap
  have hw : ((map.mapWidth : ℤ) : F) ≤ 60 := by exact_mod_cast hw60
  have hh : ((map.mapHeight : ℤ) : F) ≤ 60 := by exact_mod_cast hh60
  rw [h.boxed]
  exact ⟨(sub_le_self _ (div_nonneg hwidth (LawfulScalar.lit_nonneg zero_le_two))).trans_lt (hx.trans_le hw),
    (sub_le_self _ (div_nonneg hheight (LawfulScalar.lit_nonneg zero_le_two))).trans_lt (hy.trans_le hh)⟩

/--
**A pair is seen where its bounds begin on the grid of 60 by 60**, which is anywhere
on a map of that size or less. Elsewhere it is seen only by what the grid has kept
from before: one of the two is listed in a cell where the other one is, too.
-/
theorem map_collisions (roomId hostId : Int) (gameName gamePassWord mapHash : List UInt8)
    {room room0 room1 : Room F}
    (h : Reachable (Transition.ofFun Room.next) (Room.new roomId hostId gameName gamePassWord mapHash) room)
    {env : Env F} (hmoved : moved env room = .ok (room0, room1)) {ka kb : Int} {a b : ObjRef} (hlt : a < b)
    (hA : Placed room1 ka a) (hB : Placed room1 kb b) (hmeet : Meet room1.heap a b) :
    ((a, b) ∈ room1.grid.findAllColliders room1.heap ↔
      Begins (room1.heap a).bounds ∧ Begins (room1.heap b).bounds ∨ Lingers room0 room1 ka a kb b) ∧
    ((∀ map, room1.mapSectionData = some map → map.mapWidth ≤ 60 ∧ map.mapHeight ≤ 60) →
      (a, b) ∈ room1.grid.findAllColliders room1.heap) := by
  have hlaid : Laid room := h.invariant
    (Laid.new roomId hostId gameName gamePassWord mapHash) fun _ _ _ h1 hs => h1.next hs
  have hsized : Sized room := h.invariant
    (Sized.new roomId hostId gameName gamePassWord mapHash) fun _ _ _ h1 hs => h1.next hs
  obtain ⟨hjobs, hmoves⟩ := moved_eq_ok hmoved
  have hlaid0 := hlaid.ensures_processJob env room0 hjobs
  have hsized1 := (hsized.ensures_processJob env room0 hjobs).ensures_entries env room1 hmoves
  have hfound := mem_findAllColliders_iff hlaid0 hmoves hlt hA.holds hB.holds hmeet
  have hsees : Begins (room1.heap a).bounds → Begins (room1.heap b).bounds →
      (a, b) ∈ room1.grid.findAllColliders room1.heap := by
    intro ha hb
    obtain ⟨c, hc, hca, hcb⟩ := exists_cell hlaid0.shape (hA.spread hsized1) (hB.spread hsized1) ha hb hmeet.1
    exact hfound.mpr ⟨c, hc, .inl hca, .inl hcb⟩
  refine ⟨⟨?_, ?_⟩, fun hsmall => hsees (hA.begins hsized1 hsmall) (hB.begins hsized1 hsmall)⟩
  · intro hin
    obtain ⟨c, hc, hca, hcb⟩ := hfound.mp hin
    rcases hca with ha | ha
    · rcases hcb with hb | hb
      · exact .inl ⟨begins_of_mem hlaid0.shape ha, begins_of_mem hlaid0.shape hb⟩
      · exact .inr ⟨c, hc, .inr ⟨.inl ha, hb⟩⟩
    · exact .inr ⟨c, hc, .inl ⟨ha, hcb⟩⟩
  · intro hor
    rcases hor with ⟨ha, hb⟩ | ⟨c, hc, ⟨ha, hb⟩ | ⟨ha, hb⟩⟩
    · exact hsees ha hb
    · exact hfound.mpr ⟨c, hc, .inr ha, hb⟩
    · exact hfound.mpr ⟨c, hc, ha, .inr hb⟩

/--
A mineral at this place of a square map, and a probe on its left that is sent over it: a
started game before a tick.
-/
def mineralGame (x : ℚ) (size : Int) : List (Env ℚ × RoomEvent ℚ) :=
  [.setMap (some { mapWidth := size, mapHeight := size, height := [], playerPos := [] }),
    .objectAdd .mineral ⟨x, x, 0⟩ Vector3.zero none (-1) true,
    .objectAdd .probe ⟨x, x, 0⟩ Vector3.zero none 0 true, .startGame,
    .pushJob (Job.ofObject 0 ⟨x, x, 0⟩ ⟨x + 1, x, 0⟩ .move),
    .pushJob (Job.ofObject 1 ⟨x - 0.2, x, 0⟩ ⟨x + 1, x, 0⟩ .move)].map fun e => (GridIndex.Env.right, e)

instance (room : Room ℚ) (k : Int) (r : ObjRef) : Decidable (Placed room k r) :=
  decidable_of_iff (room.objects.getD k none = some r ∧ (room.heap r).Boxed ∧ OnMap room (room.heap r))
    ⟨fun h => ⟨(Table.getD_none_eq_some ..).mp h.1, h.2.1, h.2.2⟩,
      fun h => ⟨(Table.getD_none_eq_some ..).mpr h.holds, h.boxed, h.onMap⟩⟩

theorem map_collisions_mineralGame : ∃ room1 : Room ℚ, (room1.heap 1).position = ⟨30.23, 30, 0⟩ ∧
    (0, 1) ∈ room1.grid.findAllColliders room1.heap := by
  have hrun : ((mineralGame 30 60).foldlM Room.next (Room.new 0 0 [] [] [])).map (fun room =>
      (moved GridIndex.Env.right room).toOption.map fun r => ((r.2.heap 1).position, decide (Placed r.2 0 0),
        decide (Placed r.2 1 1), decide (Meet r.2.heap 0 1),
        decide (∀ map ∈ r.2.mapSectionData, map.mapWidth ≤ 60 ∧ map.mapHeight ≤ 60)))
          = some (some (⟨30.23, 30, 0⟩, true, true, true, true)) := by
    decide +kernel
  obtain ⟨room, hroom, hobs⟩ := Option.map_eq_some_iff.mp hrun
  obtain ⟨r, hr, hobs⟩ := Option.map_eq_some_iff.mp hobs
  obtain ⟨room0, room1⟩ := r
  obtain ⟨hposition, hobs⟩ := Prod.mk.inj hobs
  obtain ⟨hA, hobs⟩ := Prod.mk.inj hobs
  obtain ⟨hB, hobs⟩ := Prod.mk.inj hobs
  obtain ⟨hmeet, hsmall⟩ := Prod.mk.inj hobs
  have hresult := map_collisions 0 0 [] [] [] (Reachable.of_run hroom .refl) (toOption_eq_some.mp hr)
    Nat.zero_lt_one (of_decide_eq_true hA) (of_decide_eq_true hB) (of_decide_eq_true hmeet)
  exact ⟨room1, hposition, hresult.2 (of_decide_eq_true hsmall)⟩

/-- On a map of 100 by 100, where the mineral is at 70: the two overlap, and the grid does not report them. -/
theorem not_map_collisions : ∃ room room0 room1 : Room ℚ,
    Reachable (Transition.ofFun Room.next) (Room.new 0 0 [] [] []) room ∧
    moved GridIndex.Env.right room = .ok (room0, room1) ∧ Placed room1 0 0 ∧ Placed room1 1 1 ∧
    Meet room1.heap 0 1 ∧
      (0, 1) ∉ room1.grid.findAllColliders room1.heap := by
  have hrun : ((mineralGame 70 100).foldlM Room.next (Room.new 0 0 [] [] [])).map (fun room =>
      (moved GridIndex.Env.right room).toOption.map fun r =>
        (decide (Placed r.2 0 0), decide (Placed r.2 1 1),
        decide (Meet r.2.heap 0 1), decide ((0, 1) ∈ r.2.grid.findAllColliders r.2.heap)))
          = some (some (true, true, true, false)) := by
    decide +kernel
  obtain ⟨room, hroom, hobs⟩ := Option.map_eq_some_iff.mp hrun
  obtain ⟨r, hr, hobs⟩ := Option.map_eq_some_iff.mp hobs
  obtain ⟨room0, room1⟩ := r
  obtain ⟨hA, hobs⟩ := Prod.mk.inj hobs
  obtain ⟨hB, hobs⟩ := Prod.mk.inj hobs
  obtain ⟨hmeet, hfound⟩ := Prod.mk.inj hobs
  exact ⟨room, room0, room1, Reachable.of_run hroom .refl, toOption_eq_some.mp hr, of_decide_eq_true hA,
    of_decide_eq_true hB, of_decide_eq_true hmeet, of_decide_eq_false hfound⟩

end StarCraftIocp.MapCollisions
