import StarCraftIocp.Proof.RoomSteps
import StarCraftIocp.Lib.Transition

/-!
# Dead objects

`SetDead` only marks an object. Its next `Update` queues the `DEAD` job, and the one
after that removes it. An order that is run before gives the object another state,
since `SetMove` and `SetAttack` do not look at the one it is in. Nothing else brings
an object back: whatever acts on an object acts on its state as it is, or kills it.
-/

namespace StarCraftIocp

open Outcome

variable {F : Type} [Scalar F]

/-! ## States -/

namespace Room

/-- No other object has another state. -/
def OthersKeep (object : ObjRef) (room room' : Room F) : Prop :=
  ∀ r, r ≠ object → (room'.heap r).currentState = (room.heap r).currentState

/-- What is dead stays dead. -/
def DeadStay (room room' : Room F) : Prop :=
  ∀ r, (room.heap r).currentState = .dead → (room'.heap r).currentState = .dead

section

omit [Scalar F]

variable {room room' room'' : Room F} {object : ObjRef} {o : GameObject F}

theorem othersKeep_setObject (room : Room F) (object : ObjRef) (o : GameObject F) :
    OthersKeep object room (room.setObject object o) := by
  intro r hr
  rw [heap_setObject, if_neg hr]

theorem DeadStay.refl (room : Room F) : DeadStay room room := fun _ h => h

theorem DeadStay.trans (h : DeadStay room room') (h' : DeadStay room' room'') : DeadStay room room'' :=
  fun r hr => h' r (h r hr)

theorem DeadStay.setObject (room : Room F)
    (h : (room.heap object).currentState = .dead → o.currentState = .dead) :
    DeadStay room (room.setObject object o) := by
  intro r hr
  rw [heap_setObject]
  by_cases hobject : r = object
  · subst hobject
    rw [if_pos rfl]
    exact h hr
  · rw [if_neg hobject]
    exact hr

end

/-- Hit points go down, and states stay. -/
theorem states_takeDamage (room : Room F) (object : ObjRef) (damage : F) :
    Ensures (room.takeDamage object damage) fun room' =>
      ∀ r, (room'.heap r).currentState = (room.heap r).currentState := by
  refine Ensures.bind (P := fun _ => True) (fun _ _ => trivial) fun packet _ => .ok ?_
  intro r
  change ((room.setObject object _).heap r).currentState = _
  rw [heap_setObject]
  by_cases hr : r = object
  · rw [if_pos hr, hr]
  · rw [if_neg hr]

theorem states_attack (room : Room F) (object : ObjRef) :
    Ensures (room.attack object) fun room' =>
      ∀ r, (room'.heap r).currentState = (room.heap r).currentState := by
  unfold attack
  dsimp only
  split
  · refine Ensures.ite (fun _ => .ok fun _ => rfl) ?_
    intro _
    split
    · exact .error _
    · refine Ensures.ite (fun _ => .ok fun _ => rfl) ?_
      intro _
      refine Ensures.ite ?_ fun _ => .ok fun _ => rfl
      intro _
      refine (states_takeDamage _ _ _).mono fun room' h r => (h r).trans ?_
      -- the attacker only notes the time
      rw [heap_setObject]
      by_cases hr : r = object
      · rw [if_pos hr, hr]
      · rw [if_neg hr]
  · exact .ok fun _ => rfl

theorem deadStay_hit (room : Room F) (bullet player : ObjRef) :
    Ensures (room.hit bullet player) (DeadStay room) := by
  unfold hit
  refine Ensures.ite (fun _ => .ok (.refl room)) ?_
  intro _
  refine Ensures.bind (states_takeDamage room player _) fun room' h => .ok ?_
  exact DeadStay.trans (fun r hr => (h r).trans hr) (.setObject room' fun _ => rfl)

theorem deadStay_handleCollisions (room : Room F) : Ensures room.handleCollisions (DeadStay room) := by
  refine Ensures.foldlM (DeadStay.refl room) ?_
  intro room' h pair _
  refine Ensures.mono (P := DeadStay room') ?_ fun _ h' => h.trans h'
  unfold handleCollision
  refine Ensures.ite (fun _ => deadStay_hit room' _ _) ?_
  intro _
  exact Ensures.ite (fun _ => deadStay_hit room' _ _) fun _ => .ok (.refl room')

theorem othersKeep_updateObject (env : Env F) (room : Room F) (object : ObjRef) :
    Ensures (room.updateObject env object) fun r => OthersKeep object room r.2 := by
  unfold updateObject
  dsimp only
  cases (room.heap object).currentState with
  | move =>
      exact Ensures.bind (P := fun _ => True) (fun _ _ => trivial) fun r _ =>
        .ok (othersKeep_setObject room object r.1)
  | attack => exact Ensures.bind (states_attack room object) fun room' h => .ok fun r _ => h r
  | dead => exact Ensures.bind (P := fun _ => True) (fun _ _ => trivial) fun _ _ => .ok fun _ _ => rfl
  | spawn =>
      exact Ensures.bind (P := fun _ => True) (fun _ _ => trivial) fun r _ =>
        .ok (othersKeep_setObject room object r.1)
  | idle => exact .ok fun _ _ => rfl
  | mining => exact .ok fun _ _ => rfl

/-- A dead object queues a job, and stays as it is. -/
theorem deadStay_updateObject (env : Env F) (room : Room F) (object : ObjRef) :
    Ensures (room.updateObject env object) fun r => DeadStay room r.2 := by
  intro p hp r hr
  by_cases hobject : r = object
  · subst hobject
    unfold updateObject at hp
    dsimp only at hp
    rw [hr] at hp
    obtain ⟨packet, -, hok⟩ := bind_eq_ok.mp hp
    obtain rfl := Except.ok.inj hok
    exact hr
  · rw [othersKeep_updateObject env room object p hp r hobject]
    exact hr

theorem deadStay_updateEntry (env : Env F) (room : Room F) (entry : Int × Option ObjRef) :
    Ensures (room.updateEntry env entry) (DeadStay room) := by
  unfold updateEntry
  refine Ensures.ite (fun _ => .ok (.refl room)) ?_
  intro _
  cases entry.2 with
  | none => exact .error _
  | some object =>
      refine Ensures.bind (deadStay_updateObject env room object) ?_
      intro r hr
      obtain ⟨sendBuffer, room1⟩ := r
      cases sendBuffer with
      | none => exact .ok hr
      | some packet => exact .ok hr

theorem othersKeep_updateEntry (env : Env F) (room : Room F) (entry : Int × Option ObjRef) :
    Ensures (room.updateEntry env entry) fun room' => ∀ object, entry.2 = some object →
    OthersKeep object room room' := by
  unfold updateEntry
  refine Ensures.ite (fun _ => .ok fun _ _ _ _ => rfl) ?_
  intro _
  cases entry.2 with
  | none => exact .error _
  | some object =>
      refine Ensures.bind (othersKeep_updateObject env room object) ?_
      intro r hr
      obtain ⟨sendBuffer, room1⟩ := r
      have hkeep : ∀ q, some object = some q → OthersKeep q room room1 := by
        intro q hq
        obtain rfl := Option.some.inj hq
        exact hr
      cases sendBuffer with
      | none => exact .ok hkeep
      | some packet => exact .ok hkeep

/-- A new object is put in a free place, and the others stay as they are. -/
theorem othersKeep_objectAdd (env : Env F) (room : Room F) (objectCode : GameObjectCode)
    (position direction : Vector3 F) (shooter : Option ObjRef) (owner : Int) (broad : Bool) :
    Ensures (room.objectAdd env objectCode position direction shooter owner broad)
      fun r => OthersKeep room.nextRef room r.2 := by
  unfold objectAdd
  refine Ensures.ite (fun _ => .error _) ?_
  intro _
  split
  · exact .error _
  · exact .error _
  · rename_i spawner _
    let o : GameObject F := { spawner.spawn env room.idCount position with ownerId := owner }
    have henter : OthersKeep room.nextRef room (room.enter o).2 := othersKeep_setObject room room.nextRef o
    refine Ensures.bind (P := OthersKeep room.nextRef room) ?_ fun room1 h => .ok h
    refine Ensures.ite ?_ fun _ => .ok henter
    intro _
    refine Ensures.bind (P := fun _ => True) (fun _ _ => trivial) fun r _ => .ok ?_
    intro q hq
    exact (othersKeep_setObject (room.enter o).2 room.nextRef r.1 q hq).trans (henter q hq)

end Room

/-! ## Runs -/

namespace Deaths

open Room

inductive Event (F : Type) where
  | room (env : Env F) (event : RoomEvent F)
  | setDead (object : ObjRef)

def next (room : Room F) : Event F → Option (Room F)
  | .room env event => room.next (env, event)
  | .setDead object =>
      if object < room.nextRef then some (room.setObject object (room.heap object).setDead) else none

/-- The job is an order to a dead object. -/
def Revives (room : Room F) (job : Job F) : Prop :=
  (job.state = .idle ∨ job.state = .move ∨ job.state = .attack) ∧
    ∃ object, room.Holds job.objectId object ∧ (room.heap object).currentState = .dead

/-- None of the jobs that are run is, at its turn, an order to a dead object. -/
def Respects (room : Room F) : Event F → Prop
  | .room env .processJob | .room env .update =>
      Meets (runJob env) (fun room1 job => ¬ Revives room1 job) { room with jobQueue := [] } room.jobQueue
  | .room _ _ | .setDead _ => True

instance (room : Room F) (job : Job F) : Decidable (Revives room job) :=
  have : Decidable (∃ object, room.Holds job.objectId object ∧ (room.heap object).currentState = .dead) :=
    decidable_of_iff ((room.objects.getD job.objectId none).map
      (fun object => (room.heap object).currentState)
      = some .dead) (by
        rw [Option.map_eq_some_iff]
        exact exists_congr fun _ => and_congr_left' (Table.getD_none_eq_some ..))
  inferInstanceAs (Decidable (_ ∧ _))

instance (room : Room F) : (e : Event F) → Decidable (Respects room e)
  | .room _ .processJob | .room _ .update => inferInstanceAs (Decidable (Meets ..))
  | .room _ (.objectAdd ..) | .room _ .addPlayer | .room _ (.objectRemove _) | .room _ (.setMap _)
  | .room _ (.pushJob _) | .room _ .startGame | .setDead _ => inferInstanceAs (Decidable True)

/-- The object is dead, or out of the room. -/
def Final (object : ObjRef) (room : Room F) : Prop :=
  (room.heap object).currentState = .dead ∨ ∀ id, ¬ room.Holds id object

/-- Something the room has made, and that is final. -/
structure Done (object : ObjRef) (room : Room F) : Prop where
  made : object < room.nextRef
  final : Final object room

namespace Done

variable {room room' : Room F} {object : ObjRef} {env : Env F} {job : Job F}

omit [Scalar F] in
theorem frame (h : Done object room) (hdead : DeadStay room room')
    (hobjects : ∀ id, room'.Holds id object → room.Holds id object) (hnext : room'.nextRef = room.nextRef) :
    Done object room' := by
  refine ⟨hnext ▸ h.made, ?_⟩
  rcases h.final with hd | hgone
  · exact .inl (hdead object hd)
  · exact .inr fun id hid => hgone id (hobjects id hid)

omit [Scalar F] in
/-- An object that is not final gets another state. -/
theorem setObject (h : Done object room) {q : ObjRef} (o : GameObject F) {id : Int} (hq : room.Holds id q)
    (hstate : (room.heap q).currentState ≠ .dead) : Done object (room.setObject q o) := by
  refine ⟨h.made, ?_⟩
  rcases h.final with hd | hgone
  · refine .inl ?_
    rw [heap_setObject, if_neg ?_]
    · exact hd
    · intro heq
      subst heq
      exact hstate hd
  · exact .inr hgone

omit [Scalar F] in
theorem adds {q : ObjRef} (h : Done object room) (ha : Adds room q room')
    (hothers : OthersKeep room.nextRef room room') :
    Done object room' := by
  have hne : object ≠ room.nextRef := Nat.ne_of_lt h.made
  refine ⟨ha.nextRef ▸ Nat.lt_succ_of_lt h.made, ?_⟩
  rcases h.final with hd | hgone
  · exact .inl ((hothers object hne).trans hd)
  · refine .inr fun id hid => ?_
    rcases ha.of_holds hid with ⟨-, hq⟩ | hold
    · exact hne (hq.trans ha.ref)
    · exact hgone id hold

omit [Scalar F] in
theorem indexObject (h : Done object room) (id : Int) : Done object (room.indexObject id).2 := by
  refine h.frame ?_ (fun _ => of_holds_indexObject) (nextRef_indexObject room id)
  intro r hr
  rw [heap_indexObject]
  exact hr

theorem ensures_objectAdd (h : Done object room) (env : Env F) (objectCode : GameObjectCode)
    (position direction : Vector3 F) (shooter : Option ObjRef) (owner : Int) (broad : Bool) :
    Ensures (room.objectAdd env objectCode position direction shooter owner broad) fun r => Done object r.2 :=
  fun r hr => h.adds (adds_objectAdd env room _ _ _ _ _ _ r hr)
    (othersKeep_objectAdd env room _ _ _ _ _ _ r hr)

/-- Running a job keeps what is final, unless it is an order to a dead object. -/
theorem ensures_runJob (h : Done object room) (hjob : ¬ Revives room job) :
    Ensures (room.runJob env job) (Done object) := by
  intro room' hok
  -- the object that an order is for is not dead
  have halive : ∀ q, room.Holds job.objectId q → job.state = .idle ∨ job.state = .move ∨ job.state = .attack →
      (room.heap q).currentState ≠ .dead := fun q hq hstate hdead => hjob ⟨hstate, q, hq, hdead⟩
  cases runs_runJob env room job room' hok with
  | moves _ hq hstate _ =>
      refine h.setObject _ hq (halive _ hq ?_)
      rcases hstate with hidle | hmove
      · exact .inl hidle
      · exact .inr (.inl hmove)
  | attacks _ hq hstate => exact h.setObject _ hq (halive _ hq (.inr (.inr hstate)))
  | removes _ _ _ => exact h.frame (.refl _) (fun _ hid => Table.of_getElem?_erase hid) rfl
  | mines _ => exact h.indexObject _
  | spawns hstate _ =>
      -- what the job comes to says nothing about states, so the code is read again
      obtain ⟨r, hr, hroom⟩ := runJob_spawn hstate hok
      have h1 := (h.indexObject job.objectId).ensures_objectAdd env _ _ _ _ _ _ r hr
      rw [← hroom]
      exact ⟨h1.made, h1.final⟩

theorem ensures_processJob (h : Done object room)
    (hjobs : Meets (runJob env) (fun room1 job => ¬ Revives room1 job)
    { room with jobQueue := [] } room.jobQueue) : Ensures (room.processJob env) (Done object) := by
  refine Ensures.foldlM_meets ⟨h.made, h.final⟩ hjobs ?_
  intro room1 h1 job _ hjob
  exact h1.ensures_runJob hjob

omit [Scalar F] in
theorem touches (h : Done object room) (ht : Touches room room') (hdead : DeadStay room room') :
    Done object room' := by
  refine h.frame hdead ?_ ht.nextRef
  intro id hid
  unfold Holds at hid ⊢
  rw [ht.objects] at hid
  exact hid

theorem ensures_update (h : Done object room)
    (hjobs : Meets (runJob env) (fun room1 job => ¬ Revives room1 job)
    { room with jobQueue := [] } room.jobQueue) : Ensures (room.update env) (Done object) := by
  intro room' hroom
  obtain ⟨room1, h1, hroom⟩ := bind_eq_ok.mp hroom
  obtain ⟨room2, h2, hroom⟩ := bind_eq_ok.mp hroom
  obtain ⟨room3, h3, hroom⟩ := bind_eq_ok.mp hroom
  obtain rfl := Except.ok.inj hroom
  have hentries : Ensures (room1.objects.toList.foldlM (updateEntry env) room1) (Done object) := by
    refine Ensures.foldlM (h.ensures_processJob hjobs room1 h1) ?_
    intro room4 h4 entry _ room5 h5
    obtain ⟨hobjects, hnext⟩ := (updates_updateEntry env room4 entry room5 h5).objects
    refine h4.frame (deadStay_updateEntry env room4 entry room5 h5) ?_ hnext
    intro id hid
    unfold Holds at hid ⊢
    rw [hobjects] at hid
    exact hid
  have hcollide := (hentries room2 h2).touches (touches_handleCollisions room2 room3 h3)
    (deadStay_handleCollisions room2 room3 h3)
  exact ⟨hcollide.made, hcollide.final⟩

theorem ensures_startGame (h : Done object room) (env : Env F) :
    Ensures (room.startGame env) (Done object) := by
  refine Room.ensures_startGame_of env (I := fun _ => Done object) ⟨h.made, h.final⟩ ?_ ?_
  · intro n room1 position owner h1
    exact h1.ensures_objectAdd env _ _ _ _ _ _
  · intro n room1 session position player h1
    exact ⟨h1.made, h1.final⟩

theorem next {e : Event F} (h : Done object room) (hrespects : Respects room e)
    (hnext : Deaths.next room e = some room') :
    Done object room' := by
  cases e with
  | setDead q =>
      obtain ⟨-, hroom⟩ := Option.ite_none_right_eq_some.mp hnext
      obtain rfl := Option.some.inj hroom
      exact h.frame (.setObject room fun _ => rfl) (fun _ hid => hid) rfl
  | room env e =>
      obtain ⟨-, hexec⟩ := next_eq_some hnext
      cases e with
      | objectAdd objectCode position direction shooter owner broad =>
          exact (h.ensures_objectAdd env objectCode position direction shooter owner broad).map room' hexec
      | addPlayer =>
          obtain ⟨room1, ha, hroom⟩ := adds_addPlayer room
          obtain rfl := Except.ok.inj hexec
          have hothers : OthersKeep room.nextRef room room.addPlayer.2 :=
            othersKeep_setObject room room.nextRef _
          rw [hroom] at hothers ⊢
          have h1 := h.adds ha hothers
          exact ⟨h1.made, h1.final⟩
      | objectRemove q =>
          obtain rfl := Except.ok.inj hexec
          exact h.frame (.refl room) (fun _ hid => Table.of_getElem?_erase hid) rfl
      | setMap map =>
          obtain rfl := Except.ok.inj hexec
          exact ⟨h.made, h.final⟩
      | pushJob job =>
          obtain rfl := Except.ok.inj hexec
          exact ⟨h.made, h.final⟩
      | processJob => exact h.ensures_processJob hrespects room' hexec
      | startGame => exact h.ensures_startGame env room' hexec
      | update => exact h.ensures_update hrespects room' hexec

end Done

/-- A job keeps what is final if and only if it is no order to a dead object. -/
theorem runJob_keeps_iff {room room' : Room F} {env : Env F} {job : Job F}
    (hmade : ∀ id object, room.Holds id object → object < room.nextRef)
    (hok : room.runJob env job = .ok room') :
    (∀ object, Done object room → Done object room') ↔ ¬ Revives room job := by
  constructor
  · intro hkeeps hrevives
    obtain ⟨hstate, object, hholds, hdead⟩ := hrevives
    have hfinal := (hkeeps object ⟨hmade _ object hholds, .inl hdead⟩).final
    -- the order is for the object that the table holds
    have hsame : ∀ q, room.Holds job.objectId q → q = object := by
      intro q hq
      exact Option.some.inj (Option.some.inj (hq.symm.trans hholds))
    have hset : ∀ o : GameObject F, o.currentState ≠ .dead → ¬ Final object (room.setObject object o) := by
      intro o ho hor
      rcases hor with hd | hgone
      · rw [heap_setObject, if_pos rfl] at hd
        exact ho hd
      · exact hgone job.objectId hholds
    cases runs_runJob env room job room' hok with
    | moves _ hq hidle ho =>
        obtain rfl := hsame _ hq
        refine hset _ ?_ hfinal
        cases GameObject.setsMove_setMove _ _ _ _ _ _ _ ho with
        | stops => simp [GameObject.stop]
        | walks _ _ => rcases hidle with hs | hs <;> simp [hs]
    | attacks _ hq _ =>
        obtain rfl := hsame _ hq
        exact hset _ (by simp [GameObject.setAttack]) hfinal
    | removes _ _ hs => simp [hs] at hstate
    | spawns hs _ => simp [hs] at hstate
    | mines hs => simp [hs] at hstate
  · intro hjob object h
    exact h.ensures_runJob hjob room' hok

/-! ## Main results -/

/--
**Death is final as long as no order is run for a dead object**: whatever else
happens, an object that is dead once is dead or out of the room ever after.
-/
theorem death_final {room room' : Room F} {object : ObjRef} (hmade : object < room.nextRef)
    (hdead : (room.heap object).currentState = .dead)
    (h : Reachable (Transition.guarded (Transition.ofFun next) Respects) room room') : Final object room' :=
  (h.invariant (I := Done object) ⟨hmade, .inl hdead⟩ fun _ _ _ h1 hs => h1.next hs.1 hs.2).final

/-- Two players are in the room, and the first is killed. -/
def killed : List (Event ℚ) := [.room Env.still .addPlayer, .room Env.still .addPlayer, .setDead 0]

/-- An order for the other player is run, and the dead one is removed. -/
theorem death_final_otherOrder : ∃ room room' : Room ℚ, (room.heap 0).currentState = .dead
    ∧ room.Live 0 ∧ ¬ room'.Live 0 ∧ Final 0 room' := by
  have hrun : (killed.foldlM next (Room.new 0 0 [] [] [])).map (fun room =>
      (decide (room.Live 0), decide ((room.heap 0).currentState = .dead), decide (0 < room.nextRef),
        (([.room Env.still (.pushJob (Job.ofObject 1 ⟨31, 30, 0⟩ Vector3.zero .idle)), .room Env.still .update,
          .room Env.still .update] : List (Event ℚ)).foldlM (guardedFun next Respects) room).map
            fun room' => decide (room'.Live 0)))
        = some (true, true, true, some false) := by
    decide +kernel
  obtain ⟨room, -, hobs⟩ := Option.map_eq_some_iff.mp hrun
  obtain ⟨hlive, hobs⟩ := Prod.mk.inj hobs
  obtain ⟨hdead, hobs⟩ := Prod.mk.inj hobs
  obtain ⟨hmade, hobs⟩ := Prod.mk.inj hobs
  obtain ⟨room', hroom', hgone⟩ := Option.map_eq_some_iff.mp hobs
  refine ⟨room, room', of_decide_eq_true hdead, of_decide_eq_true hlive, of_decide_eq_false hgone, ?_⟩
  exact death_final (of_decide_eq_true hmade) (of_decide_eq_true hdead)
    (Reachable.of_run_guarded hroom' .refl)

/-- An order to stand still is queued for the dead player, and the next tick has it stand there alive. -/
theorem not_death_final : ∃ room room' : Room ℚ, Reachable (Transition.ofFun next) (Room.new 0 0 [] [] []) room
    ∧ 0 < room.nextRef ∧ (room.heap 0).currentState = .dead ∧ Reachable (Transition.ofFun next) room room'
    ∧ ¬ Final 0 room' := by
  have hrun : (killed.foldlM next (Room.new 0 0 [] [] [])).map (fun room =>
      (decide ((room.heap 0).currentState = .dead), decide (0 < room.nextRef),
        (([.room Env.still (.pushJob (Job.ofObject 0 ⟨31, 30, 0⟩ Vector3.zero .idle)), .room Env.still .update]
          : List (Event ℚ)).foldlM next room).map
            fun room' => (decide ((room'.heap 0).currentState = .dead), room'.objects.getD 0 none)))
        = some (true, true, some (false, some 0)) := by
    decide +kernel
  obtain ⟨room, hroom, hobs⟩ := Option.map_eq_some_iff.mp hrun
  obtain ⟨hdead, hobs⟩ := Prod.mk.inj hobs
  obtain ⟨hmade, hobs⟩ := Prod.mk.inj hobs
  obtain ⟨room', hroom', hobs⟩ := Option.map_eq_some_iff.mp hobs
  obtain ⟨halive, hholds⟩ := Prod.mk.inj hobs
  refine ⟨room, room', Reachable.of_run hroom .refl, of_decide_eq_true hmade, of_decide_eq_true hdead,
    Reachable.of_run hroom' .refl, ?_⟩
  intro hfinal
  rcases hfinal with hd | hgone
  · exact of_decide_eq_false halive hd
  · exact hgone 0 ((Table.getD_none_eq_some ..).mp hholds)

end Deaths

end StarCraftIocp
