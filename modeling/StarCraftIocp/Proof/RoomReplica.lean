import StarCraftIocp.Proof.RoomNews

/-!
# The client's picture of a room

What the client has processed names the units it has and those in its queue, in the
order in which they come. As no id is announced twice, none is refused; and as long as
nothing is removed on the server, the client need not remove anything either.
-/

namespace StarCraftIocp

open Protocol

variable {F : Type} [Scalar F]

/-- The prefabs that the objects of a room need. -/
def HasPrefabs (prefabMap : Int → Option UnitScript) : Prop :=
  ∀ code : GameObjectCode, code.HasSpawner → prefabMap code.toInt ≠ none

namespace UnitManager

variable {m : UnitManager F} {msgs : List (ServerMessage F)} {msg : ServerMessage F} {call : SpawnCall F}
  {calls : List (SpawnCall F)}

/-- What has become of the messages processed so far. -/
structure Shows (m : UnitManager F) (msgs : List (ServerMessage F)) : Prop where
  exceptions : m.exceptions = []
  prefabs : HasPrefabs m.prefabMap
  units : ∃ done, msgs.filterMap ServerMessage.announces = done ++ m.spawnQueue.map SpawnCall.unitId ∧
    ∀ id : Int, id ∈ m.units ↔ id ∈ done
  queue : ∀ call ∈ m.spawnQueue, GameObjectCode.HasSpawner ⟨call.code⟩

omit [Scalar F] in
/-- A unit that is there already is another one in its place. -/
theorem mem_units_insert {id k : Int} {u u' : ClientUnit F} (h : m.units[k]? = some u) :
    id ∈ m.units.insert k u' ↔ id ∈ m.units := by
  rw [Std.ExtTreeMap.mem_insert, Std.LawfulEqCmp.compare_eq_iff_eq]
  constructor
  · intro hin
    rcases hin with rfl | hid
    · exact Table.mem_iff_exists_getElem?.mpr ⟨_, h⟩
    · exact hid
  · exact Or.inr

theorem spawnUnit_eq (hprefabs : HasPrefabs m.prefabMap) (hcode : GameObjectCode.HasSpawner ⟨call.code⟩)
    (hnew : call.unitId ∉ m.units) : ∃ script, m.spawnUnit call =
      .ok { m with units := m.units.insert call.unitId (.init script call) } := by
  unfold spawnUnit
  cases hscript : m.prefabMap call.code with
  | none => exact absurd hscript (hprefabs ⟨call.code⟩ hcode)
  | some script => exact ⟨script, if_neg hnew⟩

/-- `Update` carries out all calls, when their ids are different and new. -/
theorem drain_spec (hprefabs : HasPrefabs m.prefabMap)
    (hcodes : ∀ call ∈ calls, GameObjectCode.HasSpawner ⟨call.code⟩)
    (hnodup : (calls.map SpawnCall.unitId).Nodup)
    (hnew : ∀ call ∈ calls, call.unitId ∉ m.units) :
    (m.drain calls).exceptions = m.exceptions ∧ (m.drain calls).prefabMap = m.prefabMap ∧
      (m.drain calls).spawnQueue = [] ∧
      ∀ id : Int, id ∈ (m.drain calls).units ↔ id ∈ m.units ∨ id ∈ calls.map SpawnCall.unitId := by
  induction calls generalizing m with
  | nil => exact ⟨rfl, rfl, rfl, fun id => by simp [drain]⟩
  | cons call calls ih =>
      obtain ⟨hfirst, hrest⟩ := List.nodup_cons.mp hnodup
      obtain ⟨script, hspawn⟩ := spawnUnit_eq hprefabs (hcodes call List.mem_cons_self)
        (hnew call List.mem_cons_self)
      have hmem : ∀ id : Int, id ∈ m.units.insert call.unitId (ClientUnit.init script call) ↔
          id = call.unitId ∨ id ∈ m.units := by
        intro id
        rw [Std.ExtTreeMap.mem_insert, Std.LawfulEqCmp.compare_eq_iff_eq, eq_comm]
      -- the calls behind the first are for other ids
      have hlater : ∀ c ∈ calls, c.unitId ∉ m.units.insert call.unitId (ClientUnit.init script call) := by
        intro c hc hin
        rcases (hmem c.unitId).mp hin with heq | hin
        · exact hfirst (heq ▸ List.mem_map_of_mem hc)
        · exact hnew c (List.mem_cons_of_mem call hc) hin
      obtain ⟨hexceptions, hprefab, hqueue, hunits⟩ :=
        ih (m := { m with units := m.units.insert call.unitId (.init script call) }) hprefabs
          (fun c hc => hcodes c (List.mem_cons_of_mem call hc)) hrest hlater
      unfold drain
      rw [hspawn]
      refine ⟨hexceptions, hprefab, hqueue, ?_⟩
      intro id
      rw [hunits id, hmem id, List.map_cons, List.mem_cons]
      tauto

theorem Shows.update (h : m.Shows msgs) (hnodup : (msgs.filterMap ServerMessage.announces).Nodup) :
    m.update.Shows msgs := by
  obtain ⟨done, hdone, hunits⟩ := h.units
  rw [hdone] at hnodup
  obtain ⟨-, hqueue, hdisjoint⟩ := List.nodup_append.mp hnodup
  have hnew : ∀ call ∈ m.spawnQueue, call.unitId ∉ m.units := by
    intro call hcall hin
    exact hdisjoint call.unitId ((hunits _).mp hin) call.unitId (List.mem_map_of_mem hcall) rfl
  obtain ⟨hexceptions, hprefab, hempty, hmem⟩ := drain_spec h.prefabs h.queue hqueue hnew
  refine ⟨?_, ?_, ⟨done ++ m.spawnQueue.map SpawnCall.unitId, ?_, ?_⟩, ?_⟩
  · exact hexceptions.trans h.exceptions
  · unfold UnitManager.update
    rw [hprefab]
    exact h.prefabs
  · unfold UnitManager.update
    rw [hempty, hdone, List.map_nil, List.append_nil]
  · intro id
    unfold UnitManager.update
    rw [hmem id, hunits id, List.mem_append]
  · unfold UnitManager.update
    rw [hempty]
    exact fun call hcall => by cases hcall

omit [Scalar F] in
/-- A message that announces nothing and changes no key. -/
theorem Shows.same {m' : UnitManager F} (h : m.Shows msgs) (hmsg : msg.announces = none)
    (hexceptions : m'.exceptions = m.exceptions) (hprefab : m'.prefabMap = m.prefabMap)
    (hqueue : m'.spawnQueue = m.spawnQueue) (hunits : ∀ id : Int, id ∈ m'.units ↔ id ∈ m.units) :
    m'.Shows (msgs ++ [msg]) := by
  obtain ⟨done, hdone, hmem⟩ := h.units
  refine ⟨hexceptions.trans h.exceptions, hprefab ▸ h.prefabs, ⟨done, ?_, ?_⟩, hqueue ▸ h.queue⟩
  · rw [List.filterMap_append, hdone, hqueue]
    simp [hmsg]
  · intro id
    rw [hunits id, hmem id]

theorem Shows.process (h : m.Shows msgs) (hquiet : msg.Quiet) (serverNow : Int) :
    (m.process serverNow msg).Shows (msgs ++ [msg]) := by
  cases msg with
  | sMove objectId state position =>
      cases hunit : m.units[objectId]? with
      | none =>
          have hprocess : m.process serverNow (.sMove objectId state position) = m := by
            simp only [UnitManager.process, hunit]
          rw [hprocess]
          exact h.same rfl rfl rfl rfl fun _ => Iff.rfl
      | some u =>
          have hprocess : m.process serverNow (.sMove objectId state position) =
              { m with units := m.units.insert objectId (u.move serverNow state position) } := by
            simp only [UnitManager.process, hunit]
          rw [hprocess]
          exact h.same rfl rfl rfl rfl fun _ => mem_units_insert hunit
  | sObjectSpawn data spawnTime =>
      obtain ⟨done, hdone, hunits⟩ := h.units
      refine ⟨h.exceptions, h.prefabs, ⟨done, ?_, hunits⟩, ?_⟩
      · rw [List.filterMap_append, hdone]
        simp [ServerMessage.announces, UnitManager.process]
      · intro call hcall
        rcases List.mem_append.mp hcall with hcall | hcall
        · exact h.queue call hcall
        · rw [List.mem_singleton.mp hcall]
          exact hquiet
  | sObjectDead objectId state =>
      have hprocess : m.process serverNow (.sObjectDead objectId state) = m := if_neg hquiet
      rw [hprocess]
      exact h.same rfl rfl rfl rfl fun _ => Iff.rfl
  | sObjectDamage objectId hp => exact hquiet.elim
  | _ => exact h.same rfl rfl rfl rfl fun _ => Iff.rfl

end UnitManager

namespace Replica

open ObjectTable

variable {s s' : Replica F} {session : SessionRef} {e : ReplicaEvent F}

structure Inv (session : SessionRef) (s : Replica F) : Prop where
  announced : Announced session [] CInt.intMax s.room
  received : s.received ≤ (s.room.heard session).length
  shows : s.client.Shows ((s.room.heard session).take s.received)

omit [Scalar F] in
/-- The room goes on, and what the client has processed stays what it was. -/
theorem Inv.room (h : s.Inv session) {room : Room F}
    (hroom : ∀ base, Announced session base CInt.intMax s.room → Announced session base CInt.intMax room) :
    Inv session { s with room := room } := by
  obtain ⟨log, hlog, hnodup, hmem⟩ := h.announced.told
  -- all that the session has heard so far is the base here
  have hbase : Announced session (s.room.heard session) CInt.intMax s.room :=
    ⟨h.announced.exact, log, ⟨hlog.member, List.prefix_refl _, hlog.plain, hlog.announced,
      hlog.quiet⟩, hnodup, hmem⟩
  obtain ⟨log', hlog', -, -⟩ := (hroom _ hbase).told
  obtain ⟨more, hmore⟩ := hlog'.since
  refine ⟨hroom _ h.announced, ?_, ?_⟩
  · show s.received ≤ (room.heard session).length
    rw [← hmore, List.length_append]
    exact Nat.le_add_right_of_le h.received
  · show s.client.Shows ((room.heard session).take s.received)
    rw [← hmore, List.take_append_of_le_length h.received]
    exact h.shows

theorem Inv.next (h : s.Inv session) (hkept : s.Kept e) (hnext : s.next session e = some s') :
    s'.Inv session := by
  cases e with
  | room env event =>
      obtain ⟨room, hroom, rfl⟩ := Option.map_eq_some_iff.mp hnext
      obtain ⟨-, hexec⟩ := Room.next_eq_some hroom
      obtain ⟨⟨hallowed, hcounts⟩, hjobs⟩ := hkept
      exact h.room fun base hbase => hbase.exec hallowed hcounts hjobs room hexec
  | setDead object =>
      obtain ⟨-, hs⟩ := Option.ite_none_right_eq_some.mp hnext
      obtain rfl := Option.some.inj hs
      exact h.room fun base hbase => hbase.setDead object
  | receive serverNow =>
      obtain ⟨msg, hmsg, rfl⟩ := Option.map_eq_some_iff.mp hnext
      obtain ⟨hlt, heq⟩ := List.getElem?_eq_some_iff.mp hmsg
      obtain ⟨log, hlog, -, -⟩ := h.announced.told
      refine ⟨h.announced, hlt, ?_⟩
      -- what the room tells is quiet, and the client has processed one message more
      show (s.client.process serverNow msg).Shows ((s.room.heard session).take (s.received + 1))
      rw [List.take_add_one, hmsg]
      exact h.shows.process (hlog.quiet msg (heq ▸ List.getElem_mem hlt)) serverNow
  | update =>
      obtain rfl := Option.some.inj hnext
      obtain ⟨log, hlog, hnodup, -⟩ := h.announced.told
      -- no id has been announced twice
      refine ⟨h.announced, h.received, h.shows.update ?_⟩
      have hsub := (List.take_sublist s.received (s.room.heard session)).filterMap ServerMessage.announces
      rw [hlog.announced] at hsub
      exact hnodup.sublist hsub

theorem Inv.init (roomId hostId : Int) (gameName gamePassWord mapHash : List UInt8) (session : SessionRef)
    (playerName : Int) {prefabMap : Int → Option UnitScript} (hprefabs : HasPrefabs prefabMap) :
    (Replica.init roomId hostId gameName gamePassWord mapHash session playerName prefabMap : Replica F).Inv
      session := by
  have hexact := Exact.new (F := F) roomId hostId gameName gamePassWord mapHash
  refine ⟨⟨hexact.frame (fun _ => rfl) rfl rfl rfl rfl, [], ⟨?_, ?_, ?_, ?_, ?_⟩, List.nodup_nil, ?_⟩, ?_, ?_⟩
  · exact Table.set_mem_insert.mpr (Or.inl rfl)
  · exact List.nil_prefix
  · intro r
    exact ⟨Or.inl rfl, by simp [Replica.init, Room.add, Room.new, GameObject.mineral, GameObject.new],
      by simp [Replica.init, Room.add, Room.new, GameObject.mineral, GameObject.new],
      by simp [Replica.init, Room.add, Room.new, GameObject.mineral, GameObject.new]⟩
  · rfl
  · intro msg hmsg
    cases hmsg
  · intro id
    simp [Replica.init, Room.add, Room.new]
  · exact Nat.le_refl 0
  · exact ⟨rfl, hprefabs, ⟨[], rfl, fun id => by simp [Replica.init, UnitManager.new]⟩,
      fun call hcall => by cases hcall⟩

omit [Scalar F] in
theorem Inv.mirrors (h : s.Inv session) : s.Mirrors session := by
  refine ⟨?_, by rw [h.shows.exceptions]; exact List.not_mem_nil⟩
  intro hmirrors id
  rcases hmirrors with ⟨hall, hempty⟩
  obtain ⟨log, hlog, -, hmem⟩ := h.announced.told
  obtain ⟨done, hdone, hunits⟩ := h.shows.units
  rw [hall, List.take_length, hlog.announced, List.isEmpty_iff.mp hempty, List.map_nil,
    List.append_nil] at hdone
  rw [hunits id, ← hdone, hmem id]

/--
**As long as only orders are run, the client has the room's objects**: when it has
processed every message and emptied its queue, its units have the ids of the room's
table, and no lookup ever fails.
-/
theorem mirrors_reachable (roomId hostId : Int) (gameName gamePassWord mapHash : List UInt8)
    (session : SessionRef)
    (playerName : Int) {prefabMap : Int → Option UnitScript} (hprefabs : HasPrefabs prefabMap)
    (h : Reachable ((Transition.ofFun (next session)).guarded Kept)
      (init roomId hostId gameName gamePassWord mapHash session playerName prefabMap) s) : s.Mirrors session :=
  (h.invariant (I := Inv session) (Inv.init roomId hostId gameName gamePassWord mapHash session playerName hprefabs)
    fun _ _ _ hs hstep => hs.next hstep.1 hstep.2).mirrors

/-- A mineral and a probe are added, and the client has them. -/
theorem mirrors_reachable_twoUnits : ∃ s : Replica ℚ, Reachable ((Transition.ofFun (next 7)).guarded Kept)
    (init 0 0 [] [] [] 7 0 fun _ => some .unit) s ∧ s.received = 2
      ∧ s.client.units.toList.map Prod.fst = [0, 1] ∧ s.Mirrors 7 := by
  have hrun : (([.room Env.still (.objectAdd .mineral ⟨5, 5, 0⟩ Vector3.zero none (-1) true), .receive 0, .update,
      .room Env.still (.objectAdd .probe ⟨6, 5, 0⟩ Vector3.zero none 0 true), .room Env.still .update,
        .receive 0,
      .update] : List (ReplicaEvent ℚ)).foldlM (guardedFun (next 7) Kept)
        (init 0 0 [] [] [] 7 0 fun _ => some .unit)).map
          (fun s => (s.received, s.client.units.toList.map Prod.fst))
        = some (2, [0, 1]) := by
    decide +kernel
  obtain ⟨s, hs, hobs⟩ := Option.map_eq_some_iff.mp hrun
  obtain ⟨hreceived, hunits⟩ := Prod.mk.inj hobs
  have hreach := Reachable.of_run_guarded hs Reachable.refl
  refine ⟨s, hreach, hreceived, hunits, ?_⟩
  exact mirrors_reachable 0 0 [] [] [] 7 0 (fun _ _ => Option.some_ne_none _) hreach

/-- A mineral dies: the room removes it, and the client keeps it. -/
theorem not_mirrors_reachable : ∃ s : Replica ℚ, Reachable ((Transition.ofFun (next 7)).guarded Played)
    (init 0 0 [] [] [] 7 0 fun _ => some .unit) s ∧ ¬ s.Mirrors 7 := by
  have hrun : (([.room Env.still (.objectAdd .mineral ⟨5, 5, 0⟩ Vector3.zero none (-1) true), .receive 0, .update,
      .setDead 0, .room Env.still .update, .room Env.still .update, .receive 0, .update] :
        List (ReplicaEvent ℚ)).foldlM (guardedFun (next 7) Played)
        (init 0 0 [] [] [] 7 0 fun _ => some .unit)).map (fun s =>
          (decide (s.Settled 7), decide ((0 : Int) ∈ s.client.units), decide ((0 : Int) ∈ s.room.objects)))
        = some (true, true, false) := by
    decide +kernel
  obtain ⟨s, hs, hobs⟩ := Option.map_eq_some_iff.mp hrun
  obtain ⟨hsettled, hobs⟩ := Prod.mk.inj hobs
  obtain ⟨hunit, hobject⟩ := Prod.mk.inj hobs
  refine ⟨s, Reachable.of_run_guarded hs Reachable.refl, ?_⟩
  intro h
  exact of_decide_eq_false hobject ((h.1 (of_decide_eq_true hsettled) 0).mp (of_decide_eq_true hunit))

end Replica

end StarCraftIocp
