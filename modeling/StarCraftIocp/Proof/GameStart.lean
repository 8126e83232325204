import StarCraftIocp.Proof.Counts
import StarCraftIocp.Proof.RoomNews

/-!
# The start of a game

`StartGame` writes the indices of the members into `ingamePlayerIndex`, and places
everybody who is in that table. Nothing is ever taken out of it: who has been a member
at an earlier start is placed again, under an index that is someone else's by now. And
the start positions are drawn from the first four, whatever the map has.
-/

namespace StarCraftIocp

open Protocol Outcome

variable {F : Type} [Scalar F]

/-! ## What a start should do -/

/-- Where a player starts, and which player. -/
def Protocol.ServerMessage.starts : ServerMessage F → Option (Vector3 F × Int)
  | .sGameStart startPos playerId => some (startPos, playerId)
  | _ => none

/-- Where a probe is, and whose it is. -/
def Protocol.ServerMessage.probes : ServerMessage F → Option (Vector3 F × Int)
  | .sObjectSpawn data _ =>
      if data.type = GameObjectCode.probe.toInt then some (data.position, data.playerId) else none
  | _ => none

namespace PlayerStartPos

def point (spos : PlayerStartPos) : Vector3 F := ⟨Scalar.ofInt spos.x, Scalar.ofInt spos.y, Scalar.lit 0⟩

/-- The place of one of the probes. -/
def probePoint (spos : PlayerStartPos) (i : Int) : Vector3 F :=
  ⟨Scalar.ofInt spos.x + Scalar.ofInt i, Scalar.ofInt spos.y - Scalar.lit 2, Scalar.lit 0⟩

/-- The probes of a player who starts here. -/
def probes (spos : PlayerStartPos) (owner : Int) : List (Vector3 F × Int) :=
  ([-1, 0, 1, 2] : List Int).map fun i => (spos.probePoint i, owner)

end PlayerStartPos

namespace Room

/-- Each member is told once where it starts, and once of the probes of each; nobody else is. -/
def TellsStart (seat : SessionRef → PlayerStartPos) (room room' : Room F) : Prop :=
  ∀ s, ∃ news, room'.heard s = room.heard s ++ news ∧
    news.filterMap ServerMessage.starts =
      (room'.ingamePlayerIndex[s]?.map fun index => ((seat s).point, index)).toList ∧
    news.filterMap ServerMessage.probes =
      if s ∈ room.sessionPlayers then room'.ingamePlayerIndex.toList.flatMap fun p => (seat p.1).probes p.2
      else []

/-- `room'` is `room` with a game well started on `map`. -/
structure Assigned (map : MapSectionData) (room room' : Room F) : Prop where
  members : ∀ s, s ∈ room'.ingamePlayerIndex ↔ s ∈ room.sessionPlayers
  indices : ∀ index, (∃ s : SessionRef, room'.ingamePlayerIndex[s]? = some index) ↔
    0 ≤ index ∧ index < room.sessionPlayers.size
  injective : ∀ (s s' : SessionRef) (index : Int), room'.ingamePlayerIndex[s]? = some index →
    room'.ingamePlayerIndex[s']? = some index → s = s'
  /-- Every member has a start position of the map of its own, and is told of it. -/
  seats : ∃ (place : SessionRef → Nat) (seat : SessionRef → PlayerStartPos),
    Set.InjOn place {s | s ∈ room.sessionPlayers} ∧
    (∀ s ∈ room.sessionPlayers, map.playerPos[place s]? = some (seat s)) ∧ room.TellsStart seat room'

def StartsWell (env : Env F) (map : MapSectionData) (room : Room F) : Prop :=
  ∃ room', room.startGame env = .ok room' ∧ Assigned map room room'

end Room

/-! ## What a start tells -/

namespace Room

/-- The start position that the shuffle gives to an index. -/
def startPos (env : Env F) (map : MapSectionData) (index : Int) : Option PlayerStartPos :=
  env.shuffled[index.toNat]?.bind fun v => map.playerPos[v]?

variable {base room room' : Room F} {starts : List (SessionRef × Vector3 F × Int)}
  {probes : List (Vector3 F × Int)}

/-- Since `base`, these have been told where they start, and the members have been told of these probes. -/
structure Announces (base : Room F) (starts : List (SessionRef × Vector3 F × Int))
    (probes : List (Vector3 F × Int))
    (room : Room F) : Prop where
  standing : room.standing = base.standing
  map : room.mapSectionData = base.mapSectionData
  heard : ∀ s, ∃ news, room.heard s = base.heard s ++ news ∧
    news.filterMap ServerMessage.starts = (starts.filter fun p => p.1 = s).map Prod.snd ∧
    news.filterMap ServerMessage.probes = if s ∈ base.sessions then probes else []

omit [Scalar F] in
theorem heard_broadcast_of_not_mem {s : SessionRef} (h : s ∉ room.sessions) (msg : ServerMessage F) :
    (room.broadcast msg).heard s = room.heard s := by
  have hfilter : room.sessions.toList.filter (fun t => decide (t = s)) = [] := by
    refine List.filter_eq_nil_iff.mpr ?_
    intro t ht heq
    exact h (of_decide_eq_true heq ▸ Std.ExtTreeSet.mem_toList.mp ht)
  unfold heard broadcast
  rw [List.filter_append, List.map_append, List.filter_map, List.map_map]
  change _ ++ ((room.sessions.toList.filter fun t => decide (t = s)).map fun _ => msg) = _
  rw [hfilter]
  exact List.append_nil _

namespace Announces

omit [Scalar F] in
theorem refl (base : Room F) : Announces base [] [] base := by
  refine ⟨rfl, rfl, fun s => ⟨[], (List.append_nil _).symm, rfl, ?_⟩⟩
  simp

omit [Scalar F] in
theorem frame (h : Announces base starts probes room) (hstanding : room'.standing = room.standing)
    (hmap : room'.mapSectionData = room.mapSectionData) (hsent : room'.sent = room.sent) :
    Announces base starts probes room' := by
  refine ⟨hstanding.trans h.standing, hmap.trans h.map, ?_⟩
  intro s
  have hheard : room'.heard s = room.heard s := by
    unfold Room.heard
    rw [hsent]
  rw [hheard]
  exact h.heard s

omit [Scalar F] in
/-- A probe is announced to all members. -/
theorem broadcast (h : Announces base starts probes room) {msg : ServerMessage F} {probe : Vector3 F × Int}
    (hprobe : msg.probes = some probe) (hstart : msg.starts = none) :
    Announces base starts (probes ++ [probe]) (room.broadcast msg) := by
  refine ⟨h.standing, h.map, ?_⟩
  intro s
  obtain ⟨news, hheard, hstarts, hprobes⟩ := h.heard s
  have hsessions : room.sessions = base.sessions := congrArg (fun st => st.membership.sessions) h.standing
  by_cases hs : s ∈ base.sessions
  · rw [if_pos hs] at hprobes ⊢
    refine ⟨news ++ [msg], ?_, ?_, ?_⟩
    · rw [heard_broadcast (hsessions ▸ hs), hheard, List.append_assoc]
    · rw [List.filterMap_append, hstarts]
      simp [hstart]
    · rw [List.filterMap_append, hprobes]
      simp [hprobe]
  · rw [if_neg hs] at hprobes ⊢
    refine ⟨news, ?_, hstarts, hprobes⟩
    rw [heard_broadcast_of_not_mem (hsessions ▸ hs), hheard]

omit [Scalar F] in
theorem send (h : Announces base starts probes room) (s : SessionRef) (startPos : Vector3 F) (player : Int) :
    Announces base (starts ++ [(s, startPos, player)]) probes (room.send s (.sGameStart startPos player)) := by
  refine ⟨h.standing, h.map, ?_⟩
  intro t
  obtain ⟨news, hheard, hstarts, hprobes⟩ := h.heard t
  rw [heard_send, hheard, List.filter_append, List.map_append]
  by_cases ht : s = t
  · refine ⟨news ++ [.sGameStart startPos player], ?_, ?_, ?_⟩
    · rw [if_pos ht, List.append_assoc]
    · rw [List.filterMap_append, hstarts]
      simp [ht, ServerMessage.starts]
    · rw [List.filterMap_append, hprobes]
      simp [ServerMessage.probes]
  · refine ⟨news, ?_, ?_, hprobes⟩
    · rw [if_neg ht, List.append_nil]
    · rw [hstarts]
      simp [ht]

theorem broadcastSpawn (h : Announces base starts probes room) (env : Env F) {object : ObjRef}
    {data : UnitData F}
    (hkind : (room.heap object).kind = .unit data) (hcode : (room.heap object).objectCode = .probe) :
    Yields (room.broadcastSpawn env object)
      (Announces base starts (probes ++ [((room.heap object).position, (room.heap object).ownerId)])) := by
  have hspawn : Yields ((room.heap object).spawn env.now) fun r => r.2.starts = none ∧
      r.2.probes = some ((room.heap object).position, (room.heap object).ownerId) := by
    unfold GameObject.spawn
    rw [hkind]
    refine Yields.bind (P := fun packet => packet = ServerMessage.sObjectSpawn _ _)
      ⟨_, ServerMessage.Scalars.frame_ok trivial, rfl⟩ ?_
    intro packet hpacket
    rw [hpacket]
    refine .ok ⟨rfl, ?_⟩
    exact if_pos (congrArg GameObjectCode.toInt hcode)
  refine Yields.bind hspawn ?_
  intro r hr
  have hset : Announces base starts probes (room.setObject object r.1) := h.frame rfl rfl rfl
  exact .ok (hset.broadcast hr.2 hr.1)

/-- A probe can always be added. -/
theorem objectAdd (h : Announces base starts probes room) (env : Env F) (position direction : Vector3 F)
    (shooter : Option ObjRef) (owner : Int) :
    Yields (room.objectAdd env .probe position direction shooter owner true) fun r =>
      Announces base starts (probes ++ [(position, owner)]) r.2 := by
  let o : GameObject F := { Spawner.protossProbe.spawn env room.idCount position with ownerId := owner }
  have henter : Announces base starts probes (room.enter o).2 := h.frame rfl rfl rfl
  have ho : (room.enter o).2.heap room.nextRef = o := Function.update_self ..
  have hspawn : Yields ((room.enter o).2.broadcastSpawn env room.nextRef) _ :=
    henter.broadcastSpawn env (congrArg GameObject.kind ho) (congrArg GameObject.objectCode ho)
  rw [ho] at hspawn
  refine Yields.bind (x := (room.enter o).2.broadcastSpawn env room.nextRef) hspawn ?_
  intro room1 h1
  exact .ok (h1.frame rfl rfl rfl)

/-- A player is placed, if the shuffle gives it a start position of the map. -/
theorem placePlayer (h : Announces base starts probes room) (env : Env F) {map : MapSectionData}
    (hmap : base.mapSectionData = some map) {p : SessionRef × Int} {spos : PlayerStartPos}
    (hspos : startPos env map p.2 = some spos) :
    Yields (room.placePlayer env p)
      (Announces base (starts ++ [(p.1, spos.point, p.2)]) (probes ++ spos.probes p.2)) := by
  unfold Room.placePlayer
  unfold startPos at hspos
  rw [h.map, hmap]
  dsimp only
  rw [hspos]
  dsimp only
  refine Yields.bind (P := Announces base starts (probes ++ spos.probes p.2)) ?_ ?_
  · refine Yields.foldlM_done
      (I := fun done => Announces base starts (probes ++ done.map fun i => (spos.probePoint i, p.2))) ?_ ?_
    · rw [List.map_nil, List.append_nil]
      exact h
    · intro done room1 h1 i _
      rw [List.map_append, ← List.append_assoc]
      exact Yields.bind (h1.objectAdd env (spos.probePoint i) Vector3.zero none p.2) fun r hr => .ok hr
  · intro room1 h1
    refine Yields.bind (P := fun packet => packet = ServerMessage.sGameStart spos.point p.2)
      ⟨_, ServerMessage.Scalars.frame_ok trivial, rfl⟩ ?_
    intro packet hpacket
    rw [hpacket]
    exact .ok (h1.send p.1 spos.point p.2)

end Announces

/-! ## Indices and start positions -/

omit [Scalar F] in
/-- The indices that are given out go by the order of the sessions; whoever else has one keeps it. -/
theorem getElem?_indexPlayers (room : Room F) (s : SessionRef) (index : Int) :
    room.indexPlayers.ingamePlayerIndex[s]? = some index ↔
      (∃ i : Nat, room.sessionPlayers.keys[i]? = some s ∧ index = i) ∨
        s ∉ room.sessionPlayers ∧ room.ingamePlayerIndex[s]? = some index := by
  let given : List (SessionRef × Int) := room.sessionPlayers.toList.zipIdx.map fun p => (p.1.1, (p.2 : Int))
  have hkeys : given.map Prod.fst = room.sessionPlayers.keys := by
    have hfst := congrArg (List.map Prod.fst) (List.zipIdx_map_fst 0 room.sessionPlayers.toList)
    rw [List.map_map, Std.ExtTreeMap.map_fst_toList_eq_keys] at hfst
    rw [List.map_map]
    exact hfst
  have hmem : (s, index) ∈ given ↔ ∃ i : Nat, room.sessionPlayers.keys[i]? = some s ∧ index = i := by
    rw [← Std.ExtTreeMap.map_fst_toList_eq_keys, List.mem_map]
    constructor
    · intro h
      obtain ⟨p, hp, heq⟩ := h
      obtain ⟨rfl, rfl⟩ := Prod.mk.inj heq
      refine ⟨p.2, ?_, rfl⟩
      rw [List.getElem?_map, List.mem_zipIdx_iff_getElem?.mp hp]
      rfl
    · intro h
      obtain ⟨i, hi, rfl⟩ := h
      rw [List.getElem?_map] at hi
      obtain ⟨p, hp, rfl⟩ := Option.map_eq_some_iff.mp hi
      exact ⟨(p, i), List.mem_zipIdx_iff_getElem?.mpr hp, rfl⟩
  have hfold : room.indexPlayers.ingamePlayerIndex =
      given.foldl (fun ingame p => ingame.insert p.1 p.2) room.ingamePlayerIndex := by
    unfold indexPlayers
    rw [List.foldl_map]
  rw [hfold, Table.getElem?_foldl_insert (hkeys ▸ Std.ExtTreeMap.nodup_keys), hkeys, hmem,
    Std.ExtTreeMap.mem_keys]

omit [Scalar F] in
/-- Who has an index after a start: the members, and who had one before. -/
theorem mem_indexPlayers (room : Room F) (s : SessionRef) :
    s ∈ room.indexPlayers.ingamePlayerIndex ↔ s ∈ room.sessionPlayers ∨ s ∈ room.ingamePlayerIndex := by
  rw [Table.mem_iff_exists_getElem?]
  constructor
  · intro h
    obtain ⟨index, hindex⟩ := h
    rcases (getElem?_indexPlayers room s index).mp hindex with ⟨i, hi, -⟩ | ⟨-, hold⟩
    · exact .inl (Std.ExtTreeMap.mem_keys.mp (List.mem_of_getElem? hi))
    · exact .inr (Table.mem_iff_exists_getElem?.mpr ⟨index, hold⟩)
  · intro h
    by_cases hs : s ∈ room.sessionPlayers
    · obtain ⟨i, hi⟩ := List.getElem?_of_mem (Std.ExtTreeMap.mem_keys.mpr hs)
      exact ⟨i, (getElem?_indexPlayers room s i).mpr (.inl ⟨i, hi, rfl⟩)⟩
    · obtain ⟨index, hindex⟩ := Table.mem_iff_exists_getElem?.mp (h.resolve_left hs)
      exact ⟨index, (getElem?_indexPlayers room s index).mpr (.inr ⟨hs, hindex⟩)⟩

/-- Nobody is placed outside of the map. -/
theorem ensures_placePlayers (env : Env F) {map : MapSectionData} (hmap : room.mapSectionData = some map)
    (l : List (SessionRef × Int)) :
    Ensures (l.foldlM (Room.placePlayer env) room) fun _ =>
    ∀ p ∈ l, ∃ spos, startPos env map p.2 = some spos := by
  refine (Ensures.foldlM_done (C := fun _ _ => True) (I := fun done room1 => room1.mapSectionData = some map ∧
    ∀ p ∈ done, ∃ spos, startPos env map p.2 = some spos) ⟨hmap, by simp⟩
      (Meets.of_forall fun _ _ => trivial) ?_).mono
    fun _ h => h.2
  intro done room1 h1 p _ _
  obtain ⟨hmap1, hdone⟩ := h1
  cases hspos : startPos env map p.2 with
  | none =>
      unfold startPos at hspos
      unfold Room.placePlayer
      rw [hmap1]
      dsimp only
      rw [hspos]
      exact .error _
  | some spos =>
      refine ((Announces.refl room1).placePlayer env hmap1 hspos).ensures.mono ?_
      intro room2 h2
      refine ⟨h2.map.trans hmap1, ?_⟩
      intro q hq
      rcases List.mem_append.mp hq with hq | hq
      · exact hdone q hq
      · rw [List.mem_singleton.mp hq]
        exact ⟨spos, hspos⟩

theorem ingame_startGame (env : Env F) (room : Room F) :
    Ensures (room.startGame env) fun room' => room'.ingamePlayerIndex = room.indexPlayers.ingamePlayerIndex :=
  (Stays.foldlM (stays_placePlayer env)).mono fun _ h => congrArg Standing.ingamePlayerIndex h

/-- What a start tells, if everybody in the table has a start position of the map. -/
theorem yields_startGame (env : Env F) {map : MapSectionData} (hmap : room.mapSectionData = some map)
    {seat : SessionRef → PlayerStartPos}
    (hseat : ∀ p ∈ room.indexPlayers.ingamePlayerIndex.toList, startPos env map p.2 = some (seat p.1)) :
    Yields (room.startGame env) (Announces room.indexPlayers
      (room.indexPlayers.ingamePlayerIndex.toList.map fun p => (p.1, (seat p.1).point, p.2))
      (room.indexPlayers.ingamePlayerIndex.toList.flatMap fun p => (seat p.1).probes p.2)) := by
  refine Yields.foldlM_done (I := fun done => Announces room.indexPlayers
    (done.map fun p : SessionRef × Int => (p.1, (seat p.1).point, p.2))
    (done.flatMap fun p : SessionRef × Int => (seat p.1).probes p.2)) (.refl _) ?_
  intro done room1 h1 p hp
  rw [List.map_append, List.flatMap_append, List.flatMap_singleton]
  exact h1.placePlayer env hmap (hseat p hp)

/-! ## One start -/

/-- Only members have an index. -/
def NoLeavers (room : Room F) : Prop := ∀ s ∈ room.ingamePlayerIndex, s ∈ room.sessionPlayers

/-- There are numbers for all the members, and they are start positions of the map. -/
def Seated (env : Env F) (map : MapSectionData) (room : Room F) : Prop :=
  room.sessionPlayers.size ≤ 4 ∧ ∀ v ∈ env.shuffled.take room.sessionPlayers.size, v < map.playerPos.length

section

variable {s s' : SessionRef} {index : Int} {env : Env F} {map : MapSectionData}

omit [Scalar F]

/-- The indices after a start, if only members had one before. -/
theorem NoLeavers.getElem?_indexPlayers (h : room.NoLeavers) :
    room.indexPlayers.ingamePlayerIndex[s]? = some index ↔
    ∃ i : Nat, room.sessionPlayers.keys[i]? = some s ∧ index = i := by
  rw [Room.getElem?_indexPlayers]
  refine or_iff_left ?_
  intro hold
  exact hold.1 (h s (Table.mem_iff_exists_getElem?.mpr ⟨index, hold.2⟩))

theorem lt_size_of_keys {i : Nat} (h : room.sessionPlayers.keys[i]? = some s) :
    i < room.sessionPlayers.size := by
  have hlength : room.sessionPlayers.keys.length = room.sessionPlayers.size := Std.ExtTreeMap.length_keys
  exact hlength ▸ (List.getElem?_eq_some_iff.mp h).1

theorem NoLeavers.indices (h : room.NoLeavers) :
    (∃ s : SessionRef, room.indexPlayers.ingamePlayerIndex[s]? = some index) ↔
    0 ≤ index ∧ index < room.sessionPlayers.size := by
  constructor
  · intro hindex
    obtain ⟨s, hs⟩ := hindex
    obtain ⟨i, hi, rfl⟩ := h.getElem?_indexPlayers.mp hs
    exact ⟨Int.natCast_nonneg i, Int.ofNat_lt.mpr (lt_size_of_keys hi)⟩
  · intro hindex
    obtain ⟨i, rfl⟩ := Int.eq_ofNat_of_zero_le hindex.1
    have hi : i < room.sessionPlayers.keys.length := by
      rw [Std.ExtTreeMap.length_keys]
      exact Int.ofNat_lt.mp hindex.2
    exact ⟨_, h.getElem?_indexPlayers.mpr ⟨i, List.getElem?_eq_getElem hi, rfl⟩⟩

theorem NoLeavers.injective (h : room.NoLeavers) (hs : room.indexPlayers.ingamePlayerIndex[s]? = some index)
    (hs' : room.indexPlayers.ingamePlayerIndex[s']? = some index) : s = s' := by
  obtain ⟨i, hi, rfl⟩ := h.getElem?_indexPlayers.mp hs
  obtain ⟨j, hj, hij⟩ := h.getElem?_indexPlayers.mp hs'
  rw [Int.ofNat_inj.mp hij, hj] at hi
  exact (Option.some.inj hi).symm

/-- Each member is given a number by the shuffle, and the map has a start position there. -/
def Seating (env : Env F) (map : MapSectionData) (room : Room F) (place : SessionRef → Nat)
    (seat : SessionRef → PlayerStartPos) : Prop :=
  ∀ s (i : Nat), room.sessionPlayers.keys[i]? = some s →
    env.shuffled[i]? = some (place s) ∧ map.playerPos[place s]? = some (seat s)

theorem Seated.exists_seating (h : room.Seated env map) : ∃ place seat, room.Seating env map place seat := by
  obtain ⟨hfour, hlt⟩ := h
  have hlength : env.shuffled.length = 4 := env.shuffled_perm.length_eq
  have hone : ∀ s, ∃ v spos, ∀ i : Nat, room.sessionPlayers.keys[i]? = some s →
      env.shuffled[i]? = some v ∧ map.playerPos[v]? = some spos := by
    intro s
    by_cases hs : s ∈ room.sessionPlayers.keys
    · obtain ⟨i, hi⟩ := List.getElem?_of_mem hs
      have hin := lt_size_of_keys hi
      have hv := hlt env.shuffled[i] (List.mem_take_iff_getElem.mpr ⟨i, by omega, rfl⟩)
      refine ⟨env.shuffled[i], map.playerPos[env.shuffled[i]], ?_⟩
      intro j hj
      -- a session is in the list of members once
      obtain rfl : i = j := (List.getElem?_inj
        (List.getElem?_eq_some_iff.mp hi).1 Std.ExtTreeMap.nodup_keys).mp
        (hi.trans hj.symm)
      exact ⟨List.getElem?_eq_getElem (by omega), List.getElem?_eq_getElem hv⟩
    · exact ⟨0, ⟨0, 0, 0⟩, fun i hi => absurd (List.mem_of_getElem? hi) hs⟩
  choose place seat hseat using hone
  exact ⟨place, seat, hseat⟩

variable {place : SessionRef → Nat} {seat : SessionRef → PlayerStartPos}

theorem Seating.of_mem (h : room.Seating env map place seat) (hs : s ∈ room.sessionPlayers) :
    map.playerPos[place s]? = some (seat s) := by
  obtain ⟨i, hi⟩ := List.getElem?_of_mem (Std.ExtTreeMap.mem_keys.mpr hs)
  exact (h s i hi).2

/-- Different members are given different numbers. -/
theorem Seating.injOn (h : room.Seating env map place seat) :
    Set.InjOn place {s | s ∈ room.sessionPlayers} := by
  intro s hs s' hs' heq
  obtain ⟨i, hi⟩ := List.getElem?_of_mem (Std.ExtTreeMap.mem_keys.mpr hs)
  obtain ⟨j, hj⟩ := List.getElem?_of_mem (Std.ExtTreeMap.mem_keys.mpr hs')
  have hnodup : env.shuffled.Nodup := env.shuffled_perm.nodup_iff.mpr (by decide)
  have hv := (h s i hi).1
  have hv' := (h s' j hj).1
  rw [← heq] at hv'
  have hij : i = j := (List.getElem?_inj (List.getElem?_eq_some_iff.mp hv).1 hnodup).mp (hv.trans hv'.symm)
  rw [hij, hj] at hi
  exact (Option.some.inj hi).symm

theorem Seating.startPos (h : room.Seating env map place seat) (hleft : room.NoLeavers) :
    ∀ p ∈ room.indexPlayers.ingamePlayerIndex.toList, startPos env map p.2 = some (seat p.1) := by
  intro p hp
  obtain ⟨i, hi, hindex⟩ := hleft.getElem?_indexPlayers.mp
    (Std.ExtTreeMap.mem_toList_iff_getElem?_eq_some.mp hp)
  obtain ⟨hv, hspos⟩ := h p.1 i hi
  unfold Room.startPos
  rw [hindex, Int.toNat_natCast, hv, Option.bind_some, hspos]

end

/-- A start goes well, if nobody has left and there is a start position for everybody. -/
theorem startsWell (hsame : ∀ s, s ∈ room.sessionPlayers ↔ s ∈ room.sessions) {env : Env F}
    {map : MapSectionData}
    (hmap : room.mapSectionData = some map) (hleft : room.NoLeavers) (hseated : room.Seated env map) :
    room.StartsWell env map := by
  obtain ⟨place, seat, hseating⟩ := hseated.exists_seating
  obtain ⟨room', hok, htold⟩ := yields_startGame env hmap (hseating.startPos hleft)
  have hingame := ingame_startGame env room room' hok
  refine ⟨room', hok, ?_, ?_, ?_, place, seat, hseating.injOn, fun s => hseating.of_mem, ?_⟩
  · intro s
    rw [hingame, mem_indexPlayers]
    exact or_iff_left_of_imp (hleft s)
  · intro index
    rw [hingame]
    exact hleft.indices
  · intro s s' index
    rw [hingame]
    exact hleft.injective
  · intro s
    obtain ⟨news, hheard, hstarts, hprobes⟩ := htold.heard s
    refine ⟨news, hheard, ?_, ?_⟩
    · have hfilter := Table.filter_toList room.indexPlayers.ingamePlayerIndex s
      rw [hstarts, hingame, List.filter_map, List.map_map]
      change (List.filter (fun p : SessionRef × Int => decide (p.1 = s)) _).map _ = _
      rw [hfilter]
      cases room.indexPlayers.ingamePlayerIndex[s]? <;> rfl
    · rw [hprobes, hingame]
      exact if_congr (hsame s).symm rfl rfl

/-- What a good start says about the room before it. -/
theorem StartsWell.seated {env : Env F} {map : MapSectionData} (h : room.StartsWell env map)
    (hmap : room.mapSectionData = some map) : room.NoLeavers ∧ room.Seated env map := by
  obtain ⟨room', hok, hassigned⟩ := h
  have hingame := ingame_startGame env room room' hok
  -- every index that is given out has a start position
  have hpos : ∀ i : Nat, i < room.sessionPlayers.size → ∃ spos, startPos env map i = some spos := by
    intro i hi
    obtain ⟨s, hs⟩ := (hassigned.indices i).mpr ⟨Int.natCast_nonneg i, Int.ofNat_lt.mpr hi⟩
    rw [hingame] at hs
    have hmap' : room.indexPlayers.mapSectionData = some map := hmap
    exact ensures_placePlayers env hmap' _ room' hok (s, (i : Int))
      (Std.ExtTreeMap.mem_toList_iff_getElem?_eq_some.mpr hs)
  refine ⟨?_, ?_, ?_⟩
  · intro s hs
    refine (hassigned.members s).mp ?_
    rw [hingame]
    exact (mem_indexPlayers room s).mpr (.inr hs)
  · -- the fifth member has no number
    by_contra hfour
    obtain ⟨spos, hspos⟩ := hpos 4 (by omega)
    obtain ⟨v, hv, -⟩ := Option.bind_eq_some_iff.mp hspos
    have hlt := (List.getElem?_eq_some_iff.mp hv).1
    rw [env.shuffled_perm.length_eq] at hlt
    exact absurd hlt (by decide)
  · intro v hv
    obtain ⟨i, hi, hget⟩ := List.mem_take_iff_getElem.mp hv
    obtain ⟨spos, hspos⟩ := hpos i (by omega)
    obtain ⟨v', hv', hplace⟩ := Option.bind_eq_some_iff.mp hspos
    have hsame : v = v' := by
      rw [Int.toNat_natCast, List.getElem?_eq_getElem (by omega), hget] at hv'
      exact Option.some.inj hv'
    rw [hsame]
    exact (List.getElem?_eq_some_iff.mp hplace).1

/-! ## What keeps the standing -/

omit [Scalar F] in
theorem ingame_removeGameSession (room : Room F) (s : SessionRef) :
    (room.removeGameSession s).ingamePlayerIndex = room.ingamePlayerIndex := by
  unfold removeGameSession
  split
  · dsimp only
    split <;> rfl
  · rfl

/-- Only a start gives out indices, and who is in a room is not for the game to say. -/
theorem stays_exec (env : Env F) (room : Room F) {event : RoomEvent F} (hstart : event ≠ .startGame) :
    room.Stays (room.exec env event) := by
  cases event with
  | objectAdd code position direction shooter owner broad =>
      exact Ensures.map (stays_objectAdd room env code position direction shooter owner broad)
  | addPlayer => exact .ok rfl
  | objectRemove object => exact stays_objectRemove room (some object)
  | setMap map => exact .ok rfl
  | pushJob job => exact .ok rfl
  | processJob => exact stays_processJob env room
  | startGame => exact absurd rfl hstart
  | update => exact stays_update env room

end Room

/-! ## Runs -/

namespace GameStart

open Room

/-- A room, and who was a member when a game was started in it. -/
structure Story (F : Type) where
  room : Room F
  played : List SessionRef

inductive Event (F : Type) where
  | join (s : SessionRef) (playerName : Int)
  | leave (s : SessionRef) (playerName : Int)
  | game (env : Env F) (event : RoomEvent F)

def next (story : Story F) : Event F → Option (Story F)
  | .join s playerName => some { story with room := story.room.add s playerName }
  | .leave s playerName => some { story with room := (story.room.removeLocked s playerName).1 }
  | .game env .startGame => (story.room.startGame env).toOption.map fun room =>
      { room := room, played := story.played ++ story.room.sessionPlayers.keys }
  | .game env event => (story.room.next (env, event)).map fun room => { story with room := room }

theorem next_game (story : Story F) (env : Env F) {event : RoomEvent F} (h : event ≠ .startGame) :
    next story (.game env event) = (story.room.next (env, event)).map fun room =>
    { story with room := room } := by
  cases event with
  | startGame => exact absurd rfl h
  | _ => rfl

/-- The two tables of members agree, and an index is never taken back. -/
structure Kept (story : Story F) : Prop where
  members : ∀ s, s ∈ story.room.sessionPlayers ↔ s ∈ story.room.sessions
  played : ∀ s, s ∈ story.room.ingamePlayerIndex ↔ s ∈ story.played

namespace Kept

variable {story story' : Story F}

omit [Scalar F] in
theorem frame (h : Kept story) {room : Room F} (hstanding : room.standing = story.room.standing) :
    Kept { story with room := room } := by
  have hmembership : room.membership = story.room.membership := congrArg Standing.membership hstanding
  have hsessions : room.sessions = story.room.sessions := congrArg Membership.sessions hmembership
  have hplayers : room.sessionPlayers = story.room.sessionPlayers :=
    congrArg Membership.sessionPlayers hmembership
  have hingame : room.ingamePlayerIndex = story.room.ingamePlayerIndex :=
    congrArg Standing.ingamePlayerIndex hstanding
  refine ⟨?_, ?_⟩
  · dsimp only
    rw [hsessions, hplayers]
    exact h.members
  · dsimp only
    rw [hingame]
    exact h.played

omit [Scalar F] in
theorem leave (h : Kept story) (s : SessionRef) (playerName : Int) :
    Kept { story with room := (story.room.removeLocked s playerName).1 } := by
  unfold removeLocked
  dsimp only
  split
  · -- the room closes, and both tables are emptied
    refine ⟨?_, ?_⟩
    · intro t
      simp
    · intro t
      rw [← h.played t]
      exact iff_of_eq (congrArg (t ∈ ·) (ingame_removeGameSession story.room s))
  · refine ⟨mem_removeGameSession h.members s, ?_⟩
    intro t
    rw [← h.played t]
    exact iff_of_eq (congrArg (t ∈ ·) (ingame_removeGameSession story.room s))

theorem start (h : Kept story) (env : Env F) : Ensures (story.room.startGame env) fun room =>
    Kept { room := room, played := story.played ++ story.room.sessionPlayers.keys } := by
  intro room hroom
  have hmembership : room.membership = story.room.membership := keeps_startGame env story.room room hroom
  have hsessions : room.sessions = story.room.sessions := congrArg Membership.sessions hmembership
  have hplayers : room.sessionPlayers = story.room.sessionPlayers :=
    congrArg Membership.sessionPlayers hmembership
  refine ⟨?_, ?_⟩
  · dsimp only
    rw [hsessions, hplayers]
    exact h.members
  · intro s
    dsimp only
    rw [ingame_startGame env story.room room hroom, mem_indexPlayers, h.played s, List.mem_append,
      Std.ExtTreeMap.mem_keys,
      or_comm]

theorem next {event : Event F} (h : Kept story) (hnext : GameStart.next story event = some story') :
    Kept story' := by
  cases event with
  | join s playerName =>
      obtain rfl := Option.some.inj hnext
      exact ⟨mem_add h.members s playerName, h.played⟩
  | leave s playerName =>
      obtain rfl := Option.some.inj hnext
      exact h.leave s playerName
  | game env event =>
      by_cases hstart : event = .startGame
      · subst hstart
        obtain ⟨room, hroom, rfl⟩ := Option.map_eq_some_iff.mp hnext
        exact h.start env room (toOption_eq_some.mp hroom)
      · rw [next_game story env hstart] at hnext
        obtain ⟨room, hroom, rfl⟩ := Option.map_eq_some_iff.mp hnext
        exact h.frame (stays_exec env story.room hstart room (next_eq_some hroom).2)

theorem new (roomId hostId : Int) (gameName gamePassWord mapHash : List UInt8) :
    Kept ⟨(Room.new roomId hostId gameName gamePassWord mapHash : Room F), []⟩ := by
  refine ⟨?_, ?_⟩
  · intro s
    simp [Room.new]
  · intro s
    simp [Room.new]

end Kept

/-! ## Main results -/

/--
**A game starts well if and only if nobody who has played before is missing and there is a
seat for everybody**: after any run of joins, exits and games in a room, and for any outcome
of the shuffle, the start goes well exactly if everybody who was a member at an earlier start
is one now, and the numbers for the members are start positions of the map.
-/
theorem startsWell_iff (roomId hostId : Int) (gameName gamePassWord mapHash : List UInt8) {story : Story F}
    (h : Reachable (Transition.ofFun next) ⟨Room.new roomId hostId gameName gamePassWord mapHash, []⟩ story)
    {map : MapSectionData} (hmap : story.room.mapSectionData = some map) (env : Env F) :
    story.room.StartsWell env map ↔ (∀ s ∈ story.played, s ∈ story.room.sessionPlayers) ∧
      story.room.sessionPlayers.size ≤ 4 ∧
      ∀ v ∈ env.shuffled.take story.room.sessionPlayers.size, v < map.playerPos.length := by
  have hkept := h.invariant (Kept.new roomId hostId gameName gamePassWord mapHash) fun _ _ _ h1 hs =>
    h1.next hs
  constructor
  · intro hwell
    obtain ⟨hleft, hseated⟩ := hwell.seated hmap
    exact ⟨fun s hs => hleft s ((hkept.played s).mpr hs), hseated⟩
  · intro hcond
    obtain ⟨hplayed, hseated⟩ := hcond
    exact startsWell hkept.members hmap (fun s hs => hplayed s ((hkept.played s).mp hs)) hseated

/-- A game of the host and of a guest, who leaves it. -/
def guestLeft : List (Event ℚ) :=
  [.join 0 8, .join 1 7, .game Env.still (.setMap (some .fourPlaces)), .game Env.still .startGame, .leave 0 8]

/-- The guest comes back, and another game is started. -/
theorem startsWell_iff_back : ∃ story : Story ℚ, story.played = [0, 1] ∧ story.room.sessionPlayers.size = 2 ∧
    story.room.StartsWell Env.still .fourPlaces := by
  have hrun : ((guestLeft ++ [Event.join 0 8]).foldlM next ⟨Room.new 0 7 [] [] [], []⟩).map
    (fun story : Story ℚ =>
      (story.played, story.room.sessionPlayers.size, story.room.mapSectionData,
        decide (∀ s ∈ story.played, s ∈ story.room.sessionPlayers))) =
          some ([0, 1], 2, some .fourPlaces, true) := by
    decide +kernel
  obtain ⟨story, hstory, hobs⟩ := Option.map_eq_some_iff.mp hrun
  obtain ⟨hplayed, hobs⟩ := Prod.mk.inj hobs
  obtain ⟨hsize, hobs⟩ := Prod.mk.inj hobs
  obtain ⟨hmap, hback⟩ := Prod.mk.inj hobs
  refine ⟨story, hplayed, hsize, ?_⟩
  refine (startsWell_iff 0 7 [] [] [] (Reachable.of_run hstory .refl) hmap Env.still).mpr
    ⟨of_decide_eq_true hback, ?_⟩
  rw [hsize]
  decide

/-- The host starts again without the guest, who is given a place under the same index. -/
theorem not_startsWell : ∃ story : Story ℚ,
    Reachable (Transition.ofFun next) ⟨Room.new 0 7 [] [] [], []⟩ story ∧
      story.room.mapSectionData = some .fourPlaces ∧
      story.room.sessionPlayers.size ≤ MapSectionData.fourPlaces.playerPos.length ∧
      ¬ story.room.StartsWell Env.still .fourPlaces := by
  have hrun : (guestLeft.foldlM next ⟨Room.new 0 7 [] [] [], []⟩).map (fun story =>
      (story.room.sessionPlayers.size, story.room.mapSectionData, decide (0 ∈ story.room.ingamePlayerIndex),
        decide (0 ∈ story.room.sessionPlayers))) = some (1, some .fourPlaces, true, false) := by
    decide +kernel
  obtain ⟨story, hstory, hobs⟩ := Option.map_eq_some_iff.mp hrun
  obtain ⟨hsize, hobs⟩ := Prod.mk.inj hobs
  obtain ⟨hmap, hobs⟩ := Prod.mk.inj hobs
  obtain ⟨hindex, hleft⟩ := Prod.mk.inj hobs
  refine ⟨story, Reachable.of_run hstory .refl, hmap, ?_, ?_⟩
  · rw [hsize]
    decide
  · intro hwell
    exact of_decide_eq_false hleft ((hwell.seated hmap).1 0 (of_decide_eq_true hindex))

end GameStart

end StarCraftIocp
