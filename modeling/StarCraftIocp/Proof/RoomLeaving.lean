import StarCraftIocp.Proof.RoomLaws

/-!
# Leaving a room

`Room::Remove` from one end to the other: the locked section, the packets to the
members that are left, and `RemoveRoom` where nobody or no host is. What it
starts from is a room that is registered, with the three copies of its membership
in agreement and no null object in its table.
-/

namespace StarCraftIocp

open CInt Protocol Outcome Room

variable {F : Type} [Scalar F]

namespace World

/-- A room that is as `Room::Remove` expects it. -/
structure Leavable (w : World F) (id : Int) (r : RoomRef) : Prop where
  registered : w.Registered id r
  roomId : (w.room r).roomId = id
  counts : (w.room r).membership.Counts
  currentRoom : ∀ t ∈ (w.room r).sessions, (w.session t).currentRoom = id
  keys : ∀ k : Int, k ∈ (w.room r).objects ↔ k ∈ (w.room r).idList
  /-- There is no null object, and an object is entered under its id. -/
  entry : ∀ (k : Int) v, (w.room r).objects[k]? = some v →
    ∃ object, v = some object ∧ ((w.room r).heap object).id = k

/-- The host or the last member leaves. -/
def Ends (w : World F) (r : RoomRef) (s : SessionRef) : Prop :=
  (w.session s).playerName = (w.room r).hostId ∨ ∀ t ∈ (w.room r).sessions, t = s

/-- The other members, each once. -/
def Others (w : World F) (r : RoomRef) (s : SessionRef) (players : List SessionRef) : Prop :=
  players.Nodup ∧ ∀ t, t ∈ players ↔ t ∈ (w.room r).sessions ∧ t ≠ s

/-- The room is gone, and its other members have been told. -/
structure Disbands (w w' : World F) (id : Int) (r : RoomRef) (s : SessionRef) : Prop where
  sessions : (w'.room r).sessions = ∅
  sessionPlayers : (w'.room r).sessionPlayers = ∅
  playerCount : (w'.room r).playerCount = 0
  objects : (w'.room r).objects = ∅
  idList : (w'.room r).idList = ∅
  session : ∀ t, w'.session t = if t ∈ (w.room r).sessions ∧ t ≠ s then
    { w.session t with currentRoom := intMax } else w.session t
  roomManager : w'.roomManager = { w.roomManager with rooms := w.roomManager.rooms.erase id }
  sent : ∃ players, w.Others r s players ∧
    w'.sent = w.sent ++ players.map fun player => (player, .sRoomExit .adminExit)
  /-- Nothing else is sent. -/
  broadcasts : (w'.room r).sent = (w.room r).sent
  room : ∀ q, q ≠ r → w'.room q = w.room q

/-- The room goes on without `s`, and the other members know who is left. -/
structure Remains (w w' : World F) (r : RoomRef) (s : SessionRef) : Prop where
  sessions : ∀ t, t ∈ (w'.room r).sessions ↔ t ∈ (w.room r).sessions ∧ t ≠ s
  sessionPlayers : ∀ t : SessionRef, (w'.room r).sessionPlayers[t]? =
    if t = s then none else (w.room r).sessionPlayers[t]?
  playerCount : (w'.room r).playerCount = (w.room r).playerCount - 1
  objects : (w'.room r).objects = (w.room r).objects
  session : w'.session = w.session
  roomManager : w'.roomManager = w.roomManager
  sent : ∃ players, w.Others r s players ∧ w'.sent = w.sent ++ players.map fun player =>
    (player, .sLobbyPlayerInfo (players.map fun p => (w.session p).playerName))
  broadcasts : (w'.room r).sent = (w.room r).sent
  room : ∀ q, q ≠ r → w'.room q = w.room q

section

omit [Scalar F]

variable {w : World F} {r : RoomRef} {s : SessionRef}

/-- `RemoveGameSession` of a member. -/
theorem without_eq (hcounts : (w.room r).membership.Counts) (hs : s ∈ (w.room r).sessions) :
    w.without r s = { w.room r with
      sessions := (w.room r).sessions.erase s
      sessionPlayers := (w.room r).sessionPlayers.erase s
      playerCount := (w.room r).playerCount - 1 } := by
  have hs' : s ∈ (w.room r).sessionPlayers := (hcounts.mem s).mpr hs
  unfold without removeGameSession
  rw [if_pos hs]
  dsimp only
  rw [if_pos hs']

/-- The snapshot is taken when `s` is out already. -/
theorem others_toList (hcounts : (w.room r).membership.Counts) (hs : s ∈ (w.room r).sessions) :
    w.Others r s (w.without r s).sessions.toList := by
  rw [without_eq hcounts hs]
  refine ⟨Table.set_nodup_toList _, fun t => ?_⟩
  rw [Std.ExtTreeSet.mem_toList, Table.set_mem_erase]
  exact and_comm

/-- The room closes when its host or its last member leaves. -/
theorem closes_iff (hcounts : (w.room r).membership.Counts) (hs : s ∈ (w.room r).sessions) :
    w.closes r s = true ↔ w.Ends r s := by
  have hleft := counts_removeGameSession hcounts s
  have hcount : (w.without r s).playerCount = (w.without r s).sessions.size := hleft.playerCount
  have hempty : (w.without r s).playerCount = 0 ↔ ∀ t ∈ (w.room r).sessions, t = s := by
    have hothers := others_toList hcounts hs
    rw [hcount, Int.natCast_eq_zero, ← Std.ExtTreeSet.length_toList, List.length_eq_zero_iff,
      List.eq_nil_iff_forall_not_mem]
    refine forall_congr' fun t => ?_
    rw [hothers.2 t]
    tauto
  have hhost : (w.without r s).hostId = (w.room r).hostId := by
    rw [without_eq hcounts hs]
  unfold closes deleteRoom Ends
  rw [Bool.or_eq_true, beq_iff_eq, beq_iff_eq, hempty, hhost]
  exact or_comm

/-- The loop over the players of a room that closes tells each of them once. -/
theorem notified_foldl (packet : ServerMessage F) (players : List SessionRef) (w : World F) :
    (players.foldl (fun w player => w.notifyExit packet player) w).sent
        = w.sent ++ players.map (fun player => (player, packet)) ∧
      ∀ t, (players.foldl (fun w player => w.notifyExit packet player) w).session t
        = if t ∈ players then { w.session t with currentRoom := intMax } else w.session t := by
  induction players generalizing w with
  | nil => exact ⟨(List.append_nil _).symm, fun t => (if_neg List.not_mem_nil).symm⟩
  | cons player players ih =>
      obtain ⟨hsent, hsession⟩ := ih (w.notifyExit packet player)
      rw [List.foldl_cons]
      refine ⟨?_, ?_⟩
      · rw [hsent]
        exact List.append_assoc ..
      · intro t
        have hone : (w.notifyExit packet player).session t
            = if t = player then { w.session player with currentRoom := intMax } else w.session t :=
          session_setSession ..
        rw [hsession t, hone]
        by_cases ht : t = player
        · subst ht
          rw [if_pos rfl, if_pos List.mem_cons_self]
          split <;> rfl
        · rw [if_neg ht]
          simp only [List.mem_cons, ht, false_or]

end

/-! ## The two outcomes -/

/-- Objects go without a word. -/
theorem sent_removeObjects (room : Room F) : Ensures room.removeObjects fun room' =>
    room'.sent = room.sent := by
  refine Ensures.foldlM rfl ?_
  intro room1 h1 object _
  cases object with
  | none => exact .error _
  | some object => exact .ok h1

/-- A room that closes is emptied by `RemoveRoom`, and taken out of the manager. -/
theorem disbands_roomRemove {w : World F} {id : Int} {r : RoomRef} {s : SessionRef} (h : w.Leavable id r)
    (hs : s ∈ (w.room r).sessions) (hclose : w.closes r s = true) :
    Yields (w.roomRemove r s) fun w' => w.Disbands w' id r s := by
  have hothers := others_toList h.counts hs
  have hcleared : (w.without r s).cleared = (w.room r).cleared := by
    rw [without_eq h.counts hs]
    rfl
  have hroom : (w.emptied r s).room r = (w.room r).cleared := by
    rw [room_emptied, if_pos rfl, hcleared]
  obtain ⟨hsent, hsession⟩ := notified_foldl (.sRoomExit .adminExit) (w.without r s).sessions.toList
    (w.setRoom r (w.without r s).cleared)
  obtain ⟨room, hok, hobjects, hidList⟩ := @ObjectTable.removeObjects_of_entry F _ (w.room r).cleared h.entry
  -- what `RemoveRoom` does to the objects leaves the membership alone
  have hmembership : room.membership = (w.room r).cleared.membership := (stays_removeObjects _).keeps room hok
  have hsilent := sent_removeObjects _ room hok
  rw [roomRemove_closed hclose]
  unfold removeRoom
  rw [hroom, hok, ok_bind]
  refine .ok ?_
  have hself : (((w.emptied r s).setRoom r room).room r) = room := by
    rw [room_setRoom, if_pos rfl]
  refine ⟨?_, ?_, ?_, ?_, ?_, ?_, ?_, ⟨_, hothers, hsent⟩, ?_, ?_⟩
  · exact (congrArg Room.sessions hself).trans (congrArg Membership.sessions hmembership)
  · exact (congrArg Room.sessionPlayers hself).trans (congrArg Membership.sessionPlayers hmembership)
  · exact (congrArg Room.playerCount hself).trans (congrArg Membership.playerCount hmembership)
  · exact (congrArg Room.objects hself).trans hobjects
  · refine (congrArg Room.idList hself).trans (Std.ExtTreeSet.eq_empty_iff_forall_not_mem.mpr ?_)
    intro k hk
    obtain ⟨hin, hout⟩ := (hidList k).mp hk
    exact hout ((h.keys k).mpr hin)
  · intro t
    refine (hsession t).trans ?_
    simp only [hothers.2 t]
    rfl
  · have hid : room.roomId = id := (congrArg Membership.roomId hmembership).trans h.roomId
    dsimp only
    rw [roomManager_emptied, hid]
  · exact (congrArg Room.sent hself).trans hsilent
  · intro q hq
    show ((w.emptied r s).setRoom r room).room q = w.room q
    rw [room_setRoom, if_neg hq, room_emptied, if_neg hq]

/-- A room that goes on loses one member, and tells the others who is left. -/
theorem remains_roomRemove {w : World F} {id : Int} {r : RoomRef} {s : SessionRef} (h : w.Leavable id r)
    (hs : s ∈ (w.room r).sessions) (hclose : w.closes r s = false)
    (hfits : (w.playersLeft r s).byteSizeLong ≤ 5996) :
    Yields (w.roomRemove r s) fun w' => w.Remains w' r s := by
  have hothers := others_toList h.counts hs
  have hleft := without_eq h.counts hs
  have hself : (w.setRoom r (w.without r s)).room r = w.without r s := by
    rw [room_setRoom, if_pos rfl]
  rw [roomRemove_stays hclose]
  unfold lobbyPlayerInfo
  have hframe : (w.playersLeft r s).frame = .ok (w.playersLeft r s) := ServerMessage.frame_ok hfits
  refine Yields.bind (P := fun packet => packet = w.playersLeft r s) ⟨_, hframe, rfl⟩ ?_
  intro packet hpacket
  subst hpacket
  refine .ok ⟨?_, ?_, ?_, ?_, rfl, rfl, ⟨_, hothers, rfl⟩, ?_, ?_⟩
  · intro t
    show t ∈ ((w.setRoom r (w.without r s)).room r).sessions ↔ _
    rw [hself, hleft]
    exact Table.set_mem_erase.trans and_comm
  · intro t
    show ((w.setRoom r (w.without r s)).room r).sessionPlayers[t]? = _
    rw [hself, hleft]
    exact Table.getElem?_erase ..
  · show ((w.setRoom r (w.without r s)).room r).playerCount = _
    rw [hself, hleft]
  · show ((w.setRoom r (w.without r s)).room r).objects = _
    rw [hself, hleft]
  · show ((w.setRoom r (w.without r s)).room r).sent = _
    rw [hself, hleft]
  · intro q hq
    exact (room_setRoom ..).trans (if_neg hq)

/-! ## Main results -/

/-- In the runs of the server the counts and the keys are enough: that the set and the map have the
same sessions, and that objects are under their ids, is always so. -/
theorem Leavable.of_reachable {maps : List UInt8 → Option MapSectionData} {w : World F}
    (h : Reachable (Transition.ofFun next) (World.init maps) w) {id : Int} {r : RoomRef}
    (hr : w.Registered id r)
    (hid : (w.room r).roomId = id) (hcount : (w.room r).playerCount = (w.room r).sessions.size)
    (hsize : (w.room r).sessionPlayers.size = (w.room r).sessions.size)
    (hcurrent : ∀ t ∈ (w.room r).sessions, (w.session t).currentRoom = id)
    (hkeys : ∀ k : Int, k ∈ (w.room r).objects ↔ k ∈ (w.room r).idList) (hnull : (w.room r).NoNull) :
    w.Leavable id r where
  registered := hr
  roomId := hid
  counts := ⟨hcount, hsize, RoomLaw.members.reachable (fun _ _ h1 => h1) h r⟩
  currentRoom := hcurrent
  keys := hkeys
  entry := by
    intro k v hv
    cases v with
    | none => exact absurd rfl (hnull (k, none) (Std.ExtTreeMap.mem_toList_iff_getElem?_eq_some.mpr hv))
    | some object =>
        have htabled : ObjectTable.Tabled (w.room r) :=
          RoomLaw.tabled.reachable (fun _ _ h1 => h1.same rfl rfl rfl rfl) h r
        exact ⟨object, rfl, (htabled.holds k object hv).2⟩

/--
**Leaving a room**: where the host or the last member leaves, the room is emptied
and taken out of the manager, and the other members are told to go; otherwise it
goes on without the one who leaves, and the others are told who is left.
-/
theorem room_leaving {w : World F} {id : Int} {r : RoomRef} {s : SessionRef} (h : w.Leavable id r)
    (hs : s ∈ (w.room r).sessions) (hfits : ¬ w.Ends r s → (w.playersLeft r s).byteSizeLong ≤ 5996) :
    ∃ w', w.roomRemove r s = .ok w' ∧ (w.Ends r s → w.Disbands w' id r s) ∧
    (¬ w.Ends r s → w.Remains w' r s) := by
  have hiff := closes_iff h.counts hs
  cases hclose : w.closes r s with
  | true =>
      have hends := hiff.mp hclose
      obtain ⟨w', hok, hdisbands⟩ := disbands_roomRemove h hs hclose
      exact ⟨w', hok, fun _ => hdisbands, fun hnot => absurd hends hnot⟩
  | false =>
      have hnot : ¬ w.Ends r s := by
        intro hends
        rw [hiff.mpr hends] at hclose
        cases hclose
      obtain ⟨w', hok, hremains⟩ := remains_roomRemove h hs hclose (hfits hnot)
      exact ⟨w', hok, fun hends => absurd hends hnot, fun _ => hremains⟩

/-- Three sessions in a room, which the first one has made, and a game with twelve probes. -/
def threePlayers : List (Env ℚ × Event ℚ) :=
  still [.connect, .connect, .connect, .packet 0 (.cLogin 1), .packet 1 (.cLogin 2), .packet 2 (.cLogin 3),
    .packet 0 (.cRoomCreate 1 [] [] []), .packet 1 (.cRoomRequest 0 []), .packet 2 (.cRoomRequest 0 []),
    .packet 0 (.cStartGame 0)]

theorem room_leaving_threePlayers : ∃ w w' w'' : World ℚ, (w.room 0).objects.size = 12 ∧
    w.roomRemove 0 1 = .ok w' ∧
    w.Remains w' 0 1 ∧ w.roomRemove 0 0 = .ok w'' ∧ w.Disbands w'' 0 0 0 := by
  have hrun : ((threePlayers.foldlM next (World.init fun _ => some .fourPlaces)).map fun w =>
      (decide ((w.room 0).objects.size = 12 ∧ w.getRoom 0 = some 0 ∧ (w.room 0).roomId = 0 ∧
        (w.room 0).playerCount = (w.room 0).sessions.size ∧
          (w.room 0).sessionPlayers.size = (w.room 0).sessions.size ∧
        (∀ t ∈ (w.room 0).sessions.toList, (w.session t).currentRoom = 0) ∧
        (w.room 0).objects.keys = (w.room 0).idList.toList ∧ (w.room 0).NoNull),
      decide ((0 ∈ (w.room 0).sessions ∧ 1 ∈ (w.room 0).sessions) ∧
        (w.session 0).playerName = (w.room 0).hostId ∧
        (w.session 1).playerName ≠ (w.room 0).hostId ∧ (w.playersLeft 0 1).byteSizeLong ≤ 5996)))
      = some (true, true) := by
    decide +kernel
  obtain ⟨w, hw, hobs⟩ := Option.map_eq_some_iff.mp hrun
  obtain ⟨hroom, hwho⟩ := Prod.mk.inj hobs
  obtain ⟨hsize, hr, hid, hcount, hplayers, hcurrent, hkeys, hnull⟩ := of_decide_eq_true hroom
  obtain ⟨⟨h0, h1⟩, hhost, hguest, hfits⟩ := of_decide_eq_true hwho
  have h : w.Leavable 0 0 := by
    refine .of_reachable (Reachable.of_run hw .refl) (getRoom_eq_some.mp hr) hid hcount hplayers ?_ ?_ hnull
    · exact fun t ht => hcurrent t (Std.ExtTreeSet.mem_toList.mpr ht)
    · intro k
      rw [← Std.ExtTreeMap.mem_keys, hkeys, Std.ExtTreeSet.mem_toList]
  have hstays : ¬ w.Ends 0 1 := by
    intro hends
    rcases hends with hname | honly
    · exact hguest hname
    · exact absurd (honly 0 h0) (by decide)
  obtain ⟨w', hok', -, hremains⟩ := room_leaving h h1 fun _ => hfits
  obtain ⟨w'', hok'', hdisbands, -⟩ := room_leaving h h0 fun hnot => absurd (.inl hhost) hnot
  exact ⟨w, w', w'', hsize, hok', hremains hstays, hok'', hdisbands (.inl hhost)⟩

end World

end StarCraftIocp
