import StarCraftIocp.Proof.Membership

/-!
# The three copies of a room's membership

`_sessions`, `_sessionPlayers` and `playerCount` say the same as long as nobody
joins a room twice: `Add` counts every call, while `RemoveGameSession` counts a
session once.
-/

namespace StarCraftIocp

open CInt Protocol

variable {F : Type} [Scalar F]

/-- The counter and the map agree with the set. -/
structure Membership.Counts (m : Membership) : Prop where
  playerCount : m.playerCount = m.sessions.size
  size : m.sessionPlayers.size = m.sessions.size
  mem : ∀ s, s ∈ m.sessionPlayers ↔ s ∈ m.sessions

namespace Room

omit [Scalar F]

/-- Joining enters a session in both tables. -/
theorem mem_add {room : Room F} (h : ∀ s, s ∈ room.sessionPlayers ↔ s ∈ room.sessions)
    (s : SessionRef) (name : Int)
    (t : SessionRef) : t ∈ (room.add s name).sessionPlayers ↔ t ∈ (room.add s name).sessions := by
  change t ∈ room.sessionPlayers.insert s name ↔ t ∈ room.sessions.insert s
  rw [Std.ExtTreeSet.mem_insert, Std.ExtTreeMap.mem_insert, h t]

/-- Leaving takes a session out of both. -/
theorem mem_removeGameSession {room : Room F} (h : ∀ s, s ∈ room.sessionPlayers ↔ s ∈ room.sessions)
    (s t : SessionRef) :
    t ∈ (room.removeGameSession s).sessionPlayers ↔ t ∈ (room.removeGameSession s).sessions := by
  unfold removeGameSession
  by_cases hs : s ∈ room.sessions
  · rw [if_pos hs]
    dsimp only
    rw [if_pos ((h s).mpr hs)]
    change t ∈ room.sessionPlayers.erase s ↔ t ∈ room.sessions.erase s
    rw [Std.ExtTreeSet.mem_erase, Std.ExtTreeMap.mem_erase, h t]
  · rw [if_neg hs]
    exact h t

theorem counts_add {room : Room F} (h : room.membership.Counts) {s : SessionRef} (name : Int)
    (hs : s ∉ room.sessions) : (room.add s name).membership.Counts := by
  have hs' : s ∉ room.sessionPlayers := fun hm => hs ((h.mem s).mp hm)
  have hc : room.playerCount = room.sessions.size := h.playerCount
  have hsize : room.sessionPlayers.size = room.sessions.size := h.size
  refine ⟨?_, ?_, ?_⟩
  · change room.playerCount + 1 = ((room.sessions.insert s).size : Int)
    rw [Table.set_size_insert_of_not_mem hs, hc]
    rfl
  · change (room.sessionPlayers.insert s name).size = (room.sessions.insert s).size
    rw [Table.set_size_insert_of_not_mem hs, Table.size_insert_of_not_mem name hs', hsize]
  · exact mem_add h.mem s name

theorem counts_removeGameSession {room : Room F} (h : room.membership.Counts) (s : SessionRef) :
    (room.removeGameSession s).membership.Counts := by
  have hmem := mem_removeGameSession h.mem s
  by_cases hs : s ∈ room.sessions
  · have hs' : s ∈ room.sessionPlayers := (h.mem s).mpr hs
    have hpos := Table.set_size_pos hs
    have hc : room.playerCount = room.sessions.size := h.playerCount
    have hsize : room.sessionPlayers.size = room.sessions.size := h.size
    unfold removeGameSession at hmem ⊢
    rw [if_pos hs] at hmem ⊢
    dsimp only at hmem ⊢
    rw [if_pos hs'] at hmem ⊢
    refine ⟨?_, ?_, hmem⟩
    · change room.playerCount - 1 = ((room.sessions.erase s).size : Int)
      rw [Table.set_size_erase_of_mem hs, hc]
      omega
    · change (room.sessionPlayers.erase s).size = (room.sessions.erase s).size
      rw [Table.set_size_erase_of_mem hs, Table.size_erase_of_mem hs', hsize]
  · unfold removeGameSession
    rw [if_neg hs]
    exact h

/-- A room that does not close has a member left. -/
theorem sessions_ne_of_stays {room : Room F} (h : room.membership.Counts) {name : Int}
    (hd : room.deleteRoom name = false) : room.sessions ≠ ∅ := by
  intro h0
  have hc : room.playerCount = room.sessions.size := h.playerCount
  rw [h0] at hc
  simp [deleteRoom, hc] at hd

end Room

theorem counts_new (roomId hostId : Int) (gameName gamePassWord mapHash : List UInt8) :
    (Room.new roomId hostId gameName gamePassWord mapHash : Room F).membership.Counts :=
  ⟨rfl, rfl, fun s => by simp [Room.membership, Room.new]⟩

namespace World

/-- In every room of the manager the three copies agree, and somebody is in it. -/
structure MembershipCounts (w : World F) : Prop where
  room : ∀ id r, w.Registered id r → (w.room r).membership.Counts ∧ (w.room r).sessions ≠ ∅

/-- Nobody asks to join a room it is in, and is let in. -/
def JoinsAnew (w : World F) (a : Env F × Event F) : Prop :=
  match a.2 with
  | .packet s (.cRoomRequest roomCode gamePassWord) => w.IfRoom roomCode.toInt fun r =>
      admits (w.room r) gamePassWord = true → s ∉ (w.room r).sessions
  | _ => True

instance (w : World F) : (a : Env F × Event F) → Decidable (w.JoinsAnew a)
  | (_, .packet _ (.cRoomRequest roomCode _)) =>
      inferInstanceAs (Decidable (w.IfRoom roomCode.toInt _))
  | (_, .packet _ (.cRoomCreate _ _ _ _)) | (_, .packet _ (.cLogin _))
  | (_, .packet _ (.cMove _ _ _)) | (_, .packet _ .cRoomData)
  | (_, .packet _ (.cRoomPlayerListRequest _)) | (_, .packet _ (.cStartGame _))
  | (_, .packet _ .cExitGame) | (_, .packet _ (.cAttack _ _ _ _))
  | (_, .packet _ (.cRttPing _)) | (_, .connect) | (_, .disconnect _) | (_, .update) =>
      inferInstanceAs (Decidable True)

omit [Scalar F] in
theorem MembershipCounts.quiet {w w' : World F} (h : w.MembershipCounts) (hq : Quiet w w') :
    w'.MembershipCounts := by
  constructor
  intro id r hr
  have hr' : w.Registered id r := by unfold Registered at hr ⊢; rw [← hq.rooms]; exact hr
  obtain ⟨h1, h2⟩ := h.room id r hr'
  have hs : (w'.room r).sessions = (w.room r).sessions := congrArg Membership.sessions (hq.room r)
  exact ⟨by rw [hq.room]; exact h1, by rw [hs]; exact h2⟩

omit [Scalar F] in
theorem MembershipCounts.roomAdd {w : World F} (h : w.MembershipCounts) {r : RoomRef}
    {s : SessionRef} (hs : s ∉ (w.room r).sessions) : (w.roomAdd r s).MembershipCounts := by
  constructor
  intro id q hq
  obtain ⟨h1, h2⟩ := h.room id q hq
  rw [room_roomAdd]
  by_cases hqr : q = r
  · subst hqr
    rw [if_pos rfl]
    exact ⟨Room.counts_add h1 _ hs, Std.ExtTreeSet.insert_ne_empty⟩
  · rw [if_neg hqr]
    exact ⟨h1, h2⟩

theorem MembershipCounts.created {w : World F} (hreg : w.Registry) (h : w.MembershipCounts)
    (s : SessionRef) (gameId : UInt64) (gameName gamePassWord mapHash : List UInt8) :
    (w.created s gameId gameName gamePassWord mapHash).MembershipCounts := by
  constructor
  intro id r hr
  unfold Registered at hr
  rw [rooms_created] at hr
  rw [room_created]
  by_cases hid : id = w.roomManager.roomIdCount
  · rw [if_pos hid] at hr
    obtain rfl := Option.some.inj (Option.some.inj hr)
    rw [if_pos rfl]
    refine ⟨Room.counts_add (counts_new ..) _ ?_, Std.ExtTreeSet.insert_ne_empty⟩
    simp [Room.new]
  · rw [if_neg hid] at hr
    obtain ⟨q, hq, hlt, -⟩ := hreg.entry id (some r) hr
    obtain rfl := Option.some.inj hq
    rw [if_neg (Nat.ne_of_lt hlt)]
    exact h.room id r hr

omit [Scalar F] in
theorem MembershipCounts.leaves {w w' : World F} (hreg : w.Registry) (h : w.MembershipCounts)
    {r : RoomRef} {s : SessionRef} {freed : List SessionRef} {id : Int} (hr : w.Registered id r)
    (hl : Leaves w w' r s freed) : w'.MembershipCounts := by
  have hcounts : (w.without r s).membership.Counts := Room.counts_removeGameSession (h.room id r hr).1 s
  constructor
  intro k q hk
  unfold Registered at hk
  cases hl with
  | stays hc hb =>
      rw [hb.rooms] at hk
      have hm := hb.room q
      have hs : (w'.room q).sessions = _ := congrArg Membership.sessions hm
      by_cases hqr : q = r
      · rw [if_pos hqr] at hm hs
        rw [hm, hs]
        exact ⟨hcounts, Room.sessions_ne_of_stays hcounts hc⟩
      · rw [if_neg hqr] at hm hs
        rw [hm, hs]
        exact h.room k q hk
  | closed hc hb =>
      rw [hb.rooms, Table.getElem?_erase] at hk
      by_cases hkr : k = (w.room r).roomId
      · rw [if_pos hkr] at hk; cases hk
      · rw [if_neg hkr] at hk
        -- a room stands under its own id only, so that what is left is not `r`
        obtain ⟨q', hq', -, hid⟩ := hreg.entry k (some q) hk
        obtain rfl := Option.some.inj hq'
        have hqr : q ≠ r := by rintro rfl; exact hkr hid.symm
        have hm := hb.room q
        have hs : (w'.room q).sessions = _ := congrArg Membership.sessions hm
        rw [if_neg hqr] at hm hs
        rw [hm, hs]
        exact h.room k q hk

theorem membershipCounts_moves {w w' : World F} {a : Env F × Event F} (hreg : w.Registry)
    (h : w.MembershipCounts) (hg : w.JoinsAnew a) (hm : Moves w w' a.2) : w'.MembershipCounts := by
  obtain ⟨env, e⟩ := a
  cases hm with
  | quiet hq => exact h.quiet hq
  | tick hq => exact h.quiet hq
  | connect hw => subst hw; exact ⟨h.room⟩
  | create hq => exact (h.created hreg ..).quiet hq
  | join hr ha hq =>
      exact (h.roomAdd (hg _ (getRoom_eq_some.mpr hr) ha)).quiet hq
  | exit hr hl => exact h.leaves hreg hr hl
  | @disconnect s r hr hl =>
      have hdrop : (w.dropped s).MembershipCounts := ⟨h.room⟩
      have hreg' : (w.dropped s).Registry := ⟨hreg.entry⟩
      exact hdrop.leaves hreg' hr hl
  | @gone s hr hq =>
      have hdrop : ((w.dropped s).setRoomId s intMax).MembershipCounts := ⟨h.room⟩
      exact hdrop.quiet hq

/--
**The counts agree** after every run of the server in which no session that is in
a room joins it again.
-/
theorem membership_counts {maps : List UInt8 → Option MapSectionData} {w : World F}
    (h : Reachable ((Transition.ofFun next).guarded JoinsAnew) (World.init maps) w) :
    w.MembershipCounts := by
  have hinv : w.Registry ∧ w.MembershipCounts := by
    refine h.invariant (I := fun w => w.Registry ∧ w.MembershipCounts) ⟨registry_init maps, ?_⟩ ?_
    · constructor
      intro id r hr
      simp [Registered, World.init, RoomManager.init] at hr
    · intro w a w' hw hs
      have hm := (moves_next hs.2).2
      exact ⟨registry_moves hw.1 hm, membershipCounts_moves hw.1 hw.2 hs.1 hm⟩
  exact hinv.2

theorem membership_counts_joinAndLeave :
    ∃ w : World ℚ, w.Registered 0 0 ∧ (w.room 0).playerCount = 1 ∧ w.MembershipCounts := by
  have hrun : (joinAndLeave.foldlM (guardedFun next JoinsAnew) (World.init fun _ => none)).map
      (fun w => (w.getRoom 0, (w.room 0).playerCount)) = some (some 0, 1) := by decide +kernel
  obtain ⟨w, hw, hobs⟩ := Option.map_eq_some_iff.mp hrun
  obtain ⟨hroom, hcount⟩ := Prod.mk.inj hobs
  exact ⟨w, getRoom_eq_some.mp hroom, hcount,
    membership_counts (Reachable.of_run_guarded (l := joinAndLeave) hw .refl)⟩

/-- A session that creates a room and asks to join it. -/
def joinTwice : List (Env ℚ × Event ℚ) :=
  still [.connect, .packet 0 (.cRoomCreate 1 [] [] []), .packet 0 (.cRoomRequest 0 [])]

/-- The second `Add` of one session is counted: two players in a room with one session. -/
theorem not_membership_counts :
    ∃ w : World ℚ, Reachable (Transition.ofFun next) (World.init fun _ => none) w
      ∧ ¬ w.MembershipCounts := by
  have hrun : (joinTwice.foldlM next (World.init fun _ => none)).map
      (fun w => (w.getRoom 0, (w.room 0).playerCount, (w.room 0).sessions.size))
        = some (some 0, 2, 1) := by decide +kernel
  obtain ⟨w, hw, hobs⟩ := Option.map_eq_some_iff.mp hrun
  obtain ⟨hroom, hobs⟩ := Prod.mk.inj hobs
  obtain ⟨hcount, hsize⟩ := Prod.mk.inj hobs
  refine ⟨w, Reachable.of_run (l := joinTwice) hw .refl, ?_⟩
  intro h
  have hcounts : (w.room 0).playerCount = (w.room 0).sessions.size :=
    (h.room 0 0 (getRoom_eq_some.mp hroom)).1.playerCount
  rw [hcount, hsize] at hcounts
  exact absurd hcounts (by decide)

end World

end StarCraftIocp
