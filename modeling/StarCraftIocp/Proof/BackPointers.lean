import StarCraftIocp.Proof.Pointers

/-!
# One room at a time

The converse of `Pointers`: the rooms that have a session in their set are the
one its `currentRoom` names. `Room::Add` does not take the session out of the
room it was in, so that this needs sessions that join only from no room.
-/

namespace StarCraftIocp

open CInt Protocol

variable {F : Type} [Scalar F]

namespace World

/-- A member's `currentRoom` is the room's id, and leads back to the room. -/
structure Members (w : World F) : Prop where
  registered : ∀ s r, s ∈ (w.room r).sessions → w.Registered (w.room r).roomId r
  currentRoom : ∀ s r, s ∈ (w.room r).sessions → (w.session s).currentRoom = (w.room r).roomId

/-- A member of a room is connected, and has been connected once. -/
structure Alive (w : World F) : Prop where
  lt : ∀ s r, s ∈ (w.room r).sessions → s < w.nextSession
  connected : ∀ s r, s ∈ (w.room r).sessions → (w.session s).connected = true

/-- The relation between sessions and rooms, as both sides store it. -/
structure BackPointers (w : World F) : Prop where
  one_room : ∀ s q r, s ∈ (w.room q).sessions → s ∈ (w.room r).sessions → q = r
  in_room : ∀ s r, s ∈ (w.room r).sessions → (w.session s).currentRoom = (w.room r).roomId
  in_none : ∀ s, (∀ r, s ∉ (w.room r).sessions) → (w.session s).currentRoom = intMax
  gone : ∀ s, (w.session s).connected = false → ∀ r, s ∉ (w.room r).sessions

/-- Only a session in no room gets into one, and only while an id is left for it. -/
def JoinsFromNone (w : World F) (a : Env F × Event F) : Prop :=
  match a.2 with
  | .packet s (.cRoomCreate _ _ _ _) =>
      (w.session s).currentRoom = intMax ∧ w.roomManager.roomIdCount < intMax
  | .packet s (.cRoomRequest roomCode gamePassWord) => w.IfRoom roomCode.toInt fun r =>
      admits (w.room r) gamePassWord = true →
        (w.session s).currentRoom = intMax ∨ (w.session s).currentRoom = (w.room r).roomId
  | _ => True

instance (w : World F) : (a : Env F × Event F) → Decidable (w.JoinsFromNone a)
  | (_, .packet _ (.cRoomCreate _ _ _ _)) => inferInstanceAs (Decidable (_ ∧ _))
  | (_, .packet _ (.cRoomRequest roomCode _)) =>
      inferInstanceAs (Decidable (w.IfRoom roomCode.toInt _))
  | (_, .packet _ (.cLogin _)) | (_, .packet _ (.cMove _ _ _)) | (_, .packet _ .cRoomData)
  | (_, .packet _ (.cRoomPlayerListRequest _)) | (_, .packet _ (.cStartGame _))
  | (_, .packet _ .cExitGame) | (_, .packet _ (.cAttack _ _ _ _))
  | (_, .packet _ (.cRttPing _)) | (_, .connect) | (_, .disconnect _) | (_, .update) =>
      inferInstanceAs (Decidable True)

omit [Scalar F] in
theorem JoinsFromNone.idLeft {w : World F} {a : Env F × Event F} (h : w.JoinsFromNone a) :
    w.IdLeft a.2 := by
  obtain ⟨env, e⟩ := a
  unfold IdLeft
  split
  · rename_i heq
    dsimp only at heq
    subst heq
    exact h.2
  · trivial

section

omit [Scalar F]

theorem Members.one_room {w : World F} (h : w.Members) {s : SessionRef} {q r : RoomRef}
    (hq : s ∈ (w.room q).sessions) (hr : s ∈ (w.room r).sessions) : q = r := by
  have hid : (w.room q).roomId = (w.room r).roomId :=
    (h.currentRoom s q hq).symm.trans (h.currentRoom s r hr)
  have hqr := h.registered s q hq
  rw [hid] at hqr
  exact hqr.unique (h.registered s r hr)

/-- The room a session believes to be in is the only one that can have it. -/
theorem Members.only {w : World F} (h : w.Members) {s : SessionRef} {q r : RoomRef}
    (hr : w.Registered (w.session s).currentRoom r) (hq : s ∈ (w.room q).sessions) : q = r := by
  have hqr := h.registered s q hq
  rw [← h.currentRoom s q hq] at hqr
  exact hqr.unique hr

theorem Members.ne_intMax {w : World F} (hids : w.IdsBelow) (h : w.Members) {s : SessionRef}
    {r : RoomRef} (hs : s ∈ (w.room r).sessions) : (w.session s).currentRoom ≠ intMax := by
  rw [h.currentRoom s r hs]
  exact (h.registered s r hs).ne_intMax hids

/-- A session whose `currentRoom` leads nowhere is in no room. -/
theorem Members.ne_of_gone {w : World F} (hids : w.IdsBelow) (h : w.Members) {s t : SessionRef}
    {r : RoomRef}
    (hs : (w.session s).currentRoom = intMax ∨ ∀ q, ¬ w.Registered (w.session s).currentRoom q)
    (ht : t ∈ (w.room r).sessions) : t ≠ s := by
  rintro rfl
  rcases hs with hs | hs
  · exact h.ne_intMax hids ht hs
  · refine hs r ?_
    rw [h.currentRoom t r ht]
    exact h.registered t r ht

end

/-! ## Members -/

section

omit [Scalar F]

theorem Members.of_eq {w w' : World F} (h : w.Members)
    (hrooms : w'.roomManager.rooms = w.roomManager.rooms) (hroom : w'.room = w.room)
    (hcur : ∀ s r, s ∈ (w.room r).sessions →
      (w'.session s).currentRoom = (w.session s).currentRoom) : w'.Members := by
  refine ⟨?_, ?_⟩
  · intro s r hs
    rw [hroom] at hs ⊢
    unfold Registered
    rw [hrooms]
    exact h.registered s r hs
  · intro s r hs
    rw [hroom] at hs ⊢
    rw [hcur s r hs]
    exact h.currentRoom s r hs

theorem Members.quiet {w w' : World F} (h : w.Members) (hq : Quiet w w') : w'.Members := by
  refine ⟨?_, ?_⟩
  · intro s r hs
    rw [hq.sessions] at hs
    rw [hq.registered, hq.roomId]
    exact h.registered s r hs
  · intro s r hs
    rw [hq.sessions] at hs
    rw [hq.currentRoom, hq.roomId]
    exact h.currentRoom s r hs

theorem Members.roomAdd {w : World F} (hreg : w.Registry) (hids : w.IdsBelow) (h : w.Members)
    {id : Int} {r : RoomRef} (hr : w.Registered id r) {s : SessionRef}
    (hs : (w.session s).currentRoom = intMax ∨ (w.session s).currentRoom = (w.room r).roomId) :
    (w.roomAdd r s).Members := by
  refine ⟨?_, ?_⟩
  · intro t q ht
    rw [roomId_roomAdd]
    rcases mem_roomAdd ht with hold | ⟨rfl, rfl⟩
    · exact h.registered t q hold
    · rw [hr.roomId hreg]; exact hr
  · intro t q ht
    rw [roomId_roomAdd, currentRoom_roomAdd]
    rcases mem_roomAdd ht with hold | ⟨rfl, rfl⟩
    · by_cases hts : t = s
      · subst hts
        rw [if_pos rfl]
        rcases hs with hs | hs
        · exact absurd hs (h.ne_intMax hids hold)
        · rw [← hs]; exact h.currentRoom t q hold
      · rw [if_neg hts]; exact h.currentRoom t q hold
    · rw [if_pos rfl]

end

theorem mem_created {w : World F} {s : SessionRef} {gameId : UInt64}
    {gameName gamePassWord mapHash : List UInt8} {t : SessionRef} {q : RoomRef}
    (ht : t ∈ ((w.created s gameId gameName gamePassWord mapHash).room q).sessions) :
    q ≠ w.nextRoom ∧ t ∈ (w.room q).sessions ∨ q = w.nextRoom ∧ t = s := by
  rw [room_created] at ht
  by_cases hq : q = w.nextRoom
  · rw [if_pos hq] at ht
    rcases Table.set_mem_insert.mp ht with ht | ht
    · exact .inr ⟨hq, ht⟩
    · exact absurd ht Std.ExtTreeSet.not_mem_empty
  · rw [if_neg hq] at ht
    exact .inl ⟨hq, ht⟩

theorem Members.created {w : World F} (hids : w.IdsBelow) (h : w.Members) {s : SessionRef}
    (hs : (w.session s).currentRoom = intMax) (gameId : UInt64)
    (gameName gamePassWord mapHash : List UInt8) :
    (w.created s gameId gameName gamePassWord mapHash).Members := by
  refine ⟨?_, ?_⟩
  · intro t q ht
    unfold Registered
    rw [rooms_created, room_created]
    rcases mem_created ht with ⟨hq, hold⟩ | ⟨rfl, rfl⟩
    · have hreg := h.registered t q hold
      have := hreg.lt hids
      rw [if_neg hq, if_neg (by omega)]
      exact hreg
    · rw [if_pos rfl, if_pos]
      rfl
  · intro t q ht
    rw [room_created, currentRoom_created]
    rcases mem_created ht with ⟨hq, hold⟩ | ⟨rfl, rfl⟩
    · have hts : t ≠ s := by
        rintro rfl
        exact h.ne_intMax hids hold hs
      rw [if_neg hq, if_neg hts]
      exact h.currentRoom t q hold
    · rw [if_pos rfl, if_pos rfl]; rfl

omit [Scalar F] in
theorem Members.leaves {w w' : World F} (hreg : w.Registry) (h : w.Members) {r : RoomRef}
    {s : SessionRef} (hr : w.Registered (w.session s).currentRoom r) (hl : Leaves w w' r s [s]) :
    w'.Members := by
  have hstay : ∀ t q, t ∈ (w'.room q).sessions →
      w'.Registered (w.room q).roomId q ∧ (w'.session t).currentRoom = (w.room q).roomId := by
    intro t q ht
    obtain ⟨htq, hts⟩ := hl.mem ht
    have hne : t ≠ s := by
      rintro rfl
      exact hts (h.only hr htq) rfl
    cases hl with
    | stays hc hb =>
        refine ⟨by unfold Registered; rw [hb.rooms]; exact h.registered t q htq, ?_⟩
        rw [hb.currentRoom, if_neg (by simpa using hne)]
        exact h.currentRoom t q htq
    | closed hc hb =>
        -- the room that closed has no members, so that this is another one
        have hqr : q ≠ r := by
          rintro rfl
          have hs : (w'.room q).sessions = _ := congrArg Membership.sessions (hb.room q)
          rw [if_pos rfl] at hs
          rw [hs] at ht
          exact absurd ht Std.ExtTreeSet.not_mem_empty
        have htr : t ∉ (w.room r).sessions := fun htr => hqr (h.one_room htq htr)
        refine ⟨?_, ?_⟩
        · refine (Leaves.closed hc hb).registered (h.registered t q htq) fun hid => hqr ?_
          have hreg' := h.registered t q htq
          rw [hid, hr.roomId hreg] at hreg'
          exact hreg'.unique hr
        · rw [(Leaves.closed hc hb).currentRoom hne htr]
          exact h.currentRoom t q htq
  refine ⟨?_, ?_⟩
  · intro t q ht
    rw [hl.roomId]; exact (hstay t q ht).1
  · intro t q ht
    rw [hl.roomId]; exact (hstay t q ht).2

theorem members_moves {w w' : World F} {a : Env F × Event F} (hreg : w.Registry) (hids : w.IdsBelow)
    (hal : w.Alive) (h : w.Members) (hg : w.JoinsFromNone a) (hm : Moves w w' a.2) : w'.Members := by
  obtain ⟨env, e⟩ := a
  cases hm with
  | quiet hq => exact h.quiet hq
  | tick hq => exact h.quiet hq
  | connect hw =>
      subst hw
      refine h.of_eq rfl rfl ?_
      intro s r hs
      rw [currentRoom_onConnected, if_neg (Nat.ne_of_lt (hal.lt s r hs))]
  | create hq => exact (h.created hids hg.1 ..).quiet hq
  | join hr ha hq =>
      exact (h.roomAdd hreg hids hr (hg _ (getRoom_eq_some.mpr hr) ha)).quiet hq
  | exit hr hl => exact h.leaves hreg hr hl
  | @disconnect s r hr hl =>
      have hreg' : (w.dropped s).Registry := ⟨hreg.entry⟩
      have h' : (w.dropped s).Members :=
        h.of_eq rfl rfl fun t _ _ => dropped_currentRoom w s t
      refine h'.leaves hreg' ?_ hl
      rw [dropped_currentRoom]; exact hr
  | @gone s hr hq =>
      refine Members.quiet ?_ hq
      refine h.of_eq rfl rfl ?_
      intro t r ht
      have hts := h.ne_of_gone hids hr ht
      rw [currentRoom_setRoomId, if_neg hts, dropped_currentRoom]

/-! ## Members are connected -/

omit [Scalar F] in
theorem connected_dropped (w : World F) {s t : SessionRef} (hts : t ≠ s) :
    ((w.dropped s).session t).connected = (w.session t).connected :=
  (field_setSession GameSession.connected ..).trans (if_neg hts)

omit [Scalar F] in
/-- Sets that have not grown, and sessions that are still connected. -/
theorem Alive.of_le {w w' : World F} (h : w.Alive) (hnext : w.nextSession ≤ w'.nextSession)
    (hmem : ∀ s r, s ∈ (w'.room r).sessions → s ∈ (w.room r).sessions
      ∧ (w'.session s).connected = (w.session s).connected) : w'.Alive := by
  refine ⟨?_, ?_⟩
  · intro s r hs
    exact Nat.lt_of_lt_of_le (h.lt s r (hmem s r hs).1) hnext
  · intro s r hs
    rw [(hmem s r hs).2]; exact h.connected s r (hmem s r hs).1

omit [Scalar F] in
theorem Alive.quiet {w w' : World F} (h : w.Alive) (hq : Quiet w w') : w'.Alive :=
  h.of_le hq.nextSession.ge fun s r hs => ⟨by rw [← hq.sessions]; exact hs, hq.connected s⟩

theorem alive_moves {w w' : World F} {a : Env F × Event F} (hal : w.Alive) (h : w.Members)
    (hids : w.IdsBelow) (hen : w.Enabled a.2) (hm : Moves w w' a.2) : w'.Alive := by
  obtain ⟨env, e⟩ := a
  cases hm with
  | quiet hq => exact hal.quiet hq
  | tick hq => exact hal.quiet hq
  | connect hw =>
      subst hw
      refine hal.of_le (Nat.le_succ _) fun s r hs => ⟨hs, ?_⟩
      exact (field_setSession GameSession.connected ..).trans (if_neg (Nat.ne_of_lt (hal.lt s r hs)))
  | @create s _ _ _ _ hq =>
      refine Alive.quiet ⟨?_, ?_⟩ hq
      · intro t q ht
        rcases mem_created ht with ⟨-, ht⟩ | ⟨-, rfl⟩
        · exact hal.lt t q ht
        · exact hen.1
      · intro t q ht
        rw [connected_created]
        rcases mem_created ht with ⟨-, ht⟩ | ⟨-, rfl⟩
        · exact hal.connected t q ht
        · exact hen.2
  | @join s _ _ r hr ha hq =>
      refine Alive.quiet ⟨?_, ?_⟩ hq
      · intro t q ht
        rcases mem_roomAdd ht with ht | ⟨rfl, -⟩
        · exact hal.lt t q ht
        · exact hen.1
      · intro t q ht
        rw [connected_roomAdd]
        rcases mem_roomAdd ht with ht | ⟨rfl, -⟩
        · exact hal.connected t q ht
        · exact hen.2
  | exit hr hl =>
      exact hal.of_le hl.nextSession.ge fun t q ht => ⟨(hl.mem ht).1, hl.connected t⟩
  | @disconnect s r hr hl =>
      refine hal.of_le hl.nextSession.ge ?_
      intro t q ht
      obtain ⟨htq, hts⟩ := hl.mem ht
      have hne : t ≠ s := by
        rintro rfl
        exact hts (h.only hr htq) rfl
      exact ⟨htq, (hl.connected t).trans (connected_dropped w hne)⟩
  | @gone s hr hq =>
      have hset : ((w.dropped s).setRoomId s intMax).Alive := by
        refine hal.of_le (Nat.le_refl _) fun t r ht => ⟨ht, ?_⟩
        have hts := h.ne_of_gone hids hr ht
        rw [connected_setRoomId, connected_dropped w hts]
      exact hset.quiet hq

/-! ## Runs -/

/-- A session that creates a room, and then another one. -/
def createTwice : List (Env ℚ × Event ℚ) :=
  still [.connect, .packet 0 (.cRoomCreate 1 [] [] []), .packet 0 (.cRoomCreate 1 [] [] [])]

end World

end StarCraftIocp
