import StarCraftIocp.Proof.Membership

/-!
# The room a session believes to be in

A session's `currentRoom` leads to a registered room with the session in it, as
long as ids are left for new rooms. The converse, that a session is in no other
room, needs that a session joins or creates a room only while it is in none:
`Room::Add` overwrites `currentRoom` and leaves the previous room's set alone.
-/

namespace StarCraftIocp

open CInt Protocol

variable {F : Type} [Scalar F]

namespace World

/-- Ids have been given out from zero, and none of them is `INT_MAX`. -/
structure IdsBelow (w : World F) : Prop where
  nonneg : 0 ≤ w.roomManager.roomIdCount
  le : w.roomManager.roomIdCount ≤ intMax
  key : ∀ (k : Int) v, w.roomManager.rooms[k]? = some v → k < w.roomManager.roomIdCount

/-- Where `currentRoom` leads, the session is in the room. -/
structure Pointers (w : World F) : Prop where
  leads : ∀ s, (w.session s).currentRoom ≠ intMax →
    ∃ r, w.Registered (w.session s).currentRoom r ∧ s ∈ (w.room r).sessions

/-- A room is created only while there is an id left for it. -/
def IdLeft (w : World F) (e : Event F) : Prop :=
  match e with
  | .packet _ (.cRoomCreate _ _ _ _) => w.roomManager.roomIdCount < intMax
  | _ => True

section

omit [Scalar F]

theorem Registered.lt {w : World F} {id : Int} {r : RoomRef} (h : w.IdsBelow)
    (hr : w.Registered id r) : id < w.roomManager.roomIdCount := h.key id _ hr

theorem Registered.ne_intMax {w : World F} {id : Int} {r : RoomRef} (h : w.IdsBelow)
    (hr : w.Registered id r) : id ≠ intMax := by
  have := hr.lt h
  have := h.le
  omega

theorem Registered.roomId {w : World F} {id : Int} {r : RoomRef} (h : w.Registry)
    (hr : w.Registered id r) : (w.room r).roomId = id := by
  obtain ⟨q, hq, -, hid⟩ := h.entry id _ hr
  obtain rfl := Option.some.inj hq
  exact hid

theorem Registered.unique {w : World F} {id : Int} {q r : RoomRef} (hq : w.Registered id q)
    (hr : w.Registered id r) : q = r := by
  unfold Registered at hq hr
  rw [hq] at hr
  exact Option.some.inj (Option.some.inj hr)

theorem Quiet.registered {w w' : World F} (h : Quiet w w') {id : Int} {r : RoomRef} :
    w'.Registered id r ↔ w.Registered id r := by
  unfold Registered; rw [h.rooms]

theorem Quiet.sessions {w w' : World F} (h : Quiet w w') (r : RoomRef) :
    (w'.room r).sessions = (w.room r).sessions := congrArg Membership.sessions (h.room r)

theorem Quiet.roomId {w w' : World F} (h : Quiet w w') (r : RoomRef) :
    (w'.room r).roomId = (w.room r).roomId := congrArg Membership.roomId (h.room r)

end

/-! ## What leaving does to sets and table -/

section

omit [Scalar F]

variable {w w' : World F} {r : RoomRef} {s : SessionRef} {freed : List SessionRef}

theorem mem_without {t : SessionRef} :
    t ∈ (w.without r s).sessions ↔ t ∈ (w.room r).sessions ∧ t ≠ s := by
  unfold without Room.removeGameSession
  by_cases hs : s ∈ (w.room r).sessions
  · rw [if_pos hs]
    have herase : t ∈ (w.room r).sessions.erase s ↔ t ∈ (w.room r).sessions ∧ t ≠ s := by
      rw [Table.set_mem_erase, and_comm]
    dsimp only
    split <;> exact herase
  · rw [if_neg hs]
    refine ⟨fun h => ⟨h, ?_⟩, fun h => h.1⟩
    rintro rfl
    exact hs h

/-- The sets only shrink, and the leaving session is taken out of the room's. -/
theorem Leaves.mem {t : SessionRef} {q : RoomRef} (h : Leaves w w' r s freed)
    (ht : t ∈ (w'.room q).sessions) : t ∈ (w.room q).sessions ∧ (q = r → t ≠ s) := by
  cases h with
  | stays _ hb =>
      have hs : (w'.room q).sessions = _ := congrArg Membership.sessions (hb.room q)
      by_cases hq : q = r
      · subst hq
        rw [if_pos rfl] at hs
        rw [hs] at ht
        have := mem_without.mp ht
        exact ⟨this.1, fun _ => this.2⟩
      · rw [if_neg hq] at hs
        rw [hs] at ht
        exact ⟨ht, fun h => absurd h hq⟩
  | closed _ hb =>
      have hs : (w'.room q).sessions = _ := congrArg Membership.sessions (hb.room q)
      by_cases hq : q = r
      · rw [if_pos hq] at hs
        rw [hs] at ht
        exact absurd ht Std.ExtTreeSet.not_mem_empty
      · rw [if_neg hq] at hs
        rw [hs] at ht
        exact ⟨ht, fun h => absurd h hq⟩

theorem Leaves.roomId (h : Leaves w w' r s freed) (q : RoomRef) :
    (w'.room q).roomId = (w.room q).roomId := by
  cases h with
  | stays _ hb => exact hb.roomId (without_roomId w r s) q
  | closed _ hb => exact hb.roomId (without_roomId w r s) q

/-- A registered room stays registered, unless it is the one that closes. -/
theorem Leaves.registered {id : Int} {q : RoomRef} (h : Leaves w w' r s freed)
    (hr : w.Registered id q) (hid : id ≠ (w.room r).roomId) : w'.Registered id q := by
  unfold Registered at hr ⊢
  cases h with
  | stays _ hb => rw [hb.rooms]; exact hr
  | closed _ hb => rw [hb.rooms, Table.getElem?_erase, if_neg hid]; exact hr

/-- A session that is not in the room, and is not the one that leaves, is left alone. -/
theorem Leaves.currentRoom {t : SessionRef} (h : Leaves w w' r s [s]) (hts : t ≠ s)
    (ht : t ∉ (w.room r).sessions) : (w'.session t).currentRoom = (w.session t).currentRoom := by
  cases h with
  | stays _ hb => rw [hb.currentRoom, if_neg (by simpa using hts)]
  | closed _ hb =>
      rw [hb.currentRoom, if_neg]
      intro hmem
      rcases List.mem_append.mp hmem with hmem | hmem
      · rw [List.mem_reverse, Std.ExtTreeSet.mem_toList] at hmem
        exact ht (mem_without.mp hmem).1
      · exact hts (by simpa using hmem)

theorem Leaves.currentRoom_self (h : Leaves w w' r s [s]) :
    (w'.session s).currentRoom = intMax := by
  cases h with
  | stays _ hb => rw [hb.currentRoom, if_pos (by simp)]
  | closed _ hb => rw [hb.currentRoom, if_pos (by simp)]

theorem Leaves.nextSession (h : Leaves w w' r s freed) : w'.nextSession = w.nextSession := by
  cases h with
  | stays _ hb => exact hb.nextSession
  | closed _ hb => exact hb.nextSession

theorem Leaves.connected (h : Leaves w w' r s freed) (t : SessionRef) :
    (w'.session t).connected = (w.session t).connected := by
  cases h with
  | stays _ hb => exact hb.connected t
  | closed _ hb => exact hb.connected t

end

/-! ## Ids -/

theorem idsBelow_init (maps : List UInt8 → Option MapSectionData) :
    (World.init maps : World F).IdsBelow := by
  have hmax : (0 : Int) ≤ intMax := by decide
  refine ⟨Int.le_refl 0, hmax, ?_⟩
  intro k v h
  simp [init, RoomManager.init] at h

omit [Scalar F] in
theorem IdsBelow.of_le {w w' : World F} (h : w.IdsBelow)
    (hc : w'.roomManager.roomIdCount = w.roomManager.roomIdCount)
    (hrooms : ∀ (k : Int) v, w'.roomManager.rooms[k]? = some v → w.roomManager.rooms[k]? = some v) :
    w'.IdsBelow :=
  ⟨hc ▸ h.nonneg, hc ▸ h.le, fun k v hk => hc ▸ h.key k v (hrooms k v hk)⟩

omit [Scalar F] in
theorem IdsBelow.quiet {w w' : World F} (h : w.IdsBelow) (hq : Quiet w w') : w'.IdsBelow :=
  h.of_le hq.roomIdCount fun k v hk => by rw [← hq.rooms]; exact hk

omit [Scalar F] in
theorem IdsBelow.leaves {w w' : World F} {r : RoomRef} {s : SessionRef} {freed : List SessionRef}
    (h : w.IdsBelow) (hl : Leaves w w' r s freed) : w'.IdsBelow := by
  cases hl with
  | stays _ hb => exact h.of_le hb.roomIdCount fun k v hk => by rw [← hb.rooms]; exact hk
  | closed _ hb =>
      refine h.of_le hb.roomIdCount ?_
      intro k v hk
      rw [hb.rooms] at hk
      exact Table.of_getElem?_erase hk

theorem roomIdCount_created {w : World F} (h : w.IdsBelow)
    (hg : w.roomManager.roomIdCount < intMax) (s : SessionRef) (gameId : UInt64)
    (gameName gamePassWord mapHash : List UInt8) :
    (w.created s gameId gameName gamePassWord mapHash).roomManager.roomIdCount
      = w.roomManager.roomIdCount + 1 := by
  have h0 := h.nonneg
  have h1 : intMax = 2147483647 := rfl
  have hr : int32 (w.roomManager.roomIdCount + 1) = w.roomManager.roomIdCount + 1 :=
    int32_of_range (by omega) (by omega)
  exact hr

theorem IdsBelow.created {w : World F} (h : w.IdsBelow)
    (hg : w.roomManager.roomIdCount < intMax) (s : SessionRef) (gameId : UInt64)
    (gameName gamePassWord mapHash : List UInt8) :
    (w.created s gameId gameName gamePassWord mapHash).IdsBelow := by
  have hc := roomIdCount_created h hg s gameId gameName gamePassWord mapHash
  have h0 := h.nonneg
  refine ⟨by omega, by omega, ?_⟩
  intro k v hk
  rw [hc]
  rw [rooms_created] at hk
  by_cases hkc : k = w.roomManager.roomIdCount
  · omega
  · rw [if_neg hkc] at hk
    have := h.key k v hk
    omega

theorem idsBelow_moves {w w' : World F} {e : Event F} (h : w.IdsBelow) (hg : w.IdLeft e)
    (hm : Moves w w' e) : w'.IdsBelow := by
  cases hm with
  | quiet hq => exact h.quiet hq
  | tick hq => exact h.quiet hq
  | connect hw => subst hw; exact ⟨h.nonneg, h.le, h.key⟩
  | create hq => exact (h.created hg ..).quiet hq
  | @join s _ _ r hr ha hq =>
      have hadd : (w.roomAdd r s).IdsBelow := ⟨h.nonneg, h.le, h.key⟩
      exact hadd.quiet hq
  | exit hr hl => exact h.leaves hl
  | @disconnect s r hr hl =>
      have hdrop : (w.dropped s).IdsBelow := ⟨h.nonneg, h.le, h.key⟩
      exact hdrop.leaves hl
  | @gone s hr hq =>
      have hdrop : ((w.dropped s).setRoomId s intMax).IdsBelow := ⟨h.nonneg, h.le, h.key⟩
      exact hdrop.quiet hq

/-! ## From the session to the room -/

theorem pointers_init (maps : List UInt8 → Option MapSectionData) :
    (World.init maps : World F).Pointers := ⟨fun _ h => absurd rfl h⟩

omit [Scalar F] in
theorem Pointers.quiet {w w' : World F} (h : w.Pointers) (hq : Quiet w w') : w'.Pointers := by
  constructor
  intro s hs
  rw [hq.currentRoom] at hs ⊢
  obtain ⟨r, hr, hm⟩ := h.leads s hs
  exact ⟨r, hq.registered.mpr hr, by rw [hq.sessions]; exact hm⟩

omit [Scalar F] in
theorem Pointers.roomAdd {w : World F} (hreg : w.Registry) (h : w.Pointers) {id : Int} {r : RoomRef}
    (hr : w.Registered id r) (s : SessionRef) : (w.roomAdd r s).Pointers := by
  constructor
  intro t ht
  rw [currentRoom_roomAdd] at ht ⊢
  by_cases hts : t = s
  · rw [if_pos hts, hr.roomId hreg]
    refine ⟨r, hr, ?_⟩
    rw [room_roomAdd, if_pos rfl, hts]
    exact Std.ExtTreeSet.mem_insert_self
  · rw [if_neg hts] at ht ⊢
    obtain ⟨q, hq, hm⟩ := h.leads t ht
    refine ⟨q, hq, ?_⟩
    rw [room_roomAdd]
    by_cases hqr : q = r
    · subst hqr
      rw [if_pos rfl]
      exact Table.set_mem_insert.mpr (.inr hm)
    · rw [if_neg hqr]; exact hm

theorem Pointers.created {w : World F} (hreg : w.Registry) (hids : w.IdsBelow) (h : w.Pointers)
    (s : SessionRef) (gameId : UInt64) (gameName gamePassWord mapHash : List UInt8) :
    (w.created s gameId gameName gamePassWord mapHash).Pointers := by
  constructor
  intro t ht
  rw [currentRoom_created] at ht ⊢
  by_cases hts : t = s
  · rw [if_pos hts]
    refine ⟨w.nextRoom, ?_, ?_⟩
    · unfold Registered
      rw [rooms_created, if_pos rfl]
    · rw [room_created, if_pos rfl, hts]
      exact Std.ExtTreeSet.mem_insert_self
  · rw [if_neg hts] at ht ⊢
    obtain ⟨q, hq, hm⟩ := h.leads t ht
    have hlt := hq.lt hids
    obtain ⟨q', hq', hlt', -⟩ := hreg.entry _ _ hq
    obtain rfl := Option.some.inj hq'
    refine ⟨q, ?_, ?_⟩
    · unfold Registered
      rw [rooms_created, if_neg (by omega)]
      exact hq
    · rw [room_created, if_neg (Nat.ne_of_lt hlt')]
      exact hm

omit [Scalar F] in
theorem Pointers.leaves {w w' : World F} (hreg : w.Registry) (h : w.Pointers) {r : RoomRef}
    {s : SessionRef} {id : Int} (hr : w.Registered id r) (hl : Leaves w w' r s [s]) :
    w'.Pointers := by
  constructor
  intro t ht
  have hts : t ≠ s := by rintro rfl; exact ht hl.currentRoom_self
  cases hl with
  | stays _ hb =>
      have hcur : (w'.session t).currentRoom = (w.session t).currentRoom := by
        rw [hb.currentRoom, if_neg (by simpa using hts)]
      rw [hcur] at ht ⊢
      obtain ⟨q, hq, hm⟩ := h.leads t ht
      have hs : (w'.room q).sessions = _ := congrArg Membership.sessions (hb.room q)
      refine ⟨q, by unfold Registered; rw [hb.rooms]; exact hq, ?_⟩
      rw [hs]
      by_cases hqr : q = r
      · subst hqr
        rw [if_pos rfl]
        exact mem_without.mpr ⟨hm, hts⟩
      · rw [if_neg hqr]; exact hm
  | closed _ hb =>
      -- whoever still believes to be in a room was not in the one that closed
      have hfree : t ∉ (w.without r s).sessions.toList.reverse ++ [s] := by
        intro hmem
        rw [hb.currentRoom, if_pos hmem] at ht
        exact ht rfl
      have hcur : (w'.session t).currentRoom = (w.session t).currentRoom := by
        rw [hb.currentRoom, if_neg hfree]
      rw [hcur] at ht ⊢
      obtain ⟨q, hq, hm⟩ := h.leads t ht
      have hqr : q ≠ r := by
        rintro rfl
        refine hfree (List.mem_append_left _ ?_)
        rw [List.mem_reverse, Std.ExtTreeSet.mem_toList]
        exact mem_without.mpr ⟨hm, hts⟩
      have hid : (w.session t).currentRoom ≠ (w.room r).roomId := by
        intro heq
        rw [heq, hr.roomId hreg] at hq
        exact hqr (hq.unique hr)
      have hs : (w'.room q).sessions = _ := congrArg Membership.sessions (hb.room q)
      refine ⟨q, ?_, ?_⟩
      · unfold Registered
        rw [hb.rooms, Table.getElem?_erase, if_neg hid]
        exact hq
      · rw [hs, if_neg hqr]; exact hm

omit [Scalar F] in
theorem Pointers.setRoomId {w : World F} (h : w.Pointers) (s : SessionRef) :
    (w.setRoomId s intMax).Pointers := by
  constructor
  intro t ht
  rw [currentRoom_setRoomId] at ht ⊢
  by_cases hts : t = s
  · rw [if_pos hts] at ht; exact absurd rfl ht
  · rw [if_neg hts] at ht ⊢
    exact h.leads t ht

omit [Scalar F] in
theorem Pointers.dropped {w : World F} (h : w.Pointers) (s : SessionRef) : (w.dropped s).Pointers := by
  constructor
  intro t ht
  rw [dropped_currentRoom] at ht ⊢
  exact h.leads t ht

theorem pointers_moves {w w' : World F} {e : Event F} (hreg : w.Registry) (hids : w.IdsBelow)
    (h : w.Pointers) (hm : Moves w w' e) : w'.Pointers := by
  cases hm with
  | quiet hq => exact h.quiet hq
  | tick hq => exact h.quiet hq
  | connect hw =>
      subst hw
      constructor
      intro t ht
      rw [currentRoom_onConnected] at ht ⊢
      by_cases hts : t = w.nextSession
      · rw [if_pos hts] at ht; exact absurd rfl ht
      · rw [if_neg hts] at ht ⊢
        exact h.leads t ht
  | create hq => exact (h.created hreg hids ..).quiet hq
  | @join s _ _ r hr ha hq => exact (h.roomAdd hreg hr s).quiet hq
  | exit hr hl => exact h.leaves hreg hr hl
  | @disconnect s r hr hl =>
      have hreg' : (w.dropped s).Registry := ⟨hreg.entry⟩
      exact (h.dropped s).leaves hreg' hr hl
  | @gone s hr hq => exact ((h.dropped s).setRoomId s).quiet hq

/-- Everything that looking up a room by its id relies on. -/
structure Lookups (w : World F) : Prop where
  registry : w.Registry
  ids : w.IdsBelow
  pointers : w.Pointers

theorem lookups_init (maps : List UInt8 → Option MapSectionData) :
    (World.init maps : World F).Lookups :=
  ⟨registry_init maps, idsBelow_init maps, pointers_init maps⟩

theorem lookups_moves {w w' : World F} {e : Event F} (h : w.Lookups) (hg : w.IdLeft e)
    (hm : Moves w w' e) : w'.Lookups where
  registry := registry_moves h.registry hm
  ids := idsBelow_moves h.ids hg hm
  pointers := pointers_moves h.registry h.ids h.pointers hm

end World

end StarCraftIocp
