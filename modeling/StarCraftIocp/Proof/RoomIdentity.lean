import StarCraftIocp.Proof.Pointers
import StarCraftIocp.Proof.SectionSteps

/-!
# A room is stored under its own id

`Handle_C_ROOM_CREATE` reads `roomIdCount` without a lock and builds the room
with it; `AddRoom` stores the room under what `roomIdCount` is by then. The two
are the same as long as no other creation comes in between, and from then on the
id is the room's for ever.
-/

namespace StarCraftIocp

open CInt Protocol Outcome

variable {F : Type} [Scalar F]

namespace World

/-- The ids of the rooms and the next free id are the same, and no entry of the table is new. -/
structure KeepsIds (w w' : World F) : Prop where
  rooms : ∀ (k : Int) v, w'.roomManager.rooms[k]? = some v → w.roomManager.rooms[k]? = some v
  roomIdCount : w'.roomManager.roomIdCount = w.roomManager.roomIdCount
  nextRoom : w'.nextRoom = w.nextRoom
  roomId : ∀ r, (w'.room r).roomId = (w.room r).roomId

section

omit [Scalar F]

theorem KeepsIds.refl (w : World F) : KeepsIds w w := ⟨fun _ _ h => h, rfl, rfl, fun _ => rfl⟩

theorem KeepsIds.trans {w w' w'' : World F} (h : KeepsIds w w') (h' : KeepsIds w' w'') :
    KeepsIds w w'' where
  rooms k v hk := h.rooms k v (h'.rooms k v hk)
  roomIdCount := h'.roomIdCount.trans h.roomIdCount
  nextRoom := h'.nextRoom.trans h.nextRoom
  roomId r := (h'.roomId r).trans (h.roomId r)

theorem Quiet.keepsIds {w w' : World F} (h : Quiet w w') : KeepsIds w w' :=
  ⟨fun _ _ hk => by rw [← h.rooms]; exact hk, h.roomIdCount, h.nextRoom, h.roomId⟩

theorem keepsIds_roomAdd (w : World F) (r : RoomRef) (s : SessionRef) : KeepsIds w (w.roomAdd r s) :=
  ⟨fun _ _ h => h, rfl, rfl, fun q => roomId_roomAdd w r q s⟩

theorem keepsIds_setRoom (w : World F) (r : RoomRef) {room : Room F}
    (h : room.roomId = (w.room r).roomId) : KeepsIds w (w.setRoom r room) :=
  ⟨fun _ _ hk => hk, rfl, rfl, fun q => (becomes_setRoom w r room).roomId h q⟩

theorem Becomes.keepsIds_erase {w w' : World F} {id : Int} {r : RoomRef} {m : Membership}
    {freed : List SessionRef} (h : Becomes w w' (w.roomManager.rooms.erase id) r m freed)
    (hm : m.roomId = (w.room r).roomId) : KeepsIds w w' := by
  refine ⟨?_, h.roomIdCount, h.nextRoom, h.roomId hm⟩
  intro k v hk
  rw [h.rooms] at hk
  exact Table.of_getElem?_erase hk

theorem Leaves.keepsIds {w w' : World F} {r : RoomRef} {s : SessionRef} {freed : List SessionRef}
    (h : Leaves w w' r s freed) : KeepsIds w w' := by
  cases h with
  | stays _ hb =>
      exact ⟨fun k v hk => by rw [← hb.rooms]; exact hk, hb.roomIdCount, hb.nextRoom,
        hb.roomId (without_roomId w r s)⟩
  | closed _ hb => exact hb.keepsIds_erase (without_roomId w r s)

end

theorem keepsIds_forget (w : World F) (s : SessionRef) :
    Ensures ((w.erasePlayerId s).gSessionManagerRemove s) (KeepsIds w) := by
  unfold gSessionManagerRemove
  refine Ensures.ite (fun _ => .ok ⟨fun _ _ hk => hk, rfl, rfl, fun _ => rfl⟩) ?_
  intro _
  split
  · exact .ok ⟨fun _ _ hk => hk, rfl, rfl, fun _ => rfl⟩
  · refine (leaves_roomRemove _ _ s).mono ?_
    intro w' hl
    have hk := hl.keepsIds
    exact ⟨hk.rooms, hk.roomIdCount, hk.nextRoom, hk.roomId⟩

end World

/-- The room that the handler is about to add. -/
def HandlerPc.adding : HandlerPc → Option RoomRef
  | .addRoom r => some r
  | _ => none

namespace Concurrent

/-- What is known of the rooms that have gone through `AddRoom`, if nobody else got their ids. -/
structure Identity (c : Concurrent F) : Prop where
  nonneg : 0 ≤ c.world.roomManager.roomIdCount
  lt : ∀ r ∈ c.added, (c.world.room r).roomId < c.world.roomManager.roomIdCount
  distinct : ∀ q ∈ c.added, ∀ r ∈ c.added,
    (c.world.room q).roomId = (c.world.room r).roomId → q = r
  entry : ∀ (k : Int) v, c.world.roomManager.rooms[k]? = some v →
    ∃ r ∈ c.added, v = some r ∧ (c.world.room r).roomId = k
  made : ∀ r ∈ c.added, r < c.world.nextRoom
  adding : ∀ s r, c.pc s = .addRoom r → r < c.world.nextRoom

/--
Rooms stand under their own ids, which no two of them share, and `RemoveRoom`
takes out the entry of the room it is given and no other.
-/
structure RoomIdentity (c : Concurrent F) : Prop where
  stored : ∀ (k : Int) v, c.world.roomManager.rooms[k]? = some v →
    ∃ r, v = some r ∧ (c.world.room r).roomId = k
  distinct : ∀ q ∈ c.added, ∀ r ∈ c.added,
    (c.world.room q).roomId = (c.world.room r).roomId → q = r
  removes : ∀ r ∈ c.added, Ensures (c.world.removeRoom r) fun w' => ∀ (k : Int) v,
    w'.roomManager.rooms[k]? = some v ↔ c.world.roomManager.rooms[k]? = some v ∧ v ≠ some r

/-- `AddRoom` finds `roomIdCount` as it was when the room was made. -/
def AddsOwnId (w : World F) : HandlerPc → Prop
  | .addRoom r => (w.room r).roomId = w.roomManager.roomIdCount ∧ w.roomManager.roomIdCount < intMax
  | _ => True

omit [Scalar F] in
instance (w : World F) : (pc : HandlerPc) → Decidable (AddsOwnId w pc)
  | .addRoom _ => inferInstanceAs (Decidable (_ ∧ _))
  | .idle | .makeRoom _ _ _ _ _ | .add _ _ | .roomLobby _ _ | .exitRoom _ | .disconnectRoom
  | .remove _ _ | .lobbyPlayerInfo _ _ | .notifyExit _ _ _ | .removeRoom _ _ | .setRoomId _
  | .forget =>
      inferInstanceAs (Decidable True)

/-- No creation comes between another's reading of `roomIdCount` and its `AddRoom`. -/
def CounterKept (c : Concurrent F) : Section → Prop
  | .next s => AddsOwnId c.world (c.pc s)
  | _ => True

instance (c : Concurrent F) : (a : Section) → Decidable (c.CounterKept a)
  | .next s => inferInstanceAs (Decidable (AddsOwnId c.world (c.pc s)))
  | .connect | .call _ _ => inferInstanceAs (Decidable True)

section

omit [Scalar F]

/-- A step that leaves the ids alone, and does not get to `AddRoom`. -/
theorem Identity.goto {c : Concurrent F} (h : c.Identity) {w : World F} (hw : World.KeepsIds c.world w)
    {s : SessionRef} {pc : HandlerPc} (hpc : pc.adding = none) : (c.goto w s pc).Identity := by
  refine ⟨?_, ?_, ?_, ?_, ?_,
    ?_⟩
  · rw [goto_world, hw.roomIdCount]; exact h.nonneg
  · intro r hr
    rw [goto_world, hw.roomId, hw.roomIdCount]; exact h.lt r hr
  · intro q hq r hr hqr
    rw [goto_world, hw.roomId, hw.roomId] at hqr
    exact h.distinct q hq r hr hqr
  · intro k v hk
    obtain ⟨r, hr, hv, hid⟩ := h.entry k v (hw.rooms k v hk)
    exact ⟨r, hr, hv, by rw [goto_world, hw.roomId]; exact hid⟩
  · intro r hr
    rw [goto_world, hw.nextRoom]; exact h.made r hr
  · intro t r ht
    rw [goto_pc] at ht
    rw [goto_world, hw.nextRoom]
    by_cases hts : t = s
    · rw [if_pos hts] at ht
      rw [ht] at hpc
      cases hpc
    · rw [if_neg hts] at ht; exact h.adding t r ht

/-- What the table has has been added. -/
theorem Identity.added_of_registered {c : Concurrent F} (h : c.Identity) {id : Int} {r : RoomRef}
    (hr : c.world.Registered id r) : r ∈ c.added := by
  obtain ⟨q, hq, hqr, -⟩ := h.entry _ _ hr
  obtain rfl := Option.some.inj hqr
  exact hq

theorem Identity.makeRoom {c : Concurrent F} (h : c.Identity) (s : SessionRef) (room : Room F) :
    (c.goto (c.world.makeRoom room).2 s (.addRoom c.world.nextRoom)).Identity := by
  have hroom : ∀ r ∈ c.added, (c.world.makeRoom room).2.room r = c.world.room r := fun r hr =>
    Function.update_of_ne (Nat.ne_of_lt (h.made r hr)) ..
  refine ⟨h.nonneg, ?_, ?_, ?_, ?_,
    ?_⟩
  · intro r hr
    rw [goto_world, hroom r hr]; exact h.lt r hr
  · intro q hq r hr hqr
    rw [goto_world, hroom q hq, hroom r hr] at hqr
    exact h.distinct q hq r hr hqr
  · intro k v hk
    obtain ⟨r, hr, hv, hid⟩ := h.entry k v hk
    exact ⟨r, hr, hv, by rw [goto_world, hroom r hr]; exact hid⟩
  · intro r hr
    exact Nat.lt_succ_of_lt (h.made r hr)
  · intro t r ht
    rw [goto_pc] at ht
    by_cases hts : t = s
    · rw [if_pos hts] at ht
      rw [← HandlerPc.addRoom.inj ht]
      exact Nat.lt_succ_self _
    · rw [if_neg hts] at ht
      exact Nat.lt_succ_of_lt (h.adding t r ht)

theorem Identity.addRoom {c : Concurrent F} (h : c.Identity) {s : SessionRef} {r : RoomRef}
    (hr : r < c.world.nextRoom) (hid : (c.world.room r).roomId = c.world.roomManager.roomIdCount)
    (hmax : c.world.roomManager.roomIdCount < intMax) (roomCode : Int) :
    ({ c with added := r :: c.added }.goto (c.world.addRoom r) s (.add r roomCode)).Identity := by
  have h0 := h.nonneg
  have h1 : intMax = 2147483647 := rfl
  have hcount : int32 (c.world.roomManager.roomIdCount + 1) = c.world.roomManager.roomIdCount + 1 :=
    int32_of_range (by omega) (by omega)
  have hcount' : (c.world.addRoom r).roomManager.roomIdCount
      = c.world.roomManager.roomIdCount + 1 := hcount
  refine ⟨?_, ?_, ?_, ?_, ?_,
    ?_⟩
  · rw [goto_world, hcount']; omega
  · intro q hq
    rw [goto_world, hcount']
    change (c.world.room q).roomId < _
    rcases List.mem_cons.mp hq with rfl | hq
    · omega
    · have := h.lt q hq
      omega
  · intro q hq q' hq' hqq
    change (c.world.room q).roomId = (c.world.room q').roomId at hqq
    rcases List.mem_cons.mp hq with rfl | hold <;> rcases List.mem_cons.mp hq' with rfl | hold'
    · rfl
    -- the ids given out before are below the counter, which the new room has
    · have := h.lt q' hold'
      omega
    · have := h.lt q hold
      omega
    · exact h.distinct q hold q' hold' hqq
  · intro k v hk
    change (c.world.roomManager.rooms.insert c.world.roomManager.roomIdCount (some r))[k]? = some v at hk
    rw [Table.getElem?_insert] at hk
    by_cases hkc : k = c.world.roomManager.roomIdCount
    · rw [if_pos hkc] at hk
      exact ⟨r, List.mem_cons_self, (Option.some.inj hk).symm, hid.trans hkc.symm⟩
    · rw [if_neg hkc] at hk
      obtain ⟨q, hq, hv, hqk⟩ := h.entry k v hk
      exact ⟨q, List.mem_cons_of_mem r hq, hv, hqk⟩
  · intro q hq
    rcases List.mem_cons.mp hq with rfl | hq
    · exact hr
    · exact h.made q hq
  · intro t q ht
    rw [goto_pc] at ht
    by_cases hts : t = s
    · rw [if_pos hts] at ht; cases ht
    · rw [if_neg hts] at ht; exact h.adding t q ht

end

omit [Scalar F] in
theorem identity_start {c c' : Concurrent F} (h : c.Identity) {s : SessionRef} {call : HandlerCall}
    (hs : Starts c s call c') : c'.Identity := by
  have hdrop : World.KeepsIds c.world (c.world.dropped s) := ⟨fun _ _ hk => hk, rfl, rfl, fun _ => rfl⟩
  cases hs with
  | roomCreate => exact h.goto (.refl _) rfl
  | admitted hr ha => exact h.goto (.refl _) rfl
  | refused hw => exact h.goto hw.quiet.keepsIds rfl
  | noExit hmax => exact h
  | exit hmax => exact h.goto (.refl _) rfl
  | drop hmax => exact h.goto hdrop rfl
  | disconnect hmax => exact h.goto hdrop rfl

theorem identity_runs {c c' : Concurrent F} (h : c.Identity) {s : SessionRef} {pc : HandlerPc}
    (hpc : c.pc s = pc) (hg : AddsOwnId c.world pc) (hs : Runs c s pc c') : c'.Identity := by
  have hset : ∀ t id, World.KeepsIds c.world (c.world.setRoomId t id) :=
    fun _ _ => ⟨fun _ _ hk => hk, rfl, rfl, fun _ => rfl⟩
  cases hs with
  | makeRoom => exact h.makeRoom s _
  | @addRoom r => exact h.addRoom (h.adding s r hpc) hg.1 hg.2 _
  | @add r roomCode => exact h.goto (World.keepsIds_roomAdd _ r s) rfl
  | roomLobby hw => exact h.goto hw.quiet.keepsIds rfl
  | exitRoom hr => exact h.goto (.refl _) rfl
  | noRoom => exact h.goto (.refl _) rfl
  | disconnectRoom hr => exact h.goto (.refl _) rfl
  | @closes leaving r hc =>
      have hclear : (c.world.without r s).cleared.roomId = (c.world.room r).roomId :=
        World.without_roomId c.world r s
      have hw := World.keepsIds_setRoom c.world r hclear
      have hclosed : ({ c with closed := r :: c.closed } : Concurrent F).Identity :=
        ⟨h.nonneg, h.lt, h.distinct, h.entry, h.made, h.adding⟩
      exact hclosed.goto hw rfl
  | @stays leaving r hc =>
      have hw := World.keepsIds_setRoom c.world r (World.without_roomId c.world r s)
      exact h.goto hw rfl
  | lobbyPlayerInfo hw => exact h.goto hw.quiet.keepsIds rfl
  | notified => exact h.goto (.refl _) rfl
  | @notify leaving r player playersInfo =>
      have hw : World.KeepsIds c.world (c.world.notifyExit (.sRoomExit .adminExit) player) :=
        ⟨fun _ _ hk => hk, rfl, rfl, fun _ => rfl⟩
      exact h.goto hw rfl
  | removeRoom _ hw => exact h.goto (hw.keepsIds_erase rfl) rfl
  | exited hw => exact h.goto ((hset s intMax).trans hw.quiet.keepsIds) rfl
  | disconnected => exact h.goto (hset s intMax) rfl
  | forget hw => exact h.goto (World.keepsIds_forget _ s _ hw) rfl

theorem identity_step {c c' : Concurrent F} {a : Section} (h : c.Identity) (hg : c.CounterKept a)
    (hs : c.step a = some c') : c'.Identity := by
  cases a with
  | connect =>
      obtain rfl := Option.some.inj hs
      exact ⟨h.nonneg, h.lt, h.distinct, h.entry, h.made, h.adding⟩
  | call s call =>
      rw [step] at hs
      split at hs
      · exact identity_start h (starts_start hs)
      · cases hs
  | next s => exact identity_runs h rfl hg (runs_next hs)

theorem identity_init (maps : List UInt8 → Option MapSectionData) :
    (Concurrent.init maps : Concurrent F).Identity := by
  refine ⟨Int.le_refl 0, ?_, ?_, ?_, ?_, ?_⟩
  · exact fun r hr => absurd hr List.not_mem_nil
  · exact fun q hq => absurd hq List.not_mem_nil
  · intro k v hk
    simp [init, World.init, RoomManager.init] at hk
  · exact fun r hr => absurd hr List.not_mem_nil
  · intro s r hr
    cases hr

theorem identity_reachable {maps : List UInt8 → Option MapSectionData} {c : Concurrent F}
    (h : Reachable ((Transition.ofFun step).guarded CounterKept) (Concurrent.init maps) c) :
    c.Identity :=
  h.invariant (identity_init maps) fun _ _ _ hc hs => identity_step hc hs.1 hs.2

/--
**Rooms keep their identity** in every interleaving of creations, joins, exits and
disconnects in which `roomIdCount` does not change between the moment a creation
reads it and its `AddRoom`.
-/
theorem room_identity {maps : List UInt8 → Option MapSectionData} {c : Concurrent F}
    (h : Reachable ((Transition.ofFun step).guarded CounterKept) (Concurrent.init maps) c) :
    c.RoomIdentity := by
  have hid := identity_reachable h
  refine ⟨?_, hid.distinct, ?_⟩
  · intro k v hk
    obtain ⟨r, -, hv, hk⟩ := hid.entry k v hk
    exact ⟨r, hv, hk⟩
  · intro r hr
    refine (World.becomes_removeRoom (World.Becomes.refl c.world r)).mono ?_
    intro w' hw k v
    rw [hw.rooms, Table.getElem?_erase]
    change (if k = (c.world.room r).roomId then _ else _) = _ ↔ _
    by_cases hk : k = (c.world.room r).roomId
    · rw [if_pos hk]
      refine ⟨fun h => (by cases h), fun ⟨hkv, hv⟩ => absurd ?_ hv⟩
      obtain ⟨q, hq, hvq, hqk⟩ := hid.entry k v hkv
      rw [hvq, hid.distinct q hq r hr (hqk.trans hk)]
    · rw [if_neg hk]
      refine ⟨fun hkv => ⟨hkv, ?_⟩, fun h => h.1⟩
      rintro rfl
      obtain ⟨q, -, hvq, hqk⟩ := hid.entry k _ hkv
      obtain rfl := Option.some.inj hvq
      exact hk hqk.symm

/-- A call, and the handler's sections up to its end. -/
def alone (s : SessionRef) (call : HandlerCall) (sections : Nat) : List Section :=
  .call s call :: List.replicate sections (.next s)

/-- A room without name, password or map. -/
def plainRoom (gameId : UInt64) : HandlerCall := .roomCreate gameId [] [] []

/-- Two sessions create a room each, one after the other; the first one leaves. -/
def createInTurn : List Section :=
  [.connect, .connect] ++ alone 0 (plainRoom 1) 4 ++ alone 1 (plainRoom 2) 4
    ++ alone 0 .exitGame 5

theorem room_identity_createInTurn :
    ∃ c : Concurrent ℚ, c.added = [1, 0] ∧ c.world.getRoom 0 = none ∧ c.world.getRoom 1 = some 1
      ∧ c.RoomIdentity := by
  have hrun : (createInTurn.foldlM (guardedFun step CounterKept)
      (Concurrent.init fun _ => none : Concurrent ℚ)).map
      (fun c => (c.added, c.world.getRoom 0, c.world.getRoom 1)) = some ([1, 0], none, some 1) := by
    decide +kernel
  obtain ⟨c, hc, hobs⟩ := Option.map_eq_some_iff.mp hrun
  obtain ⟨hadded, hobs⟩ := Prod.mk.inj hobs
  obtain ⟨h0, h1⟩ := Prod.mk.inj hobs
  exact ⟨c, hadded, h0, h1, room_identity (Reachable.of_run_guarded (l := createInTurn) hc .refl)⟩

/-- Two sessions read `roomIdCount` before either of them adds its room. -/
def createAtOnce : List Section :=
  [.connect, .connect, .call 0 (plainRoom 1), .call 1 (plainRoom 2), .next 0, .next 1, .next 0,
    .next 1]

/-- Both rooms have the id 0, and the second is stored under 1. -/
theorem not_room_identity :
    ∃ c : Concurrent ℚ, Reachable (Transition.ofFun step) (Concurrent.init fun _ => none) c
      ∧ ¬ c.RoomIdentity := by
  have hrun : (createAtOnce.foldlM step (Concurrent.init fun _ => none : Concurrent ℚ)).map
      (fun c => (c.world.getRoom 1, (c.world.room 1).roomId)) = some (some 1, 0) := by
    decide +kernel
  obtain ⟨c, hc, hobs⟩ := Option.map_eq_some_iff.mp hrun
  obtain ⟨hroom, hid⟩ := Prod.mk.inj hobs
  refine ⟨c, Reachable.of_run (l := createAtOnce) hc .refl, ?_⟩
  intro h
  obtain ⟨r, hr, hrid⟩ := h.stored 1 _ (World.getRoom_eq_some.mp hroom)
  obtain rfl := Option.some.inj hr
  rw [hid] at hrid
  exact absurd hrid (by decide)

end Concurrent

end StarCraftIocp
