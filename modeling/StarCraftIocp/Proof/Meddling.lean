import StarCraftIocp.Proof.JoinRace
import StarCraftIocp.Proof.NoCrash

/-!
# What overlapping handlers leave behind

Creating, joining and leaving a room is cut into sections that may overlap in any
order. As long as no creation comes between another's reading of `roomIdCount` and
its `AddRoom`, a section does to the world no more than `Meddles` allows, so that
the states it leaves are among those in which packets and ticks are survived.
-/

namespace StarCraftIocp

open CInt Protocol Outcome

variable {F : Type} [Scalar F]

namespace World

theorem Says.meddles {w w' : World F} (hreg : w.Registry) (h : Says w w') : w.Meddles w' := by
  obtain ⟨sent, rfl⟩ := h
  exact .of_eq hreg rfl rfl rfl rfl

theorem meddles_roomAdd {w : World F} (hreg : w.Registry) (r : RoomRef) (s : SessionRef) :
    w.Meddles (w.roomAdd r s) := by
  refine .of_le hreg rfl (Nat.le_refl _) (fun _ _ hv => hv) ?_
  intro id q _
  refine ⟨roomId_roomAdd w r q s, ?_⟩
  rw [room_roomAdd]
  by_cases hq : q = r
  · subst hq
    rw [if_pos rfl]
    exact Room.sameGame_add ..
  · rw [if_neg hq]
    exact .refl _

/-- A room that has been made is in no table yet. -/
theorem meddles_makeRoom {w : World F} (hreg : w.Registry) (room : Room F) :
    w.Meddles (w.makeRoom room).2 := by
  refine .of_le hreg rfl (Nat.le_succ _) (fun _ _ hv => hv) ?_
  intro id q hq
  obtain ⟨q', hq', hlt, -⟩ := hreg.entry id _ hq
  obtain rfl := Option.some.inj hq'
  have hsame : (w.makeRoom room).2.room q = w.room q := Function.update_of_ne (Nat.ne_of_lt hlt) ..
  rw [hsame]
  exact ⟨rfl, .refl _⟩

theorem room_removeRoom (w : World F) (r : RoomRef) :
    Ensures (w.removeRoom r) fun w' => ∀ q, q ≠ r → w'.room q = w.room q :=
  Ensures.bind (P := fun _ => True) (fun _ _ => trivial) fun _ _ => .ok fun _ hq =>
    (room_setRoom ..).trans (if_neg hq)

theorem room_roomRemove (w : World F) (r : RoomRef) (s : SessionRef) :
    Ensures (w.roomRemove r s) fun w' => ∀ q, q ≠ r → w'.room q = w.room q := by
  cases hc : w.closes r s with
  | false =>
      rw [roomRemove_stays hc]
      refine (says_lobbyPlayerInfo _ _).mono ?_
      rintro w' ⟨sent, rfl⟩ q hq
      exact (room_setRoom ..).trans (if_neg hq)
  | true =>
      rw [roomRemove_closed hc]
      refine (room_removeRoom _ r).mono fun w' h q hq => (h q hq).trans ?_
      rw [room_emptied, if_neg hq]

/-- The end of `OnDisconnected` may touch a room of the table. -/
theorem room_forget (w : World F) (s : SessionRef) : Ensures ((w.erasePlayerId s).gSessionManagerRemove s)
    fun w' => ∀ q, (∀ id, ¬ w.Registered id q) → w'.room q = w.room q := by
  unfold gSessionManagerRemove
  refine Ensures.ite (fun _ => .ok fun _ _ => rfl) ?_
  intro _
  split
  · exact .ok fun _ _ => rfl
  · rename_i r hr
    refine (room_roomRemove _ r s).mono fun w' h q hq => h q ?_
    rintro rfl
    exact hq _ (getRoom_eq_some.mp hr)

theorem meddles_forget {w : World F} (hreg : w.Registry) (s : SessionRef) :
    Ensures ((w.erasePlayerId s).gSessionManagerRemove s) w.Meddles := by
  have hgone : w.Meddles { w.erasePlayerId s with gSessions := (w.erasePlayerId s).gSessions.erase s } :=
    .of_eq hreg rfl rfl rfl rfl
  unfold gSessionManagerRemove
  refine Ensures.ite (fun _ => .ok hgone) ?_
  intro _
  split
  · exact .ok hgone
  · exact (meddles_roomRemove hgone.registry _ s).mono fun _ h => hgone.trans h

end World

namespace Concurrent

omit [Scalar F] in
theorem Identity.registry {c : Concurrent F} (h : c.Identity) : c.world.Registry := by
  constructor
  intro k v hk
  obtain ⟨r, hr, hv, hid⟩ := h.entry k v hk
  exact ⟨r, hv, h.made r hr, hid⟩

/-- A room still to be added is new, and only the handler that made it has hold of it. -/
structure Newcomers (c : Concurrent F) : Prop where
  fresh : ∀ s r, c.pc s = .addRoom r → r ∉ c.added ∧ (c.world.room r).IsNew
  own : ∀ s t r, c.pc s = .addRoom r → c.pc t = .addRoom r → s = t
  holds : ∀ s, (c.pc s).Holds c.added c.closed

theorem newcomers_init (maps : List UInt8 → Option MapSectionData) :
    (Concurrent.init maps : Concurrent F).Newcomers :=
  ⟨nofun, nofun, fun _ => trivial⟩

/-- A step that makes no room, and touches none that is still to be added. -/
theorem Newcomers.goto {c : Concurrent F} (hid : c.Identity) (h : c.Newcomers) {w : World F}
    {s : SessionRef} {pc : HandlerPc} {closed : List RoomRef} (hclosed : c.closed ⊆ closed)
    (hroom : ∀ r ∉ c.added, r < c.world.nextRoom → w.room r = c.world.room r)
    (hadding : pc.adding = none) (hholds : pc.Holds c.added closed) :
    ({ c with closed := closed }.goto w s pc).Newcomers := by
  have hold : ∀ t r, ({ c with closed := closed }.goto w s pc).pc t = .addRoom r → c.pc t = .addRoom r := by
    intro t r ht
    rw [goto_pc] at ht
    by_cases hts : t = s
    · rw [if_pos hts] at ht
      rw [ht] at hadding
      cases hadding
    · rwa [if_neg hts] at ht
  refine ⟨?_, fun t u r ht hu => h.own t u r (hold t r ht) (hold u r hu), ?_⟩
  · intro t r ht
    obtain ⟨hr, hnew⟩ := h.fresh t r (hold t r ht)
    refine ⟨hr, ?_⟩
    rw [goto_world, hroom r hr (hid.adding t r (hold t r ht))]
    exact hnew
  · intro t
    rw [goto_pc]
    by_cases hts : t = s
    · rw [if_pos hts]; exact hholds
    · rw [if_neg hts]; exact (h.holds t).mono (fun _ hr => hr) hclosed

theorem Newcomers.makeRoom {c : Concurrent F} (hid : c.Identity) (h : c.Newcomers) {s : SessionRef}
    {room : Room F} (hnew : room.IsNew) :
    (c.goto (c.world.makeRoom room).2 s (.addRoom c.world.nextRoom)).Newcomers := by
  have hold : ∀ t, t ≠ s → (c.goto (c.world.makeRoom room).2 s (.addRoom c.world.nextRoom)).pc t = c.pc t :=
    fun t ht => Function.update_of_ne ht ..
  have hself : (c.goto (c.world.makeRoom room).2 s (.addRoom c.world.nextRoom)).pc s
      = .addRoom c.world.nextRoom := Function.update_self ..
  refine ⟨?_, ?_, ?_⟩
  · intro t r ht
    by_cases hts : t = s
    · rw [hts, hself] at ht
      obtain rfl := HandlerPc.addRoom.inj ht
      refine ⟨fun hr => Nat.lt_irrefl _ (hid.made _ hr), ?_⟩
      have hroom : (c.world.makeRoom room).2.room c.world.nextRoom = room := Function.update_self ..
      rw [goto_world, hroom]
      exact hnew
    · rw [hold t hts] at ht
      have hroom : (c.world.makeRoom room).2.room r = c.world.room r :=
        Function.update_of_ne (Nat.ne_of_lt (hid.adding t r ht)) ..
      rw [goto_world, hroom]
      exact h.fresh t r ht
  · -- nobody else can be about to add a room that did not exist before
    have hlate : ∀ t r, t ≠ s → c.pc t = .addRoom r → HandlerPc.addRoom c.world.nextRoom ≠ .addRoom r := by
      intro t r _ ht heq
      have hlt := hid.adding t r ht
      rw [← HandlerPc.addRoom.inj heq] at hlt
      exact Nat.lt_irrefl _ hlt
    intro t u r ht hu
    by_cases hts : t = s <;> by_cases hus : u = s
    · rw [hts, hus]
    · rw [hts, hself] at ht
      rw [hold u hus] at hu
      exact absurd ht (hlate u r hus hu)
    · rw [hus, hself] at hu
      rw [hold t hts] at ht
      exact absurd hu (hlate t r hts ht)
    · rw [hold t hts] at ht
      rw [hold u hus] at hu
      exact h.own t u r ht hu
  · intro t
    by_cases hts : t = s
    · rw [hts, hself]; trivial
    · rw [hold t hts]; exact h.holds t

theorem Newcomers.addRoom {c : Concurrent F} (h : c.Newcomers) {s : SessionRef} {r : RoomRef}
    (hpc : c.pc s = .addRoom r) (roomCode : Int) :
    ({ c with added := r :: c.added }.goto (c.world.addRoom r) s (.add r roomCode)).Newcomers := by
  have hold : ∀ t q, ({ c with added := r :: c.added }.goto (c.world.addRoom r) s (.add r roomCode)).pc t
      = .addRoom q → t ≠ s ∧ c.pc t = .addRoom q := by
    intro t q ht
    rw [goto_pc] at ht
    by_cases hts : t = s
    · rw [if_pos hts] at ht; cases ht
    · rw [if_neg hts] at ht; exact ⟨hts, ht⟩
  refine ⟨?_, fun t u q ht hu => h.own t u q (hold t q ht).2 (hold u q hu).2, ?_⟩
  · intro t q ht
    obtain ⟨hts, hq⟩ := hold t q ht
    refine ⟨?_, (h.fresh t q hq).2⟩
    intro hmem
    rcases List.mem_cons.mp hmem with rfl | hmem
    · exact hts (h.own t s q hq hpc)
    · exact (h.fresh t q hq).1 hmem
  · intro t
    rw [goto_pc]
    by_cases hts : t = s
    · rw [if_pos hts]; exact List.mem_cons_self
    · rw [if_neg hts]; exact (h.holds t).mono (List.subset_cons_self r c.added) fun _ hr => hr

/-! ## Steps and runs -/

theorem meddles_start {c c' : Concurrent F} (hreg : c.world.Registry) {s : SessionRef} {call : HandlerCall}
    (hs : Starts c s call c') : c.world.Meddles c'.world := by
  cases hs with
  | refused hw => exact hw.meddles hreg
  | roomCreate | admitted | noExit | exit => exact .refl hreg
  | drop | disconnect => exact .of_eq hreg rfl rfl rfl rfl

theorem meddles_runs {c c' : Concurrent F} (hid : c.Identity) (h : c.Newcomers) {s : SessionRef}
    {pc : HandlerPc} (hpc : c.pc s = pc) (hg : AddsOwnId c.world pc) (hs : Runs c s pc c') :
    c.world.Meddles c'.world := by
  have hreg := hid.registry
  cases hs with
  | makeRoom => exact World.meddles_makeRoom hreg _
  | @addRoom r =>
      refine ⟨rfl, (hid.addRoom (s := s) (hid.adding s r hpc) hg.1 hg.2 0).registry, ?_⟩
      intro id q hq
      change (c.world.roomManager.rooms.insert _ (some r))[id]? = _ at hq
      rw [Table.getElem?_insert] at hq
      split at hq
      · obtain rfl := Option.some.inj (Option.some.inj hq)
        exact .inr (h.fresh s _ hpc).2
      · exact .inl ⟨hq, .refl _⟩
  | @add r roomCode => exact World.meddles_roomAdd hreg r s
  | roomLobby hw | lobbyPlayerInfo hw => exact hw.meddles hreg
  | exitRoom | noRoom | disconnectRoom | notified => exact .refl hreg
  | @closes leaving r hc =>
      exact .setRoom hreg (World.without_roomId c.world r s)
        ((Room.sameGame_removeGameSession (c.world.room r) s).trans (Room.sameGame_cleared _))
  | @stays leaving r hc =>
      exact .setRoom hreg (World.without_roomId c.world r s) (Room.sameGame_removeGameSession _ s)
  | notify | disconnected => exact .of_eq hreg rfl rfl rfl rfl
  | @removeRoom leaving r w hok hw => exact World.meddles_removeRoom hreg r w hok
  | exited hw =>
      have hset : c.world.Meddles (c.world.setRoomId s intMax) := .of_eq hreg rfl rfl rfl rfl
      exact hset.trans (hw.meddles hset.registry)
  | forget hw => exact World.meddles_forget hreg s _ hw

theorem newcomers_start {c c' : Concurrent F} (hid : c.Identity) (h : c.Newcomers) {s : SessionRef}
    {call : HandlerCall} (hs : Starts c s call c') : c'.Newcomers := by
  cases hs with
  | roomCreate => exact h.goto hid (fun _ hr => hr) (fun _ _ _ => rfl) rfl trivial
  | admitted hr _ =>
      exact h.goto hid (fun _ hr => hr) (fun _ _ _ => rfl) rfl (hid.added_of_registered hr)
  | refused hw =>
      obtain ⟨sent, rfl⟩ := hw
      exact h.goto hid (fun _ hr => hr) (fun _ _ _ => rfl) rfl trivial
  | noExit => exact h
  | exit => exact h.goto hid (fun _ hr => hr) (fun _ _ _ => rfl) rfl trivial
  | drop | disconnect => exact h.goto hid (fun _ hr => hr) (fun _ _ _ => rfl) rfl trivial

theorem newcomers_runs {c c' : Concurrent F} (hid : c.Identity) (h : c.Newcomers) {s : SessionRef}
    {pc : HandlerPc} (hpc : c.pc s = pc) (hs : Runs c s pc c') : c'.Newcomers := by
  have hholds := h.holds s
  rw [hpc] at hholds
  -- a room that has been added is none of those still to be added
  have hother : ∀ {r q : RoomRef}, r ∈ c.added → q ∉ c.added → q ≠ r := by
    rintro r _ hr hq rfl
    exact hq hr
  have hset : ∀ {r : RoomRef} (room : Room F), r ∈ c.added → ∀ q ∉ c.added, q < c.world.nextRoom →
      (c.world.setRoom r room).room q = c.world.room q :=
    fun room hr q hq _ => (World.room_setRoom ..).trans (if_neg (hother hr hq))
  cases hs with
  | makeRoom => exact h.makeRoom hid ⟨_, _, _, _, _, .refl _⟩
  | addRoom => exact h.addRoom hpc _
  | @add r roomCode =>
      refine h.goto hid (fun _ hr => hr) (fun q hq _ => ?_) rfl trivial
      rw [World.room_roomAdd, if_neg (hother hholds hq)]
  | roomLobby hw | lobbyPlayerInfo hw =>
      obtain ⟨sent, rfl⟩ := hw
      exact h.goto hid (fun _ hr => hr) (fun _ _ _ => rfl) rfl trivial
  | exitRoom hr | disconnectRoom hr =>
      exact h.goto hid (fun _ hr => hr) (fun _ _ _ => rfl) rfl (hid.added_of_registered hr)
  | noRoom => exact h.goto hid (fun _ hr => hr) (fun _ _ _ => rfl) rfl trivial
  | closes => exact h.goto hid (List.subset_cons_self _ _) (hset _ hholds) rfl ⟨hholds, List.mem_cons_self⟩
  | stays => exact h.goto hid (fun _ hr => hr) (hset _ hholds) rfl trivial
  | notified | notify => exact h.goto hid (fun _ hr => hr) (fun _ _ _ => rfl) rfl hholds
  | @removeRoom leaving r w hok hw =>
      exact h.goto hid (fun _ hr => hr)
        (fun q hq _ => World.room_removeRoom _ r w hok q (hother hholds.1 hq)) rfl trivial
  | exited hw =>
      obtain ⟨sent, rfl⟩ := hw
      exact h.goto hid (fun _ hr => hr) (fun _ _ _ => rfl) rfl trivial
  | disconnected => exact h.goto hid (fun _ hr => hr) (fun _ _ _ => rfl) rfl trivial
  | @forget w hw =>
      refine h.goto hid (fun _ hr => hr) (fun q hq _ => World.room_forget _ s w hw q ?_) rfl trivial
      exact fun id hreg => hq (hid.added_of_registered hreg)

/-- **A section meddles**, and no more than that. -/
theorem meddles_step {c c' : Concurrent F} {a : Section} (hid : c.Identity) (h : c.Newcomers)
    (hg : c.CounterKept a) (hs : c.step a = some c') : c.world.Meddles c'.world ∧ c'.Newcomers := by
  cases a with
  | connect =>
      obtain rfl := Option.some.inj hs
      exact ⟨.of_eq hid.registry rfl rfl rfl rfl, h.fresh, h.own, h.holds⟩
  | call s call =>
      rw [step] at hs
      split at hs
      · have hstart := starts_start hs
        exact ⟨meddles_start hid.registry hstart, newcomers_start hid h hstart⟩
      · cases hs
  | next s =>
      have hruns := runs_next hs
      exact ⟨meddles_runs hid h rfl hg hruns, newcomers_runs hid h rfl hruns⟩

/-- A run of sections is one of turns, in which other threads do all that is done. -/
theorem turns_of_sections {maps : List UInt8 → Option MapSectionData} {c : Concurrent F}
    (h : Reachable ((Transition.ofFun step).guarded CounterKept) (Concurrent.init maps) c) :
    Reachable World.Turn (World.init maps) c.world := by
  have hrun : (c.Identity ∧ c.Newcomers) ∧ Reachable World.Turn (World.init maps) c.world := by
    refine h.simulates (f := Concurrent.world) (I := fun c => c.Identity ∧ c.Newcomers)
      ⟨identity_init maps, newcomers_init maps⟩ ?_
    rintro c a c' ⟨hid, hnew⟩ ⟨hg, hs⟩
    obtain ⟨hmeddles, hnew'⟩ := meddles_step hid hnew hg hs
    exact ⟨⟨identity_step hid hg hs, hnew'⟩, .inr ⟨none, .meddle hmeddles⟩⟩
  exact hrun.2

end Concurrent

end StarCraftIocp
