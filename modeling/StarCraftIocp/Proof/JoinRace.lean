import StarCraftIocp.Proof.RoomIdentity

/-!
# Joins that race with a leaving host

A join holds on to the room it looked up while a `Room::Remove` may clear and
unregister that room. Joins that get in before the room is closed are safe: a
session's `currentRoom` either leads to a registered room that has the session in
it, or somebody is still about to reset it.
-/

namespace StarCraftIocp

open CInt Protocol Outcome

variable {F : Type} [Scalar F]

namespace HandlerPc

/-- The players that this handler is going to tell that they are in no room. -/
def pending : HandlerPc → List SessionRef
  | .notifyExit _ _ playersInfo => playersInfo
  | _ => []

/-- The handler is past the locked section of `Room::Remove`, and before its own reset. -/
def Resets : HandlerPc → Prop
  | .lobbyPlayerInfo _ _ => True
  | .notifyExit _ _ _ => True
  | .removeRoom _ _ => True
  | .setRoomId _ => True
  | _ => False

/-- Rooms that handlers hold have been added, and those they are about to delete are closed. -/
def Holds (added closed : List RoomRef) : HandlerPc → Prop
  | .add r _ => r ∈ added
  | .remove _ r => r ∈ added
  | .notifyExit _ r _ => r ∈ added ∧ r ∈ closed
  | .removeRoom _ r => r ∈ added ∧ r ∈ closed
  | _ => True

theorem Holds.mono {added closed added' closed' : List RoomRef} (ha : added ⊆ added')
    (hc : closed ⊆ closed') {pc : HandlerPc} (h : pc.Holds added closed) :
    pc.Holds added' closed' := by
  cases pc with
  | add r roomCode => exact ha h
  | remove leaving r => exact ha h
  | notifyExit leaving r playersInfo => exact ⟨ha h.1, hc h.2⟩
  | removeRoom leaving r => exact ⟨ha h.1, hc h.2⟩
  | _ => trivial

end HandlerPc

namespace Concurrent

/-- `currentRoom` leads to a room that has the session. -/
def Inside (c : Concurrent F) (s : SessionRef) : Prop :=
  ∃ r ∈ c.added, (c.world.room r).roomId = (c.world.session s).currentRoom
    ∧ s ∈ (c.world.room r).sessions

/-- Where sessions are, and where they believe to be. -/
structure Places (c : Concurrent F) : Prop where
  member : ∀ s r, s ∈ (c.world.room r).sessions → r ∈ c.added ∧ r ∉ c.closed
  registered : ∀ r ∈ c.added, r ∉ c.closed → c.world.Registered (c.world.room r).roomId r
  pointer : ∀ s, (c.world.session s).currentRoom ≠ intMax →
    c.Inside s ∨ (∃ t, s ∈ (c.pc t).pending) ∨ (c.pc s).Resets
  forget : ∀ s, c.pc s = .forget → (c.world.session s).currentRoom = intMax
  holds : ∀ s, (c.pc s).Holds c.added c.closed
  born : ∀ s, c.pc s ≠ .idle → s < c.world.nextSession

/-- What the joins should have come to when every handler has finished. -/
structure Settled (c : Concurrent F) : Prop where
  found : ∀ s, (c.world.session s).connected = true → (c.world.session s).currentRoom ≠ intMax →
    ∃ r, c.world.getRoom (c.world.session s).currentRoom = some r ∧ s ∈ (c.world.room r).sessions
  removed : ∀ r ∈ c.added, c.world.getRoom (c.world.room r).roomId ≠ some r →
    ∀ s, s ∉ (c.world.room r).sessions

/-- Sessions create and join rooms only from no room. -/
def CallsFromNone (w : World F) : Section → Prop
  | .call s (.roomCreate _ _ _ _) => (w.session s).currentRoom = intMax
  | .call s (.roomRequest _ _) => (w.session s).currentRoom = intMax
  | _ => True

omit [Scalar F] in
instance (w : World F) : (a : Section) → Decidable (CallsFromNone w a)
  | .call s (.roomCreate _ _ _ _) => inferInstanceAs (Decidable ((w.session s).currentRoom = intMax))
  | .call s (.roomRequest _ _) => inferInstanceAs (Decidable ((w.session s).currentRoom = intMax))
  | .call _ .exitGame | .call _ .disconnect | .connect | .next _ =>
      inferInstanceAs (Decidable True)

/-- `Room::Add` comes before a `Room::Remove` has closed the room. -/
def AddsToOpen (closed : List RoomRef) : HandlerPc → Prop
  | .add r _ => r ∉ closed
  | _ => True

instance (closed : List RoomRef) : (pc : HandlerPc) → Decidable (AddsToOpen closed pc)
  | .add r _ => inferInstanceAs (Decidable (r ∉ closed))
  | .idle | .makeRoom _ _ _ _ _ | .addRoom _ | .roomLobby _ _ | .exitRoom _
  | .disconnectRoom | .remove _ _ | .lobbyPlayerInfo _ _ | .notifyExit _ _ _
  | .removeRoom _ _ | .setRoomId _ | .forget =>
      inferInstanceAs (Decidable True)

/-- Creations do not get in each other's way, and nobody joins from another room. -/
def JoinsFromNone (c : Concurrent F) (a : Section) : Prop :=
  c.CounterKept a ∧ CallsFromNone c.world a

/-- Besides, nobody joins a closed room. -/
def JoinsOpenRooms (c : Concurrent F) (a : Section) : Prop :=
  c.JoinsFromNone a ∧
  match a with
  | .next s => AddsToOpen c.closed (c.pc s)
  | _ => True

instance (c : Concurrent F) (a : Section) : Decidable (c.JoinsFromNone a) :=
  inferInstanceAs (Decidable (_ ∧ _))

instance (c : Concurrent F) : (a : Section) → Decidable (c.JoinsOpenRooms a)
  | .next s => inferInstanceAs (Decidable (_ ∧ AddsToOpen c.closed (c.pc s)))
  | .connect | .call _ _ => inferInstanceAs (Decidable (_ ∧ True))

/-- Nobody has joined or left, and no session's `currentRoom` has got another value but `INT_MAX`. -/
structure Frees (added : List RoomRef) (w w' : World F) : Prop where
  rooms : w'.roomManager.rooms = w.roomManager.rooms
  roomId : ∀ r ∈ added, (w'.room r).roomId = (w.room r).roomId
  mem : ∀ s r, s ∈ (w'.room r).sessions ↔ s ∈ (w.room r).sessions
  currentRoom : ∀ s, (w'.session s).currentRoom = (w.session s).currentRoom
    ∨ (w'.session s).currentRoom = intMax
  nextSession : w.nextSession ≤ w'.nextSession

section

omit [Scalar F]

theorem Frees.trans {added : List RoomRef} {w w' w'' : World F} (h : Frees added w w')
    (h' : Frees added w' w'') : Frees added w w'' := by
  refine ⟨h'.rooms.trans h.rooms, fun r hr => (h'.roomId r hr).trans (h.roomId r hr),
    fun s r => (h'.mem s r).trans (h.mem s r), ?_, h.nextSession.trans h'.nextSession⟩
  intro s
  rcases h'.currentRoom s with hs | hs
  · rw [hs]; exact h.currentRoom s
  · exact .inr hs

theorem Frees.of_quiet (added : List RoomRef) {w w' : World F} (h : World.Quiet w w') :
    Frees added w w' :=
  ⟨h.rooms, fun r _ => h.roomId r, fun s r => by rw [h.sessions], fun s => .inl (h.currentRoom s),
    h.nextSession.ge⟩

theorem frees_setRoomId (added : List RoomRef) (w : World F) (s : SessionRef) :
    Frees added w (w.setRoomId s intMax) := by
  refine ⟨rfl, fun _ _ => rfl, fun _ _ => Iff.rfl, ?_, Nat.le_refl _⟩
  intro t
  rw [World.currentRoom_setRoomId]
  by_cases ht : t = s
  · exact .inr (if_pos ht)
  · exact .inl (if_neg ht)

/--
What a step of the handler of `s`, which gets to `pc`, has to show. Everybody
else believes what he believed, or has been reset.
-/
theorem Places.of_step {c c' : Concurrent F} (h : c.Places) {s : SessionRef} {pc : HandlerPc}
    (hpc : c'.pc = Function.update c.pc s pc) (hadded : c.added ⊆ c'.added)
    (hclosed : c.closed ⊆ c'.closed)
    (hcur : ∀ t, t ≠ s → (c'.world.session t).currentRoom = (c.world.session t).currentRoom
      ∨ (c'.world.session t).currentRoom = intMax)
    (hmember : ∀ t r, t ∈ (c'.world.room r).sessions → r ∈ c'.added ∧ r ∉ c'.closed)
    (hregistered : ∀ r ∈ c'.added, r ∉ c'.closed → c'.world.Registered (c'.world.room r).roomId r)
    (hinside : ∀ t, t ≠ s → (c'.world.session t).currentRoom = (c.world.session t).currentRoom →
      c.Inside t → c'.Inside t ∨ t ∈ pc.pending)
    (hpending : ∀ t ∈ (c.pc s).pending, t ∈ pc.pending ∨ (c'.world.session t).currentRoom = intMax)
    (hself : (c'.world.session s).currentRoom ≠ intMax →
      c'.Inside s ∨ (∃ t, s ∈ (c'.pc t).pending) ∨ pc.Resets)
    (hforget : pc = .forget → (c'.world.session s).currentRoom = intMax)
    (hholds : pc.Holds c'.added c'.closed) (hborn : pc ≠ .idle → s < c.world.nextSession)
    (hnext : c.world.nextSession ≤ c'.world.nextSession) : c'.Places := by
  have hpcs : c'.pc s = pc := by rw [hpc, Function.update_self]
  have hpct : ∀ t, t ≠ s → c'.pc t = c.pc t := fun t ht => by rw [hpc, Function.update_of_ne ht]
  refine ⟨hmember, hregistered, ?_, ?_, ?_, ?_⟩
  · intro t ht
    by_cases hts : t = s
    · subst hts
      rw [hpcs]
      exact hself ht
    · have hsame := (hcur t hts).resolve_right ht
      rcases h.pointer t (hsame ▸ ht) with hin | ⟨u, hu⟩ | hres
      · rcases hinside t hts hsame hin with hin | hp
        · exact .inl hin
        · exact .inr (.inl ⟨s, by rw [hpcs]; exact hp⟩)
      · by_cases hus : u = s
        · subst hus
          exact .inr (.inl ⟨u, by rw [hpcs]; exact (hpending t hu).resolve_right ht⟩)
        · exact .inr (.inl ⟨u, by rw [hpct u hus]; exact hu⟩)
      · exact .inr (.inr (by rw [hpct t hts]; exact hres))
  · intro t ht
    by_cases hts : t = s
    · subst hts
      rw [hpcs] at ht
      exact hforget ht
    · rw [hpct t hts] at ht
      rcases hcur t hts with hsame | hmax
      · rw [hsame]; exact h.forget t ht
      · exact hmax
  · intro t
    by_cases hts : t = s
    · subst hts; rw [hpcs]; exact hholds
    · rw [hpct t hts]; exact (h.holds t).mono hadded hclosed
  · intro t ht
    refine Nat.lt_of_lt_of_le ?_ hnext
    by_cases hts : t = s
    · subst hts; rw [hpcs] at ht; exact hborn ht
    · rw [hpct t hts] at ht; exact h.born t ht

/-- A step that lets nobody in or out. Whom its handler was about to reset, it has or still is. -/
theorem Places.goto {c : Concurrent F} (h : c.Places) {w : World F} (hw : Frees c.added c.world w)
    {s : SessionRef} {old pc : HandlerPc} (hold : c.pc s = old) (hholds : pc.Holds c.added c.closed)
    (hpending : ∀ t ∈ old.pending, t ∈ pc.pending ∨ (w.session t).currentRoom = intMax)
    (hresets : old.Resets → pc.Resets ∨ (w.session s).currentRoom = intMax)
    (hforget : pc = .forget → (w.session s).currentRoom = intMax)
    (hborn : pc ≠ .idle → s < c.world.nextSession) : (c.goto w s pc).Places := by
  subst hold
  have hinside : ∀ t, (w.session t).currentRoom = (c.world.session t).currentRoom →
      c.Inside t → (c.goto w s pc).Inside t := by
    rintro t hsame ⟨r, hr, hid, hm⟩
    refine ⟨r, hr, ?_, (hw.mem t r).mpr hm⟩
    rw [goto_world, hw.roomId r hr, hsame]
    exact hid
  refine h.of_step rfl (fun _ hr => hr) (fun _ hr => hr) (fun t _ => hw.currentRoom t)
    (fun t r ht => h.member t r ((hw.mem t r).mp ht)) ?_
    (fun t _ hsame hin => .inl (hinside t hsame hin)) hpending ?_ hforget hholds
    hborn hw.nextSession
  · intro r hr hc
    unfold World.Registered
    rw [goto_world, hw.rooms, hw.roomId r hr]
    exact h.registered r hr hc
  · intro hs
    have hsame := (hw.currentRoom s).resolve_right hs
    rcases h.pointer s (hsame ▸ hs) with hin | ⟨u, hu⟩ | hres
    · exact .inl (hinside s hsame hin)
    · right; left
      by_cases hus : u = s
      · subst hus
        exact ⟨u, by rw [goto_pc, if_pos rfl]; exact (hpending u hu).resolve_right hs⟩
      · exact ⟨u, by rw [goto_pc, if_neg hus]; exact hu⟩
    · exact .inr (.inr ((hresets hres).resolve_right hs))

theorem Places.addRoom {c : Concurrent F} (hid : c.Identity) (h : c.Places) {s : SessionRef}
    {r : RoomRef} (hpc : c.pc s = .addRoom r)
    (hborn : s < c.world.nextSession)
    (hr : (c.world.room r).roomId = c.world.roomManager.roomIdCount) (roomCode : Int) :
    ({ c with added := r :: c.added }.goto (c.world.addRoom r) s (.add r roomCode)).Places := by
  have hsub : c.added ⊆ r :: c.added := List.subset_cons_self r c.added
  have hinside : ∀ t, c.Inside t →
      ({ c with added := r :: c.added }.goto (c.world.addRoom r) s (.add r roomCode)).Inside t :=
    fun t ⟨q, hq, hid, hm⟩ => ⟨q, hsub hq, hid, hm⟩
  refine h.of_step rfl hsub (fun _ hq => hq) (fun _ _ => .inl rfl)
    (fun t q ht => ⟨hsub (h.member t q ht).1, (h.member t q ht).2⟩) ?_
    (fun t _ _ hin => .inl (hinside t hin)) ?_ ?_ (fun hf => by cases hf)
    List.mem_cons_self (fun _ => hborn) (Nat.le_refl _)
  · intro q hq hc
    change (c.world.roomManager.rooms.insert c.world.roomManager.roomIdCount (some r))[
      (c.world.room q).roomId]? = some (some q)
    rw [Table.getElem?_insert]
    rcases List.mem_cons.mp hq with rfl | hq
    · rw [if_pos hr]
    · have := hid.lt q hq
      rw [if_neg (by omega)]
      exact h.registered q hq hc
  · intro t ht
    rw [hpc] at ht; cases ht
  · intro hs
    rcases h.pointer s hs with hin | ⟨u, hu⟩ | hres
    · exact .inl (hinside s hin)
    · have hus : u ≠ s := by rintro rfl; rw [hpc] at hu; cases hu
      exact .inr (.inl ⟨u, by rw [goto_pc, if_neg hus]; exact hu⟩)
    · rw [hpc] at hres; exact hres.elim

theorem Places.add {c : Concurrent F} (h : c.Places) {s : SessionRef} {r : RoomRef} {roomCode : Int}
    (hpc : c.pc s = .add r roomCode) (hborn : s < c.world.nextSession) (hc : r ∉ c.closed) :
    (c.goto (c.world.roomAdd r s) s (.roomLobby r roomCode)).Places := by
  have hr : r ∈ c.added := by have := h.holds s; rw [hpc] at this; exact this
  have hcur : ∀ t, t ≠ s →
      ((c.world.roomAdd r s).session t).currentRoom = (c.world.session t).currentRoom :=
    fun t ht => by rw [World.currentRoom_roomAdd, if_neg ht]
  refine h.of_step rfl (fun _ hq => hq) (fun _ hq => hq) (fun t ht => .inl (hcur t ht))
    ?_ ?_ (fun t hts _ hin => .inl ?_) ?_
    (fun _ => .inl ⟨r, hr, ?_, ?_⟩) (fun hf => by cases hf) trivial
    (fun _ => hborn) (Nat.le_refl _)
  · intro t q ht
    rcases World.mem_roomAdd ht with hold | ⟨rfl, rfl⟩
    · exact h.member t q hold
    · exact ⟨hr, hc⟩
  · intro q hq hqc
    unfold World.Registered
    rw [goto_world, World.roomId_roomAdd]
    exact h.registered q hq hqc
  · obtain ⟨q, hq, hid, hm⟩ := hin
    refine ⟨q, hq, ?_, ?_⟩
    · rw [goto_world, World.roomId_roomAdd, hcur t hts]
      exact hid
    · rw [goto_world, World.room_roomAdd]
      by_cases hqr : q = r
      · subst hqr
        rw [if_pos rfl]
        exact Table.set_mem_insert.mpr (.inr hm)
      · rw [if_neg hqr]; exact hm
  · intro t ht
    rw [hpc] at ht; cases ht
  · rw [goto_world, World.roomId_roomAdd, World.currentRoom_roomAdd, if_pos rfl]
  · rw [goto_world, World.room_roomAdd, if_pos rfl]
    exact Std.ExtTreeSet.mem_insert_self

/-- The locked section of `Room::Remove` in a room that stays. -/
theorem Places.remove_stays {c : Concurrent F} (h : c.Places) {s : SessionRef} {r : RoomRef}
    {leaving : Leaving} (hpc : c.pc s = .remove leaving r) (hborn : s < c.world.nextSession) :
    (c.goto (c.world.setRoom r (c.world.without r s)) s
      (.lobbyPlayerInfo leaving (c.world.without r s).sessions.toList)).Places := by
  have hroom : ∀ q, (c.world.setRoom r (c.world.without r s)).room q
      = if q = r then c.world.without r s else c.world.room q := fun q => World.room_setRoom ..
  have hid : ∀ q, ((c.world.setRoom r (c.world.without r s)).room q).roomId
      = (c.world.room q).roomId := (World.keepsIds_setRoom _ r (World.without_roomId _ r s)).roomId
  refine h.of_step rfl (fun _ hq => hq) (fun _ hq => hq) (fun t ht => .inl rfl)
    ?_ ?_ (fun t hts _ hin => .inl ?_) ?_
    (fun _ => .inr (.inr trivial)) (fun hf => by cases hf) trivial
    (fun _ => hborn) (Nat.le_refl _)
  · intro t q ht
    rw [goto_world, hroom] at ht
    by_cases hqr : q = r
    · subst hqr
      rw [if_pos rfl] at ht
      exact h.member t q (World.mem_without.mp ht).1
    · rw [if_neg hqr] at ht
      exact h.member t q ht
  · intro q hq hqc
    unfold World.Registered
    rw [goto_world, hid]
    exact h.registered q hq hqc
  · obtain ⟨q, hq, hqid, hm⟩ := hin
    refine ⟨q, hq, (hid q).trans hqid, ?_⟩
    rw [goto_world, hroom]
    by_cases hqr : q = r
    · subst hqr
      rw [if_pos rfl]
      exact World.mem_without.mpr ⟨hm, hts⟩
    · rw [if_neg hqr]; exact hm
  · intro t ht
    rw [hpc] at ht; cases ht

/-- The same section in a room that closes: its members are now pending. -/
theorem Places.remove_closed {c : Concurrent F} (h : c.Places) {s : SessionRef} {r : RoomRef}
    {leaving : Leaving} (hpc : c.pc s = .remove leaving r) (hborn : s < c.world.nextSession) :
    ({ c with closed := r :: c.closed }.goto (c.world.setRoom r (c.world.without r s).cleared) s
      (.notifyExit leaving r (c.world.without r s).sessions.toList)).Places := by
  have hr : r ∈ c.added := by have := h.holds s; rw [hpc] at this; exact this
  have hroom : ∀ q, (c.world.setRoom r (c.world.without r s).cleared).room q
      = if q = r then (c.world.without r s).cleared else c.world.room q :=
    fun q => World.room_setRoom ..
  have hclear : (c.world.without r s).cleared.roomId = (c.world.room r).roomId :=
    World.without_roomId _ r s
  have hid : ∀ q, ((c.world.setRoom r (c.world.without r s).cleared).room q).roomId
      = (c.world.room q).roomId := (World.keepsIds_setRoom _ r hclear).roomId
  refine h.of_step rfl (fun _ hq => hq) (List.subset_cons_self r c.closed) (fun t ht => .inl rfl)
    ?_ ?_ ?_ ?_
    (fun _ => .inr (.inr trivial)) (fun hf => by cases hf) ⟨hr, List.mem_cons_self⟩
    (fun _ => hborn) (Nat.le_refl _)
  · intro t q ht
    rw [goto_world, hroom] at ht
    by_cases hqr : q = r
    · rw [if_pos hqr] at ht
      exact absurd ht Std.ExtTreeSet.not_mem_empty
    · rw [if_neg hqr] at ht
      obtain ⟨hq, hqc⟩ := h.member t q ht
      refine ⟨hq, ?_⟩
      intro hmem
      rcases List.mem_cons.mp hmem with heq | hmem
      · exact hqr heq
      · exact hqc hmem
  · intro q hq hqc
    unfold World.Registered
    rw [goto_world, hid]
    exact h.registered q hq fun hmem => hqc (List.mem_cons_of_mem r hmem)
  · intro t hts _ hin
    obtain ⟨q, hq, hqid, hm⟩ := hin
    by_cases hqr : q = r
    · subst hqr
      exact .inr (Std.ExtTreeSet.mem_toList.mpr (World.mem_without.mpr ⟨hm, hts⟩))
    · refine .inl ⟨q, hq, (hid q).trans hqid, ?_⟩
      rw [goto_world, hroom, if_neg hqr]; exact hm
  · intro t ht
    rw [hpc] at ht; cases ht

/-- `RemoveRoom` on a closed room. -/
theorem Places.removeRoom {c : Concurrent F} (hid : c.Identity) (h : c.Places) {s : SessionRef}
    {r : RoomRef} {leaving : Leaving} (hpc : c.pc s = .removeRoom leaving r)
    (hborn : s < c.world.nextSession) {w : World F}
    (hw : World.Becomes c.world w (c.world.roomManager.rooms.erase (c.world.room r).roomId) r
      (c.world.room r).membership []) : (c.goto w s (.setRoomId leaving)).Places := by
  obtain ⟨hr, hrc⟩ : r ∈ c.added ∧ r ∈ c.closed := by
    have := h.holds s
    rw [hpc] at this
    exact this
  have hs : ∀ q, (w.room q).sessions = (c.world.room q).sessions := fun q => by
    have hm : (w.room q).sessions = _ := congrArg Membership.sessions (hw.room q)
    by_cases hqr : q = r
    · rw [if_pos hqr] at hm
      rw [hm, hqr]; rfl
    · rw [if_neg hqr] at hm
      exact hm
  have hcur : ∀ t, (w.session t).currentRoom = (c.world.session t).currentRoom := fun t =>
    (hw.currentRoom t).trans (if_neg List.not_mem_nil)
  refine h.of_step rfl (fun _ hq => hq) (fun _ hq => hq) (fun t _ => .inl (hcur t))
    (fun t q ht => h.member t q (by rw [goto_world, hs] at ht; exact ht)) ?_
    (fun t hts _ hin => .inl ?_) ?_ (fun _ => .inr (.inr trivial))
    (fun hf => by cases hf) trivial (fun _ => hborn) hw.nextSession.ge
  · intro q hq hqc
    have hne : (c.world.room q).roomId ≠ (c.world.room r).roomId := fun heq =>
      hqc (hid.distinct q hq r hr heq ▸ hrc)
    unfold World.Registered
    rw [goto_world, hw.roomId rfl, hw.rooms, Table.getElem?_erase, if_neg hne]
    exact h.registered q hq hqc
  · obtain ⟨q, hq, hqid, hm⟩ := hin
    refine ⟨q, hq, ?_, by rw [goto_world, hs]; exact hm⟩
    rw [goto_world, hw.roomId rfl, hcur]; exact hqid
  · intro t ht
    rw [hpc] at ht; cases ht

/-- A handler that has not got to `Room::Remove` leaves a quiet step behind it. -/
theorem Places.goto_quiet {c : Concurrent F} (h : c.Places) {w : World F}
    (hw : World.Quiet c.world w) {s : SessionRef} {old pc : HandlerPc} (hold : c.pc s = old)
    (hholds : pc.Holds c.added c.closed) (hpending : old.pending = [])
    (hresets : old.Resets → pc.Resets) (hforget : pc ≠ .forget) (hborn : s < c.world.nextSession) :
    (c.goto w s pc).Places := by
  refine h.goto (.of_quiet _ hw) hold hholds ?_ ?_ ?_ fun _ => hborn
  · intro t ht
    rw [hpending] at ht
    cases ht
  · intro hres
    exact .inl (hresets hres)
  · intro hf
    exact absurd hf hforget

/-- A new room has no members, and nobody holds it but its maker. -/
theorem Places.makeRoom {c : Concurrent F} (hid : c.Identity) (h : c.Places) {s : SessionRef}
    {room : Room F} (hroom : room.sessions = ∅) {old : HandlerPc} (hold : c.pc s = old)
    (hpending : old.pending = []) (hresets : ¬ old.Resets) (hborn : s < c.world.nextSession) :
    (c.goto (c.world.makeRoom room).2 s (.addRoom c.world.nextRoom)).Places := by
  have hr : ∀ q, (c.world.makeRoom room).2.room q
      = if q = c.world.nextRoom then room else c.world.room q := fun q => World.room_setRoom ..
  have hw : Frees c.added c.world (c.world.makeRoom room).2 := by
    refine ⟨rfl, ?_, ?_, fun _ => .inl rfl, Nat.le_refl _⟩
    · intro q hq
      rw [hr, if_neg (Nat.ne_of_lt (hid.made q hq))]
    · intro t q
      rw [hr]
      by_cases hq : q = c.world.nextRoom
      · rw [if_pos hq, hroom]
        refine ⟨fun ht => absurd ht Std.ExtTreeSet.not_mem_empty, ?_⟩
        intro ht
        exact absurd hq (Nat.ne_of_lt (hid.made q (h.member t q ht).1))
      · rw [if_neg hq]
  refine h.goto hw hold trivial ?_ (absurd · hresets) (by intro hf; cases hf) fun _ => hborn
  intro t ht
  rw [hpending] at ht
  cases ht

end

omit [Scalar F] in
theorem places_start {c c' : Concurrent F} (hid : c.Identity) (h : c.Places) {s : SessionRef}
    {call : HandlerCall} (hpc : c.pc s = .idle) (hborn : s < c.world.nextSession)
    (hs : Starts c s call c') : c'.Places := by
  have hdrop : Frees c.added c.world (c.world.dropped s) :=
    ⟨rfl, fun _ _ => rfl, fun _ _ => Iff.rfl, fun t => .inl (World.dropped_currentRoom _ s t),
      Nat.le_refl _⟩
  cases hs with
  | roomCreate => exact h.goto_quiet (.refl _) hpc trivial rfl False.elim (by simp) hborn
  | admitted hr ha =>
      exact h.goto_quiet (.refl _) hpc (hid.added_of_registered hr) rfl False.elim (by simp) hborn
  | refused hw => exact h.goto_quiet hw.quiet hpc trivial rfl False.elim (by simp) hborn
  | noExit hmax => exact h
  | exit hmax => exact h.goto_quiet (.refl _) hpc trivial rfl False.elim (by simp) hborn
  | drop hmax =>
      refine h.goto hdrop hpc trivial (by simp [HandlerPc.pending]) False.elim ?_ fun _ => hborn
      intro _
      rw [World.dropped_currentRoom]
      exact hmax
  | disconnect hmax =>
      exact h.goto hdrop hpc trivial (by simp [HandlerPc.pending]) False.elim (by simp) fun _ => hborn

theorem places_runs {c c' : Concurrent F} (hid : c.Identity) (h : c.Places) {s : SessionRef}
    {pc : HandlerPc} (hpc : c.pc s = pc) (hborn : s < c.world.nextSession)
    (hcount : AddsOwnId c.world pc) (hopen : AddsToOpen c.closed pc) (hs : Runs c s pc c') :
    c'.Places := by
  have hholds := h.holds s
  rw [hpc] at hholds
  have hmax : ((c.world.setRoomId s intMax).session s).currentRoom = intMax :=
    (World.currentRoom_setRoomId ..).trans (if_pos rfl)
  cases hs with
  | makeRoom => exact h.makeRoom hid rfl hpc rfl id hborn
  | addRoom => exact h.addRoom hid hpc hborn hcount.1 _
  | add => exact h.add hpc hborn hopen
  | roomLobby hw => exact h.goto_quiet hw.quiet hpc trivial rfl False.elim (by simp) hborn
  | exitRoom hr =>
      exact h.goto_quiet (.refl _) hpc (hid.added_of_registered hr) rfl False.elim (by simp) hborn
  | noRoom => exact h.goto_quiet (.refl _) hpc trivial rfl False.elim (by simp) hborn
  | disconnectRoom hr =>
      exact h.goto_quiet (.refl _) hpc (hid.added_of_registered hr) rfl False.elim (by simp) hborn
  | closes hc => exact h.remove_closed hpc hborn
  | stays hc => exact h.remove_stays hpc hborn
  | lobbyPlayerInfo hw => exact h.goto_quiet hw.quiet hpc trivial rfl id (by simp) hborn
  | notified => exact h.goto_quiet (.refl _) hpc hholds rfl id (by simp) hborn
  | @notify leaving r player playersInfo =>
      have hset := frees_setRoomId c.added c.world player
      have hw : Frees c.added c.world (c.world.notifyExit (.sRoomExit .adminExit) player) :=
        ⟨hset.rooms, hset.roomId, hset.mem, hset.currentRoom, Nat.le_refl _⟩
      refine h.goto hw hpc hholds ?_ .inl (by simp) fun _ => hborn
      intro t ht
      rcases List.mem_cons.mp ht with rfl | ht
      · exact .inr ((World.currentRoom_setRoomId ..).trans (if_pos rfl))
      · exact .inl ht
  | removeRoom _ hw => exact h.removeRoom hid hpc hborn hw
  | exited hw =>
      refine h.goto ((frees_setRoomId _ _ s).trans (.of_quiet _ hw.quiet)) hpc trivial
        (by simp [HandlerPc.pending]) ?_ (by simp) (by simp)
      intro _
      rw [hw.quiet.currentRoom]
      exact .inr hmax
  | disconnected =>
      exact h.goto (frees_setRoomId _ _ s) hpc trivial (by simp [HandlerPc.pending])
        (fun _ => .inr hmax) (fun _ => hmax) fun _ => hborn
  | forget hw =>
      exact h.goto_quiet (World.quiet_forget (h.forget s hpc) _ hw) hpc trivial rfl False.elim
        (by simp) hborn

theorem places_step {c c' : Concurrent F} {a : Section} (hid : c.Identity) (h : c.Places)
    (hg : c.JoinsOpenRooms a) (hs : c.step a = some c') : c'.Places := by
  cases a with
  | connect =>
      obtain rfl := Option.some.inj hs
      have hw : Frees c.added c.world c.world.onConnected := by
        refine ⟨rfl, fun _ _ => rfl, fun _ _ => Iff.rfl, ?_, Nat.le_succ _⟩
        intro t
        rw [World.currentRoom_onConnected]
        by_cases ht : t = c.world.nextSession
        · exact .inr (if_pos ht)
        · exact .inl (if_neg ht)
      have hpc : c.goto c.world.onConnected 0 (c.pc 0)
          = { c with world := c.world.onConnected } := by
        unfold Concurrent.goto
        rw [Function.update_eq_self]
      rw [← hpc]
      refine h.goto hw rfl (h.holds 0) (fun t ht => .inl ht) .inl ?_ (h.born 0)
      intro hf
      have := h.forget 0 hf
      rcases hw.currentRoom 0 with hsame | hmax
      · rw [hsame]; exact this
      · exact hmax
  | call s call =>
      rw [step] at hs
      split at hs
      · rename_i hen
        exact places_start hid h hen.1 hen.2.1 (starts_start hs)
      · cases hs
  | next s =>
      have hidle : c.pc s ≠ .idle := by
        intro hidle
        rw [step, hidle] at hs
        cases hs
      exact places_runs hid h rfl (h.born s hidle) hg.1.1 hg.2 (runs_next hs)

theorem places_init (maps : List UInt8 → Option MapSectionData) :
    (Concurrent.init maps : Concurrent F).Places := by
  refine ⟨?_, fun r hr => absurd hr List.not_mem_nil, fun s hs => absurd rfl hs,
    fun s hs => absurd hs (by intro hf; cases hf), fun s => trivial, fun s hs => absurd rfl hs⟩
  intro s r hs
  exact absurd hs Std.ExtTreeSet.not_mem_empty

/--
**No join is stranded**: in every interleaving in which joins come from no room
and get in before the room is closed, once all handlers have finished, every
session is where it believes to be, and no removed room has a member.
-/
theorem joins_settled {maps : List UInt8 → Option MapSectionData} {c : Concurrent F}
    (h : Reachable ((Transition.ofFun step).guarded JoinsOpenRooms) (Concurrent.init maps) c)
    (hdone : ∀ s < c.world.nextSession, c.pc s = .idle) : c.Settled := by
  have hinv : c.Identity ∧ c.Places := by
    refine h.invariant (I := fun c => c.Identity ∧ c.Places)
      ⟨identity_init maps, places_init maps⟩ ?_
    intro c a c' hc hs
    exact ⟨identity_step hc.1 hs.1.1.1 hs.2, places_step hc.1 hc.2 hs.1 hs.2⟩
  obtain ⟨hid, hpl⟩ := hinv
  have hidle : ∀ s, c.pc s = .idle := fun s => by
    by_contra hne
    exact hne (hdone s (hpl.born s hne))
  refine ⟨?_, ?_⟩
  · intro s _ hs
    rcases hpl.pointer s hs with ⟨r, hr, hrid, hm⟩ | ⟨t, ht⟩ | hres
    · refine ⟨r, ?_, hm⟩
      rw [← hrid]
      exact World.getRoom_eq_some.mpr (hpl.registered r hr (hpl.member s r hm).2)
    · rw [hidle t] at ht; cases ht
    · rw [hidle s] at hres; exact hres.elim
  · intro r hr hgone s hs
    exact hgone (World.getRoom_eq_some.mpr (hpl.registered r hr (hpl.member s r hs).2))

/-- Into room 0, which has no password. -/
def joinFirst : HandlerCall := .roomRequest 0 []

/-- A session joins between the sections of one that leaves, in a room that stays. -/
def joinWhileLeaving : List Section :=
  [.connect, .connect, .connect] ++ alone 0 (plainRoom 1) 4 ++ alone 1 joinFirst 2
    ++ [.call 2 joinFirst, .call 1 .exitGame, .next 1, .next 1, .next 2, .next 1, .next 2, .next 1]

theorem joins_settled_joinWhileLeaving :
    ∃ c : Concurrent ℚ, (∀ s < c.world.nextSession, c.pc s = .idle)
      ∧ (c.world.session 2).currentRoom = 0 ∧ c.Settled := by
  have hrun : (joinWhileLeaving.foldlM (guardedFun step JoinsOpenRooms)
      (Concurrent.init fun _ => none : Concurrent ℚ)).map
      (fun c => (decide (∀ s < c.world.nextSession, c.pc s = .idle),
        (c.world.session 2).currentRoom)) = some (true, 0) := by decide +kernel
  obtain ⟨c, hc, hobs⟩ := Option.map_eq_some_iff.mp hrun
  obtain ⟨hdone, h2⟩ := Prod.mk.inj hobs
  exact ⟨c, of_decide_eq_true hdone, h2,
    joins_settled (Reachable.of_run_guarded (l := joinWhileLeaving) hc .refl)
      (of_decide_eq_true hdone)⟩

/-- The second session looks the room up, its only member leaves, and then it joins. -/
def joinAfterClose : List Section :=
  [.connect, .connect] ++ alone 0 (plainRoom 1) 4 ++ [.call 1 joinFirst]
    ++ alone 0 .exitGame 5 ++ [.next 1, .next 1]

/-- It is in a room that no longer exists. -/
theorem not_joins_settled :
    ∃ c : Concurrent ℚ,
      Reachable ((Transition.ofFun step).guarded JoinsFromNone) (Concurrent.init fun _ => none) c
      ∧ (∀ s < c.world.nextSession, c.pc s = .idle) ∧ ¬ c.Settled := by
  have hrun : (joinAfterClose.foldlM (guardedFun step JoinsFromNone)
      (Concurrent.init fun _ => none : Concurrent ℚ)).map
      (fun c => (decide (∀ s < c.world.nextSession, c.pc s = .idle),
        (c.world.session 1).connected, (c.world.session 1).currentRoom, c.world.getRoom 0))
        = some (true, true, 0, none) := by decide +kernel
  obtain ⟨c, hc, hobs⟩ := Option.map_eq_some_iff.mp hrun
  obtain ⟨hdone, hobs⟩ := Prod.mk.inj hobs
  obtain ⟨hconn, hobs⟩ := Prod.mk.inj hobs
  obtain ⟨hcur, hroom⟩ := Prod.mk.inj hobs
  refine ⟨c, Reachable.of_run_guarded (l := joinAfterClose) hc .refl, of_decide_eq_true hdone,
    ?_⟩
  intro h
  obtain ⟨r, hr, -⟩ := h.found 1 hconn (by rw [hcur]; decide)
  rw [hcur, hroom] at hr
  cases hr

end Concurrent

end StarCraftIocp
