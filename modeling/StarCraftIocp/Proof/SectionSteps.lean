import StarCraftIocp.GameServer.Sections
import StarCraftIocp.Proof.Membership

/-!
# What a section can do

The sections of the handlers, one rule for each way through them. A rule names
the place, the state it leaves and what the section has found out on its way;
a section that crashes has none. What is proved about concurrent runs looks at
the rules, and not at how `start` and `next` compute.
-/

namespace StarCraftIocp

open CInt Protocol Outcome

variable {F : Type} [Scalar F]

namespace World

/-- Something has been sent, and nothing else has happened. -/
def Says (w w' : World F) : Prop := ∃ sent, w' = { w with sent := sent }

theorem says_reply (w : World F) (s : SessionRef) (msg : ServerMessage F) :
    Ensures (w.reply s msg) (Says w) :=
  Ensures.bind (P := fun _ => True) (fun _ _ => trivial) fun _ _ => .ok ⟨_, rfl⟩

theorem says_lobbyPlayerInfo (w : World F) (playersInfo : List SessionRef) :
    Ensures (w.lobbyPlayerInfo playersInfo) (Says w) :=
  Ensures.bind (P := fun _ => True) (fun _ _ => trivial) fun _ _ => .ok ⟨_, rfl⟩

omit [Scalar F] in
theorem Says.quiet {w w' : World F} (h : Says w w') : Quiet w w' := by
  obtain ⟨sent, rfl⟩ := h
  exact ⟨rfl, fun _ => rfl, fun _ => rfl, rfl, rfl, rfl, fun _ => rfl⟩

end World

namespace Concurrent

section

omit [Scalar F]

@[simp] theorem goto_world (c : Concurrent F) (w : World F) (s : SessionRef) (pc : HandlerPc) :
    (c.goto w s pc).world = w := rfl

theorem goto_pc (c : Concurrent F) (w : World F) (s : SessionRef) (pc : HandlerPc) (t : SessionRef) :
    (c.goto w s pc).pc t = if t = s then pc else c.pc t := Function.update_apply ..

theorem gotoM_eq_some {c c' : Concurrent F} {x : Except Crash (World F)} {s : SessionRef}
    {pc : HandlerPc} : c.gotoM x s pc = some c' ↔ ∃ w, x = .ok w ∧ c' = c.goto w s pc := by
  unfold gotoM
  simp only [Option.map_eq_some_iff, Outcome.toOption_eq_some, eq_comm (a := c')]

end

/-- The first access of a handler. -/
inductive Starts (c : Concurrent F) (s : SessionRef) : HandlerCall → Concurrent F → Prop
  | roomCreate {gameId : UInt64} {gameName gamePassWord mapHash : List UInt8} :
      Starts c s (.roomCreate gameId gameName gamePassWord mapHash)
        (c.goto c.world s (.makeRoom c.world.roomManager.roomIdCount (int32 gameId.toNat) gameName
          gamePassWord mapHash))
  | admitted {roomCode : Int32} {gamePassWord : List UInt8} {r : RoomRef}
      (hr : c.world.Registered roomCode.toInt r)
      (ha : World.admits (c.world.room r) gamePassWord = true) :
      Starts c s (.roomRequest roomCode gamePassWord) (c.goto c.world s (.add r roomCode.toInt))
  | refused {roomCode : Int32} {gamePassWord : List UInt8} {w : World F}
      (hw : World.Says c.world w) :
      Starts c s (.roomRequest roomCode gamePassWord) (c.goto w s .idle)
  | noExit (hmax : (c.world.session s).currentRoom = intMax) : Starts c s .exitGame c
  | exit (hmax : (c.world.session s).currentRoom ≠ intMax) :
      Starts c s .exitGame (c.goto c.world s (.exitRoom (c.world.session s).currentRoom))
  | drop (hmax : (c.world.session s).currentRoom = intMax) :
      Starts c s .disconnect (c.goto (c.world.dropped s) s .forget)
  | disconnect (hmax : (c.world.session s).currentRoom ≠ intMax) :
      Starts c s .disconnect (c.goto (c.world.dropped s) s .disconnectRoom)

theorem starts_start {c c' : Concurrent F} {s : SessionRef} {call : HandlerCall}
    (hs : c.start s call = some c') : Starts c s call c' := by
  cases call with
  | roomCreate gameId gameName gamePassWord mapHash =>
      obtain rfl := Option.some.inj hs
      exact .roomCreate
  | roomRequest roomCode gamePassWord =>
      rw [start] at hs
      cases hi : (c.world.roomManager.indexRoom roomCode.toInt).1 with
      | none => rw [hi] at hs; cases hs
      | some r =>
          rw [hi] at hs
          dsimp only at hs
          split at hs
          · rename_i ha
            obtain rfl := Option.some.inj hs
            exact .admitted ((Table.getD_none_eq_some ..).mp hi) ha
          · obtain ⟨w, hw, rfl⟩ := gotoM_eq_some.mp hs
            exact .refused (World.says_reply _ s _ w hw)
  | exitGame =>
      rw [start] at hs
      split at hs
      · rename_i hmax
        obtain rfl := Option.some.inj hs
        exact .noExit hmax
      · rename_i hmax
        obtain rfl := Option.some.inj hs
        exact .exit hmax
  | disconnect =>
      have hcur := World.dropped_currentRoom c.world s s
      rw [start] at hs
      dsimp only at hs
      change (if ((c.world.dropped s).session s).currentRoom = intMax then _ else _) = _ at hs
      rw [hcur] at hs
      split at hs
      · rename_i hmax
        obtain rfl := Option.some.inj hs
        exact .drop hmax
      · rename_i hmax
        obtain rfl := Option.some.inj hs
        exact .disconnect hmax

/-- The next section of the handler of `s`, by the place it has come to. -/
inductive Runs (c : Concurrent F) (s : SessionRef) : HandlerPc → Concurrent F → Prop
  | makeRoom {roomIdCount hostId : Int} {gameName gamePassWord mapHash : List UInt8} :
      Runs c s (.makeRoom roomIdCount hostId gameName gamePassWord mapHash)
        (c.goto (c.world.makeRoom (Room.new roomIdCount hostId gameName gamePassWord mapHash)).2 s
          (.addRoom c.world.nextRoom))
  | addRoom {r : RoomRef} :
      Runs c s (.addRoom r) ({ c with added := r :: c.added }.goto (c.world.addRoom r) s
        (.add r (c.world.room r).roomId))
  | add {r : RoomRef} {roomCode : Int} :
      Runs c s (.add r roomCode) (c.goto (c.world.roomAdd r s) s (.roomLobby r roomCode))
  | roomLobby {r : RoomRef} {roomCode : Int} {w : World F} (hw : World.Says c.world w) :
      Runs c s (.roomLobby r roomCode) (c.goto w s .idle)
  | exitRoom {roomId : Int} {r : RoomRef} (hr : c.world.Registered roomId r) :
      Runs c s (.exitRoom roomId) (c.goto c.world s (.remove .exit r))
  | noRoom : Runs c s .disconnectRoom (c.goto c.world s (.setRoomId .disconnect))
  | disconnectRoom {r : RoomRef} (hr : c.world.Registered (c.world.session s).currentRoom r) :
      Runs c s .disconnectRoom (c.goto c.world s (.remove .disconnect r))
  | closes {leaving : Leaving} {r : RoomRef} (hc : c.world.closes r s = true) :
      Runs c s (.remove leaving r) ({ c with closed := r :: c.closed }.goto
        (c.world.setRoom r (c.world.without r s).cleared) s
        (.notifyExit leaving r (c.world.without r s).sessions.toList))
  | stays {leaving : Leaving} {r : RoomRef} (hc : c.world.closes r s = false) :
      Runs c s (.remove leaving r) (c.goto (c.world.setRoom r (c.world.without r s)) s
        (.lobbyPlayerInfo leaving (c.world.without r s).sessions.toList))
  | lobbyPlayerInfo {leaving : Leaving} {playersInfo : List SessionRef} {w : World F}
      (hw : World.Says c.world w) :
      Runs c s (.lobbyPlayerInfo leaving playersInfo) (c.goto w s (.setRoomId leaving))
  | notified {leaving : Leaving} {r : RoomRef} :
      Runs c s (.notifyExit leaving r []) (c.goto c.world s (.removeRoom leaving r))
  | notify {leaving : Leaving} {r : RoomRef} {player : SessionRef} {playersInfo : List SessionRef} :
      Runs c s (.notifyExit leaving r (player :: playersInfo))
        (c.goto (c.world.notifyExit (.sRoomExit .adminExit) player) s
          (.notifyExit leaving r playersInfo))
  | removeRoom {leaving : Leaving} {r : RoomRef} {w : World F} (hok : c.world.removeRoom r = .ok w)
      (hw : World.Becomes c.world w (c.world.roomManager.rooms.erase (c.world.room r).roomId) r
        (c.world.room r).membership []) :
      Runs c s (.removeRoom leaving r) (c.goto w s (.setRoomId leaving))
  | exited {w : World F} (hw : World.Says (c.world.setRoomId s intMax) w) :
      Runs c s (.setRoomId .exit) (c.goto w s .idle)
  | disconnected :
      Runs c s (.setRoomId .disconnect) (c.goto (c.world.setRoomId s intMax) s .forget)
  | forget {w : World F} (hw : (c.world.erasePlayerId s).gSessionManagerRemove s = .ok w) :
      Runs c s .forget (c.goto w s .idle)

/-- **What a section can do.** -/
theorem runs_next {c c' : Concurrent F} {s : SessionRef} {pc : HandlerPc}
    (hs : c.next s pc = some c') : Runs c s pc c' := by
  cases pc with
  | idle => cases hs
  | makeRoom roomIdCount hostId gameName gamePassWord mapHash =>
      obtain rfl := Option.some.inj hs
      exact .makeRoom
  | addRoom r =>
      obtain rfl := Option.some.inj hs
      exact .addRoom
  | add r roomCode =>
      obtain rfl := Option.some.inj hs
      exact .add
  | roomLobby r roomCode =>
      obtain ⟨w, hw, rfl⟩ := gotoM_eq_some.mp hs
      exact .roomLobby (World.says_reply _ s _ w hw)
  | exitRoom roomId =>
      rw [next] at hs
      split at hs
      · cases hs
      · rename_i r hr
        obtain rfl := Option.some.inj hs
        exact .exitRoom (World.getRoom_eq_some.mp hr)
  | disconnectRoom =>
      rw [next] at hs
      split at hs
      · obtain rfl := Option.some.inj hs
        exact .noRoom
      · rename_i r hr
        obtain rfl := Option.some.inj hs
        exact .disconnectRoom (World.getRoom_eq_some.mp hr)
  | remove leaving r =>
      rw [next] at hs
      dsimp only at hs
      cases hc : c.world.closes r s with
      | true =>
          rw [World.removeLocked_closed hc] at hs
          obtain rfl := Option.some.inj hs
          exact .closes hc
      | false =>
          rw [World.removeLocked_stays hc] at hs
          obtain rfl := Option.some.inj hs
          exact .stays hc
  | lobbyPlayerInfo leaving playersInfo =>
      obtain ⟨w, hw, rfl⟩ := gotoM_eq_some.mp hs
      exact .lobbyPlayerInfo (World.says_lobbyPlayerInfo _ _ w hw)
  | notifyExit leaving r playersInfo =>
      cases playersInfo with
      | nil =>
          obtain rfl := Option.some.inj hs
          exact .notified
      | cons player playersInfo =>
          obtain rfl := Option.some.inj hs
          exact .notify
  | removeRoom leaving r =>
      obtain ⟨w, hw, rfl⟩ := gotoM_eq_some.mp hs
      exact .removeRoom hw (World.becomes_removeRoom (World.Becomes.refl _ r) w hw)
  | setRoomId leaving =>
      cases leaving with
      | exit =>
          obtain ⟨w, hw, rfl⟩ := gotoM_eq_some.mp hs
          exact .exited (World.says_reply _ s _ w hw)
      | disconnect =>
          obtain rfl := Option.some.inj hs
          exact .disconnected
  | forget =>
      obtain ⟨w, hw, rfl⟩ := gotoM_eq_some.mp hs
      exact .forget hw

end Concurrent

end StarCraftIocp
