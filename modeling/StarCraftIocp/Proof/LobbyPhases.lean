import StarCraftIocp.Client.LobbyClient
import StarCraftIocp.Lib.Mailbox
import StarCraftIocp.Proof.ClientPackets
import StarCraftIocp.Proof.LobbySteps
import StarCraftIocp.Proof.ServerPackets

/-!
# The server and its clients in the lobby

The server with the clients as they are, and messages under way in both
directions, in order. Where a session stands is followed through what is under way
to it: it is let into a room and out of it by turns, and asks for a room only from
outside.
-/

namespace StarCraftIocp

open CInt Protocol

variable {F : Type} [Scalar F]

/-- The server and the clients, of which each knows some maps. -/
def lobbyParties (knows : SessionRef → List UInt8 → Bool) (ofBits : UInt32 → F) :
    Parties SessionRef (World F) LobbyClient PacketWriter.Message PacketReader.Message (Env F) (Env F × Event F)
      UserAction where
  live w s := decide (s < w.nextSession) && (w.session s).connected
  handle w env s m := w.next (env, .packet s (m.packet ofBits))
  internal w a :=
    match a.2 with
    | .packet .. => none
    | .connect | .disconnect _ | .update => w.next a
  news w w' s := (w.news w' s).map ServerMessage.received
  process s c m := c.process (knows s) m
  act s c a := c.act (knows s) a

abbrev Lobby (F : Type) : Type := Mailbox SessionRef (World F) LobbyClient PacketWriter.Message PacketReader.Message

abbrev LobbyEvent (F : Type) : Type := MailboxEvent SessionRef (Env F) (Env F × Event F) UserAction

def Lobby.init (maps : List UInt8 → Option MapSectionData) : Lobby F where
  server := World.init maps
  client := fun _ => LobbyClient.init
  up := fun _ => []
  down := fun _ => []

/-! ## Phases -/

/-- The message asks for a room. -/
def PacketWriter.Message.Asks : PacketWriter.Message → Prop
  | .cRoomCreate .. | .cRoomRequest .. => True
  | _ => False

instance : (m : PacketWriter.Message) → Decidable m.Asks
  | .cRoomCreate .. | .cRoomRequest .. => inferInstanceAs (Decidable True)
  | .cLogin .. | .cMove .. | .cRoomData _ | .cRoomPlayerListRequest _ | .cStartGame _ | .cExitGame _ | .cAttack ..
  | .cRttPing _ => inferInstanceAs (Decidable False)

/-- The message lets a client into a room. -/
def PacketReader.Message.Admits : PacketReader.Message → Prop
  | .sRoomLobby _ => True
  | _ => False

instance : (m : PacketReader.Message) → Decidable m.Admits
  | .sRoomLobby _ => inferInstanceAs (Decidable True)
  | .sRttPong _ | .sLogin _ | .sLobbyPlayerInfo _ | .sGameStart _ | .sRoomExit _ | .sRoomData _ | .sRoomResponse _
  | .sMove _ | .sObjectSpawn _ | .sObjectDead _ | .sObjectDamage _ | .sTest _ => inferInstanceAs (Decidable False)

/-- The user asks for a room. -/
def UserAction.Asks : UserAction → Prop
  | .createRoom .. | .accept .. => True
  | _ => False

instance : (a : UserAction) → Decidable a.Asks
  | .createRoom .. | .accept .. => inferInstanceAs (Decidable True)
  | .tryLogin _ | .takeRoomData | .openRoomMaking | .clickStart | .clickExit | .play _ =>
      inferInstanceAs (Decidable False)

namespace Lobby

/-- In a room or not: what the messages from the server make of it, in the order in which they can come. -/
def seatStep (inside : Bool) : PacketReader.Message → Option Bool
  | .sRoomLobby _ => if inside then none else some true
  | .sRoomExit _ => if inside then some false else none
  | .sLogin m => if m.loginAccept && inside then none else some inside
  | _ => some inside

/-- In a room, or asking for one: nobody who is asks again, or logs in. -/
def askStep (asked : Bool) : PacketWriter.Message → Option Bool
  | .cRoomCreate .. | .cRoomRequest .. => if asked then none else some true
  | .cLogin .. => if asked then none else some false
  | _ => some asked

/-- The server has the session in a room. -/
def inRoom (w : World F) (s : SessionRef) : Bool := decide ((w.session s).currentRoom ≠ intMax)

/-- The scene of a client that is in a room, or is not: a game can start for one that has left. -/
def Placed (c : LobbyClient) (inside : Bool) : Prop :=
  (inside = true → c.scene = .matchMaking ∨ c.scene = .battle) ∧ (inside = false → c.scene ≠ .matchMaking)

/-- Sends that are neither. -/
def Neutral (m : PacketWriter.Message) : Prop := ∀ asked, askStep asked m = some asked

theorem Neutral.not_asks {m : PacketWriter.Message} (h : Neutral m) : ¬ m.Asks := by
  cases m with
  | cRoomCreate => have := h false; cases this
  | cRoomRequest => have := h false; cases this
  | _ => exact id

/-- Whoever has not asked may go on as one who has. -/
theorem leads_weaken {q : List PacketWriter.Message} {x : Bool} (h : Leads askStep true q x) :
    Leads askStep false q false := by
  -- from `true` only neutral messages go on, and they stay there
  have hkeeps : ∀ m y, askStep true m = some y → y = true ∧ askStep false m = some false := by
    intro m y hy
    cases m with
    | cRoomCreate => cases hy
    | cRoomRequest => cases hy
    | cLogin => cases hy
    | _ => exact ⟨(Option.some.inj hy).symm, rfl⟩
  induction q with
  | nil => rfl
  | cons m q ih =>
      obtain ⟨y, hy, h'⟩ := h.pop
      obtain ⟨rfl, hfalse⟩ := hkeeps m y hy
      exact Option.bind_eq_some_iff.mpr ⟨false, hfalse, ih h'⟩

theorem leads_false {q : List PacketWriter.Message} {p x : Bool} (h : Leads askStep p q x) :
    ∃ x', Leads askStep false q x' := by
  cases p with
  | false => exact ⟨x, h⟩
  | true => exact ⟨false, leads_weaken h⟩

/-- From outside, and without a question, nobody comes in. -/
theorem leads_none {q : List PacketWriter.Message} {x : Bool} (h : Leads askStep false q x)
    (hq : ∀ m ∈ q, ¬ m.Asks) : x = false := by
  refine h.keeps (I := fun y => y = false) rfl fun m hm y z hz hy => ?_
  subst hy
  have hnot := hq m hm
  cases m with
  | cRoomCreate => exact absurd trivial hnot
  | cRoomRequest => exact absurd trivial hnot
  | cLogin => exact (Option.some.inj hz).symm
  | _ => exact (Option.some.inj hz).symm

theorem seat_none {q : List PacketReader.Message} {x : Bool} (h : Leads seatStep false q x)
    (hq : ∀ m ∈ q, ¬ m.Admits) : x = false := by
  refine h.keeps (I := fun y => y = false) rfl fun m hm y z hz hy => ?_
  subst hy
  have hnot := hq m hm
  cases m with
  | sRoomLobby => exact absurd trivial hnot
  | sRoomExit => cases hz
  | sLogin m =>
      simp only [seatStep, Bool.and_false, Bool.false_eq_true, if_false] at hz
      exact (Option.some.inj hz).symm
  | _ => exact (Option.some.inj hz).symm

/-! ## What a client does -/

section

variable {knows : List UInt8 → Bool} {c : LobbyClient} {inside inside' : Bool}

theorem scene_callback (c : LobbyClient) : (c.callback knows).scene = c.scene := by
  unfold LobbyClient.callback
  split <;> rfl

theorem rooms_callback (c : LobbyClient) : (c.callback knows).rooms = c.rooms := by
  unfold LobbyClient.callback
  split <;> rfl

/-- What a client answers by itself. -/
theorem neutral_process (m : PacketReader.Message) : ∀ u ∈ (c.process knows m).2, Neutral u := by
  have hload : ∀ c' : LobbyClient, ∀ u ∈ c'.loadMatching.2, Neutral u := by
    intro c' u hu
    obtain rfl := List.mem_singleton.mp hu
    exact fun _ => rfl
  intro u hu
  cases m with
  | sLogin m =>
      unfold LobbyClient.process at hu
      dsimp only at hu
      split at hu
      · exact hload _ u hu
      · cases hu
  | sRoomLobby m =>
      change u ∈ if knows (c.saveLobbyData m).currentRoom.mapHash then _ else _ at hu
      split at hu
      · obtain rfl := List.mem_singleton.mp hu
        exact fun _ => rfl
      · cases hu
  | sRoomExit m => exact hload _ u hu
  | _ => cases hu

theorem placed_process {m : PacketReader.Message} (hc : Placed c inside) (hm : seatStep inside m = some inside') :
    Placed (c.process knows m).1 inside' := by
  have hout : ∀ c' : LobbyClient, Placed c'.loadMatching.1 false := fun _ => ⟨nofun, fun _ => nofun⟩
  cases m with
  | sLogin m =>
      unfold seatStep at hm
      unfold LobbyClient.process
      dsimp only at hm ⊢
      split at hm
      · cases hm
      · next hin =>
        obtain rfl := Option.some.inj hm
        split
        · next haccept =>
          rw [haccept, Bool.true_and, Bool.not_eq_true] at hin
          subst hin
          exact hout _
        · exact hc
  | sRoomLobby m =>
      obtain ⟨-, hm⟩ := Option.ite_none_left_eq_some.mp hm
      obtain rfl := Option.some.inj hm
      exact ⟨fun _ => .inl rfl, nofun⟩
  | sRoomExit m =>
      obtain ⟨-, hm⟩ := Option.ite_none_right_eq_some.mp hm
      obtain rfl := Option.some.inj hm
      exact hout _
  | sGameStart m =>
      obtain rfl := Option.some.inj hm
      exact ⟨fun _ => .inr rfl, fun _ => nofun⟩
  | sRoomData m =>
      obtain rfl := Option.some.inj hm
      have hscene : (c.process knows (.sRoomData m)).1.scene = c.scene := by
        unfold LobbyClient.process
        dsimp only
        split <;> rfl
      unfold Placed
      rw [hscene]
      exact hc
  | sLobbyPlayerInfo | sRoomResponse =>
      obtain rfl := Option.some.inj hm
      unfold Placed
      dsimp only [LobbyClient.process]
      rw [scene_callback]
      exact hc
  | _ =>
      obtain rfl := Option.some.inj hm
      exact hc

/-- The messages by which a client leaves the scene it starts in. -/
theorem process_login {m : PacketReader.Message} (h : (c.process knows m).1.scene = .login) :
    c.scene = .login ∧ (c.process knows m).2 = [] := by
  cases m with
  | sLogin m =>
      unfold LobbyClient.process at h ⊢
      dsimp only at h ⊢
      split at h
      · cases h
      · next hnot =>
        rw [if_neg hnot]
        exact ⟨h, rfl⟩
  | sRoomData m =>
      unfold LobbyClient.process at h
      dsimp only at h
      split at h
      · exact ⟨h, rfl⟩
      · exact ⟨h, rfl⟩
  | sRoomLobby | sRoomExit | sGameStart => cases h
  | sLobbyPlayerInfo | sRoomResponse =>
      dsimp only [LobbyClient.process] at h
      rw [scene_callback] at h
      exact ⟨h, rfl⟩
  | _ => exact ⟨h, rfl⟩

theorem rooms_process {m : PacketReader.Message} {d : PacketReader.RoomData} (hd : d ∈ (c.process knows m).1.rooms) :
    d ∈ c.rooms ∨ ∃ listed, m = .sRoomData listed ∧ d ∈ listed.roomData := by
  cases m with
  | sLogin m =>
      unfold LobbyClient.process at hd
      dsimp only at hd
      split at hd
      · cases hd
      · exact .inl hd
  | sRoomData m =>
      unfold LobbyClient.process at hd
      dsimp only at hd
      split at hd
      · rcases List.mem_append.mp hd with hd | hd
        · exact .inl hd
        · exact .inr ⟨m, rfl, hd⟩
      · exact .inl hd
  | sRoomExit => cases hd
  | sLobbyPlayerInfo | sRoomResponse =>
      dsimp only [LobbyClient.process] at hd
      rw [rooms_callback] at hd
      exact .inl hd
  | _ => exact .inl hd

/-- What a user does: it logs in, asks for a room, or neither. -/
inductive Acts (knows : List UInt8 → Bool) (c : LobbyClient) :
    UserAction → LobbyClient × List PacketWriter.Message → Prop
  | login {value : UInt64} (hscene : c.scene = .login) : Acts knows c (.tryLogin value) (c, [.cLogin value "test"])
  | creates {gameName passWord : String} {mapHash : List UInt8} (gameId : UInt64) (hscene : c.scene = .roomMaking)
      (hknown : knows mapHash = true) :
      Acts knows c (.createRoom gameName passWord mapHash) (c, [.cRoomCreate gameId gameName passWord mapHash])
  | requests {entry : PacketReader.RoomData} {passWord : String} (hscene : c.scene = .matching)
      (hentry : entry ∈ c.rooms) (hknown : knows entry.mapHash = true) :
      Acts knows c (.accept entry passWord) (c, [.cRoomRequest entry.roomCode passWord])
  | other {a : UserAction} {r : LobbyClient × List PacketWriter.Message} (hsends : ∀ u ∈ r.2, Neutral u)
      (hscene : r.1.scene = c.scene ∨ c.scene = .matching ∧ r.1.scene = .roomMaking)
      (hrooms : ∀ d ∈ r.1.rooms, d ∈ c.rooms) : Acts knows c a r

theorem acts_of_act {a : UserAction} {r : LobbyClient × List PacketWriter.Message} (h : c.act knows a = some r) :
    Acts knows c a r := by
  have hsingle : ∀ m : PacketWriter.Message, (∀ asked, askStep asked m = some asked) → ∀ u ∈ [m], Neutral u := by
    intro m hm u hu
    obtain rfl := List.mem_singleton.mp hu
    exact hm
  cases a with
  | tryLogin value =>
      obtain ⟨hscene, h⟩ := Option.ite_none_right_eq_some.mp h
      obtain rfl := Option.some.inj h
      exact .login hscene
  | takeRoomData =>
      obtain ⟨hscene, h⟩ := Option.ite_none_right_eq_some.mp h
      obtain rfl := Option.some.inj h
      exact .other (hsingle _ fun _ => rfl) (.inl rfl) nofun
  | openRoomMaking =>
      obtain ⟨hscene, h⟩ := Option.ite_none_right_eq_some.mp h
      obtain rfl := Option.some.inj h
      exact .other nofun (.inr ⟨hscene, rfl⟩) fun _ => id
  | createRoom gameName passWord mapHash =>
      obtain ⟨⟨hscene, hknown⟩, h⟩ := Option.ite_none_right_eq_some.mp h
      obtain ⟨gameId, -, rfl⟩ := Option.map_eq_some_iff.mp h
      exact .creates gameId hscene hknown
  | accept entry passWord =>
      obtain ⟨⟨hscene, hentry, hknown⟩, h⟩ := Option.ite_none_right_eq_some.mp h
      obtain rfl := Option.some.inj h
      exact .requests hscene hentry hknown
  | clickStart | clickExit =>
      obtain ⟨-, h⟩ := Option.ite_none_right_eq_some.mp h
      obtain rfl := Option.some.inj h
      exact .other (hsingle _ fun _ => rfl) (.inl rfl) fun _ => id
  | play m =>
      obtain ⟨hplays, h⟩ := Option.ite_none_right_eq_some.mp h
      obtain rfl := Option.some.inj h
      refine .other (hsingle _ fun asked => ?_) (.inl rfl) fun _ => id
      cases m with
      | cMove | cAttack | cRttPing => rfl
      | _ => cases hplays

end

end Lobby

end StarCraftIocp
