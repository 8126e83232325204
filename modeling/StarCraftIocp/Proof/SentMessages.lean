import StarCraftIocp.Proof.RoomLeaving
import StarCraftIocp.Proof.RoomSpeech
import StarCraftIocp.Proof.ServerPackets
import StarCraftIocp.Proof.SocketServer

/-!
# Everything the server sends can be read

No client can make the server send something that another client cannot parse,
whatever bytes it sends: the strings that a room takes over have been checked when
they came in, and what is too long for a frame is not sent.
-/

namespace StarCraftIocp

open Outcome Protocol Wire

variable {F : Type} [Scalar F]

/-! ## Strings that come in -/

/-- The strings of a room are UTF-8. -/
def Room.validTexts : Room.Wish := fun gameName gamePassWord _ =>
  verifyUTF8 gameName = true ∧ verifyUTF8 gamePassWord = true

namespace PacketHandler

/-- Strings that are no UTF-8 do not get through the parser. -/
theorem parse_cRoomCreate {bs : List UInt8} {m : CRoomCreate} (h : parseFromArray CRoomCreate.fields {} bs = some m) :
    verifyUTF8 m.gameName = true ∧ verifyUTF8 m.gamePassWord = true := by
  have hempty : verifyUTF8 [] = true := verifyUTF8_utf8 ""
  refine parse_keeps (I := fun m : CRoomCreate => verifyUTF8 m.gameName = true ∧ verifyUTF8 m.gamePassWord = true)
    ?_ ⟨hempty, hempty⟩ h
  · intro tag field hfield
    unfold CRoomCreate.fields at hfield
    split at hfield
    · obtain rfl := Option.some.inj hfield
      exact FieldReader.keeps_ofReader _ fun _ _ hm => hm
    · obtain rfl := Option.some.inj hfield
      exact FieldReader.keeps_string fun _ _ hm hvalid => ⟨hvalid, hm.2⟩
    · obtain rfl := Option.some.inj hfield
      exact FieldReader.keeps_string fun _ _ hm hvalid => ⟨hm.1, hvalid⟩
    · obtain rfl := Option.some.inj hfield
      exact FieldReader.keeps_ofReader _ fun _ _ hm => hm
    · cases hfield

omit [Scalar F] in
theorem parse_wished {ofBits : UInt32 → F} {bs : List UInt8} {handler : PacketHandler} {pkt : ClientPacket F}
    (s : SessionRef) (h : handler.parse ofBits bs = some pkt) :
    Event.Wished Room.validTexts (.packet s pkt) := by
  cases handler with
  | invalid => cases h
  | cRoomCreate =>
      obtain ⟨m, hm, hpkt⟩ := Option.bind_eq_some_iff.mp h
      obtain rfl := Option.some.inj hpkt
      exact parse_cRoomCreate hm
  | _ =>
      obtain ⟨m, -, hpkt⟩ := Option.bind_eq_some_iff.mp h
      obtain rfl := Option.some.inj hpkt
      trivial

end PacketHandler

namespace SocketServer

/-- The packets that come in over the sockets make rooms with valid strings only. -/
theorem world_reachable {ofBits : UInt32 → F} {maps : List UInt8 → Option MapSectionData} {b : SocketServer F}
    (h : Reachable (Transition.ofFun (SocketServer.next ofBits)) (SocketServer.init maps) b) :
    Reachable ((Transition.ofFun World.next).guarded fun _ a => a.2.Wished Room.validTexts) (World.init maps)
      b.world := by
  have hact : ∀ {b b' : SocketServer F} {a}, b.act a = some b' → a.2.Wished Room.validTexts →
      Reachable ((Transition.ofFun World.next).guarded fun _ a => a.2.Wished Room.validTexts) (World.init maps)
        b.world →
      Reachable ((Transition.ofFun World.next).guarded fun _ a => a.2.Wished Room.validTexts) (World.init maps)
        b'.world := by
    intro b b' a hact hwish hb
    obtain ⟨world, hnext, hb'⟩ := Option.bind_eq_some_iff.mp hact
    obtain rfl := Option.some.inj hb'
    exact hb.tail ⟨hwish, hnext⟩
  refine h.invariant (I := fun b => Reachable ((Transition.ofFun World.next).guarded fun _ a =>
    a.2.Wished Room.validTexts) (World.init maps) b.world) .refl fun b1 a b2 hb hs => ?_
  obtain ⟨env, e⟩ := a
  cases e with
  | connect => exact hact hs trivial hb
  | arrive s chunk =>
      change b1.arrive s chunk = some b2 at hs
      unfold SocketServer.arrive at hs
      split at hs
      · obtain ⟨session, -, hb2⟩ := Option.bind_eq_some_iff.mp hs
        obtain rfl := Option.some.inj hb2
        exact hb
      · cases hs
  | handle s =>
      change b1.handle ofBits env s = some b2 at hs
      unfold SocketServer.handle at hs
      split at hs
      · cases hs
      · next packet rest _ =>
        obtain ⟨received, hreceive, hb2⟩ := Option.bind_eq_some_iff.mp hs
        cases received with
        | none =>
            obtain rfl := Option.some.inj hb2
            exact hb
        | some pkt =>
            unfold ClientPacketHandler.receive at hreceive
            obtain ⟨-, hparse⟩ := Option.ite_none_left_eq_some.mp hreceive
            obtain ⟨handler, -, hpkt⟩ := Option.map_eq_some_iff.mp hparse
            exact hact hb2 (PacketHandler.parse_wished s hpkt) hb
  | disconnect s => exact hact hs trivial hb
  | update => exact hact hs trivial hb

end SocketServer

/-! ## What a room sends -/

/-- The message fits in a frame, and its strings are strings. -/
structure Protocol.ServerMessage.Sendable (msg : ServerMessage F) : Prop where
  byteSizeLong_le : msg.byteSizeLong ≤ 5996
  readable : msg.Readable

theorem Protocol.ServerMessage.sendable_of_frame {msg packet : ServerMessage F} (h : msg.frame = .ok packet)
    (hreadable : msg.Readable) : packet.Sendable := by
  obtain rfl := ServerMessage.eq_of_frame h
  exact ⟨ServerMessage.byteSizeLong_le_of_frame h, hreadable⟩

omit [Scalar F] in
/-- A game sends no strings. -/
theorem Protocol.ServerMessage.InGame.readable {msg : ServerMessage F} (h : msg.InGame) : msg.Readable := by
  cases msg <;> first | exact trivial | cases h

namespace Room

/-- The strings of a room, and all it has sent so far. -/
structure Utters (room : Room F) : Prop where
  texts : validTexts room.gameName room.gamePassWord room.mapHash
  sent : ∀ p ∈ room.sent, p.2.Sendable

namespace Utters

variable {room room' : Room F}

theorem continues (h : room.Utters) (hc : Continues room room') : room'.Utters := by
  obtain ⟨more, hmore, hall⟩ := hc.sent
  refine ⟨?_, fun p hp => ?_⟩
  · have hname : room'.gameName = room.gameName := congrArg Card.gameName hc.card
    have hpassWord : room'.gamePassWord = room.gamePassWord := congrArg Card.gamePassWord hc.card
    unfold validTexts
    rw [hname, hpassWord]
    exact h.texts
  · rw [hmore] at hp
    rcases List.mem_append.mp hp with hp | hp
    · exact h.sent p hp
    · exact ⟨(hall p hp).2, (hall p hp).1.readable⟩

theorem undergoes {maps : List UInt8 → Option MapSectionData} (h : room.Utters) (hu : Undergoes maps room room') :
    room'.Utters := by
  cases hu with
  | add s playerName => exact h.continues (.of_eq rfl rfl)
  | removeGameSession s =>
      unfold removeGameSession
      split
      · dsimp only
        split
        · exact h.continues (.of_eq rfl rfl)
        · exact h.continues (.of_eq rfl rfl)
      · exact h
  | cleared => exact h.continues (.of_eq rfl rfl)
  | removeObjects hroom => exact h.continues (continues_removeObjects room room' hroom)
  | move target _ => exact h.continues (.of_eq rfl rfl)
  | attack objectType direction _ => exact h.continues (.of_eq rfl rfl)
  | lobbyPlayerInfo hpacket =>
      refine ⟨h.texts, fun p hp => ?_⟩
      rcases List.mem_append.mp hp with hp | hp
      · exact h.sent p hp
      · obtain ⟨s, -, rfl⟩ := List.mem_map.mp hp
        exact ServerMessage.sendable_of_frame hpacket trivial
  | startGame hroom =>
      have hmap : Continues room { room with mapSectionData := maps room.mapHash } := .of_eq rfl rfl
      exact h.continues (hmap.trans (continues_startGame _ _ room' hroom))
  | update hroom => exact h.continues (continues_update _ room room' hroom)

theorem origin {maps : List UInt8 → Option MapSectionData} (h : Origin validTexts maps room) : room.Utters := by
  induction h with
  | new roomId hostId htexts => exact ⟨htexts, by simp [Room.new]⟩
  | step _ hu ih => exact ih.undergoes hu

end Utters

end Room

/-! ## What sessions are answered -/

namespace World

/-- What sessions have been sent apart from the broadcasts of rooms. -/
def Answers (w : World F) : Prop := ∀ p ∈ w.sent, p.2.Sendable

variable {w w' : World F} {msg : ServerMessage F}

theorem Answers.append (h : w.Answers) {more : List (SessionRef × ServerMessage F)}
    (hsent : w'.sent = w.sent ++ more) (hmore : ∀ p ∈ more, p.2.Sendable) : w'.Answers := by
  intro p hp
  rw [hsent] at hp
  rcases List.mem_append.mp hp with hp | hp
  · exact h p hp
  · exact hmore p hp

theorem Answers.of_eq (h : w.Answers) (hsent : w'.sent = w.sent) : w'.Answers := by
  unfold Answers
  rw [hsent]
  exact h

theorem Answers.reply (h : w.Answers) (s : SessionRef) (hreadable : msg.Readable) :
    Ensures (w.reply s msg) Answers := by
  refine Ensures.bind_of_eq fun packet hpacket => .ok (h.append rfl ?_)
  intro p hp
  obtain rfl := List.mem_singleton.mp hp
  exact ServerMessage.sendable_of_frame hpacket hreadable

theorem Answers.roomRemove (h : w.Answers) (r : RoomRef) (s : SessionRef) : Ensures (w.roomRemove r s) Answers := by
  cases hc : w.closes r s with
  | false =>
      rw [roomRemove_stays hc]
      refine Ensures.bind_of_eq fun packet hpacket => .ok (h.append rfl ?_)
      intro p hp
      obtain ⟨player, -, rfl⟩ := List.mem_map.mp hp
      exact ServerMessage.sendable_of_frame hpacket trivial
  | true =>
      have hsent := (notified_foldl (.sRoomExit .adminExit) (w.without r s).sessions.toList
        (w.setRoom r (w.without r s).cleared)).1
      have hemptied : (w.emptied r s).Answers := by
        refine h.append hsent fun p hp => ?_
        obtain ⟨player, -, rfl⟩ := List.mem_map.mp hp
        have hexit : (ServerMessage.sRoomExit .adminExit : ServerMessage F).frame = .ok _ :=
          ServerMessage.Scalars.frame_ok trivial
        exact ServerMessage.sendable_of_frame hexit trivial
      rw [roomRemove_closed hc]
      exact Ensures.bind (P := fun _ => True) (fun _ _ => trivial) fun _ _ => .ok (hemptied.of_eq rfl)

theorem Answers.onDisconnected (h : w.Answers) (s : SessionRef) : Ensures (w.onDisconnected s) Answers := by
  have hleave : Ensures ((w.dropped s).leaveRoom s) Answers := by
    unfold leaveRoom
    refine Ensures.ite (fun _ => .ok h) fun _ => ?_
    split
    · exact .ok (h.of_eq rfl)
    · refine Ensures.bind (roomRemove ?_ _ s) fun _ h1 => .ok (h1.of_eq rfl)
      exact h.of_eq rfl
  refine Ensures.bind hleave fun w1 h1 => ?_
  unfold gSessionManagerRemove
  refine Ensures.ite (fun _ => .ok (h1.of_eq rfl)) fun _ => ?_
  split
  · exact .ok (h1.of_eq rfl)
  · refine roomRemove ?_ _ s
    exact h1.of_eq rfl

theorem Answers.handleCMove (h : w.Answers) (roomCode : Int32) (objectId : List UInt32) (position : Vector3 F) :
    Ensures (w.handleCMove roomCode objectId position) Answers := by
  refine Ensures.foldlM h fun w1 h1 id _ => ?_
  unfold moveObject
  split
  · exact .error _
  · dsimp only
    split
    · exact .error _
    · exact .ok (h1.of_eq rfl)

theorem Answers.handleCRoomData (h : w.Answers) (hrooms : ∀ r, (w.room r).Utters) (s : SessionRef) :
    Ensures (w.handleCRoomData s) Answers := by
  refine Ensures.bind (P := fun roomData : List RoomData => ∀ d ∈ roomData, verifyUTF8 d.roomName = true) ?_
    fun roomData hd => h.reply s hd
  refine Ensures.foldlM (by simp) fun roomData hd entry _ => ?_
  unfold addRoomData
  split
  · exact .error _
  · next r _ =>
    refine .ok fun d hmem => ?_
    rcases List.mem_append.mp hmem with hmem | hmem
    · exact hd d hmem
    · obtain rfl := List.mem_singleton.mp hmem
      exact (hrooms r).texts.1

theorem Answers.handleCRoomRequest (h : w.Answers) (hrooms : ∀ r, (w.room r).Utters) (s : SessionRef)
    (roomCode : Int32) (passWord : List UInt8) : Ensures (w.handleCRoomRequest s roomCode passWord) Answers := by
  unfold World.handleCRoomRequest
  dsimp only
  split
  · exact .error _
  · next r _ =>
    refine Ensures.ite (fun _ => reply ?_ s ?_) fun _ => reply ?_ s trivial
    · exact h.of_eq rfl
    · rw [room_roomAdd, if_pos rfl]
      exact (hrooms r).texts
    · exact h.of_eq rfl

theorem Answers.handle (h : w.Answers) (hrooms : ∀ r, (w.room r).Utters) (env : Env F) (s : SessionRef)
    (pkt : ClientPacket F) (hwish : Event.Wished Room.validTexts (.packet s pkt)) :
    Ensures (w.handle env s pkt) Answers := by
  cases pkt with
  | cLogin loginCode =>
      refine Ensures.ite (fun _ => h.reply s trivial) fun _ => reply ?_ s trivial
      exact h.of_eq rfl
  | cMove roomCode objectId position => exact h.handleCMove roomCode objectId position
  | cRoomCreate gameId gameName gamePassWord mapHash =>
      have hcreated : (w.created s gameId gameName gamePassWord mapHash).Answers := h.of_eq rfl
      refine hcreated.reply s ?_
      change Room.validTexts ((w.created s gameId gameName gamePassWord mapHash).room w.nextRoom).gameName
        ((w.created s gameId gameName gamePassWord mapHash).room w.nextRoom).gamePassWord []
      rw [room_created, if_pos rfl]
      exact hwish
  | cRoomData => exact h.handleCRoomData hrooms s
  | cRoomRequest roomCode gamePassWord => exact h.handleCRoomRequest hrooms s roomCode gamePassWord
  | cRoomPlayerListRequest roomCode =>
      change Ensures (w.handleCRoomPlayerListRequest roomCode) _
      unfold handleCRoomPlayerListRequest
      split
      · exact .error _
      · exact Ensures.bind (P := fun _ => True) (fun _ _ => trivial) fun _ _ => .ok (h.of_eq rfl)
  | cStartGame roomCode =>
      change Ensures (w.handleCStartGame env roomCode) _
      unfold handleCStartGame
      split
      · exact .error _
      · exact Ensures.bind (P := fun _ => True) (fun _ _ => trivial) fun _ _ => .ok (h.of_eq rfl)
  | cExitGame =>
      change Ensures (w.handleCExitGame s) _
      unfold handleCExitGame
      refine Ensures.ite (fun _ => .ok h) fun _ => ?_
      split
      · exact .error _
      · refine Ensures.bind (h.roomRemove _ s) fun w1 h1 => reply ?_ s trivial
        exact h1.of_eq rfl
  | cAttack roomCode objectId objectType direction =>
      change Ensures (w.handleCAttack roomCode objectId objectType direction) _
      unfold handleCAttack
      split
      · exact .error _
      · dsimp only
        split
        · exact .error _
        · exact .ok (h.of_eq rfl)
  | cRttPing clientTime => exact h.reply s trivial

theorem Answers.next (h : w.Answers) (hrooms : ∀ r, (w.room r).Utters) {a : Env F × Event F}
    (hwish : a.2.Wished Room.validTexts) (hs : w.next a = some w') : w'.Answers := by
  have hok := exec_of_next hs
  obtain ⟨env, e⟩ := a
  cases e with
  | connect =>
      obtain rfl := Except.ok.inj hok
      exact h.of_eq rfl
  | packet s pkt => exact h.handle hrooms env s pkt hwish w' hok
  | disconnect s => exact h.onDisconnected s w' hok
  | update =>
      refine Ensures.foldlM h (fun w1 h1 entry _ => ?_) w' hok
      unfold updateRoom
      split
      · exact .error _
      · exact Ensures.bind (P := fun _ => True) (fun _ _ => trivial) fun _ _ => .ok (h1.of_eq rfl)

/-- All that the server has sent to this session, by itself or for a room. -/
def Sent (w : World F) (s : SessionRef) (msg : ServerMessage F) : Prop :=
  (s, msg) ∈ w.sent ∨ ∃ r, (s, msg) ∈ (w.room r).sent

theorem sendable_of_sent {maps : List UInt8 → Option MapSectionData}
    (h : Reachable ((Transition.ofFun World.next).guarded fun _ a => a.2.Wished Room.validTexts) (World.init maps) w)
    {s : SessionRef} (hsent : w.Sent s msg) : msg.Sendable := by
  have hempty : verifyUTF8 [] = true := verifyUTF8_utf8 ""
  have hinv : w.Rooms maps (Room.Origin Room.validTexts maps) ∧ w.Answers := by
    refine h.invariant (I := fun w => w.Rooms maps (Room.Origin Room.validTexts maps) ∧ w.Answers)
      ⟨⟨rfl, fun _ => .new 0 0 ⟨hempty, hempty⟩⟩, by simp [Answers, World.init]⟩ fun w1 a w2 h1 hs => ?_
    obtain ⟨hwish, hs⟩ := hs
    exact ⟨next_origin h1.1 hwish hs, h1.2.next (fun r => .origin (h1.1.room r)) hwish hs⟩
  rcases hsent with hsent | ⟨r, hsent⟩
  · exact hinv.2 _ hsent
  · exact (Room.Utters.origin (hinv.1.room r)).sent _ hsent

end World

end StarCraftIocp
