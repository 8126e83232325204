import StarCraftIocp.Proof.BackPointers
import StarCraftIocp.Proof.RoomLeaving
import StarCraftIocp.Proof.RoomSpeech

/-!
# What a session hears in a step of the server

A step tells a session one of few things: that it is in a room now, that it is out
of it, who else is in it, which rooms there are, or nothing about rooms at all.
What it says about the session's own room is true after the step.
-/

namespace StarCraftIocp

open Outcome CInt Protocol

variable {F : Type} [Scalar F]

/-! ## Messages for one session -/

section

omit [Scalar F]

/-- The messages for a session. -/
def heardBy (t : SessionRef) (sent : List (SessionRef × ServerMessage F)) : List (ServerMessage F) :=
  sent.filterMap fun p => if p.1 = t then some p.2 else none

theorem heardBy_append (t : SessionRef) (l l' : List (SessionRef × ServerMessage F)) :
    heardBy t (l ++ l') = heardBy t l ++ heardBy t l' := List.filterMap_append

theorem mem_heardBy {t : SessionRef} {l : List (SessionRef × ServerMessage F)} {msg : ServerMessage F} :
    msg ∈ heardBy t l ↔ (t, msg) ∈ l := by
  unfold heardBy
  rw [List.mem_filterMap]
  refine ⟨fun ⟨p, hp, hmsg⟩ => ?_, fun h => ⟨_, h, if_pos rfl⟩⟩
  obtain ⟨rfl, hsome⟩ := Option.ite_none_right_eq_some.mp hmsg
  obtain rfl := Option.some.inj hsome
  exact hp

theorem heardBy_single (t s : SessionRef) (msg : ServerMessage F) :
    heardBy t [(s, msg)] = if s = t then [msg] else [] := by
  unfold heardBy
  by_cases hst : s = t
  · simp [hst]
  · simp [hst]

/-- One message to some sessions, each of which is there once. -/
theorem heardBy_map {players : List SessionRef} (hnodup : players.Nodup) (t : SessionRef) (msg : ServerMessage F) :
    heardBy t (players.map fun player => (player, msg)) = if t ∈ players then [msg] else [] := by
  induction players with
  | nil => rfl
  | cons player players ih =>
      obtain ⟨hnot, hnodup⟩ := List.nodup_cons.mp hnodup
      rw [List.map_cons, ← List.singleton_append, heardBy_append, heardBy_single, ih hnodup]
      rcases eq_or_ne player t with rfl | hne
      · rw [if_pos rfl, if_neg hnot, if_pos List.mem_cons_self]
        rfl
      · rw [if_neg hne, List.nil_append]
        have hiff : t ∈ player :: players ↔ t ∈ players := by simp [hne.symm]
        simp only [hiff]

theorem flatMap_range_single {α : Type} {n r : Nat} (hr : r < n) {f : Nat → List α} (h : ∀ q, q ≠ r → f q = []) :
    (List.range n).flatMap f = f r := by
  induction n with
  | zero => cases hr
  | succ n ih =>
      rw [List.range_succ, List.flatMap_append]
      rcases eq_or_ne r n with rfl | hne
      · have hfirst : (List.range r).flatMap f = [] :=
          List.flatMap_eq_nil_iff.mpr fun q hq => h q (Nat.ne_of_lt (List.mem_range.mp hq))
        simp [hfirst]
      · rw [ih (by omega)]
        simp [h n hne.symm]

end

namespace Protocol.ServerMessage

/-- Nothing that a session's place in the lobby depends on. -/
def Plain : ServerMessage F → Prop
  | .sRoomLobby .. | .sLobbyPlayerInfo .. | .sRoomExit .. | .sRoomData .. | .sLogin _ true => False
  | _ => True

omit [Scalar F] in
theorem InGame.plain {msg : ServerMessage F} (h : msg.InGame) : msg.Plain := by
  cases msg <;> first | exact trivial | cases h

end Protocol.ServerMessage

namespace World

/-- What goes out to a session on the way from `w` to `w'`. -/
def news (w w' : World F) (t : SessionRef) : List (ServerMessage F) :=
  heardBy t (w'.sent.drop w.sent.length) ++
    (List.range w'.nextRoom).flatMap fun r => heardBy t ((w'.room r).sent.drop (w.room r).sent.length)

/-- `w'` is `w` with these messages sent, by no room, and no change to what rooms are made with and to names. -/
structure Writes (w w' : World F) (own : List (SessionRef × ServerMessage F)) : Prop where
  sent : w'.sent = w.sent ++ own
  room : ∀ r, (w'.room r).sent = (w.room r).sent
  card : ∀ r, (w'.room r).card = (w.room r).card
  playerName : ∀ t, (w'.session t).playerName = (w.session t).playerName

/-- Games go on, and that is all. -/
structure Plays (w w' : World F) : Prop where
  sent : w'.sent = w.sent
  room : ∀ r, Room.Continues (w.room r) (w'.room r)
  session : w'.session = w.session

variable {w w' w'' : World F} {own more : List (SessionRef × ServerMessage F)}

omit [Scalar F] in
theorem news_of_sent (hsent : w'.sent = w.sent ++ own)
    (hroom : ∀ r, (w'.room r).sent.drop (w.room r).sent.length = []) (t : SessionRef) :
    w.news w' t = heardBy t own := by
  unfold news
  have hrooms : ((List.range w'.nextRoom).flatMap fun r =>
      heardBy t ((w'.room r).sent.drop (w.room r).sent.length)) = [] := by
    refine List.flatMap_eq_nil_iff.mpr fun r _ => ?_
    rw [hroom r]
    rfl
  rw [hrooms, List.append_nil, hsent, List.drop_left]

omit [Scalar F] in
theorem Writes.news (h : Writes w w' own) (t : SessionRef) : w.news w' t = heardBy t own :=
  news_of_sent h.sent (fun r => by rw [h.room, List.drop_length]) t

omit [Scalar F] in
theorem Writes.of_eq (hsent : w'.sent = w.sent) (hroom : w'.room = w.room)
    (hname : ∀ t, (w'.session t).playerName = (w.session t).playerName) : Writes w w' [] :=
  ⟨by rw [hsent, List.append_nil], fun _ => by rw [hroom], fun _ => by rw [hroom], hname⟩

omit [Scalar F] in
theorem Writes.trans (h : Writes w w' own) (h' : Writes w' w'' more) : Writes w w'' (own ++ more) where
  sent := by rw [h'.sent, h.sent, List.append_assoc]
  room r := (h'.room r).trans (h.room r)
  card r := (h'.card r).trans (h.card r)
  playerName t := (h'.playerName t).trans (h.playerName t)

theorem Plays.refl (w : World F) : Plays w w := ⟨rfl, fun _ => .refl _, rfl⟩

theorem Plays.trans (h : Plays w w') (h' : Plays w' w'') : Plays w w'' where
  sent := h'.sent.trans h.sent
  room r := (h.room r).trans (h'.room r)
  session := h'.session.trans h.session

theorem Plays.setRoom (w : World F) {r : RoomRef} {room : Room F} (h : Room.Continues (w.room r) room) :
    Plays w (w.setRoom r room) := by
  refine ⟨rfl, fun q => ?_, rfl⟩
  rw [room_setRoom]
  rcases eq_or_ne q r with rfl | hq
  · rw [if_pos rfl]
    exact h
  · rw [if_neg hq]
    exact .refl _

theorem Plays.plain (h : Plays w w') {t : SessionRef} : ∀ msg ∈ w.news w' t, msg.Plain := by
  intro msg hmsg
  unfold World.news at hmsg
  rw [h.sent, List.drop_length, List.mem_append, List.mem_flatMap] at hmsg
  rcases hmsg with hmsg | ⟨r, -, hmsg⟩
  · cases hmsg
  · obtain ⟨more, hmore, hall⟩ := (h.room r).sent
    rw [hmore, List.drop_left, mem_heardBy] at hmsg
    exact (hall _ hmsg).1.plain

/-! ## The handlers -/

theorem writes_reply (w : World F) (s : SessionRef) (msg : ServerMessage F) :
    Ensures (w.reply s msg) fun w' => Writes w w' [(s, msg)] := by
  refine Ensures.bind_of_eq fun packet hpacket => .ok ?_
  obtain rfl := ServerMessage.eq_of_frame hpacket
  exact ⟨rfl, fun _ => rfl, fun _ => rfl, fun _ => rfl⟩

theorem plays_handleCMove (w : World F) (roomCode : Int32) (objectId : List UInt32) (position : Vector3 F) :
    Ensures (w.handleCMove roomCode objectId position) (Plays w) := by
  refine Ensures.foldlM (Plays.refl w) fun w1 h1 id _ => ?_
  refine Ensures.mono (P := Plays w1) ?_ fun _ h => h1.trans h
  unfold moveObject
  split
  · exact .error _
  · next r =>
    dsimp only
    split
    · exact .error _
    · exact .ok (.setRoom w1 ((Room.Continues.indexObject _ _).trans (.of_eq rfl rfl)))

theorem plays_handleCAttack (w : World F) (roomCode : Int32) (objectId : UInt32) (objectType : Int32)
    (direction : Vector3 F) : Ensures (w.handleCAttack roomCode objectId objectType direction) (Plays w) := by
  unfold handleCAttack
  split
  · exact .error _
  · dsimp only
    split
    · exact .error _
    · exact .ok (.setRoom w ((Room.Continues.indexObject _ _).trans (.of_eq rfl rfl)))

theorem plays_handleCStartGame (env : Env F) (w : World F) (roomCode : Int32) :
    Ensures (w.handleCStartGame env roomCode) (Plays w) := by
  unfold handleCStartGame
  split
  · exact .error _
  · next r _ =>
    have hmap : (w.room r).Continues { w.room r with mapSectionData := w.hashToMap (w.room r).mapHash } :=
      .of_eq rfl rfl
    exact Ensures.bind (Room.continues_startGame env _) fun room hroom => .ok (.setRoom w (hmap.trans hroom))

theorem plays_update (env : Env F) (w : World F) : Ensures (w.update env) (Plays w) := by
  refine Ensures.foldlM (Plays.refl w) fun w1 h1 entry _ => ?_
  refine Ensures.mono (P := Plays w1) ?_ fun _ h => h1.trans h
  unfold updateRoom
  split
  · exact .error _
  · exact Ensures.bind (Room.continues_update env _) fun room hroom => .ok (.setRoom w1 hroom)

/-- What the others are sent when `s` leaves. -/
def farewell (w : World F) (r : RoomRef) (s : SessionRef) : ServerMessage F :=
  if w.closes r s then .sRoomExit .adminExit else w.playersLeft r s

omit [Scalar F] in
theorem card_without (w : World F) (r : RoomRef) (s : SessionRef) :
    (w.without r s).card = (w.room r).card ∧ (w.without r s).sent = (w.room r).sent := by
  unfold without Room.removeGameSession
  split
  · dsimp only
    split <;> exact ⟨rfl, rfl⟩
  · exact ⟨rfl, rfl⟩

omit [Scalar F] in
/-- A room is exchanged for one that has said no more. -/
theorem Writes.setRoom (w : World F) {r : RoomRef} {room : Room F} (hcard : room.card = (w.room r).card)
    (hsent : room.sent = (w.room r).sent) : Writes w (w.setRoom r room) [] := by
  refine ⟨(List.append_nil _).symm, fun q => ?_, fun q => ?_, fun _ => rfl⟩
  · rw [room_setRoom]
    split
    · next hq => rw [hq, hsent]
    · rfl
  · rw [room_setRoom]
    split
    · next hq => rw [hq, hcard]
    · rfl

omit [Scalar F] in
theorem writes_emptied (w : World F) (r : RoomRef) (s : SessionRef) : Writes w (w.emptied r s)
    ((w.without r s).sessions.toList.map fun player => (player, .sRoomExit .adminExit)) := by
  obtain ⟨hsent, hsession⟩ := notified_foldl (.sRoomExit .adminExit) (w.without r s).sessions.toList
    (w.setRoom r (w.without r s).cleared)
  obtain ⟨hcard, htalk⟩ := card_without w r s
  have hroom : ∀ q, (w.emptied r s).room q = if q = r then (w.without r s).cleared else w.room q :=
    fun q => room_emptied w r q s
  refine ⟨hsent, fun q => ?_, fun q => ?_, fun t => ?_⟩
  · rw [hroom]
    split
    · next hq => rw [hq, ← htalk]; rfl
    · rfl
  · rw [hroom]
    split
    · next hq => rw [hq, ← hcard]; rfl
    · rfl
  · unfold emptied
    rw [hsession t]
    split <;> rfl

theorem writes_roomRemove (w : World F) (r : RoomRef) (s : SessionRef) : Ensures (w.roomRemove r s) fun w' =>
    Writes w w' ((w.without r s).sessions.toList.map fun player => (player, w.farewell r s)) := by
  unfold farewell
  cases hc : w.closes r s with
  | false =>
      rw [roomRemove_stays hc]
      obtain ⟨hcard, htalk⟩ := card_without w r s
      refine Ensures.bind_of_eq fun packet hpacket => .ok ?_
      obtain rfl := ServerMessage.eq_of_frame hpacket
      have hset := Writes.setRoom w hcard htalk
      exact ⟨rfl, hset.room, hset.card, hset.playerName⟩
  | true =>
      rw [roomRemove_closed hc]
      have hemptied := writes_emptied w r s
      unfold removeRoom
      refine Ensures.bind_of_eq fun room hroom => .ok ?_
      have hset := Writes.setRoom (w.emptied r s) (Room.continues_removeObjects _ room hroom).card
        (sent_removeObjects _ room hroom)
      have hall := hemptied.trans hset
      rw [List.append_nil] at hall
      exact ⟨hall.sent, hall.room, hall.card, hall.playerName⟩

/-! ## What a step can say -/

/-- The rooms on the list are there, with their maps. -/
def Lists (w : World F) (roomData : List RoomData) : Prop :=
  ∀ d ∈ roomData, ∃ r, w.Registered d.roomCode r ∧ d.mapHash = (w.room r).mapHash

/-- What a step of the server says, and what it does to rooms and sessions. -/
inductive Tells (w w' : World F) : Event F → Prop
  | game {s : SessionRef} {pkt : ClientPacket F} (hpkt : ∀ roomCode, pkt ≠ .cRoomPlayerListRequest roomCode)
      (hq : Quiet w w') (h : Plays w w') : Tells w w' (.packet s pkt)
  | tick (hq : Quiet w w') (h : Plays w w') : Tells w w' .update
  | answer {s : SessionRef} {pkt : ClientPacket F} {msg : ServerMessage F}
      (hpkt : ∀ roomCode, pkt ≠ .cRoomPlayerListRequest roomCode) (hq : Quiet w w')
      (h : Writes w w' [(s, msg)])
      (hmsg : msg.Plain ∨ ∃ roomData, msg = .sRoomData roomData ∧ w.Lists roomData) :
      Tells w w' (.packet s pkt)
  | login {s : SessionRef} {loginCode : UInt64} (gameId : Int) (hq : Quiet w w')
      (hsent : w'.sent = w.sent ++ [(s, .sLogin gameId true)]) (hroom : w'.room = w.room)
      (hname : ∀ t, t ≠ s → w'.session t = w.session t) : Tells w w' (.packet s (.cLogin loginCode))
  | players {s : SessionRef} {roomCode : Int32} {r : RoomRef} (hr : w.Registered roomCode.toInt r)
      (h : w' = w.setRoom r ((w.room r).broadcast
        (.sLobbyPlayerInfo ((w.room r).sessionPlayers.keys.map fun player => (w.session player).playerName)))) :
      Tells w w' (.packet s (.cRoomPlayerListRequest roomCode))
  | create {s : SessionRef} {gameId : UInt64} {gameName gamePassWord mapHash : List UInt8}
      (h : w' = { w.created s gameId gameName gamePassWord mapHash with
        sent := w.sent ++ [(s, roomLobby ((w.created s gameId gameName gamePassWord mapHash).room w.nextRoom)
          ((w.created s gameId gameName gamePassWord mapHash).room w.nextRoom).roomId)] }) :
      Tells w w' (.packet s (.cRoomCreate gameId gameName gamePassWord mapHash))
  | join {s : SessionRef} {roomCode : Int32} {gamePassWord : List UInt8} {r : RoomRef}
      (hr : w.Registered roomCode.toInt r) (ha : admits (w.room r) gamePassWord = true)
      (h : w' = { w.roomAdd r s with
        sent := w.sent ++ [(s, roomLobby ((w.roomAdd r s).room r) roomCode.toInt)] }) :
      Tells w w' (.packet s (.cRoomRequest roomCode gamePassWord))
  | exit {s : SessionRef} {r : RoomRef} (hr : w.Registered (w.session s).currentRoom r) (hl : Leaves w w' r s [s])
      (h : Writes w w' ((w.without r s).sessions.toList.map (fun player => (player, w.farewell r s)) ++
        [(s, .sRoomExit .exit)])) : Tells w w' (.packet s .cExitGame)
  | disconnect {s : SessionRef} {r : RoomRef} (hr : w.Registered (w.session s).currentRoom r)
      (hl : Leaves (w.dropped s) w' r s [s])
      (h : Writes (w.dropped s) w' ((w.without r s).sessions.toList.map fun player =>
        (player, (w.dropped s).farewell r s))) : Tells w w' (.disconnect s)
  | gone {s : SessionRef} (hr : (w.session s).currentRoom = intMax ∨ ∀ r, ¬ w.Registered (w.session s).currentRoom r)
      (hq : Quiet ((w.dropped s).setRoomId s intMax) w') (h : Writes w w' []) : Tells w w' (.disconnect s)
  | connect (h : w' = w.onConnected) : Tells w w' .connect

/-- What a reply is, once it has been sent. -/
theorem eq_of_reply {s : SessionRef} {msg : ServerMessage F} (h : w.reply s msg = .ok w') :
    w' = { w with sent := w.sent ++ [(s, msg)] } := by
  obtain ⟨packet, hpacket, hw⟩ := bind_eq_ok.mp h
  obtain rfl := ServerMessage.eq_of_frame hpacket
  exact (Except.ok.inj hw).symm

theorem tells_handleCLogin (w : World F) (s : SessionRef) (loginCode : UInt64) :
    Ensures (w.handleCLogin s loginCode) fun w' => Tells w w' (.packet s (.cLogin loginCode)) := by
  intro w' hok
  have hq := quiet_handleCLogin w s loginCode w' hok
  unfold handleCLogin at hok
  dsimp only at hok
  split at hok
  · exact .answer nofun hq (writes_reply w s _ w' hok) (.inl trivial)
  · obtain rfl := eq_of_reply hok
    refine .login _ hq rfl rfl fun t hts => ?_
    exact (session_setSession ..).trans (if_neg hts)

theorem tells_handleCRoomData (w : World F) (s : SessionRef) :
    Ensures (w.handleCRoomData s) fun w' => Tells w w' (.packet s .cRoomData) := by
  intro w' hok
  have hq := quiet_handleCRoomData w s w' hok
  obtain ⟨roomData, hloop, hreply⟩ := bind_eq_ok.mp hok
  refine .answer nofun hq (writes_reply w s _ w' hreply) (.inr ⟨roomData, rfl, ?_⟩)
  refine Ensures.foldlM (I := w.Lists) (fun d hd => absurd hd List.not_mem_nil) (fun roomData hd entry hentry => ?_)
    roomData hloop
  unfold addRoomData
  split
  · exact .error _
  · next r hr =>
    refine .ok fun d hmem => ?_
    rcases List.mem_append.mp hmem with hmem | hmem
    · exact hd d hmem
    · obtain rfl := List.mem_singleton.mp hmem
      refine ⟨r, ?_, rfl⟩
      have hget := Std.ExtTreeMap.mem_toList_iff_getElem?_eq_some.mp hentry
      rw [hr] at hget
      exact hget

theorem tells_handleCRoomPlayerListRequest (w : World F) (s : SessionRef) (roomCode : Int32) :
    Ensures (w.handleCRoomPlayerListRequest roomCode) fun w' =>
      Tells w w' (.packet s (.cRoomPlayerListRequest roomCode)) := by
  unfold handleCRoomPlayerListRequest
  split
  · exact .error _
  · next r hr =>
    refine Ensures.bind_of_eq fun packet hpacket => .ok ?_
    obtain rfl := ServerMessage.eq_of_frame hpacket
    exact .players (getRoom_eq_some.mp hr) rfl

theorem tells_handleCRoomCreate (w : World F) (s : SessionRef) (gameId : UInt64)
    (gameName gamePassWord mapHash : List UInt8) :
    Ensures (w.handleCRoomCreate s gameId gameName gamePassWord mapHash) fun w' =>
      Tells w w' (.packet s (.cRoomCreate gameId gameName gamePassWord mapHash)) := by
  exact fun w' hok => .create (eq_of_reply hok)

theorem tells_handleCRoomRequest (w : World F) (s : SessionRef) (roomCode : Int32) (gamePassWord : List UInt8) :
    Ensures (w.handleCRoomRequest s roomCode gamePassWord) fun w' =>
      Tells w w' (.packet s (.cRoomRequest roomCode gamePassWord)) := by
  unfold handleCRoomRequest RoomManager.indexRoom
  dsimp only
  cases hr : w.roomManager.rooms.getD roomCode.toInt none with
  | none => exact .error _
  | some r =>
      have hreg : w.Registered roomCode.toInt r := (Table.getD_none_eq_some ..).mp hr
      have hmem : roomCode.toInt ∈ w.roomManager.rooms := Table.mem_iff_exists_getElem?.mpr ⟨_, hreg⟩
      -- the entry is there, so that `operator[]` adds none
      simp only [hmem, if_true]
      refine Ensures.ite (fun ha w' hok => ?_) fun _ w' hok => ?_
      · exact .join hreg ha (eq_of_reply hok)
      · exact .answer nofun (quiet_reply w s _ w' hok) (writes_reply w s _ w' hok) (.inl trivial)

theorem tells_handleCExitGame (w : World F) (s : SessionRef) :
    Ensures (w.handleCExitGame s) fun w' => Tells w w' (.packet s .cExitGame) := by
  unfold handleCExitGame
  refine Ensures.ite (fun _ => .ok (.game nofun (Quiet.refl w) (Plays.refl w))) fun _ => ?_
  cases hr : w.getRoom (w.session s).currentRoom with
  | none => exact .error _
  | some r =>
      refine Ensures.bind_of_eq fun w1 h1 w' hok => ?_
      have hl := leaves_roomRemove w r s w1 h1
      have hset : Writes w1 (w1.setRoomId s intMax) [] := .of_eq rfl rfl fun t =>
        field_setSession_of_eq GameSession.playerName w1 s { w1.session s with currentRoom := intMax } rfl t
      have hw := ((writes_roomRemove w r s w1 h1).trans hset).trans (writes_reply _ s _ w' hok)
      rw [List.append_nil] at hw
      exact .exit (getRoom_eq_some.mp hr) (hl.setRoomId.trans_quiet (quiet_reply _ s _ w' hok)) hw

/-- The end of `OnDisconnected` says nothing. -/
theorem writes_forget {w : World F} {s : SessionRef} (h : (w.session s).currentRoom = intMax) :
    Ensures ((w.erasePlayerId s).gSessionManagerRemove s) fun w' => Writes w w' [] := by
  have hs : ((w.erasePlayerId s).session s).currentRoom = intMax := h
  unfold gSessionManagerRemove
  dsimp only
  rw [if_pos hs]
  exact .ok (.of_eq rfl rfl fun _ => rfl)

omit [Scalar F] in
theorem writes_dropped (w : World F) (s : SessionRef) : Writes w (w.dropped s) [] :=
  .of_eq rfl rfl fun t =>
    field_setSession_of_eq GameSession.playerName w s { w.session s with connected := false } rfl t

omit [Scalar F] in
theorem writes_setRoomId (w : World F) (s : SessionRef) (id : Int) : Writes w (w.setRoomId s id) [] :=
  .of_eq rfl rfl fun t => field_setSession_of_eq GameSession.playerName w s { w.session s with currentRoom := id } rfl t

theorem tells_onDisconnected (w : World F) (s : SessionRef) :
    Ensures (w.onDisconnected s) fun w' => Tells w w' (.disconnect s) := by
  have hcur := dropped_currentRoom w s s
  intro w' hok
  obtain ⟨w1, hleave, hforget⟩ := bind_eq_ok.mp hok
  change (w.dropped s).leaveRoom s = _ at hleave
  unfold leaveRoom at hleave
  split at hleave
  · next hmax =>
    obtain rfl := Except.ok.inj hleave
    have hset : Quiet (w.dropped s) ((w.dropped s).setRoomId s intMax) := Quiet.setSession _ hmax.symm rfl
    refine .gone (.inl (hcur ▸ hmax)) (hset.symm.trans (quiet_forget hmax w' hforget)) ?_
    exact (writes_dropped w s).trans (writes_forget hmax w' hforget)
  · have hself : ∀ w1 : World F, ((w1.setRoomId s intMax).session s).currentRoom = intMax := fun w1 =>
      (currentRoom_setRoomId ..).trans (if_pos rfl)
    split at hleave
    · next hr =>
      obtain rfl := Except.ok.inj hleave
      refine .gone (.inr fun r hreg => ?_) (quiet_forget (hself _) w' hforget) ?_
      · rw [← hcur] at hreg
        have hsome : (w.dropped s).getRoom ((w.dropped s).session s).currentRoom = some r := getRoom_eq_some.mpr hreg
        rw [hr] at hsome
        cases hsome
      · exact ((writes_dropped w s).trans (writes_setRoomId _ s intMax)).trans (writes_forget (hself _) w' hforget)
    · next r hr =>
      obtain ⟨w2, hremove, hset⟩ := bind_eq_ok.mp hleave
      obtain rfl := Except.ok.inj hset
      have hreg : w.Registered (w.session s).currentRoom r := by
        rw [← hcur]
        exact getRoom_eq_some.mp hr
      have hl := (leaves_roomRemove _ r s w2 hremove).setRoomId.trans_quiet (quiet_forget (hself _) w' hforget)
      have hw := ((writes_roomRemove _ r s w2 hremove).trans (writes_setRoomId _ s intMax)).trans
        (writes_forget (hself _) w' hforget)
      rw [List.append_nil, List.append_nil] at hw
      exact .disconnect hreg hl hw

theorem tells_handle (env : Env F) (w : World F) (s : SessionRef) (pkt : ClientPacket F) :
    Ensures (w.handle env s pkt) fun w' => Tells w w' (.packet s pkt) := by
  cases pkt with
  | cLogin loginCode => exact tells_handleCLogin w s loginCode
  | cMove roomCode objectId position =>
      exact fun w' hok => .game nofun (quiet_handleCMove w _ _ _ w' hok) (plays_handleCMove w _ _ _ w' hok)
  | cRoomCreate gameId gameName gamePassWord mapHash => exact tells_handleCRoomCreate w s _ _ _ _
  | cRoomData => exact tells_handleCRoomData w s
  | cRoomRequest roomCode gamePassWord => exact tells_handleCRoomRequest w s _ _
  | cRoomPlayerListRequest roomCode => exact tells_handleCRoomPlayerListRequest w s _
  | cStartGame roomCode =>
      exact fun w' hok => .game nofun (quiet_handleCStartGame env w _ w' hok) (plays_handleCStartGame env w _ w' hok)
  | cExitGame => exact tells_handleCExitGame w s
  | cAttack roomCode objectId objectType direction =>
      exact fun w' hok => .game nofun (quiet_handleCAttack w _ _ _ _ w' hok) (plays_handleCAttack w _ _ _ _ w' hok)
  | cRttPing clientTime =>
      exact fun w' hok => .answer nofun (quiet_reply w s _ w' hok) (writes_reply w s _ w' hok) (.inl trivial)

/-- **What a step can say.** -/
theorem tells_next {a : Env F × Event F} (h : w.next a = some w') : Tells w w' a.2 := by
  have hok := exec_of_next h
  obtain ⟨env, e⟩ := a
  cases e with
  | connect => exact .connect (Except.ok.inj hok).symm
  | packet s pkt => exact tells_handle env w s pkt w' hok
  | disconnect s => exact tells_onDisconnected w s w' hok
  | update => exact .tick (quiet_update env w w' hok) (plays_update env w w' hok)

end World

end StarCraftIocp
