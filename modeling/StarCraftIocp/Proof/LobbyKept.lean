import StarCraftIocp.Proof.LobbyPhases
import StarCraftIocp.Proof.Logins

/-!
# What holds of one client

The invariant about a client and what is under way to it and from it: where it
stands, what it is due to know about its room, and which maps it can be asked to
show. A step of the server keeps it, whatever the client hears in it.
-/

namespace StarCraftIocp

open CInt Protocol World

variable {F : Type} [Scalar F]

/-! ## What a client knows about its room -/

structure RoomView where
  code : Int32
  room : LobbyData
  players : List Int64
  /-- The client is in the `MatchMakingScene`. -/
  lobby : Bool
  playersId : List String

def LobbyClient.view (c : LobbyClient) : RoomView :=
  ⟨c.currentRoomCode, c.currentRoom, c.playerInfo, decide (c.scene = .matchMaking), c.playersId⟩

/-- What a room's members are told of it. -/
def Room.Card.lobbyData (card : Room.Card) : LobbyData where
  hostId := UInt64.ofInt (uint64 card.hostId)
  gameName := text card.gameName
  gamePassWord := text card.gamePassWord
  mapHash := card.mapHash

namespace RoomView

variable {k : List UInt8 → Bool} {v : RoomView} {m : PacketReader.Message}

/-- `callback`. -/
def called (k : List UInt8 → Bool) (v : RoomView) : RoomView :=
  if v.lobby = true ∧ k v.room.mapHash = true then
    { v with playersId := LobbyClient.writeIds (v.playersId.map fun _ => "OPEN") v.players }
  else v

def step (k : List UInt8 → Bool) (v : RoomView) : PacketReader.Message → RoomView
  | .sRoomLobby m =>
      { v with
        code := m.roomCode
        room := { hostId := m.hostId, gameName := m.gameName, gamePassWord := m.gamePassWord, mapHash := m.mapHash }
        lobby := true
        playersId := List.replicate 4 "OPEN" }
  | .sLobbyPlayerInfo m => { v with players := m.playerData.map PacketReader.PlayerInfo.playerId }.called k
  | .sRoomResponse _ => v.called k
  | .sLogin m => if m.loginAccept then { v with lobby := false } else v
  | .sGameStart _ | .sRoomExit _ => { v with lobby := false }
  | _ => v

/-- The room with this code, which was made with this. -/
structure Fits (v : RoomView) (id : Int) (card : Room.Card) : Prop where
  code : v.code = Int32.ofInt id
  room : v.room = card.lobbyData

/-- In a lobby, the map is known, and there are four labels. -/
def Ready (k : List UInt8 → Bool) (v : RoomView) : Prop :=
  v.lobby = true → k v.room.mapHash = true ∧ v.playersId.length = 4

/-- What the four labels are to say: the first four players, and OPEN where there are fewer. -/
def labels (players : List Int64) : List String :=
  (players.take 4).map (fun player => toString player.toInt) ++ List.replicate (4 - players.length) "OPEN"

/-- In a lobby, the labels say who is in it. -/
def Lists (v : RoomView) : Prop := v.lobby = true → v.playersId = labels v.players

theorem writeIds_eq (texts : List String) (players : List Int64) :
    LobbyClient.writeIds texts players =
      (players.take texts.length).map (fun player => toString player.toInt) ++ texts.drop players.length := by
  induction players generalizing texts with
  | nil => simp [LobbyClient.writeIds]
  | cons player players ih =>
      cases texts with
      | nil => simp [LobbyClient.writeIds]
      | cons text texts => simp [LobbyClient.writeIds, ih]

theorem writeIds_open {texts : List String} (h : texts.length = 4) (players : List Int64) :
    LobbyClient.writeIds (texts.map fun _ => "OPEN") players = labels players := by
  have hopen : (texts.map fun _ => "OPEN") = List.replicate 4 "OPEN" := h ▸ List.map_const' ..
  rw [hopen, writeIds_eq, List.length_replicate, List.drop_replicate]
  rfl

theorem length_labels (players : List Int64) : (labels players).length = 4 := by
  unfold labels
  rw [List.length_append, List.length_map, List.length_take, List.length_replicate]
  omega

/-- Once they are written, the labels say who is there. -/
theorem Ready.called_eq (h : v.Ready k) (hlobby : v.lobby = true) :
    v.called k = { v with playersId := labels v.players } := by
  obtain ⟨hknown, hfour⟩ := h hlobby
  unfold called
  rw [if_pos ⟨hlobby, hknown⟩, writeIds_open hfour]

theorem called_of_not (hlobby : ¬ v.lobby = true) : v.called k = v := if_neg fun h => hlobby h.1

theorem players_called (k : List UInt8 → Bool) (v : RoomView) : (v.called k).players = v.players := by
  unfold called
  split <;> rfl

theorem Ready.called (h : v.Ready k) : (v.called k).Ready k := by
  by_cases hlobby : v.lobby = true
  · rw [h.called_eq hlobby]
    exact fun _ => ⟨(h hlobby).1, length_labels _⟩
  · rwa [called_of_not hlobby]

theorem Ready.lists_called (h : v.Ready k) : (v.called k).Lists := by
  by_cases hlobby : v.lobby = true
  · rw [h.called_eq hlobby]
    exact fun _ => rfl
  · rw [called_of_not hlobby]
    exact fun hin => absurd hin hlobby

theorem Ready.step (h : v.Ready k) (hm : ∀ lobby, m = .sRoomLobby lobby → k lobby.mapHash = true) :
    (v.step k m).Ready k := by
  cases m with
  | sRoomLobby lobby => exact fun _ => ⟨hm lobby rfl, List.length_replicate⟩
  | sLobbyPlayerInfo m =>
      have hready : Ready k { v with players := m.playerData.map PacketReader.PlayerInfo.playerId } := h
      exact hready.called
  | sRoomResponse => exact h.called
  | sLogin m =>
      unfold RoomView.step
      dsimp only
      split
      · exact nofun
      · exact h
  | sGameStart | sRoomExit => exact nofun
  | _ => exact h

theorem Ready.steps {ms : List PacketReader.Message} (h : v.Ready k)
    (hms : ∀ m ∈ ms, ∀ lobby, m = .sRoomLobby lobby → k lobby.mapHash = true) :
    (ms.foldl (RoomView.step k) v).Ready k :=
  List.foldlRecOn (motive := fun v' : RoomView => v'.Ready k) ms _ h fun _ hv' m hm => hv'.step (hms m hm)

/-- The message that says who is there is listed. -/
theorem Ready.lists (h : v.Ready k) (m : PacketReader.SLobbyPlayerInfo) : (v.step k (.sLobbyPlayerInfo m)).Lists :=
  have hready : Ready k { v with players := m.playerData.map PacketReader.PlayerInfo.playerId } := h
  hready.lists_called

theorem Lists.step (h : v.Lists) (hready : v.Ready k) (hm : ¬ m.Admits) : (v.step k m).Lists := by
  cases m with
  | sRoomLobby => exact absurd trivial hm
  | sLobbyPlayerInfo m => exact hready.lists m
  | sRoomResponse => exact hready.lists_called
  | sLogin m =>
      unfold RoomView.step
      dsimp only
      split
      · exact nofun
      · exact h
  | sGameStart | sRoomExit => exact nofun
  | _ => exact h

theorem Lists.steps {ms : List PacketReader.Message} (h : v.Lists) (hready : v.Ready k) (hms : ∀ m ∈ ms, ¬ m.Admits) :
    (ms.foldl (RoomView.step k) v).Lists := by
  refine (List.foldlRecOn (motive := fun v' : RoomView => v'.Lists ∧ v'.Ready k) ms _ ⟨h, hready⟩
    fun v' hv' m hm => ⟨hv'.1.step hv'.2 (hms m hm), hv'.2.step fun lobby hlobby => ?_⟩).1
  subst hlobby
  exact absurd trivial (hms _ hm)

/-- Only the message that lets a client into a room changes which room it shows. -/
theorem Fits.step {id : Int} {card : Room.Card} (h : v.Fits id card) (hm : ¬ m.Admits) : (v.step k m).Fits id card := by
  have hcalled : ∀ v' : RoomView, v'.Fits id card → (v'.called k).Fits id card := by
    intro v' hv'
    unfold RoomView.called
    split
    · exact ⟨hv'.code, hv'.room⟩
    · exact hv'
  cases m with
  | sRoomLobby => exact absurd trivial hm
  | sLobbyPlayerInfo m => exact hcalled _ ⟨h.code, h.room⟩
  | sRoomResponse => exact hcalled v h
  | sLogin m =>
      unfold RoomView.step
      dsimp only
      split
      · exact ⟨h.code, h.room⟩
      · exact h
  | sGameStart | sRoomExit => exact ⟨h.code, h.room⟩
  | _ => exact h

theorem Fits.steps {id : Int} {card : Room.Card} {ms : List PacketReader.Message} (h : v.Fits id card)
    (hms : ∀ m ∈ ms, ¬ m.Admits) : (ms.foldl (RoomView.step k) v).Fits id card :=
  List.foldlRecOn (motive := fun v' : RoomView => v'.Fits id card) ms _ h fun _ hv' m hm => hv'.step (hms m hm)

end RoomView

section

variable {knows : SessionRef → List UInt8 → Bool} {ofBits : UInt32 → F} {k : List UInt8 → Bool}

theorem view_callback (c : LobbyClient) : (c.callback k).view = c.view.called k := by
  unfold LobbyClient.callback RoomView.called LobbyClient.view
  simp only [decide_eq_true_eq]
  split <;> rfl

theorem view_process (c : LobbyClient) (m : PacketReader.Message) : (c.process k m).1.view = c.view.step k m := by
  cases m with
  | sLogin m =>
      unfold LobbyClient.process RoomView.step
      dsimp only
      split
      · unfold LobbyClient.setUserId
        split <;> rfl
      · rfl
  | sRoomData m =>
      unfold LobbyClient.process
      dsimp only
      split <;> rfl
  | sLobbyPlayerInfo | sRoomResponse => exact view_callback _
  | _ => rfl

/-- What a client is due to know depends on what it knows only. -/
theorem view_reads (s : SessionRef) (c : LobbyClient) (ds : List PacketReader.Message) :
    ((lobbyParties knows ofBits).reads s c ds).view = ds.foldl (RoomView.step (knows s)) c.view := by
  induction ds generalizing c with
  | nil => rfl
  | cons d ds ih =>
      refine (ih _).trans ?_
      rw [List.foldl_cons, ← @view_process (knows s) c d]
      rfl

/-- A user changes nothing of it. -/
theorem view_act {c : LobbyClient} {a : UserAction} {r : LobbyClient × List PacketWriter.Message}
    (h : c.act k a = some r) : r.1.view = c.view := by
  cases a with
  | tryLogin | takeRoomData | accept | clickStart | clickExit | play =>
      obtain ⟨-, h⟩ := Option.ite_none_right_eq_some.mp h
      obtain rfl := Option.some.inj h
      rfl
  | openRoomMaking =>
      obtain ⟨hscene, h⟩ := Option.ite_none_right_eq_some.mp h
      obtain rfl := Option.some.inj h
      unfold LobbyClient.view
      dsimp only
      rw [hscene]
      rfl
  | createRoom gameName passWord mapHash =>
      obtain ⟨-, h⟩ := Option.ite_none_right_eq_some.mp h
      obtain ⟨gameId, -, rfl⟩ := Option.map_eq_some_iff.mp h
      rfl

end

namespace Lobby

variable {w w' : World F} {e : Event F} {t : SessionRef} {news : List (ServerMessage F)}
  {k : List UInt8 → Bool} {ofBits : UInt32 → F}

/-! ## Maps -/

/-- A room with this code has this map, now and later. -/
structure MapOf (w : World F) (code : Int32) (mapHash : List UInt8) : Prop where
  lt : code.toInt < w.roomManager.roomIdCount
  map : ∀ r, w.Registered code.toInt r → (w.room r).mapHash = mapHash

omit [Scalar F] in
theorem MapOf.keeps {code : Int32} {mapHash : List UInt8} (h : MapOf w code mapHash) (hk : Keeps w w') :
    MapOf w' code mapHash := by
  refine ⟨Int.lt_of_lt_of_le h.lt hk.count, fun r hr => ?_⟩
  have hold := hk.registered hr h.lt
  rw [← h.map r hold]
  exact congrArg Room.Card.mapHash (hk.card hold)

/-- A client is shown rooms with their maps, and let into one whose map it knows. -/
def Told (k : List UInt8 → Bool) (w : World F) : PacketReader.Message → Prop
  | .sRoomLobby m => k m.mapHash = true
  | .sRoomData m => ∀ d ∈ m.roomData, MapOf w d.roomCode d.mapHash
  | _ => True

/-- A client asks for rooms whose maps it knows. -/
def Asked (k : List UInt8 → Bool) (w : World F) : PacketWriter.Message → Prop
  | .cRoomCreate _ _ _ mapHash => k mapHash = true
  | .cRoomRequest code _ => ∃ mapHash, MapOf w code mapHash ∧ k mapHash = true
  | _ => True

omit [Scalar F] in
theorem Told.keeps {m : PacketReader.Message} (h : Told k w m) (hk : Keeps w w') : Told k w' m := by
  cases m with
  | sRoomData m => exact fun d hd => (h d hd).keeps hk
  | _ => exact h

omit [Scalar F] in
theorem Asked.keeps {m : PacketWriter.Message} (h : Asked k w m) (hk : Keeps w w') : Asked k w' m := by
  cases m with
  | cRoomRequest =>
      obtain ⟨mapHash, hmap, hknown⟩ := h
      exact ⟨mapHash, hmap.keeps hk, hknown⟩
  | _ => exact h

omit [Scalar F] in
theorem Asked.of_not_asks {m : PacketWriter.Message} (h : ¬ m.Asks) : Asked k w m := by
  cases m with
  | cRoomCreate | cRoomRequest => exact absurd trivial h
  | _ => trivial

omit [Scalar F] in
/-- The codes of rooms fit into a message. -/
theorem toInt_code {id : Int} {r : RoomRef} (hw : w.Orderly) (hnonneg : 0 ≤ id) (hr : w.Registered id r) :
    (Int32.ofInt id).toInt = id := by
  have hlt := hw.lookups.ids.key id _ hr
  have hle := hw.lookups.ids.le
  unfold intMax at hle
  exact Int32.toInt_ofInt_of_le (by omega) (by omega)

/-! ## What a session hears, as the client gets it -/

omit [Scalar F] in
theorem inRoom_congr (h : (w'.session t).currentRoom = (w.session t).currentRoom) : inRoom w' t = inRoom w t := by
  unfold inRoom
  rw [h]

omit [Scalar F] in
theorem inRoom_eq_false : inRoom w t = false ↔ (w.session t).currentRoom = intMax := by
  unfold inRoom
  rw [decide_eq_false_iff_not, not_not]

omit [Scalar F] in
theorem inRoom_eq_true : inRoom w t = true ↔ (w.session t).currentRoom ≠ intMax := decide_eq_true_iff

theorem seatStep_plain {msg : ServerMessage F} (h : msg.Plain) (inside : Bool) :
    seatStep inside msg.received = some inside := by
  cases msg with
  | sLogin gameId loginAccept =>
      cases loginAccept with
      | false => rfl
      | true => cases h
  | sRoomLobby | sLobbyPlayerInfo | sRoomExit | sRoomData => cases h
  | _ => rfl

theorem not_admits_plain {msg : ServerMessage F} (h : msg.Plain) : ¬ msg.received.Admits := by
  cases msg with
  | sRoomLobby => cases h
  | _ => exact id

/-- Where the session stands after the step is where the messages lead. -/
theorem leads_hears (hw' : w'.Orderly) (h : Hears w w' e t news) :
    Leads seatStep (inRoom w t) (news.map ServerMessage.received) (inRoom w' t) := by
  cases h with
  | plain hroom h =>
      rw [inRoom_congr hroom]
      refine .of_keeps fun m hm => ?_
      obtain ⟨msg, hmsg, rfl⟩ := List.mem_map.mp hm
      exact seatStep_plain (h msg hmsg) _
  | listing hroom h =>
      rw [inRoom_congr hroom]
      rfl
  | login gameId hroom hnone =>
      rw [inRoom_congr hroom, inRoom_eq_false.mpr hnone]
      rfl
  | informed hroom hr hids =>
      rw [inRoom_congr hroom]
      rfl
  | admitted he hwants hnone hr =>
      rw [inRoom_eq_false.mpr hnone, inRoom_eq_true.mpr (hr.ne_intMax hw'.lookups.ids)]
      rfl
  | thrown code hin hout =>
      rw [inRoom_eq_true.mpr hin, inRoom_eq_false.mpr hout]
      rfl

/-- What a client knows of its room is still so. -/
theorem fits_hears {v : RoomView} (hw : w.Orderly) (hw' : w'.Orderly) (hk : Keeps w w') (h : Hears w w' e t news)
    (hv : ∀ r, w.Registered (w.session t).currentRoom r → v.Fits (w.session t).currentRoom (w.room r).card)
    {r : RoomRef} (hr : w'.Registered (w'.session t).currentRoom r) :
    ((news.map ServerMessage.received).foldl (RoomView.step k) v).Fits (w'.session t).currentRoom
      (w'.room r).card := by
  -- a session that stays where it is has the room it had
  have hstay : (w'.session t).currentRoom = (w.session t).currentRoom →
      v.Fits (w'.session t).currentRoom (w'.room r).card := by
    intro hroom
    have hne := hr.ne_intMax hw'.lookups.ids
    rw [hroom] at hr hne ⊢
    obtain ⟨q, hq, -⟩ := hw.leads hne
    have hold := hk.registered hr (hw.lookups.ids.key _ _ hq)
    rw [hk.card hold]
    exact hv r hold
  cases h with
  | plain hroom h =>
      refine (hstay hroom).steps fun m hm => ?_
      obtain ⟨msg, hmsg, rfl⟩ := List.mem_map.mp hm
      exact not_admits_plain (h msg hmsg)
  | listing hroom | login _ hroom | informed hroom => exact (hstay hroom).steps (List.forall_mem_singleton.mpr id)
  | admitted he hwants hnone hq =>
      obtain rfl := hr.unique hq
      exact ⟨rfl, rfl⟩
  | thrown code hin hout => exact absurd hout (hr.ne_intMax hw'.lookups.ids)

/-- What a step of the server takes from what is under way from a client. -/
inductive Taken (ofBits : UInt32 → F) (e : Event F) (t : SessionRef) :
    List PacketWriter.Message → List PacketWriter.Message → Prop
  | nothing {q : List PacketWriter.Message} (h : ∀ pkt, e ≠ .packet t pkt) : Taken ofBits e t q q
  | head {u : PacketWriter.Message} {q : List PacketWriter.Message} (h : e = .packet t (u.packet ofBits)) :
      Taken ofBits e t (u :: q) q

section

variable {q q' : List PacketWriter.Message}

omit [Scalar F]

theorem Taken.mem (h : Taken ofBits e t q q') {m : PacketWriter.Message} (hm : m ∈ q') : m ∈ q := by
  cases h with
  | nothing => exact hm
  | head => exact List.mem_cons_of_mem _ hm

theorem Taken.keeps (h : Taken ofBits e t q q') {m : PacketWriter.Message} (hm : m ∈ q) :
    m ∈ q' ∨ e = .packet t (m.packet ofBits) := by
  cases h with
  | nothing => exact .inl hm
  | head he =>
      rcases List.mem_cons.mp hm with rfl | hm
      · exact .inr he
      · exact .inl hm

/-- A client that is let in has asked, for a map it knows. -/
theorem Taken.wants {mapHash : List UInt8} {pkt : ClientPacket F} (h : Taken ofBits e t q q')
    (he : e = .packet t pkt) (hwants : w.Wants mapHash pkt) (hasked : ∀ u ∈ q, Asked k w u) :
    k mapHash = true ∧ ∃ u, q = u :: q' ∧ u.Asks := by
  cases h with
  | nothing h => exact absurd he (h pkt)
  | @head u q h =>
      obtain rfl := (Event.packet.inj (h.symm.trans he)).2
      have hu := hasked u List.mem_cons_self
      cases u with
      | cRoomCreate =>
          obtain rfl : _ = mapHash := hwants
          exact ⟨hu, _, rfl, trivial⟩
      | cRoomRequest =>
          obtain ⟨r, hr, rfl⟩ := hwants
          obtain ⟨known, hmap, hknown⟩ := hu
          rw [hmap.map r hr]
          exact ⟨hknown, _, rfl, trivial⟩
      | _ => cases hwants

end

omit [Scalar F] in
/-- Whoever is let into a room, or out of it, or stays, has asked no more than it may. -/
theorem asks_hears {q q' : List PacketWriter.Message} {asked : Bool} (h : Hears w w' e t news)
    (htaken : Taken ofBits e t q q') (hasked : ∀ u ∈ q, Asked k w u) (hq : Leads askStep (inRoom w t) q asked) :
    ∃ asked', Leads askStep (inRoom w' t) q' asked' := by
  -- what is left of the queue, from some phase
  have hrest : ∃ x, Leads askStep x q' asked ∧ (inRoom w t = true → x = true) := by
    cases htaken with
    | nothing => exact ⟨_, hq, id⟩
    | @head u q hu =>
        obtain ⟨x, hx, h'⟩ := hq.pop
        refine ⟨x, h', fun hin => ?_⟩
        rw [hin] at hx
        cases u with
        | cRoomCreate | cRoomRequest | cLogin => cases hx
        | _ => exact (Option.some.inj hx).symm
  obtain ⟨x, hx, hin⟩ := hrest
  cases hroom : inRoom w' t with
  | false => exact leads_false hx
  | true =>
      have hstays : inRoom w' t = inRoom w t → ∃ asked', Leads askStep true q' asked' := by
        intro hsame
        obtain rfl := hin (hsame ▸ hroom)
        exact ⟨_, hx⟩
      cases h with
      | plain hsame => exact hstays (inRoom_congr hsame)
      | listing hsame => exact hstays (inRoom_congr hsame)
      | login gameId hsame => exact hstays (inRoom_congr hsame)
      | informed hsame => exact hstays (inRoom_congr hsame)
      | admitted he hwants hnone =>
          obtain ⟨-, u, rfl, hasks⟩ := htaken.wants he hwants hasked
          obtain ⟨y, hy, h'⟩ := hq.pop
          rw [inRoom_eq_false.mpr hnone] at hy
          cases u with
          | cRoomCreate | cRoomRequest =>
              obtain rfl := Option.some.inj hy
              exact ⟨_, h'⟩
          | _ => cases hasks
      | thrown code hin hout =>
          rw [inRoom_eq_false.mpr hout] at hroom
          cases hroom

omit [Scalar F] in
/-- Nobody who has not asked is let in. -/
theorem out_hears {q q' : List PacketWriter.Message} (h : Hears w w' e t news) (htaken : Taken ofBits e t q q')
    (hasked : ∀ u ∈ q, Asked k w u) (hnone : ∀ u ∈ q, ¬ u.Asks) (hout : inRoom w t = false) : inRoom w' t = false := by
  cases h with
  | plain hroom => exact (inRoom_congr hroom).trans hout
  | listing hroom => exact (inRoom_congr hroom).trans hout
  | login gameId hroom => exact (inRoom_congr hroom).trans hout
  | informed hroom => exact (inRoom_congr hroom).trans hout
  | admitted he hwants =>
      obtain ⟨-, u, rfl, hasks⟩ := htaken.wants he hwants hasked
      exact absurd hasks (hnone u List.mem_cons_self)
  | thrown code hin hgone => exact inRoom_eq_false.mpr hgone

theorem told_plain {msg : ServerMessage F} (h : msg.Plain) : Told k w msg.received := by
  cases msg with
  | sRoomLobby | sRoomData => cases h
  | _ => trivial

/-- What a client is told of maps is so. -/
theorem told_hears {q q' : List PacketWriter.Message} (hw : w.Orderly) (hcodes : ∀ {id r}, w.Registered id r → 0 ≤ id)
    (hk : Keeps w w') (h : Hears w w' e t news) (htaken : Taken ofBits e t q q') (hasked : ∀ u ∈ q, Asked k w u) :
    ∀ m ∈ news.map ServerMessage.received, Told k w' m := by
  intro m hm
  obtain ⟨msg, hmsg, rfl⟩ := List.mem_map.mp hm
  cases h with
  | plain hroom h => exact told_plain (h msg hmsg)
  | listing hroom h =>
      obtain rfl := List.mem_singleton.mp hmsg
      intro d hd
      obtain ⟨entry, hentry, rfl⟩ := List.mem_map.mp hd
      obtain ⟨r, hr, hmap⟩ := h entry hentry
      have hcode := toInt_code hw (hcodes hr) hr
      have hof : MapOf w (Int32.ofInt entry.roomCode) entry.mapHash := by
        refine ⟨?_, fun q hq => ?_⟩
        · rw [hcode]
          exact hw.lookups.ids.key _ _ hr
        · rw [hcode] at hq
          rw [hq.unique hr, hmap]
      exact hof.keeps hk
  | admitted he hwants =>
      obtain rfl := List.mem_singleton.mp hmsg
      exact (htaken.wants he hwants hasked).1
  | login | informed | thrown =>
      obtain rfl := List.mem_singleton.mp hmsg
      trivial

/-! ## The invariant -/

/-- A client, with what is under way to it and from it, and the server agree. -/
structure Kept (knows : SessionRef → List UInt8 → Bool) (ofBits : UInt32 → F) (b : Lobby F) (s : SessionRef) :
    Prop where
  seat : ∃ inside, Placed (b.client s) inside ∧ Leads seatStep inside (b.down s) (inRoom b.server s)
  asks : ∃ asked, Leads askStep (inRoom b.server s) (b.up s) asked
  login : (b.client s).scene = .login → inRoom b.server s = false ∧ ∀ m ∈ b.up s, ¬ m.Asks
  told : ∀ m ∈ b.down s, Told (knows s) b.server m
  asked : ∀ m ∈ b.up s, Asked (knows s) b.server m
  rooms : ∀ d ∈ (b.client s).rooms, MapOf b.server d.roomCode d.mapHash
  view : ∀ r, b.server.Registered (b.server.session s).currentRoom r →
    ((lobbyParties knows ofBits).due b s).view.Fits (b.server.session s).currentRoom (b.server.room r).card
  ready : ((lobbyParties knows ofBits).due b s).view.Ready (knows s)

variable {knows : SessionRef → List UInt8 → Bool} {b b' : Lobby F} {s : SessionRef}

/-- It is about one client only. -/
theorem Kept.of_eq (h : Kept knows ofBits b t) (hserver : b'.server = b.server) (hclient : b'.client t = b.client t)
    (hup : b'.up t = b.up t) (hdown : b'.down t = b.down t) : Kept knows ofBits b' t := by
  have hdue : (lobbyParties knows ofBits).due b' t = (lobbyParties knows ofBits).due b t := by
    unfold Parties.due
    rw [hclient, hdown]
  refine ⟨?_, ?_, ?_, ?_, ?_, ?_, ?_, ?_⟩
  · rw [hserver, hclient, hdown]; exact h.seat
  · rw [hserver, hup]; exact h.asks
  · rw [hserver, hclient, hup]; exact h.login
  · rw [hserver, hdown]; exact h.told
  · rw [hserver, hup]; exact h.asked
  · rw [hserver, hclient]; exact h.rooms
  · rw [hserver, hdue]; exact h.view
  · rw [hdue]; exact h.ready

theorem kept_init (maps : List UInt8 → Option MapSectionData) (s : SessionRef) :
    Kept knows ofBits (Lobby.init maps : Lobby F) s := by
  have hout : inRoom (World.init maps : World F) s = false := inRoom_eq_false.mpr rfl
  refine ⟨⟨false, ⟨nofun, fun _ => nofun⟩, ?_⟩, ⟨_, .nil _⟩, fun _ => ⟨hout, nofun⟩, nofun, nofun, nofun,
    fun r hr => ?_, nofun⟩
  · change Leads seatStep false [] (inRoom (World.init maps) s)
    rw [hout]
    rfl
  · exact absurd rfl (hr.ne_intMax (lookups_init maps).ids)

/-- What the server says is read after what is under way. -/
theorem view_advance {up : SessionRef → List PacketWriter.Message} (t : SessionRef) :
    ((lobbyParties knows ofBits).due { (lobbyParties knows ofBits).advance b w' with up := up } t).view =
      ((b.server.news w' t).map ServerMessage.received).foldl (RoomView.step (knows t))
        ((lobbyParties knows ofBits).due b t).view := by
  rw [← @view_reads F _ knows ofBits t]
  exact congrArg LobbyClient.view ((lobbyParties knows ofBits).due_advance b w' t)

/-- A step of the server. -/
theorem Kept.serve (hw : b.server.Orderly) (hw' : w'.Orderly) (hcodes : ∀ {id r}, b.server.Registered id r → 0 ≤ id)
    (hk : Keeps b.server w') (hh : Hears b.server w' e t (b.server.news w' t))
    {up : SessionRef → List PacketWriter.Message} (htaken : Taken ofBits e t (b.up t) (up t))
    (h : Kept knows ofBits b t) : Kept knows ofBits { (lobbyParties knows ofBits).advance b w' with up := up } t := by
  obtain ⟨inside, hplaced, hseat⟩ := h.seat
  obtain ⟨asked, hasks⟩ := h.asks
  have htold := told_hears hw hcodes hk hh htaken h.asked
  refine ⟨⟨inside, hplaced, hseat.append (leads_hears hw' hh)⟩, asks_hears hh htaken h.asked hasks,
    ?_, ?_, ?_, ?_, ?_, ?_⟩
  · intro hscene
    obtain ⟨hout, hnone⟩ := h.login hscene
    exact ⟨out_hears hh htaken h.asked hnone hout, fun m hm => hnone m (htaken.mem hm)⟩
  · intro m hm
    rcases List.mem_append.mp hm with hm | hm
    · exact (h.told m hm).keeps hk
    · exact htold m hm
  · exact fun m hm => (h.asked m (htaken.mem hm)).keeps hk
  · exact fun d hd => (h.rooms d hd).keeps hk
  · intro r hr
    rw [view_advance]
    exact fits_hears hw hw' hk hh h.view hr
  · rw [view_advance]
    refine h.ready.steps fun m hm lobby hlobby => ?_
    subst hlobby
    exact htold _ hm

end Lobby

end StarCraftIocp
