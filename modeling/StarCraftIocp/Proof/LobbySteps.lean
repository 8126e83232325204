import StarCraftIocp.Proof.Counts
import StarCraftIocp.Proof.LobbyNews

/-!
# A step of the server, for one session and for one room

What a step tells a session, and whether the members of a room have to be told
who is in it. Both are for runs in which sessions log in, create rooms and ask for
rooms only while they are in none.
-/

namespace StarCraftIocp

open CInt Protocol

variable {F : Type} [Scalar F]

namespace World

/-- What the server's tables are like as long as sessions join from no room. -/
structure Orderly (w : World F) : Prop where
  lookups : w.Lookups
  members : w.Members
  alive : w.Alive
  counts : w.MembershipCounts

/-- Only a session in no room logs in, creates a room or asks for one, and there is an id for the room. -/
def FromNone (w : World F) : Event F → Prop
  | .packet s (.cLogin _) | .packet s (.cRoomRequest _ _) => (w.session s).currentRoom = intMax
  | .packet s (.cRoomCreate ..) => (w.session s).currentRoom = intMax ∧ w.roomManager.roomIdCount < intMax
  | _ => True

variable {w w' : World F} {e : Event F} {s t : SessionRef} {id : Int} {q r : RoomRef}

theorem orderly_init (maps : List UInt8 → Option MapSectionData) : (World.init maps : World F).Orderly := by
  have hempty : ∀ s r, s ∉ ((World.init maps : World F).room r).sessions := fun _ _ => Std.ExtTreeSet.not_mem_empty
  refine ⟨lookups_init maps, ⟨?_, ?_⟩, ⟨?_, ?_⟩, ⟨fun id r hr => ?_⟩⟩
  · exact fun s r hs => absurd hs (hempty s r)
  · exact fun s r hs => absurd hs (hempty s r)
  · exact fun s r hs => absurd hs (hempty s r)
  · exact fun s r hs => absurd hs (hempty s r)
  · simp [Registered, World.init, RoomManager.init] at hr

omit [Scalar F] in
theorem FromNone.joinsFromNone {env : Env F} (h : w.FromNone e) : w.JoinsFromNone (env, e) := by
  cases e with
  | packet s pkt =>
      cases pkt with
      | cRoomCreate => exact h
      | cRoomRequest => exact fun _ _ _ => .inl h
      | _ => trivial
  | _ => trivial

omit [Scalar F] in
theorem FromNone.joinsAnew {env : Env F} (hw : w.Orderly) (h : w.FromNone e) : w.JoinsAnew (env, e) := by
  cases e with
  | packet s pkt =>
      cases pkt with
      | cRoomRequest => exact fun _ _ _ hs => hw.members.ne_intMax hw.lookups.ids hs h
      | _ => trivial
  | _ => trivial

theorem Orderly.next {a : Env F × Event F} (hw : w.Orderly) (hg : w.FromNone a.2) (h : w.next a = some w') :
    w'.Orderly := by
  obtain ⟨hen, hm⟩ := moves_next h
  have hjoin : w.JoinsFromNone a := hg.joinsFromNone
  exact ⟨lookups_moves hw.lookups hjoin.idLeft hm,
    members_moves hw.lookups.registry hw.lookups.ids hw.alive hw.members hjoin hm,
    alive_moves hw.alive hw.members hw.lookups.ids hen hm,
    membershipCounts_moves hw.lookups.registry hw.counts (hg.joinsAnew hw) hm⟩

omit [Scalar F] in
/-- The members of a room are the sessions that believe to be in it. -/
theorem Orderly.mem_iff (hw : w.Orderly) (hr : w.Registered id r) :
    s ∈ (w.room r).sessions ↔ (w.session s).currentRoom = id := by
  have hid := hr.roomId hw.lookups.registry
  refine ⟨fun hs => (hw.members.currentRoom s r hs).trans hid, fun hcur => ?_⟩
  have hne := hr.ne_intMax hw.lookups.ids
  rw [← hcur] at hne hr
  obtain ⟨r', hr', hs⟩ := hw.lookups.pointers.leads s hne
  obtain rfl := hr'.unique hr
  exact hs

omit [Scalar F] in
/-- A session that is in a room is in one that is registered. -/
theorem Orderly.leads (hw : w.Orderly) (hs : (w.session s).currentRoom ≠ intMax) :
    ∃ r, w.Registered (w.session s).currentRoom r ∧ s ∈ (w.room r).sessions := hw.lookups.pointers.leads s hs

omit [Scalar F] in
theorem Registered.lt_nextRoom (hw : w.Orderly) (hr : w.Registered id r) : r < w.nextRoom := by
  obtain ⟨q, hq, hlt, -⟩ := hw.lookups.registry.entry id _ hr
  obtain rfl := Option.some.inj hq
  exact hlt

/-! ## Rooms keep what they were made with -/

/-- Ids are used once, and a room keeps what it was made with. -/
structure Keeps (w w' : World F) : Prop where
  count : w.roomManager.roomIdCount ≤ w'.roomManager.roomIdCount
  registered : ∀ {id r}, w'.Registered id r → id < w.roomManager.roomIdCount → w.Registered id r
  card : ∀ {id r}, w.Registered id r → (w'.room r).card = (w.room r).card

section

omit [Scalar F]

theorem Leaves.registered_of {freed : List SessionRef} (hl : Leaves w w' r s freed) (hr : w'.Registered id q) :
    w.Registered id q := by
  unfold Registered at hr ⊢
  cases hl with
  | stays _ hb => rw [← hb.rooms]; exact hr
  | closed _ hb =>
      rw [hb.rooms] at hr
      exact Table.of_getElem?_erase hr

theorem Leaves.roomIdCount {freed : List SessionRef} (hl : Leaves w w' r s freed) :
    w'.roomManager.roomIdCount = w.roomManager.roomIdCount := by
  cases hl with
  | stays _ hb => exact hb.roomIdCount
  | closed _ hb => exact hb.roomIdCount

end

theorem keeps_tells (hw : w.Orderly) (hg : w.FromNone e) (ht : Tells w w' e) : Keeps w w' := by
  cases ht with
  | game _ hq h => exact ⟨hq.roomIdCount.ge, fun hr _ => (hq.registered).mp hr, fun _ => (h.room _).card⟩
  | tick hq h => exact ⟨hq.roomIdCount.ge, fun hr _ => (hq.registered).mp hr, fun _ => (h.room _).card⟩
  | answer _ hq h => exact ⟨hq.roomIdCount.ge, fun hr _ => (hq.registered).mp hr, fun _ => h.card _⟩
  | login _ hq _ hroom => exact ⟨hq.roomIdCount.ge, fun hr _ => (hq.registered).mp hr, fun _ => by rw [hroom]⟩
  | @players _ _ r hr h =>
      subst h
      refine ⟨Int.le_refl _, fun hr _ => hr, fun {_ q} _ => ?_⟩
      rw [room_setRoom]
      split
      · next hq => rw [hq]; rfl
      · rfl
  | @create s gameId gameName gamePassWord mapHash h =>
      subst h
      refine ⟨?_, fun {id r} hr hlt => ?_, fun {id r} hr => ?_⟩
      · change _ ≤ (w.created s gameId gameName gamePassWord mapHash).roomManager.roomIdCount
        rw [roomIdCount_created hw.lookups.ids hg.2]
        omega
      · have hr' : (w.created s gameId gameName gamePassWord mapHash).roomManager.rooms[id]? = some (some r) := hr
        rw [rooms_created, if_neg (by omega)] at hr'
        exact hr'
      · change ((w.created s gameId gameName gamePassWord mapHash).room r).card = _
        rw [room_created, if_neg (Nat.ne_of_lt (hr.lt_nextRoom hw))]
  | @join s _ _ r hr ha h =>
      subst h
      refine ⟨Int.le_refl _, fun hr _ => hr, fun {_ q} _ => ?_⟩
      change ((w.roomAdd r s).room q).card = _
      rw [room_roomAdd]
      split
      · next hq => rw [hq]; rfl
      · rfl
  | exit hr hl h => exact ⟨hl.roomIdCount.ge, fun hr _ => hl.registered_of hr, fun _ => h.card _⟩
  | disconnect hr hl h => exact ⟨hl.roomIdCount.ge, fun hr _ => hl.registered_of hr, fun _ => h.card _⟩
  | gone hr hq h => exact ⟨hq.roomIdCount.ge, fun hr _ => (hq.registered).mp hr, fun _ => h.card _⟩
  | connect h =>
      subst h
      exact ⟨Int.le_refl _, fun hr _ => hr, fun _ => rfl⟩

/-! ## What one session hears -/

/-- The names of the members. -/
def names (w : World F) (r : RoomRef) : List Int :=
  (w.room r).sessions.toList.map fun player => (w.session player).playerName

/-- The packet asks for a room with this map. -/
def Wants (w : World F) (mapHash : List UInt8) : ClientPacket F → Prop
  | .cRoomCreate _ _ _ hash => hash = mapHash
  | .cRoomRequest roomCode _ => ∃ r, w.Registered roomCode.toInt r ∧ (w.room r).mapHash = mapHash
  | _ => False

/-- What a step can tell a session. -/
inductive Hears (w w' : World F) (e : Event F) (t : SessionRef) : List (ServerMessage F) → Prop
  | plain {news : List (ServerMessage F)} (hroom : (w'.session t).currentRoom = (w.session t).currentRoom)
      (h : ∀ msg ∈ news, msg.Plain) : Hears w w' e t news
  | listing {roomData : List RoomData} (hroom : (w'.session t).currentRoom = (w.session t).currentRoom)
      (h : w.Lists roomData) : Hears w w' e t [.sRoomData roomData]
  | login (gameId : Int) (hroom : (w'.session t).currentRoom = (w.session t).currentRoom)
      (hnone : (w.session t).currentRoom = intMax) : Hears w w' e t [.sLogin gameId true]
  | informed {r : RoomRef} {ids : List Int} (hroom : (w'.session t).currentRoom = (w.session t).currentRoom)
      (hr : w'.Registered (w'.session t).currentRoom r) (hids : ids.Perm (w'.names r)) :
      Hears w w' e t [.sLobbyPlayerInfo ids]
  | admitted {pkt : ClientPacket F} {r : RoomRef} (he : e = .packet t pkt)
      (hwants : w.Wants (w'.room r).mapHash pkt) (hnone : (w.session t).currentRoom = intMax)
      (hr : w'.Registered (w'.session t).currentRoom r) :
      Hears w w' e t [roomLobby (w'.room r) (w'.session t).currentRoom]
  | thrown (code : DisconnectCode) (hin : (w.session t).currentRoom ≠ intMax)
      (hout : (w'.session t).currentRoom = intMax) : Hears w w' e t [.sRoomExit code]

omit [Scalar F] in
theorem Hears.nothing (hroom : (w'.session t).currentRoom = (w.session t).currentRoom) : Hears w w' e t [] :=
  .plain hroom fun _ hmsg => absurd hmsg List.not_mem_nil

omit [Scalar F] in
/-- The set and the map list the same members. -/
theorem names_perm_keys (hcounts : (w.room r).membership.Counts) :
    ((w.room r).sessionPlayers.keys.map fun player => (w.session player).playerName).Perm (w.names r) := by
  refine List.Perm.map _ ((List.perm_ext_iff_of_nodup ?_ (Table.set_nodup_toList _)).mpr fun s => ?_)
  · exact Std.ExtTreeMap.nodup_keys
  · rw [Std.ExtTreeMap.mem_keys, Std.ExtTreeSet.mem_toList]
    exact hcounts.mem s

omit [Scalar F] in
/-- A room alone has spoken. -/
theorem news_broadcast (hr : r < w.nextRoom) (msg : ServerMessage F) (t : SessionRef) :
    w.news (w.setRoom r ((w.room r).broadcast msg)) t = if t ∈ (w.room r).sessions then [msg] else [] := by
  unfold news
  have hsent : (w.setRoom r ((w.room r).broadcast msg)).sent = w.sent := rfl
  have hothers : ∀ q, q ≠ r →
      heardBy t (((w.setRoom r ((w.room r).broadcast msg)).room q).sent.drop (w.room q).sent.length) = [] := by
    intro q hq
    rw [room_setRoom, if_neg hq, List.drop_length]
    rfl
  have hroom : ((w.setRoom r ((w.room r).broadcast msg)).room r).sent =
      (w.room r).sent ++ (w.room r).sessions.toList.map fun player => (player, msg) := by
    rw [room_setRoom, if_pos rfl]
    rfl
  rw [hsent, List.drop_length, flatMap_range_single (by exact hr) hothers, hroom, List.drop_left,
    heardBy_map (Table.set_nodup_toList _)]
  simp only [Std.ExtTreeSet.mem_toList]
  rfl

omit [Scalar F] in
/-- What the others hear when `s` leaves their room. -/
theorem hears_leaves (hmem : ∀ t, t ∈ (w.room r).sessions ↔ (w.session t).currentRoom = id) (hid : id ≠ intMax)
    (hr : w.Registered id r) (hl : Leaves w w' r s [s])
    (hname : ∀ t, (w'.session t).playerName = (w.session t).playerName) (hts : t ≠ s) :
    Hears w w' e t (if t ∈ (w.without r s).sessions then [w.farewell r s] else []) := by
  by_cases ht : t ∈ (w.without r s).sessions
  · rw [if_pos ht]
    have hcur : (w.session t).currentRoom = id := (hmem t).mp (mem_without.mp ht).1
    unfold farewell
    cases hl with
    | closed hc hb =>
        rw [if_pos hc]
        refine .thrown .adminExit (by rw [hcur]; exact hid) ?_
        rw [hb.currentRoom, if_pos]
        refine List.mem_append_left _ ?_
        rw [List.mem_reverse, Std.ExtTreeSet.mem_toList]
        exact ht
    | stays hc hb =>
        have hsame : (w'.session t).currentRoom = (w.session t).currentRoom := by
          rw [hb.currentRoom, if_neg (by simpa using hts)]
        have hsessions : (w'.room r).sessions = (w.without r s).sessions := by
          have hroom := congrArg Membership.sessions (hb.room r)
          rw [if_pos rfl] at hroom
          exact hroom
        rw [if_neg (by simp [hc])]
        refine .informed hsame (r := r) ?_ ?_
        · rw [hsame, hcur]
          unfold Registered
          rw [hb.rooms]
          exact hr
        · unfold names
          rw [hsessions]
          exact List.Perm.of_eq (List.map_congr_left fun player _ => (hname player).symm)
  · rw [if_neg ht]
    refine .nothing (hl.currentRoom hts fun hin => ht (mem_without.mpr ⟨hin, hts⟩))

omit [Scalar F] in
theorem Hears.of_dropped {news : List (ServerMessage F)} (h : Hears (w.dropped s) w' e t news) :
    Hears w w' e t news := by
  have hcur := dropped_currentRoom w s t
  cases h with
  | plain hroom h => exact .plain (hroom.trans hcur) h
  | listing hroom h => exact .listing (hroom.trans hcur) h
  | login gameId hroom hnone => exact .login gameId (hroom.trans hcur) (hcur.symm.trans hnone)
  | informed hroom hr hids => exact .informed (hroom.trans hcur) hr hids
  | admitted he hwants hnone hr => exact .admitted he hwants (hcur.symm.trans hnone) hr
  | thrown code hin hout => exact .thrown code (by rw [← hcur]; exact hin) hout

theorem news_create {gameId : UInt64} {gameName gamePassWord mapHash : List UInt8}
    (h : w' = { w.created s gameId gameName gamePassWord mapHash with
      sent := w.sent ++ [(s, roomLobby ((w.created s gameId gameName gamePassWord mapHash).room w.nextRoom)
        ((w.created s gameId gameName gamePassWord mapHash).room w.nextRoom).roomId)] }) (t : SessionRef) :
    w.news w' t = if s = t then [roomLobby (w'.room w.nextRoom) w.roomManager.roomIdCount] else [] := by
  have hroom : w'.room = (w.created s gameId gameName gamePassWord mapHash).room := by rw [h]
  have hquiet : ∀ q, (w'.room q).sent.drop (w.room q).sent.length = [] := by
    intro q
    rw [hroom, room_created]
    split
    · exact List.drop_nil
    · exact List.drop_length
  have hid : (w'.room w.nextRoom).roomId = w.roomManager.roomIdCount := by
    rw [hroom, room_created, if_pos rfl]
    rfl
  rw [news_of_sent (by rw [h]) hquiet, heardBy_single, ← hid, hroom]

theorem registered_create {gameId : UInt64} {gameName gamePassWord mapHash : List UInt8}
    {sent : List (SessionRef × ServerMessage F)}
    (h : w' = { w.created s gameId gameName gamePassWord mapHash with sent := sent }) :
    w'.Registered id r ↔ if id = w.roomManager.roomIdCount then r = w.nextRoom else w.Registered id r := by
  have hrooms : w'.roomManager.rooms = (w.created s gameId gameName gamePassWord mapHash).roomManager.rooms := by
    rw [h]
  unfold Registered
  rw [hrooms, rooms_created]
  split
  · rw [Option.some.injEq, Option.some.injEq]
    exact eq_comm
  · rfl

theorem hears_create {gameId : UInt64} {gameName gamePassWord mapHash : List UInt8}
    (hnone : (w.session s).currentRoom = intMax)
    (h : w' = { w.created s gameId gameName gamePassWord mapHash with
      sent := w.sent ++ [(s, roomLobby ((w.created s gameId gameName gamePassWord mapHash).room w.nextRoom)
        ((w.created s gameId gameName gamePassWord mapHash).room w.nextRoom).roomId)] }) (t : SessionRef) :
    Hears w w' (.packet s (.cRoomCreate gameId gameName gamePassWord mapHash)) t (w.news w' t) := by
  have hcur : (w'.session t).currentRoom = if t = s then w.roomManager.roomIdCount else (w.session t).currentRoom := by
    rw [h]
    exact currentRoom_created ..
  rw [news_create h]
  rcases eq_or_ne t s with rfl | hts
  · rw [if_pos rfl] at hcur ⊢
    rw [← hcur]
    refine .admitted rfl ?_ hnone ?_
    · rw [h]
      change mapHash = ((w.created t gameId gameName gamePassWord mapHash).room w.nextRoom).mapHash
      rw [room_created, if_pos rfl]
      rfl
    · rw [registered_create h, if_pos hcur]
  · rw [if_neg hts] at hcur
    rw [if_neg hts.symm]
    exact .nothing hcur

omit [Scalar F] in
theorem news_join {roomCode : Int32} (h : w' = { w.roomAdd r s with
      sent := w.sent ++ [(s, roomLobby ((w.roomAdd r s).room r) roomCode.toInt)] }) (t : SessionRef) :
    w.news w' t = if s = t then [roomLobby (w'.room r) roomCode.toInt] else [] := by
  have hroom : w'.room = (w.roomAdd r s).room := by rw [h]
  have hquiet : ∀ q, (w'.room q).sent.drop (w.room q).sent.length = [] := by
    intro q
    rw [hroom, room_roomAdd]
    split
    · next hq => rw [hq]; exact List.drop_length
    · exact List.drop_length
  rw [news_of_sent (by rw [h]) hquiet, heardBy_single, hroom]

omit [Scalar F] in
theorem hears_join (hw : w.Orderly) {roomCode : Int32} {gamePassWord : List UInt8}
    (hr : w.Registered roomCode.toInt r) (hnone : (w.session s).currentRoom = intMax)
    (h : w' = { w.roomAdd r s with
      sent := w.sent ++ [(s, roomLobby ((w.roomAdd r s).room r) roomCode.toInt)] }) (t : SessionRef) :
    Hears w w' (.packet s (.cRoomRequest roomCode gamePassWord)) t (w.news w' t) := by
  have hcur : (w'.session t).currentRoom = if t = s then roomCode.toInt else (w.session t).currentRoom := by
    rw [h]
    change ((w.roomAdd r s).session t).currentRoom = _
    rw [currentRoom_roomAdd, hr.roomId hw.lookups.registry]
  rw [news_join h]
  rcases eq_or_ne t s with rfl | hts
  · rw [if_pos rfl] at hcur ⊢
    rw [← hcur]
    refine .admitted rfl ⟨r, hr, ?_⟩ hnone ?_
    · rw [h]
      change _ = ((w.roomAdd r t).room r).mapHash
      rw [room_roomAdd, if_pos rfl]
      rfl
    · rw [hcur, h]
      exact hr
  · rw [if_neg hts] at hcur
    rw [if_neg hts.symm]
    exact .nothing hcur

/-- **What a session hears in a step.** -/
theorem hears_tells (hw : w.Orderly) (hg : w.FromNone e) (ht : Tells w w' e)
    (hstays : e ≠ .disconnect t) : Hears w w' e t (w.news w' t) := by
  cases ht with
  | game _ hq h => exact .plain (hq.currentRoom t) h.plain
  | tick hq h => exact .plain (hq.currentRoom t) h.plain
  | @answer s _ msg _ hq h hmsg =>
      rw [h.news, heardBy_single]
      split
      · rcases hmsg with hmsg | ⟨roomData, rfl, hlists⟩
        · exact .plain (hq.currentRoom t) (List.forall_mem_singleton.mpr hmsg)
        · exact .listing (hq.currentRoom t) hlists
      · exact .nothing (hq.currentRoom t)
  | @login s _ gameId hq hsent hroom hname =>
      rw [news_of_sent hsent (fun r => by rw [hroom, List.drop_length]), heardBy_single]
      split
      · next hst => exact .login gameId (hq.currentRoom t) (hst ▸ hg)
      · exact .nothing (hq.currentRoom t)
  | @players _ roomCode r hr h =>
      subst h
      rw [news_broadcast (hr.lt_nextRoom hw)]
      split
      · next hmember =>
        have hcur := (hw.mem_iff hr).mp hmember
        refine .informed (r := r) rfl (by rw [← hcur] at hr; exact hr) ?_
        refine (names_perm_keys (hw.counts.room _ r hr).1).trans (List.Perm.of_eq ?_)
        unfold names
        rw [room_setRoom, if_pos rfl]
        rfl
      · exact .nothing rfl
  | create h => exact hears_create hg.1 h t
  | join hr ha h => exact hears_join hw hr hg h t
  | @exit s r hr hl h =>
      rw [h.news, heardBy_append, heardBy_map (Table.set_nodup_toList _), heardBy_single]
      simp only [Std.ExtTreeSet.mem_toList]
      have hne := hr.ne_intMax hw.lookups.ids
      rcases eq_or_ne t s with rfl | hts
      · rw [if_pos rfl, if_neg fun hin => (mem_without.mp hin).2 rfl]
        exact .thrown .exit hne hl.currentRoom_self
      · rw [if_neg hts.symm, List.append_nil]
        exact hears_leaves (fun _ => hw.mem_iff hr) hne hr hl h.playerName hts
  | @disconnect s r hr hl h =>
      have hts : t ≠ s := by
        rintro rfl
        exact hstays rfl
      have hnews : w.news w' t = heardBy t ((w.without r s).sessions.toList.map fun player =>
          (player, (w.dropped s).farewell r s)) := h.news t
      rw [hnews, heardBy_map (Table.set_nodup_toList _)]
      simp only [Std.ExtTreeSet.mem_toList]
      have hmem : ∀ t', t' ∈ ((w.dropped s).room r).sessions ↔
          ((w.dropped s).session t').currentRoom = (w.session s).currentRoom := by
        intro t'
        rw [dropped_currentRoom]
        exact hw.mem_iff hr
      exact (hears_leaves hmem (hr.ne_intMax hw.lookups.ids) hr hl h.playerName hts).of_dropped
  | @gone s hr hq h =>
      have hts : t ≠ s := by
        rintro rfl
        exact hstays rfl
      rw [h.news]
      refine .nothing ?_
      rw [hq.currentRoom, currentRoom_setRoomId, if_neg hts, dropped_currentRoom]
  | connect h =>
      subst h
      have hnews : w.news w.onConnected t = heardBy t [] :=
        news_of_sent (List.append_nil _).symm (fun _ => List.drop_length) t
      rw [hnews]
      refine .nothing ?_
      rw [currentRoom_onConnected]
      split
      · next hnew =>
        by_contra hne
        obtain ⟨r, -, hs⟩ := hw.leads (s := t) fun hcur => hne hcur.symm
        exact absurd hnew (Nat.ne_of_lt (hw.alive.lt t r hs))
      · rfl

/-! ## Who is told about the members of a room -/

/-- What a step does to a room that is there afterwards. -/
inductive Roster (w w' : World F) (e : Event F) (id : Int) (r : RoomRef) : Prop
  /-- It has the same members, who hear nothing about each other, and nobody's request to be told is handled. -/
  | kept (hr : w.Registered id r) (hsessions : (w'.room r).sessions = (w.room r).sessions)
      (hnames : w'.names r = w.names r)
      (hquiet : ∀ t ∈ (w'.room r).sessions, ∀ ids, .sLobbyPlayerInfo ids ∉ w.news w' t)
      (hnot : ∀ s roomCode, e = .packet s (.cRoomPlayerListRequest roomCode) → roomCode.toInt ≠ id)
  /-- Its members are told who is in it. -/
  | informed (h : ∀ t ∈ (w'.room r).sessions, ∃ ids, w.news w' t = [.sLobbyPlayerInfo ids] ∧ ids.Perm (w'.names r))
  /-- Somebody has come in. -/
  | joined {t : SessionRef} (ht : t ∈ (w'.room r).sessions) (hnews : w.news w' t = [roomLobby (w'.room r) id])
      (hnot : ∀ s roomCode, e = .packet s (.cRoomPlayerListRequest roomCode) → roomCode.toInt ≠ id)

omit [Scalar F] in
theorem names_of_eq (hsessions : (w'.room r).sessions = (w.room r).sessions)
    (hname : ∀ t ∈ (w.room r).sessions, (w'.session t).playerName = (w.session t).playerName) :
    w'.names r = w.names r := by
  unfold names
  rw [hsessions]
  exact List.map_congr_left fun player hplayer => hname player (Std.ExtTreeSet.mem_toList.mp hplayer)

theorem roster_game (hr : w'.Registered id r) (hq : Quiet w w') (h : Plays w w')
    (hnot : ∀ s roomCode, e = .packet s (.cRoomPlayerListRequest roomCode) → roomCode.toInt ≠ id) :
    Roster w w' e id r := by
  refine .kept (hq.registered.mp hr) (hq.sessions r) (names_of_eq (hq.sessions r) fun t _ => by rw [h.session]) ?_ hnot
  exact fun t _ ids hin => h.plain _ hin

omit [Scalar F] in
/-- A step that tells nobody about the members of a room, and changes none of them. -/
theorem roster_writes {own : List (SessionRef × ServerMessage F)} (hr : w.Registered id r)
    (hsessions : (w'.room r).sessions = (w.room r).sessions) (h : Writes w w' own)
    (hown : ∀ p ∈ own, p.1 ∈ (w.room r).sessions → ∀ ids, p.2 ≠ .sLobbyPlayerInfo ids)
    (hnot : ∀ s roomCode, e = .packet s (.cRoomPlayerListRequest roomCode) → roomCode.toInt ≠ id) :
    Roster w w' e id r := by
  refine .kept hr hsessions (names_of_eq hsessions fun t _ => h.playerName t) ?_ hnot
  intro t ht ids hin
  rw [h.news, mem_heardBy] at hin
  rw [hsessions] at ht
  exact hown _ hin ht ids rfl

omit [Scalar F] in
/-- The request is about another room, or there is none. -/
theorem not_asked {pkt : ClientPacket F} (h : ∀ roomCode, pkt ≠ .cRoomPlayerListRequest roomCode) :
    ∀ s' roomCode, Event.packet s pkt = .packet s' (.cRoomPlayerListRequest roomCode) → roomCode.toInt ≠ id := by
  intro s' roomCode he
  exact absurd (Event.packet.inj he).2 (h roomCode)

omit [Scalar F] in
/-- The members of the rooms that are left alone, and of the one that is left. -/
theorem roster_leaves (hmem : ∀ t q, t ∈ (w.room q).sessions → t ∈ (w.room r).sessions → q = r)
    (hl : Leaves w w' r s [s]) {own : List (SessionRef × ServerMessage F)}
    (h : Writes w w' ((w.without r s).sessions.toList.map (fun player => (player, w.farewell r s)) ++ own))
    (hown : ∀ p ∈ own, p.1 = s ∧ ∀ ids, p.2 ≠ .sLobbyPlayerInfo ids)
    (hr : w'.Registered id q) (hroomId : (w.room q).roomId = id)
    (hnot : ∀ s roomCode, e = .packet s (.cRoomPlayerListRequest roomCode) → roomCode.toInt ≠ id) :
    Roster w w' e id q := by
  rcases eq_or_ne q r with rfl | hqr
  · cases hl with
    | closed hc hb =>
        unfold Registered at hr
        rw [hb.rooms, hroomId, Table.getElem?_erase, if_pos rfl] at hr
        cases hr
    | stays hc hb =>
        have hsessions : (w'.room q).sessions = (w.without q s).sessions := by
          have hroom := congrArg Membership.sessions (hb.room q)
          rw [if_pos rfl] at hroom
          exact hroom
        refine .informed fun t ht => ?_
        rw [hsessions] at ht
        have hts := (mem_without.mp ht).2
        have hrest : heardBy t own = [] := by
          refine List.eq_nil_iff_forall_not_mem.mpr fun msg hmsg => ?_
          exact hts (hown _ (mem_heardBy.mp hmsg)).1
        have hnews := h.news t
        rw [heardBy_append, heardBy_map (Table.set_nodup_toList _), hrest, List.append_nil,
          if_pos (Std.ExtTreeSet.mem_toList.mpr ht)] at hnews
        unfold farewell at hnews
        rw [if_neg (by simp [hc])] at hnews
        refine ⟨_, hnews, ?_⟩
        unfold names
        rw [hsessions]
        exact List.Perm.of_eq (List.map_congr_left fun player _ => (h.playerName player).symm)
  · have hsessions : (w'.room q).sessions = (w.room q).sessions := by
      cases hl with
      | stays _ hb =>
          have hroom := congrArg Membership.sessions (hb.room q)
          rw [if_neg hqr] at hroom
          exact hroom
      | closed _ hb =>
          have hroom := congrArg Membership.sessions (hb.room q)
          rw [if_neg hqr] at hroom
          exact hroom
    refine roster_writes (hl.registered_of hr) hsessions h (fun p hp hin => ?_) hnot
    rcases List.mem_append.mp hp with hp | hp
    · obtain ⟨player, hplayer, rfl⟩ := List.mem_map.mp hp
      exact absurd (hmem player q hin (mem_without.mp (Std.ExtTreeSet.mem_toList.mp hplayer)).1) hqr
    · exact (hown p hp).2

theorem roster_create (hw : w.Orderly) {gameId : UInt64} {gameName gamePassWord mapHash : List UInt8}
    (hnone : (w.session s).currentRoom = intMax)
    (h : w' = { w.created s gameId gameName gamePassWord mapHash with
      sent := w.sent ++ [(s, roomLobby ((w.created s gameId gameName gamePassWord mapHash).room w.nextRoom)
        ((w.created s gameId gameName gamePassWord mapHash).room w.nextRoom).roomId)] })
    (hr : w'.Registered id q) : Roster w w' (.packet s (.cRoomCreate gameId gameName gamePassWord mapHash)) id q := by
  have hroom : w'.room = (w.created s gameId gameName gamePassWord mapHash).room := by rw [h]
  rw [registered_create h] at hr
  split at hr
  · next hid =>
    subst hr
    refine .joined (t := s) ?_ ?_ nofun
    · rw [hroom, room_created, if_pos rfl]
      exact Table.set_mem_insert.mpr (.inl rfl)
    · rw [news_create h, if_pos rfl, hid]
  · have hsessions : (w'.room q).sessions = (w.room q).sessions := by
      rw [hroom, room_created, if_neg (Nat.ne_of_lt (hr.lt_nextRoom hw))]
    have hname : ∀ t, (w'.session t).playerName = (w.session t).playerName := fun t => by
      rw [h]
      exact (writes_setRoomId _ s _).playerName t
    refine .kept hr hsessions (names_of_eq hsessions fun t _ => hname t) (fun t ht ids hin => ?_) (not_asked nofun)
    have hts : s ≠ t := by
      rintro rfl
      rw [hsessions] at ht
      exact hw.members.ne_intMax hw.lookups.ids ht hnone
    rw [news_create h, if_neg hts] at hin
    cases hin

omit [Scalar F] in
theorem roster_join (hw : w.Orderly) {roomCode : Int32} {gamePassWord : List UInt8}
    (hnone : (w.session s).currentRoom = intMax) (hadd : w.Registered roomCode.toInt r)
    (h : w' = { w.roomAdd r s with
      sent := w.sent ++ [(s, roomLobby ((w.roomAdd r s).room r) roomCode.toInt)] })
    (hr : w'.Registered id q) : Roster w w' (.packet s (.cRoomRequest roomCode gamePassWord)) id q := by
  have hroom : w'.room = (w.roomAdd r s).room := by rw [h]
  have hreg : w.Registered id q := by
    rw [h] at hr
    exact hr
  rcases eq_or_ne q r with rfl | hqr
  · have hid : roomCode.toInt = id :=
      (hadd.roomId hw.lookups.registry).symm.trans (hreg.roomId hw.lookups.registry)
    refine .joined (t := s) ?_ ?_ nofun
    · rw [hroom, room_roomAdd, if_pos rfl]
      exact Table.set_mem_insert.mpr (.inl rfl)
    · rw [news_join h, if_pos rfl, hid]
  · have hsessions : (w'.room q).sessions = (w.room q).sessions := by
      rw [hroom, room_roomAdd, if_neg hqr]
    have hname : ∀ t, (w'.session t).playerName = (w.session t).playerName := fun t => by
      rw [h]
      exact (writes_setRoomId _ s _).playerName t
    refine .kept hreg hsessions (names_of_eq hsessions fun t _ => hname t) (fun t ht ids hin => ?_) (not_asked nofun)
    have hts : s ≠ t := by
      rintro rfl
      rw [hsessions] at ht
      exact hw.members.ne_intMax hw.lookups.ids ht hnone
    rw [news_join h, if_neg hts] at hin
    cases hin

omit [Scalar F] in
theorem roster_players (hw : w.Orderly) {roomCode : Int32} (hadd : w.Registered roomCode.toInt r)
    (h : w' = w.setRoom r ((w.room r).broadcast
      (.sLobbyPlayerInfo ((w.room r).sessionPlayers.keys.map fun player => (w.session player).playerName))))
    (hr : w'.Registered id q) : Roster w w' (.packet s (.cRoomPlayerListRequest roomCode)) id q := by
  have hsessions : (w'.room q).sessions = (w.room q).sessions := by
    rw [h, room_setRoom]
    split
    · next hq => rw [hq]; rfl
    · rfl
  have hreg : w.Registered id q := by
    rw [h] at hr
    exact hr
  have hsession : w'.session = w.session := by rw [h]; rfl
  have hnames : w'.names q = w.names q := names_of_eq hsessions fun t _ => by rw [hsession]
  have hnews : ∀ t, w.news w' t = if t ∈ (w.room r).sessions then [.sLobbyPlayerInfo
      ((w.room r).sessionPlayers.keys.map fun player => (w.session player).playerName)] else [] := by
    intro t
    rw [h]
    exact news_broadcast (hadd.lt_nextRoom hw) _ t
  rcases eq_or_ne q r with rfl | hqr
  · refine .informed fun t ht => ?_
    rw [hsessions] at ht
    rw [hnews, if_pos ht, hnames]
    exact ⟨_, rfl, names_perm_keys (hw.counts.room _ q hreg).1⟩
  · refine .kept hreg hsessions hnames (fun t ht ids hin => ?_) fun s' code he => ?_
    · rw [hsessions] at ht
      rw [hnews, if_neg fun hin' => hqr (hw.members.one_room ht hin')] at hin
      cases hin
    · obtain ⟨rfl, hcode⟩ := Event.packet.inj he
      obtain rfl := ClientPacket.cRoomPlayerListRequest.inj hcode
      rintro rfl
      exact hqr (hreg.unique hadd)

/-- **What a step does to the rooms that are there afterwards.** -/
theorem roster_tells (hw : w.Orderly) (hg : w.FromNone e) (ht : Tells w w' e) (hr : w'.Registered id q) :
    Roster w w' e id q := by
  cases ht with
  | game hpkt hq h => exact roster_game hr hq h (not_asked hpkt)
  | tick hq h => exact roster_game hr hq h nofun
  | @answer s _ msg hpkt hq h hmsg =>
      refine roster_writes (hq.registered.mp hr) (hq.sessions q) h (fun p hp _ ids heq => ?_) (not_asked hpkt)
      obtain rfl := List.mem_singleton.mp hp
      dsimp only at heq
      subst heq
      rcases hmsg with hmsg | ⟨roomData, hdata, -⟩
      · exact hmsg
      · cases hdata
  | @login s _ gameId hq hsent hroom hname =>
      have hsessions : (w'.room q).sessions = (w.room q).sessions := by rw [hroom]
      refine .kept (hq.registered.mp hr) hsessions (names_of_eq hsessions fun t ht => ?_) (fun t ht ids hin => ?_)
        (not_asked nofun)
      · rw [hname t]
        rintro rfl
        exact hw.members.ne_intMax hw.lookups.ids ht hg
      · rw [news_of_sent hsent (fun r => by rw [hroom, List.drop_length]), heardBy_single] at hin
        split at hin
        · cases List.mem_singleton.mp hin
        · cases hin
  | players hadd h => exact roster_players hw hadd h hr
  | create h => exact roster_create hw hg.1 h hr
  | join hadd ha h => exact roster_join hw hg hadd h hr
  | @exit s r hadd hl h =>
      refine roster_leaves (fun t q hq hr => hw.members.one_room hq hr) hl h (fun p hp => ?_) hr ?_ (not_asked nofun)
      · obtain rfl := List.mem_singleton.mp hp
        exact ⟨rfl, nofun⟩
      · exact (hl.registered_of hr).roomId hw.lookups.registry
  | @disconnect s r hadd hl h =>
      have hleft : Roster (w.dropped s) w' (.disconnect s) id q := by
        have hown := (List.append_nil ((w.without r s).sessions.toList.map fun player =>
          (player, (w.dropped s).farewell r s))).symm ▸ h
        refine roster_leaves (fun t q hq hr => hw.members.one_room hq hr) hl hown nofun hr ?_ nofun
        · have hreg : w.Registered id q := hl.registered_of hr
          have hid : (w.room q).roomId = id := hreg.roomId hw.lookups.registry
          exact hid
      cases hleft with
      | kept hr hsessions hnames hquiet hnot =>
          refine .kept hr hsessions (hnames.trans ?_) hquiet hnot
          exact names_of_eq rfl fun t _ => (writes_dropped w s).playerName t
      | informed h => exact .informed h
      | joined ht hnews hnot => exact .joined ht hnews hnot
  | @gone s hnot hq h =>
      have hreg : w.Registered id q := hq.registered.mp hr
      have hsessions : (w'.room q).sessions = (w.room q).sessions := hq.sessions q
      exact roster_writes hreg hsessions h nofun nofun
  | connect h =>
      subst h
      have hsent : w.onConnected.sent = w.sent ++ [] := (List.append_nil _).symm
      refine .kept hr rfl (names_of_eq rfl fun t ht => ?_) (fun t ht ids hin => ?_) nofun
      · have hne := Nat.ne_of_lt (hw.alive.lt t q ht)
        exact (field_setSession GameSession.playerName ..).trans (if_neg hne)
      · rw [news_of_sent hsent fun _ => List.drop_length] at hin
        cases hin

end World

end StarCraftIocp
