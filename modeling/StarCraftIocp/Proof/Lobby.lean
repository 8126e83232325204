import StarCraftIocp.Proof.LobbyKept

/-!
# Whoever is in a room shows it

The server handles one message at a time here. In runs in which nobody asks for a
room while an answer may still be under way, the server and its clients agree as
soon as nothing is under way: a client that the server has in a room is in the
lobby of that room, or in its game, with the room's name, map and host and with its
members, and no other client is in a lobby. A lobby has four labels for the players,
which name the first four.
-/

namespace StarCraftIocp

open CInt Protocol World

variable {F : Type} [Scalar F]

namespace Lobby

variable {knows : SessionRef → List UInt8 → Bool} {ofBits : UInt32 → F} {b b' : Lobby F} {w w' : World F}
  {s t : SessionRef} {id : Int} {r : RoomRef}

/-! ## A client takes a step -/

/-- From outside, with nothing under way that would change it. -/
theorem Kept.outside (h : Kept knows ofBits b s)
    (hscene : (b.client s).scene ≠ .matchMaking ∧ (b.client s).scene ≠ .battle)
    (hup : ∀ m ∈ b.up s, ¬ m.Asks) (hdown : ∀ m ∈ b.down s, ¬ m.Admits) :
    inRoom b.server s = false ∧ Leads askStep false (b.up s) false := by
  obtain ⟨inside, hplaced, hseat⟩ := h.seat
  obtain ⟨asked, hasks⟩ := h.asks
  have hinside : inside = false := by
    cases inside with
    | false => rfl
    | true => exact ((hplaced.1 rfl).elim hscene.1 hscene.2).elim
  subst hinside
  have hout := seat_none hseat hdown
  rw [hout] at hasks
  obtain rfl := leads_none hasks hup
  exact ⟨hout, hasks⟩

theorem Kept.read {d : PacketReader.Message} {rest : List PacketReader.Message} (h : Kept knows ofBits b s)
    (hdown : b.down s = d :: rest) :
    Kept knows ofBits { Parties.become b s ((b.client s).process (knows s) d) with
      down := Function.update b.down s rest } s := by
  obtain ⟨inside, hplaced, hseat⟩ := h.seat
  obtain ⟨asked, hasks⟩ := h.asks
  rw [hdown] at hseat
  obtain ⟨inside', hd, hseat⟩ := hseat.pop
  have hmem : ∀ m ∈ rest, m ∈ b.down s := fun m hm => hdown ▸ List.mem_cons_of_mem d hm
  have hsends := @neutral_process (knows s) (b.client s) d
  have hdue := (lobbyParties knows ofBits).due_read hdown s
  refine ⟨?_, ?_, ?_, ?_, ?_, ?_, fun r hr => ?_, hdue ▸ h.ready⟩
  · dsimp only [Parties.become]
    rw [Function.update_self, Function.update_self]
    exact ⟨inside', placed_process hplaced hd, hseat⟩
  · dsimp only [Parties.become]
    rw [Function.update_self]
    exact ⟨asked, hasks.append (.of_keeps fun u hu => hsends u hu asked)⟩
  · dsimp only [Parties.become]
    rw [Function.update_self, Function.update_self]
    intro hscene
    obtain ⟨hlogin, hnone⟩ := process_login hscene
    rw [hnone, List.append_nil]
    exact h.login hlogin
  · dsimp only
    rw [Function.update_self]
    exact fun m hm => h.told m (hmem m hm)
  · dsimp only [Parties.become]
    rw [Function.update_self]
    intro u hu
    rcases List.mem_append.mp hu with hu | hu
    · exact h.asked u hu
    · exact .of_not_asks (hsends u hu).not_asks
  · dsimp only [Parties.become]
    rw [Function.update_self]
    intro entry hentry
    rcases rooms_process hentry with hold | ⟨listed, rfl, hlisted⟩
    · exact h.rooms entry hold
    · have htold : ∀ d ∈ listed.roomData, MapOf b.server d.roomCode d.mapHash :=
        h.told (.sRoomData listed) (hdown ▸ List.mem_cons_self)
      exact htold entry hlisted
  · exact hdue ▸ h.view r hr

/-- What a client does of its own accord changes nothing of what a client is due to show. -/
theorem view_become {c : LobbyClient × List PacketWriter.Message} {t : SessionRef}
    (hview : c.1.view = (b.client s).view) : ((lobbyParties knows ofBits).due (Parties.become b s c) t).view =
      ((lobbyParties knows ofBits).due b t).view := by
  unfold Parties.due
  rw [view_reads, view_reads]
  rcases eq_or_ne t s with rfl | hts
  · dsimp only [Parties.become]
    rw [Function.update_self, hview]
  · dsimp only [Parties.become]
    rw [Function.update_of_ne hts]

/-- What a client does of its own accord. -/
theorem Kept.sends {c : LobbyClient × List PacketWriter.Message} (h : Kept knows ofBits b s)
    (hplaced : ∀ inside, Placed (b.client s) inside → Placed c.1 inside)
    (hasks : ∃ asked, Leads askStep (inRoom b.server s) (b.up s ++ c.2) asked)
    (hlogin : c.1.scene = .login → (b.client s).scene = .login ∧ ∀ m ∈ c.2, ¬ m.Asks)
    (hasked : ∀ m ∈ c.2, Asked (knows s) b.server m) (hrooms : ∀ d ∈ c.1.rooms, d ∈ (b.client s).rooms)
    (hview : c.1.view = (b.client s).view) : Kept knows ofBits (Parties.become b s c) s := by
  obtain ⟨inside, hin, hseat⟩ := h.seat
  have hdue := @view_become _ _ knows ofBits b s c s hview
  refine ⟨?_, ?_, ?_, h.told, ?_, ?_, fun r hr => ?_, ?_⟩
  · dsimp only [Parties.become]
    rw [Function.update_self]
    exact ⟨inside, hplaced inside hin, hseat⟩
  · dsimp only [Parties.become]
    rw [Function.update_self]
    exact hasks
  · dsimp only [Parties.become]
    rw [Function.update_self, Function.update_self]
    intro hscene
    obtain ⟨hscene, hnone⟩ := hlogin hscene
    obtain ⟨hout, hup⟩ := h.login hscene
    exact ⟨hout, fun m hm => (List.mem_append.mp hm).elim (hup m) (hnone m)⟩
  · dsimp only [Parties.become]
    rw [Function.update_self]
    exact fun m hm => (List.mem_append.mp hm).elim (h.asked m) (hasked m)
  · dsimp only [Parties.become]
    rw [Function.update_self]
    exact fun d hd => h.rooms d (hrooms d hd)
  · rw [hdue]
    exact h.view r hr
  · rw [hdue]
    exact h.ready

theorem Kept.user {a : UserAction} {c : LobbyClient × List PacketWriter.Message} (h : Kept knows ofBits b s)
    (hact : (b.client s).act (knows s) a = some c)
    (hpolite : a.Asks → (∀ m ∈ b.up s, ¬ m.Asks) ∧ ∀ m ∈ b.down s, ¬ m.Admits) :
    Kept knows ofBits (Parties.become b s c) s := by
  have hview := view_act hact
  cases acts_of_act hact with
  | login hscene =>
      obtain ⟨hout, hup⟩ := h.login hscene
      obtain ⟨asked, hasks⟩ := h.asks
      rw [hout] at hasks
      obtain rfl := leads_none hasks hup
      refine h.sends (fun _ => id) ?_ (fun _ => ⟨hscene, ?_⟩) ?_ (fun _ => id) hview
      · rw [hout]
        exact ⟨_, hasks.push rfl⟩
      · exact List.forall_mem_singleton.mpr id
      · exact List.forall_mem_singleton.mpr trivial
  | creates gameId hscene hknown =>
      obtain ⟨hup, hdown⟩ := hpolite trivial
      obtain ⟨hout, hasks⟩ := h.outside (by simp [hscene]) hup hdown
      refine h.sends (fun _ => id) ?_ (fun hlogin => ?_) ?_ (fun _ => id) hview
      · rw [hout]
        exact ⟨_, hasks.push rfl⟩
      · rw [hscene] at hlogin
        cases hlogin
      · exact List.forall_mem_singleton.mpr hknown
  | @requests entry passWord hscene hentry hknown =>
      obtain ⟨hup, hdown⟩ := hpolite trivial
      obtain ⟨hout, hasks⟩ := h.outside (by simp [hscene]) hup hdown
      refine h.sends (fun _ => id) ?_ (fun hlogin => ?_) ?_ (fun _ => id) hview
      · rw [hout]
        exact ⟨_, hasks.push rfl⟩
      · rw [hscene] at hlogin
        cases hlogin
      · exact List.forall_mem_singleton.mpr ⟨_, h.rooms entry hentry, hknown⟩
  | other hsends hscene hrooms =>
      obtain ⟨asked, hasks⟩ := h.asks
      refine h.sends (fun inside hin => ?_) ?_ (fun hlogin => ⟨?_, ?_⟩) ?_ hrooms hview
      · unfold Placed at hin ⊢
        rcases hscene with hscene | ⟨hbefore, hafter⟩
        · rw [hscene]
          exact hin
        · rw [hafter]
          refine ⟨fun hinside => ?_, fun _ => nofun⟩
          rcases hin.1 hinside with h | h
          · rw [hbefore] at h
            cases h
          · rw [hbefore] at h
            cases h
      · exact ⟨asked, hasks.append (.of_keeps fun u hu => hsends u hu asked)⟩
      · rcases hscene with hscene | ⟨-, hafter⟩
        · exact hscene ▸ hlogin
        · rw [hafter] at hlogin
          cases hlogin
      · exact fun m hm => (hsends m hm).not_asks
      · exact fun m hm => .of_not_asks (hsends m hm).not_asks

/-! ## The system -/

omit [Scalar F] in
/-- A session that is not gone: it is connected, or will be. -/
def Followed (w : World F) (s : SessionRef) : Prop := w.nextSession ≤ s ∨ (w.session s).connected = true

theorem followed_next {a : Env F × Event F} (h : w.next a = some w') (hf : Followed w' t) :
    Followed w t ∧ a.2 ≠ .disconnect t := by
  obtain ⟨hen, hm⟩ := loginMoves_next h
  clear h
  obtain ⟨env, e⟩ := a
  have hsame : ∀ {w1 : World F}, SameLogins w1 w' → w1.nextSession = w.nextSession →
      (w1.session t).connected = (w.session t).connected → Followed w t := by
    intro w1 hw1 hnext hconnected
    unfold Followed at hf ⊢
    rw [hw1.nextSession, hw1.connected, hnext, hconnected] at hf
    exact hf
  cases hm with
  | connect h =>
      refine ⟨?_, nofun⟩
      subst h
      unfold Followed at hf ⊢
      rcases Nat.lt_or_ge t w.nextSession with hlt | hge
      · have hold : w.onConnected.session t = w.session t := Function.update_of_ne (Nat.ne_of_lt hlt) ..
        rw [hold] at hf
        exact hf.imp_left fun hle => Nat.le_of_succ_le hle
      · exact .inl hge
  | admitted hid h => exact ⟨hsame h rfl (Logins.connected_admitted w _ t _), nofun⟩
  | refused hid h => exact ⟨hsame h rfl rfl, nofun⟩
  | packet hpkt h => exact ⟨hsame h rfl rfl, nofun⟩
  | @disconnect s h =>
      have hts : t ≠ s := by
        rintro rfl
        unfold Followed at hf
        rw [h.nextSession, h.connected, Logins.connected_leave, if_pos rfl] at hf
        rcases hf with hf | hf
        · exact absurd hen.1 (Nat.not_lt.mpr hf)
        · cases hf
      refine ⟨hsame h rfl ?_, fun he => hts (Event.disconnect.inj he).symm⟩
      rw [Logins.connected_leave, if_neg hts]
  | update h => exact ⟨hsame h rfl rfl, nofun⟩

/-- Something is under way by which the members of a room will be told who is in it. -/
def Pending (b : Lobby F) (t : SessionRef) (id : Int) : Prop :=
  (∃ code, .cRoomPlayerListRequest code ∈ b.up t ∧ code.toInt = id) ∨
    ∃ m, .sRoomLobby m ∈ b.down t ∧ m.roomCode.toInt = id

/-- The members of a room are due to know who is in it. -/
def Informed (knows : SessionRef → List UInt8 → Bool) (ofBits : UInt32 → F) (b : Lobby F) (r : RoomRef) : Prop :=
  ∀ t ∈ (b.server.room r).sessions,
    ((lobbyParties knows ofBits).due b t).view.players.Perm ((b.server.names r).map Int64.ofInt)

structure Sound (knows : SessionRef → List UInt8 → Bool) (ofBits : UInt32 → F) (b : Lobby F) : Prop where
  orderly : b.server.Orderly
  codes : ∀ {id r}, b.server.Registered id r → 0 ≤ id
  kept : ∀ s, Followed b.server s → Kept knows ofBits b s
  rosters : ∀ {id r}, b.server.Registered id r →
    Informed knows ofBits b r ∨ ∃ t ∈ (b.server.room r).sessions, Pending b t id
  lists : ∀ {id r t}, b.server.Registered id r → t ∈ (b.server.room r).sessions →
    ((lobbyParties knows ofBits).due b t).view.Lists ∨ Pending b t id

theorem sound_init (maps : List UInt8 → Option MapSectionData) : Sound knows ofBits (Lobby.init maps : Lobby F) := by
  have hnone : ∀ id r, ¬ (World.init maps : World F).Registered id r := fun id r hr => by
    simp [Registered, World.init, RoomManager.init] at hr
  exact ⟨orderly_init maps, fun hr => absurd hr (hnone _ _), fun s _ => kept_init maps s,
    fun hr => absurd hr (hnone _ _), fun hr => absurd hr (hnone _ _)⟩

omit [Scalar F] in
/-- Only the message that says who is in a room changes who a client thinks is. -/
theorem players_reads {k : List UInt8 → Bool} {ds : List PacketReader.Message}
    (hds : ∀ m ∈ ds, ∀ listed, m ≠ .sLobbyPlayerInfo listed) (v : RoomView) :
    (ds.foldl (RoomView.step k) v).players = v.players := by
  refine List.foldlRecOn (motive := fun v' : RoomView => v'.players = v.players) ds _ rfl fun v' hv' m hm => ?_
  refine Eq.trans ?_ hv'
  cases m with
  | sLobbyPlayerInfo listed => exact absurd rfl (hds _ hm listed)
  | sRoomResponse => exact RoomView.players_called k v'
  | sLogin m =>
      unfold RoomView.step
      dsimp only
      split <;> rfl
  | _ => rfl

section

variable {e : Event F} {up : SessionRef → List PacketWriter.Message}

/-- Whoever is still to be told is. -/
theorem Pending.serve (h : Pending b t id) (htaken : Taken ofBits e t (b.up t) (up t))
    (hnot : ∀ s roomCode, e = .packet s (.cRoomPlayerListRequest roomCode) → roomCode.toInt ≠ id) :
    Pending { (lobbyParties knows ofBits).advance b w' with up := up } t id := by
  rcases h with ⟨code, hcode, hid⟩ | ⟨m, hm, hid⟩
  · refine .inl ⟨code, ?_, hid⟩
    change _ ∈ up t
    rcases htaken.keeps hcode with hcode | he
    · exact hcode
    · exact absurd hid (hnot t code he)
  · exact .inr ⟨m, List.mem_append_left _ hm, hid⟩

theorem rosters_serve (hcodes' : ∀ {id r}, w'.Registered id r → 0 ≤ id) (hw' : w'.Orderly)
    (hold : b.server.Registered id r → Informed knows ofBits b r ∨ ∃ t ∈ (b.server.room r).sessions, Pending b t id)
    (htaken : ∀ t, Taken ofBits e t (b.up t) (up t)) (hr : w'.Registered id r) (h : Roster b.server w' e id r) :
    Informed knows ofBits { (lobbyParties knows ofBits).advance b w' with up := up } r ∨
      ∃ t ∈ (w'.room r).sessions, Pending { (lobbyParties knows ofBits).advance b w' with up := up } t id := by
  have hview : ∀ t, ((lobbyParties knows ofBits).due
      { (lobbyParties knows ofBits).advance b w' with up := up } t).view =
        ((b.server.news w' t).map ServerMessage.received).foldl (RoomView.step (knows t))
          ((lobbyParties knows ofBits).due b t).view := fun t => view_advance t
  cases h with
  | kept hreg hsessions hnames hquiet hnot =>
      rcases hold hreg with hinformed | ⟨t, ht, hpending⟩
      · refine .inl fun t ht => ?_
        have hmember : t ∈ (b.server.room r).sessions := hsessions ▸ ht
        have hperm := hinformed t hmember
        rw [← hnames] at hperm
        rw [hview, players_reads]
        · exact hperm
        · intro m hm listed hlisted
          obtain ⟨msg, hmsg, rfl⟩ := List.mem_map.mp hm
          cases msg with
          | sLobbyPlayerInfo ids => exact hquiet t ht ids hmsg
          | _ => cases hlisted
      · exact .inr ⟨t, hsessions ▸ ht, hpending.serve (htaken t) hnot⟩
  | informed h =>
      refine .inl fun t ht => ?_
      obtain ⟨ids, hnews, hids⟩ := h t ht
      rw [hview, hnews]
      change (RoomView.called _ _).players.Perm _
      rw [RoomView.players_called]
      have hsame : ∀ l : List Int, (l.map fun id => ({ playerId := Int64.ofInt id } : PacketReader.PlayerInfo)).map
          PacketReader.PlayerInfo.playerId = l.map Int64.ofInt := fun l => List.map_map
      refine List.Perm.trans (List.Perm.of_eq (hsame ids)) (hids.map _)
  | @joined t ht hnews hnot =>
      have hlobby : (roomLobby (w'.room r) id).received ∈ (b.server.news w' t).map ServerMessage.received := by
        rw [hnews]
        exact List.mem_singleton.mpr rfl
      exact .inr ⟨t, ht, .inr ⟨_, List.mem_append_right _ hlobby, toInt_code hw' (hcodes' hr) hr⟩⟩

/-- A member's labels say who is there, or it is still to be told. -/
theorem lists_serve {news : List (ServerMessage F)} (hw : b.server.Orderly) (hw' : w'.Orderly)
    (hcodes' : ∀ {id r}, w'.Registered id r → 0 ≤ id) (hk : Keeps b.server w') (hnews : b.server.news w' t = news)
    (hh : Hears b.server w' e t news) (hroster : Roster b.server w' e id r)
    (hready : ((lobbyParties knows ofBits).due b t).view.Ready (knows t))
    (hold : b.server.Registered id r → t ∈ (b.server.room r).sessions →
      ((lobbyParties knows ofBits).due b t).view.Lists ∨ Pending b t id)
    (htaken : Taken ofBits e t (b.up t) (up t)) (hr : w'.Registered id r) (ht : t ∈ (w'.room r).sessions) :
    ((lobbyParties knows ofBits).due { (lobbyParties knows ofBits).advance b w' with up := up } t).view.Lists ∨
      Pending { (lobbyParties knows ofBits).advance b w' with up := up } t id := by
  have hid : (w'.session t).currentRoom = id :=
    (hw'.members.currentRoom t r ht).trans (hr.roomId hw'.lookups.registry)
  -- one that stays in its room, and is not let into another
  have hstay : (w'.session t).currentRoom = (b.server.session t).currentRoom →
      (∀ msg ∈ news, ¬ msg.received.Admits) → ((lobbyParties knows ofBits).due
        { (lobbyParties knows ofBits).advance b w' with up := up } t).view.Lists ∨
          Pending { (lobbyParties knows ofBits).advance b w' with up := up } t id := by
    intro hroom hnone
    have hne : (b.server.session t).currentRoom ≠ intMax := hroom ▸ hid ▸ hr.ne_intMax hw'.lookups.ids
    obtain ⟨q, hq, hmember⟩ := hw.leads hne
    rw [← hroom, hid] at hq
    obtain rfl : q = r := (hk.registered hr (hw.lookups.ids.key _ _ hq)).unique hq |>.symm
    rcases hold hq hmember with hlists | hpending
    · rw [view_advance, hnews]
      refine .inl (hlists.steps hready fun m hm => ?_)
      obtain ⟨msg, hmsg, rfl⟩ := List.mem_map.mp hm
      exact hnone msg hmsg
    · cases hroster with
      | kept _ _ _ _ hnot | joined _ _ hnot => exact .inr (hpending.serve htaken hnot)
      | informed h =>
          obtain ⟨ids, hids, -⟩ := h t ht
          rw [view_advance, hids]
          exact .inl (hready.lists _)
  cases hh with
  | plain hroom h => exact hstay hroom fun msg hmsg => not_admits_plain (h msg hmsg)
  | listing hroom | login _ hroom | informed hroom => exact hstay hroom (List.forall_mem_singleton.mpr fun h => h)
  | @admitted _ q he hwants hnone hq =>
      have hlobby : (roomLobby (w'.room q) (w'.session t).currentRoom).received ∈
          (b.server.news w' t).map ServerMessage.received := by
        rw [hnews]
        exact List.mem_singleton.mpr rfl
      exact .inr (.inr ⟨_, List.mem_append_right _ hlobby, hid ▸ toInt_code hw' (hcodes' hq) hq⟩)
  | thrown code hin hout => exact absurd (hid.symm.trans hout) (hr.ne_intMax hw'.lookups.ids)

/-- A step of the server. -/
theorem Sound.serve (h : Sound knows ofBits b) {a : Env F × Event F} (hnext : b.server.next a = some w')
    (hg : b.server.FromNone a.2) (htaken : ∀ t, Taken ofBits a.2 t (b.up t) (up t)) :
    Sound knows ofBits { (lobbyParties knows ofBits).advance b w' with up := up } := by
  have htells := tells_next hnext
  have hw' := h.orderly.next hg hnext
  have hk := keeps_tells h.orderly hg htells
  have hcodes' : ∀ {id r}, w'.Registered id r → 0 ≤ id := by
    intro id r hr
    rcases lt_or_ge id b.server.roomManager.roomIdCount with hlt | hge
    · exact h.codes (hk.registered hr hlt)
    · exact Int.le_trans h.orderly.lookups.ids.nonneg hge
  refine ⟨hw', hcodes', fun t ht => ?_, fun hr => ?_, fun {id r t} hr ht => ?_⟩
  · obtain ⟨hfollowed, hstays⟩ := followed_next hnext ht
    exact (h.kept t hfollowed).serve h.orderly hw' h.codes hk (hears_tells h.orderly hg htells hstays) (htaken t)
  · exact rosters_serve hcodes' hw' h.rosters htaken hr (roster_tells h.orderly hg htells hr)
  · obtain ⟨hfollowed, hstays⟩ := followed_next hnext (.inr (hw'.alive.connected t r ht))
    exact lists_serve h.orderly hw' hcodes' hk rfl (hears_tells h.orderly hg htells hstays)
      (roster_tells h.orderly hg htells hr) (h.kept t hfollowed).ready h.lists (htaken t) hr ht

end

/-- Nobody asks for a room while an answer may be under way, and there are ids for rooms. -/
def Polite (b : Lobby F) : LobbyEvent F → Prop
  | .user s a => a.Asks → (∀ m ∈ b.up s, ¬ m.Asks) ∧ ∀ m ∈ b.down s, ¬ m.Admits
  | .serve _ s => ∀ m ∈ (b.up s).head?, m.Asks → b.server.roomManager.roomIdCount < intMax
  | .internal _ | .read _ => True

instance (b : Lobby F) : (e : LobbyEvent F) → Decidable (Polite b e)
  | .user _ _ => inferInstanceAs (Decidable (_ → _ ∧ _))
  | .serve _ _ => inferInstanceAs (Decidable (∀ m ∈ _, _ → _))
  | .internal _ | .read _ => inferInstanceAs (Decidable True)

omit [Scalar F] in
/-- Who has asked for nothing yet is in no room. -/
theorem fromNone_head {u : PacketWriter.Message} {rest : List PacketWriter.Message} {asked : Bool}
    (h : Leads askStep (inRoom w s) (u :: rest) asked) (hcount : u.Asks → w.roomManager.roomIdCount < intMax) :
    w.FromNone (.packet s (u.packet ofBits)) := by
  obtain ⟨x, hx, -⟩ := h.pop
  have hnone : (∀ inside, inside = true → askStep inside u = none) → (w.session s).currentRoom = intMax := by
    intro hrefused
    refine inRoom_eq_false.mp (Bool.eq_false_iff.mpr fun hin => ?_)
    rw [hrefused _ hin] at hx
    cases hx
  cases u with
  | cRoomCreate => exact ⟨hnone fun _ hin => by rw [hin]; rfl, hcount trivial⟩
  | cRoomRequest | cLogin => exact hnone fun _ hin => by rw [hin]; rfl
  | _ => trivial

theorem followed_of_live (h : (lobbyParties knows ofBits).live w s = true) : Followed w s := by
  have hboth : (decide (s < w.nextSession) && (w.session s).connected) = true := h
  rw [Bool.and_eq_true] at hboth
  exact .inr hboth.2

omit [Scalar F] in
theorem Pending.mono (h : Pending b t id) (hup : ∀ m ∈ b.up t, m ∈ b'.up t) (hdown : ∀ m ∈ b.down t, m ∈ b'.down t) :
    Pending b' t id :=
  h.imp (fun ⟨code, hcode, hid⟩ => ⟨code, hup _ hcode, hid⟩) fun ⟨m, hm, hid⟩ => ⟨m, hdown _ hm, hid⟩

/-- A client that is let in asks who else is there. -/
theorem Pending.read {d : PacketReader.Message} {rest : List PacketReader.Message} (h : Pending b t id)
    (hkept : Kept knows ofBits b s) (hdown : b.down s = d :: rest) :
    Pending { Parties.become b s ((b.client s).process (knows s) d) with
      down := Function.update b.down s rest } t id := by
  rcases eq_or_ne t s with rfl | hts
  · have hup : ∀ m, m ∈ b.up t ++ ((b.client t).process (knows t) d).2 →
        m ∈ (Function.update b.up t (b.up t ++ ((b.client t).process (knows t) d).2)) t := by
      intro m hm
      rwa [Function.update_self]
    rcases h with ⟨code, hcode, hid⟩ | ⟨m, hm, hid⟩
    · exact .inl ⟨code, hup _ (List.mem_append_left _ hcode), hid⟩
    · rw [hdown] at hm
      rcases List.mem_cons.mp hm with rfl | hm
      · have hknown : knows t m.mapHash = true := hkept.told (.sRoomLobby m) (hdown ▸ List.mem_cons_self)
        refine .inl ⟨m.roomCode, hup _ (List.mem_append_right _ ?_), hid⟩
        change _ ∈ if knows t m.mapHash = true then _ else _
        rw [if_pos hknown]
        exact List.mem_singleton.mpr rfl
      · refine .inr ⟨m, ?_, hid⟩
        dsimp only
        rwa [Function.update_self]
  · refine h.mono (fun m hm => ?_) fun m hm => ?_
    · dsimp only [Parties.become]
      rwa [Function.update_of_ne hts]
    · dsimp only
      rwa [Function.update_of_ne hts]

/-- Every step keeps the invariant. -/
theorem Sound.next {e : LobbyEvent F} (h : Sound knows ofBits b) (hg : Polite b e)
    (hnext : (lobbyParties knows ofBits).next b e = some b') : Sound knows ofBits b' := by
  cases Parties.steps_of_next hnext with
  | @serve env s u rest server hup hhandle =>
      have hserver : b.server.next (env, .packet s (u.packet ofBits)) = some server := hhandle
      have hkept := h.kept s (.inr (enabled_of_next hserver).2)
      obtain ⟨asked, hasks⟩ := hkept.asks
      rw [hup] at hasks
      have hhead : ∀ m ∈ (b.up s).head?, m.Asks → b.server.roomManager.roomIdCount < intMax := hg
      rw [hup] at hhead
      refine h.serve hserver (fromNone_head hasks (hhead u rfl)) fun t => ?_
      rcases eq_or_ne t s with rfl | hts
      · rw [Function.update_self, hup]
        exact .head rfl
      · rw [Function.update_of_ne hts]
        exact .nothing fun pkt he => hts (Event.packet.inj he).1.symm
  | @internal a server hinternal =>
      obtain ⟨env, e⟩ := a
      have hnot : ∀ t, Taken ofBits e t (b.up t) (b.up t) ∧ b.server.FromNone e
          ∧ b.server.next (env, e) = some server := by
        intro t
        cases e with
        | packet => cases hinternal
        | connect | disconnect | update => exact ⟨.nothing nofun, trivial, hinternal⟩
      exact h.serve (hnot 0).2.2 (hnot 0).2.1 fun t => (hnot t).1
  | @read s d rest hdown hlive =>
      have hkept := h.kept s (followed_of_live hlive)
      have hdue := (lobbyParties knows ofBits).due_read hdown
      refine ⟨h.orderly, h.codes, fun t ht => ?_, fun hr => ?_, fun {id r t} hr ht => ?_⟩
      · rcases eq_or_ne t s with rfl | hts
        · exact hkept.read hdown
        · exact (h.kept t ht).of_eq rfl (Function.update_of_ne hts ..) (Function.update_of_ne hts ..)
            (Function.update_of_ne hts ..)
      · rcases h.rosters hr with hinformed | ⟨t, ht, hpending⟩
        · exact .inl fun t ht => (hdue t).symm ▸ hinformed t ht
        · exact .inr ⟨t, ht, hpending.read hkept hdown⟩
      · exact (h.lists hr ht).imp (fun hlists => (hdue t).symm ▸ hlists) fun hpending => hpending.read hkept hdown
  | @user s a c hlive hact =>
      have hkept := h.kept s (followed_of_live hlive)
      have hdue := fun t => @view_become _ _ knows ofBits b s c t (view_act hact)
      have hasks : ∀ {t id}, Pending b t id → Pending (Parties.become b s c) t id := by
        intro t id hpending
        refine hpending.mono (fun m hm => ?_) fun m hm => hm
        dsimp only [Parties.become]
        rcases eq_or_ne t s with rfl | hts
        · rw [Function.update_self]
          exact List.mem_append_left _ hm
        · rwa [Function.update_of_ne hts]
      refine ⟨h.orderly, h.codes, fun t ht => ?_, fun hr => ?_, fun {id r t} hr ht => ?_⟩
      · rcases eq_or_ne t s with rfl | hts
        · exact hkept.user hact hg
        · exact (h.kept t ht).of_eq rfl (Function.update_of_ne hts ..) (Function.update_of_ne hts ..) rfl
      · rcases h.rosters hr with hinformed | ⟨t, ht, hpending⟩
        · exact .inl fun t ht => (hdue t).symm ▸ hinformed t ht
        · exact .inr ⟨t, ht, hasks hpending⟩
      · exact (h.lists hr ht).imp (fun hlists => (hdue t).symm ▸ hlists) hasks

/-! ## When nothing is under way -/

/--
The client is in the lobby of the room, or in its game, and has its data and its
members, whom the lobby names as far as there are labels.
-/
structure Shows (c : LobbyClient) (w : World F) (r : RoomRef) : Prop where
  scene : c.scene = .matchMaking ∨ c.scene = .battle
  code : c.currentRoomCode.toInt = (w.room r).roomId
  room : c.currentRoom = (w.room r).card.lobbyData
  players : c.playerInfo.Perm ((w.names r).map Int64.ofInt)
  labels : c.scene = .matchMaking → c.playersId = RoomView.labels c.playerInfo

/-- A client that is in a room shows it, and one that is in none shows no lobby. -/
def Accord (c : LobbyClient) (w : World F) (s : SessionRef) : Prop :=
  (∀ r, s ∈ (w.room r).sessions → Shows c w r) ∧ ((∀ r, s ∉ (w.room r).sessions) → c.scene ≠ .matchMaking)

/-- When nothing is under way, the invariant is about what the clients show. -/
theorem Sound.accord (hsound : Sound knows ofBits b) (hidle : (lobbyParties knows ofBits).Idle b)
    (hlive : (lobbyParties knows ofBits).live b.server s = true) : Accord (b.client s) b.server s := by
  have hkept := hsound.kept s (followed_of_live hlive)
  obtain ⟨hup, hdown⟩ := hidle s hlive
  obtain ⟨inside, hplaced, hseat⟩ := hkept.seat
  rw [hdown] at hseat
  obtain rfl := hseat.eq
  have hdue := (lobbyParties knows ofBits).due_of_idle hidle hlive
  -- nobody is still to be told
  have hnone : ∀ {t : SessionRef} {r : RoomRef} {id : Int}, t ∈ (b.server.room r).sessions → ¬ Pending b t id := by
    intro t r id ht hpending
    have hlive' : (lobbyParties knows ofBits).live b.server t = true := by
      change (decide (t < b.server.nextSession) && (b.server.session t).connected) = true
      rw [Bool.and_eq_true, decide_eq_true_iff]
      exact ⟨hsound.orderly.alive.lt t r ht, hsound.orderly.alive.connected t r ht⟩
    obtain ⟨hup', hdown'⟩ := hidle t hlive'
    unfold Pending at hpending
    rw [hup', hdown'] at hpending
    simp at hpending
  refine ⟨fun r hs => ?_, fun hout => hplaced.2 (inRoom_eq_false.mpr ?_)⟩
  · have hr := hsound.orderly.members.registered s r hs
    have hcur := hsound.orderly.members.currentRoom s r hs
    have hfits : (b.client s).view.Fits (b.server.room r).roomId (b.server.room r).card := by
      have hview := hkept.view r (hcur ▸ hr)
      rwa [hdue, hcur] at hview
    refine ⟨hplaced.1 (inRoom_eq_true.mpr ?_), ?_, hfits.room, ?_, fun hscene => ?_⟩
    · rw [hcur]
      exact hr.ne_intMax hsound.orderly.lookups.ids
    · have hcode : (b.client s).currentRoomCode = Int32.ofInt (b.server.room r).roomId := hfits.code
      rw [hcode]
      exact toInt_code hsound.orderly (hsound.codes hr) hr
    · rcases hsound.rosters hr with hinformed | ⟨t, ht, hpending⟩
      · exact hdue ▸ hinformed s hs
      · exact absurd hpending (hnone ht)
    · rcases hsound.lists hr hs with hlists | hpending
      · rw [hdue] at hlists
        exact hlists (decide_eq_true hscene)
      · exact absurd hpending (hnone hs)
  · by_contra hne
    obtain ⟨r, -, hs⟩ := hsound.orderly.leads hne
    exact hout r hs

theorem sound_reachable {maps : List UInt8 → Option MapSectionData}
    (h : Reachable ((Transition.ofFun (lobbyParties knows ofBits).next).guarded Polite) (Lobby.init maps) b) :
    Sound knows ofBits b :=
  h.invariant (sound_init maps) fun _ _ _ hb hs => hb.next hs.1 hs.2

/-- **The server and its clients agree** as soon as nothing is under way. -/
theorem in_accord {maps : List UInt8 → Option MapSectionData}
    (h : Reachable ((Transition.ofFun (lobbyParties knows ofBits).next).guarded Polite) (Lobby.init maps) b)
    (hidle : (lobbyParties knows ofBits).Idle b) (hlive : (lobbyParties knows ofBits).live b.server s = true) :
    Accord (b.client s) b.server s := (sound_reachable h).accord hidle hlive

/-- Two clients log in; one makes a room, and the other finds it on the list and comes in. -/
def joinedRun : List (LobbyEvent ℚ) :=
  [.internal (Env.still, .connect), .user 0 (.tryLogin 1), .serve Env.still 0, .read 0, .serve Env.still 0, .read 0,
    .user 0 .openRoomMaking, .user 0 (.createRoom "" "" []), .serve Env.still 0, .read 0, .serve Env.still 0,
    .internal (Env.still, .connect), .user 1 (.tryLogin 2), .serve Env.still 1, .read 1, .serve Env.still 1, .read 1,
    .user 1 (.accept ⟨0, 1, "", false, []⟩ ""), .serve Env.still 1, .read 1, .serve Env.still 1, .read 1, .read 0,
    .read 0]

theorem in_accord_joinedRun : ∃ b : Lobby ℚ, (0 ∈ (b.server.room 0).sessions ∧ 1 ∈ (b.server.room 0).sessions) ∧
    (Shows (b.client 0) b.server 0 ∧ Shows (b.client 1) b.server 0) ∧
      (b.client 0).playersId = ["1", "2", "OPEN", "OPEN"] := by
  have hrun : (joinedRun.foldlM (guardedFun (lobbyParties (fun _ _ => true) fun _ => 0).next Polite)
      (Lobby.init fun _ => none : Lobby ℚ)).map (fun b => decide (b.server.nextSession = 2 ∧
        (0 ∈ (b.server.room 0).sessions ∧ 1 ∈ (b.server.room 0).sessions) ∧
          (b.client 0).playersId = ["1", "2", "OPEN", "OPEN"] ∧
            ∀ s : Nat, s < 2 → (b.server.session s).connected = true ∧ (b.up s).length = 0 ∧ (b.down s).length = 0))
      = some true := by decide +kernel
  obtain ⟨b, hb, hobs⟩ := Option.map_eq_some_iff.mp hrun
  obtain ⟨hnext, hmem, hlabels, hall⟩ := of_decide_eq_true hobs
  have hidle : (lobbyParties (fun _ _ => true) fun _ => (0 : ℚ)).Idle b := by
    intro s hlive
    have hlt : decide (s < b.server.nextSession) = true := (Bool.and_eq_true_iff.mp hlive).1
    obtain ⟨-, hup, hdown⟩ := hall s (hnext ▸ of_decide_eq_true hlt)
    exact ⟨List.eq_nil_of_length_eq_zero hup, List.eq_nil_of_length_eq_zero hdown⟩
  have hlive : ∀ s : Nat, s < 2 → (lobbyParties (fun _ _ => true) fun _ => (0 : ℚ)).live b.server s = true :=
    fun s hs => Bool.and_eq_true_iff.mpr ⟨decide_eq_true (hnext.symm ▸ hs), (hall s hs).1⟩
  have hreach := Reachable.of_run_guarded hb .refl
  exact ⟨b, hmem, ⟨(in_accord hreach hidle (hlive 0 (by decide))).1 0 hmem.1,
    (in_accord hreach hidle (hlive 1 (by decide))).1 0 hmem.2⟩, hlabels⟩

end Lobby

end StarCraftIocp
