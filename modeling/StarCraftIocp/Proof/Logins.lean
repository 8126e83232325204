import StarCraftIocp.Proof.Membership

/-!
# Who is logged in

`playerIdList` is meant to hold the ids of the sessions whose login was accepted
and that have not left since. A session remembers the last id it was given, as an
`int`, and gives that back when it leaves. One that was never given an id gives
back 0, which is the id of every code whose low 32 bits are zero.

Which login a session holds is history, so it is kept beside the server as ghost
state: the code of the last C_LOGIN that was answered with `loginaccept`.
-/

namespace StarCraftIocp

open Outcome CInt Protocol

variable {F : Type} [Scalar F]

namespace World

/-- `w'` differs from `w` in nothing that a login or a disconnect looks at. -/
structure SameLogins (w w' : World F) : Prop where
  playerIdList : w'.roomManager.playerIdList = w.roomManager.playerIdList
  playerName : ∀ t, (w'.session t).playerName = (w.session t).playerName
  connected : ∀ t, (w'.session t).connected = (w.session t).connected
  nextSession : w'.nextSession = w.nextSession

/-- A login code as it is stored. -/
def idOf (loginCode : UInt64) : Int := int32 loginCode.toNat

/-- What the last packet sent says, if it is an S_LOGIN. -/
def loginAccept (w : World F) : Bool :=
  match w.sent.getLast? with
  | some (_, .sLogin _ loginAccept) => loginAccept
  | _ => false

end World

/-- The server, with the code each session's last accepted login carried. -/
structure Logins (F : Type) where
  world : World F
  accepted : SessionRef → Option UInt64

namespace Logins

def init (maps : List UInt8 → Option MapSectionData) : Logins F where
  world := World.init maps
  accepted := fun _ => none

/-- The record after a step that has led to `w'`. -/
def record (c : Logins F) (w' : World F) : Event F → SessionRef → Option UInt64
  | .packet s (.cLogin loginCode) =>
      if w'.loginAccept then Function.update c.accepted s (some loginCode) else c.accepted
  | .packet _ _ => c.accepted
  | .connect => Function.update c.accepted c.world.nextSession none
  | .disconnect s => Function.update c.accepted s none
  | .update => c.accepted

def step (c : Logins F) (a : Env F × Event F) : Option (Logins F) :=
  (c.world.next a).map fun w' => { world := w', accepted := c.record w' a.2 }

/-- A session that is connected and was let in with this code. -/
def Holds (c : Logins F) (s : SessionRef) (loginCode : UInt64) : Prop :=
  (c.world.session s).connected = true ∧ c.accepted s = some loginCode

/-- `playerIdList` is the set of the ids of those let in. -/
def Exact (c : Logins F) : Prop :=
  ∀ n, n ∈ c.world.roomManager.playerIdList ↔ ∃ s code, c.Holds s code ∧ World.idOf code = n

/-- The step treats logins as it should: it lets in whoever is the only one with the code, and a
session that was never let in takes nothing with it. -/
def Right (c c' : Logins F) : Event F → Prop
  | .packet s (.cLogin loginCode) =>
      c'.world.loginAccept = true ↔ ∀ t, t ≠ s → ¬ c.Holds t loginCode
  | .disconnect s =>
      c.accepted s = none → c'.world.roomManager.playerIdList = c.world.roomManager.playerIdList
  | _ => True

/--
What goes wrong is excluded: another code with the same low 32 bits, a second
login of a session that would be let in, and the departure of a session that was
never let in while somebody has the id 0.
-/
def Distinct (c : Logins F) (a : Env F × Event F) : Prop :=
  match a.2 with
  | .packet s (.cLogin loginCode) =>
      (∀ t < c.world.nextSession, ∀ code ∈ c.accepted t,
        World.idOf code = World.idOf loginCode → code = loginCode)
      ∧ (c.accepted s ≠ none → ∃ t < c.world.nextSession, t ≠ s ∧ c.accepted t = some loginCode)
  | .disconnect s => c.accepted s = none →
      ∀ t < c.world.nextSession, ∀ code ∈ c.accepted t, World.idOf code ≠ 0
  | _ => True

/-- By looking at the one code: `UInt64` is finite, and could be gone through instead. -/
instance (c : Logins F) (loginCode : UInt64) : DecidablePred fun t : SessionRef =>
    ∀ code ∈ c.accepted t, World.idOf code = World.idOf loginCode → code = loginCode :=
  fun t => Option.decidableForallMem (c.accepted t)

instance (c : Logins F) : DecidablePred fun t : SessionRef =>
    ∀ code ∈ c.accepted t, World.idOf code ≠ 0 :=
  fun t => Option.decidableForallMem (c.accepted t)

instance (c : Logins F) : (a : Env F × Event F) → Decidable (c.Distinct a)
  | (_, .packet _ (.cLogin _)) => inferInstanceAs (Decidable (_ ∧ _))
  | (_, .packet _ (.cMove ..)) => inferInstanceAs (Decidable True)
  | (_, .packet _ (.cRoomCreate ..)) => inferInstanceAs (Decidable True)
  | (_, .packet _ .cRoomData) => inferInstanceAs (Decidable True)
  | (_, .packet _ (.cRoomRequest ..)) => inferInstanceAs (Decidable True)
  | (_, .packet _ (.cRoomPlayerListRequest ..)) => inferInstanceAs (Decidable True)
  | (_, .packet _ (.cStartGame ..)) => inferInstanceAs (Decidable True)
  | (_, .packet _ .cExitGame) => inferInstanceAs (Decidable True)
  | (_, .packet _ (.cAttack ..)) => inferInstanceAs (Decidable True)
  | (_, .packet _ (.cRttPing ..)) => inferInstanceAs (Decidable True)
  | (_, .disconnect _) => inferInstanceAs (Decidable (_ → _))
  | (_, .connect) => inferInstanceAs (Decidable True)
  | (_, .update) => inferInstanceAs (Decidable True)

end Logins

/-! ## What leaves logins alone -/

namespace World

namespace SameLogins

omit [Scalar F]

theorem refl (w : World F) : SameLogins w w := ⟨rfl, fun _ => rfl, fun _ => rfl, rfl⟩

theorem trans {w w' w'' : World F} (h : SameLogins w w') (h' : SameLogins w' w'') :
    SameLogins w w'' where
  playerIdList := h'.playerIdList.trans h.playerIdList
  playerName t := (h'.playerName t).trans (h.playerName t)
  connected t := (h'.connected t).trans (h.connected t)
  nextSession := h'.nextSession.trans h.nextSession

/-- Rooms, the table of rooms and what has been sent do not matter. -/
theorem of_eq {w w' : World F} (hs : w'.session = w.session) (hn : w'.nextSession = w.nextSession)
    (hp : w'.roomManager.playerIdList = w.roomManager.playerIdList) : SameLogins w w' :=
  ⟨hp, fun _ => by rw [hs], fun _ => by rw [hs], hn⟩

theorem setRoomId (w : World F) (s : SessionRef) (id : Int) : SameLogins w (w.setRoomId s id) where
  playerIdList := rfl
  playerName :=
    field_setSession_of_eq GameSession.playerName w s { w.session s with currentRoom := id } rfl
  connected := connected_setRoomId w s id
  nextSession := rfl

theorem roomAdd (w : World F) (r : RoomRef) (s : SessionRef) : SameLogins w (w.roomAdd r s) := by
  have hroom : SameLogins w (w.setRoom r ((w.room r).add s (w.session s).playerName)) :=
    of_eq rfl rfl rfl
  exact hroom.trans (setRoomId _ s (w.room r).roomId)

theorem notifyExit (packet : ServerMessage F) (players : List SessionRef) (w : World F) :
    SameLogins w (players.foldl (fun w player => w.notifyExit packet player) w) := by
  induction players generalizing w with
  | nil => exact refl w
  | cons player players ih =>
      have hsent : SameLogins (w.setRoomId player intMax) (w.notifyExit packet player) :=
        of_eq rfl rfl rfl
      exact ((setRoomId w player intMax).trans hsent).trans (ih (w.notifyExit packet player))

end SameLogins

theorem sameLogins_reply (w : World F) (s : SessionRef) (msg : ServerMessage F) :
    Ensures (w.reply s msg) (SameLogins w) :=
  Ensures.bind (P := fun _ => True) (fun _ _ => trivial) fun _ _ => .ok (.of_eq rfl rfl rfl)

omit [Scalar F] in
/-- A room is computed and stored: nobody's login is touched. -/
theorem sameLogins_setRoom (w : World F) (r : RoomRef) (x : Except Crash (Room F)) :
    Ensures (x >>= fun room => .ok (w.setRoom r room)) (SameLogins w) :=
  Ensures.bind (P := fun _ => True) (fun _ _ => trivial) fun _ _ => .ok (.of_eq rfl rfl rfl)

theorem sameLogins_roomRemove (w : World F) (r : RoomRef) (s : SessionRef) :
    Ensures (w.roomRemove r s) (SameLogins w) := by
  cases hc : w.closes r s with
  | false =>
      rw [roomRemove_stays hc]
      exact Ensures.bind (P := fun _ => True) (fun _ _ => trivial) fun _ _ => .ok (.of_eq rfl rfl rfl)
  | true =>
      rw [roomRemove_closed hc]
      refine Ensures.bind (P := fun _ => True) (fun _ _ => trivial) fun _ _ => .ok ?_
      have hnotify : SameLogins w (w.emptied r s) := by
        have hroom : SameLogins w (w.setRoom r (w.without r s).cleared) := .of_eq rfl rfl rfl
        exact hroom.trans (.notifyExit ..)
      exact hnotify.trans (.of_eq rfl rfl rfl)

theorem sameLogins_handleCMove (w : World F) (roomCode : Int32) (objectId : List UInt32)
    (position : Vector3 F) : Ensures (w.handleCMove roomCode objectId position) (SameLogins w) := by
  refine Ensures.foldlM (SameLogins.refl w) ?_
  intro w' hw id _
  unfold moveObject
  dsimp only
  split
  · exact .error _
  · split
    · exact .error _
    · exact .ok (hw.trans (.of_eq rfl rfl rfl))

theorem sameLogins_handleCRoomRequest (w : World F) (s : SessionRef) (roomCode : Int32)
    (gamePassWord : List UInt8) :
    Ensures (w.handleCRoomRequest s roomCode gamePassWord) (SameLogins w) := by
  unfold handleCRoomRequest
  dsimp only
  have hindex : ∀ id : Int, SameLogins w { w with roomManager := (w.roomManager.indexRoom id).2 } := by
    intro id
    refine .of_eq rfl rfl ?_
    unfold RoomManager.indexRoom
    dsimp only
    split <;> rfl
  split
  · exact .error _
  · refine Ensures.ite ?_ ?_
    · intro _
      exact (sameLogins_reply _ s _).mono fun _ h =>
        ((hindex roomCode.toInt).trans (.roomAdd _ _ s)).trans h
    · intro _
      exact (sameLogins_reply _ s _).mono fun _ h => (hindex roomCode.toInt).trans h

theorem sameLogins_handleCExitGame (w : World F) (s : SessionRef) :
    Ensures (w.handleCExitGame s) (SameLogins w) := by
  unfold handleCExitGame
  refine Ensures.ite (fun _ => .ok (.refl w)) ?_
  intro _
  split
  · exact .error _
  · refine Ensures.bind (sameLogins_roomRemove w _ s) ?_
    intro w1 h1
    exact (sameLogins_reply _ s _).mono fun _ h => (h1.trans (.setRoomId w1 s intMax)).trans h

theorem sameLogins_update (env : Env F) (w : World F) : Ensures (w.update env) (SameLogins w) := by
  refine Ensures.foldlM (SameLogins.refl w) ?_
  intro w' hw entry _
  unfold updateRoom
  split
  · exact .error _
  · exact (sameLogins_setRoom w' _ _).mono fun _ h => hw.trans h

/-- The packets that are not a login. -/
theorem sameLogins_handle (env : Env F) (w : World F) (s : SessionRef) {pkt : ClientPacket F}
    (hpkt : ∀ loginCode, pkt ≠ .cLogin loginCode) : Ensures (w.handle env s pkt) (SameLogins w) := by
  cases pkt with
  | cLogin loginCode => exact absurd rfl (hpkt loginCode)
  | cMove => exact sameLogins_handleCMove w _ _ _
  | cRoomCreate gameId gameName gamePassWord mapHash =>
      have hmake : SameLogins w ((w.makeRoom (w.newRoom gameId gameName gamePassWord mapHash)).2.addRoom
          w.nextRoom) := .of_eq rfl rfl rfl
      exact (sameLogins_reply _ s _).mono fun _ h => (hmake.trans (.roomAdd _ w.nextRoom s)).trans h
  | cRoomData =>
      exact Ensures.bind (P := fun _ => True) (fun _ _ => trivial) fun _ _ => sameLogins_reply w s _
  | cRoomRequest => exact sameLogins_handleCRoomRequest w s _ _
  | cRoomPlayerListRequest =>
      change Ensures (w.handleCRoomPlayerListRequest _) _
      unfold handleCRoomPlayerListRequest
      split
      · exact .error _
      · exact Ensures.bind (P := fun _ => True) (fun _ _ => trivial) fun _ _ => .ok (.of_eq rfl rfl rfl)
  | cStartGame =>
      change Ensures (w.handleCStartGame env _) _
      unfold handleCStartGame
      split
      · exact .error _
      · exact sameLogins_setRoom w _ _
  | cExitGame => exact sameLogins_handleCExitGame w s
  | cAttack =>
      change Ensures (w.handleCAttack _ _ _ _) _
      unfold handleCAttack
      dsimp only
      split
      · exact .error _
      · split
        · exact .error _
        · exact .ok (.of_eq rfl rfl rfl)
  | cRttPing => exact sameLogins_reply w s _

/-! ## What a step does to logins -/

/-- The world of a session that has just been let in, before the reply. -/
def admitted (w : World F) (s : SessionRef) (loginCode : UInt64) : World F :=
  let playerIdList := w.roomManager.playerIdList.insert (idOf loginCode)
  let w := { w with roomManager := { w.roomManager with playerIdList := playerIdList } }
  w.setSession s { w.session s with playerName := idOf loginCode }

inductive LoginMoves (w w' : World F) : Event F → Prop
  | connect (h : w' = w.onConnected) : LoginMoves w w' .connect
  | admitted {s : SessionRef} {loginCode : UInt64} (hid : idOf loginCode ∉ w.roomManager.playerIdList)
      (h : SameLogins (w.admitted s loginCode) w') (ha : w'.loginAccept = true) :
      LoginMoves w w' (.packet s (.cLogin loginCode))
  | refused {s : SessionRef} {loginCode : UInt64} (hid : idOf loginCode ∈ w.roomManager.playerIdList)
      (h : SameLogins w w') (ha : w'.loginAccept = false) : LoginMoves w w' (.packet s (.cLogin loginCode))
  | packet {s : SessionRef} {pkt : ClientPacket F} (hpkt : ∀ loginCode, pkt ≠ .cLogin loginCode)
      (h : SameLogins w w') : LoginMoves w w' (.packet s pkt)
  | disconnect {s : SessionRef} (h : SameLogins ((w.dropped s).erasePlayerId s) w') :
      LoginMoves w w' (.disconnect s)
  | update (h : SameLogins w w') : LoginMoves w w' .update

theorem reply_loginAccept {w w' : World F} {s : SessionRef} {gameId : Int} {loginAccept : Bool}
    (h : w.reply s (.sLogin gameId loginAccept) = .ok w') : w'.loginAccept = loginAccept := by
  have hframe : (ServerMessage.sLogin gameId loginAccept : ServerMessage F).frame = .ok _ :=
    ServerMessage.Scalars.frame_ok trivial
  unfold reply at h
  rw [hframe] at h
  obtain rfl := Except.ok.inj h
  unfold World.loginAccept
  rw [List.getLast?_concat]

theorem loginMoves_handleCLogin (w : World F) (s : SessionRef) (loginCode : UInt64) :
    Ensures (w.handleCLogin s loginCode) fun w' => LoginMoves w w' (.packet s (.cLogin loginCode)) := by
  unfold handleCLogin
  refine Ensures.ite ?_ ?_
  · intro hid w' hw
    exact .refused hid (sameLogins_reply w s _ w' hw) (reply_loginAccept hw)
  · intro hid w' hw
    exact .admitted hid (sameLogins_reply _ s _ w' hw) (reply_loginAccept hw)

theorem loginMoves_onDisconnected (w : World F) (s : SessionRef) :
    Ensures (w.onDisconnected s) fun w' => LoginMoves w w' (.disconnect s) := by
  unfold onDisconnected
  refine Ensures.bind (P := SameLogins (w.dropped s)) ?_ ?_
  · change Ensures ((w.dropped s).leaveRoom s) _
    unfold leaveRoom
    refine Ensures.ite (fun _ => .ok (.refl _)) ?_
    intro _
    split
    · exact .ok (.setRoomId _ s intMax)
    · exact Ensures.bind (sameLogins_roomRemove _ _ s) fun w1 h1 => .ok (h1.trans (.setRoomId w1 s intMax))
  · intro w1 h1
    have herase : SameLogins ((w.dropped s).erasePlayerId s) (w1.erasePlayerId s) := by
      refine ⟨?_, h1.playerName, h1.connected, h1.nextSession⟩
      change w1.roomManager.playerIdList.erase _ = (w.dropped s).roomManager.playerIdList.erase _
      rw [h1.playerIdList, h1.playerName s]
    refine Ensures.mono (P := SameLogins (w1.erasePlayerId s)) ?_ fun _ h => .disconnect (herase.trans h)
    unfold gSessionManagerRemove
    refine Ensures.ite (fun _ => .ok (.of_eq rfl rfl rfl)) ?_
    intro _
    split
    · exact .ok (.of_eq rfl rfl rfl)
    · have hgone : SameLogins (w1.erasePlayerId s)
          { w1.erasePlayerId s with gSessions := (w1.erasePlayerId s).gSessions.erase s } :=
        .of_eq rfl rfl rfl
      exact (sameLogins_roomRemove _ _ s).mono fun _ h => hgone.trans h

theorem loginMoves_next {w w' : World F} {a : Env F × Event F} (h : w.next a = some w') :
    w.Enabled a.2 ∧ LoginMoves w w' a.2 := by
  refine ⟨enabled_of_next h, ?_⟩
  have hok := exec_of_next h
  obtain ⟨env, e⟩ := a
  cases e with
  | connect => exact .connect (Except.ok.inj hok).symm
  | packet s pkt =>
      by_cases hpkt : ∃ loginCode, pkt = .cLogin loginCode
      · obtain ⟨loginCode, rfl⟩ := hpkt
        exact loginMoves_handleCLogin w s loginCode w' hok
      · exact .packet (fun loginCode hl => hpkt ⟨loginCode, hl⟩)
          (sameLogins_handle env w s (fun loginCode hl => hpkt ⟨loginCode, hl⟩) w' hok)
  | disconnect s => exact loginMoves_onDisconnected w s w' hok
  | update => exact .update (sameLogins_update env w w' hok)

end World

namespace Logins

open World

/-! ## The invariant -/

structure Inv (c : Logins F) : Prop where
  exact : c.Exact
  live : ∀ s code, c.accepted s = some code →
    s < c.world.nextSession ∧ (c.world.session s).connected = true
  name : ∀ s code, c.accepted s = some code → (c.world.session s).playerName = idOf code
  unique : ∀ s t code code', c.accepted s = some code → c.accepted t = some code' →
    idOf code = idOf code' → s = t
  fresh : ∀ s, (c.world.session s).connected = true → c.accepted s = none → (c.world.session s).playerName = 0

section

omit [Scalar F]

theorem Inv.holds_iff {c : Logins F} (h : c.Inv) {s : SessionRef} {code : UInt64} :
    c.Holds s code ↔ c.accepted s = some code :=
  ⟨fun hs => hs.2, fun hs => ⟨(h.live s code hs).2, hs⟩⟩

theorem Inv.mem_iff {c : Logins F} (h : c.Inv) {n : Int} :
    n ∈ c.world.roomManager.playerIdList ↔ ∃ s code, c.accepted s = some code ∧ idOf code = n := by
  rw [h.exact n]
  simp only [h.holds_iff]

/-- What a session that was never let in gives back is in the list just when somebody has the id 0. -/
theorem Inv.fresh_notMem_iff {c : Logins F} (h : c.Inv) {s : SessionRef}
    (hs : (c.world.session s).connected = true) (hnone : c.accepted s = none) :
    (c.world.session s).playerName ∉ c.world.roomManager.playerIdList ↔
      ∀ t < c.world.nextSession, ∀ code ∈ c.accepted t, idOf code ≠ 0 := by
  rw [h.fresh s hs hnone, h.mem_iff]
  constructor
  · intro hno t _ code ht hid
    exact hno ⟨t, code, ht, hid⟩
  · rintro hall ⟨t, code, ht, hid⟩
    exact hall t (h.live t code ht).1 code ht hid

/-- Nobody holds a code that is not in the list. -/
theorem Inv.not_held {c : Logins F} (h : c.Inv) {code : UInt64}
    (hid : idOf code ∉ c.world.roomManager.playerIdList) {s : SessionRef} {code' : UInt64}
    (hs : c.accepted s = some code') : idOf code' ≠ idOf code := by
  intro heq
  exact hid (h.mem_iff.mpr ⟨s, code', hs, heq⟩)

theorem Inv.sameLogins {c c' : Logins F} (h : c.Inv) (hw : SameLogins c.world c'.world)
    (ha : c'.accepted = c.accepted) : c'.Inv where
  exact := by
    intro n
    rw [hw.playerIdList, h.exact n]
    unfold Holds
    simp only [hw.connected, ha]
  live := by
    intro s code hs
    rw [ha] at hs
    rw [hw.nextSession, hw.connected]
    exact h.live s code hs
  name := by
    intro s code hs
    rw [ha] at hs
    rw [hw.playerName]
    exact h.name s code hs
  unique := by
    rw [ha]
    exact h.unique
  fresh := by
    intro s
    rw [ha, hw.connected, hw.playerName]
    exact h.fresh s

theorem Inv.connect {c : Logins F} (h : c.Inv) {accepted : SessionRef → Option UInt64}
    (ha : accepted = Function.update c.accepted c.world.nextSession none) :
    ({ world := c.world.onConnected, accepted := accepted } : Logins F).Inv := by
  -- the new session has no login yet, nor has any other under its number
  have hnone : c.accepted c.world.nextSession = none := by
    cases hc : c.accepted c.world.nextSession with
    | none => rfl
    | some code => exact absurd (h.live _ code hc).1 (Nat.lt_irrefl _)
  have hsame : accepted = c.accepted := by rw [ha, ← hnone, Function.update_eq_self]
  have hold : ∀ s code, c.accepted s = some code →
      c.world.onConnected.session s = c.world.session s := by
    intro s code hs
    exact Function.update_of_ne (Nat.ne_of_lt (h.live s code hs).1) ..
  subst hsame
  refine ⟨?_, ?_, ?_, h.unique, ?_⟩
  · intro n
    refine h.mem_iff.trans ?_
    constructor
    · rintro ⟨s, code, hs, hn⟩
      refine ⟨s, code, ⟨?_, hs⟩, hn⟩
      change (c.world.onConnected.session s).connected = true
      rw [hold s code hs]
      exact (h.live s code hs).2
    · rintro ⟨s, code, hs, hn⟩
      exact ⟨s, code, hs.2, hn⟩
  · intro s code hs
    refine ⟨Nat.lt_succ_of_lt (h.live s code hs).1, ?_⟩
    change (c.world.onConnected.session s).connected = true
    rw [hold s code hs]
    exact (h.live s code hs).2
  · intro s code hs
    change (c.world.onConnected.session s).playerName = _
    rw [hold s code hs]
    exact h.name s code hs
  · intro s
    by_cases hs : s = c.world.nextSession
    · subst hs
      have hnew : c.world.onConnected.session c.world.nextSession
          = { currentRoom := intMax, playerName := 0, connected := true } := Function.update_self ..
      exact fun _ _ => congrArg GameSession.playerName hnew
    · have hkept : c.world.onConnected.session s = c.world.session s := Function.update_of_ne hs ..
      rw [hkept]
      exact h.fresh s

theorem connected_admitted (w : World F) (s t : SessionRef) (code : UInt64) :
    ((w.admitted s code).session t).connected = (w.session t).connected :=
  field_setSession_of_eq GameSession.connected w s { w.session s with playerName := idOf code } rfl t

theorem playerName_admitted (w : World F) (s t : SessionRef) (code : UInt64) :
    ((w.admitted s code).session t).playerName
      = if t = s then idOf code else (w.session t).playerName :=
  field_setSession GameSession.playerName ..

/-- A session without a login is let in under an id that nobody has. -/
theorem Inv.letsIn {c : Logins F} (h : c.Inv) {s : SessionRef} {code : UInt64}
    (hs : s < c.world.nextSession ∧ (c.world.session s).connected = true) (hfree : c.accepted s = none)
    (hid : idOf code ∉ c.world.roomManager.playerIdList) :
    ({ world := c.world.admitted s code, accepted := Function.update c.accepted s (some code) } :
      Logins F).Inv := by
  have hne : ∀ t x, c.accepted t = some x → t ≠ s := by
    rintro t x ht rfl
    rw [hfree] at ht
    cases ht
  have hupd : ∀ t x, Function.update c.accepted s (some code) t = some x ↔
      t = s ∧ x = code ∨ c.accepted t = some x := by
    intro t x
    rw [Function.update_apply]
    by_cases ht : t = s
    · rw [if_pos ht]
      constructor
      · intro hx
        exact .inl ⟨ht, (Option.some.inj hx).symm⟩
      · rintro (⟨-, hx⟩ | hx)
        · rw [hx]
        · exact absurd ht (hne t x hx)
    · rw [if_neg ht]
      simp [ht]
  have hlive : ∀ t x, Function.update c.accepted s (some code) t = some x →
      t < c.world.nextSession ∧ (c.world.session t).connected = true := by
    intro t x ht
    rcases (hupd t x).mp ht with ⟨rfl, -⟩ | ht
    · exact hs
    · exact h.live t x ht
  refine ⟨?_, ?_, ?_, ?_, ?_⟩
  · intro n
    change n ∈ c.world.roomManager.playerIdList.insert (idOf code) ↔ _
    rw [Table.set_mem_insert, h.mem_iff]
    constructor
    · rintro (hn | ⟨t, x, ht, hx⟩)
      · refine ⟨s, code, ⟨?_, (hupd s code).mpr (.inl ⟨rfl, rfl⟩)⟩, hn.symm⟩
        rw [connected_admitted]
        exact hs.2
      · refine ⟨t, x, ⟨?_, (hupd t x).mpr (.inr ht)⟩, hx⟩
        rw [connected_admitted]
        exact (h.live t x ht).2
    · rintro ⟨t, x, ⟨-, ht⟩, hx⟩
      rcases (hupd t x).mp ht with ⟨rfl, rfl⟩ | ht
      · exact .inl hx.symm
      · exact .inr ⟨t, x, ht, hx⟩
  · intro t x ht
    rw [connected_admitted]
    exact hlive t x ht
  · intro t x ht
    rw [playerName_admitted]
    rcases (hupd t x).mp ht with ⟨rfl, rfl⟩ | ht
    · exact if_pos rfl
    · rw [if_neg (hne t x ht)]
      exact h.name t x ht
  · intro t u x y ht hu hxy
    rcases (hupd t x).mp ht with ⟨rfl, rfl⟩ | ht'
    · rcases (hupd u y).mp hu with ⟨rfl, -⟩ | hu'
      · rfl
      · exact absurd hxy.symm (h.not_held hid hu')
    · rcases (hupd u y).mp hu with ⟨rfl, rfl⟩ | hu'
      · exact absurd hxy (h.not_held hid ht')
      · exact h.unique t u x y ht' hu' hxy
  · intro t hconn hnone
    change Function.update c.accepted s (some code) t = none at hnone
    rw [Function.update_apply] at hnone
    by_cases hts : t = s
    · rw [if_pos hts] at hnone
      cases hnone
    · rw [if_neg hts] at hnone
      rw [connected_admitted] at hconn
      rw [playerName_admitted, if_neg hts]
      exact h.fresh t hconn hnone

theorem connected_leave (w : World F) (s t : SessionRef) :
    (((w.dropped s).erasePlayerId s).session t).connected
      = if t = s then false else (w.session t).connected :=
  field_setSession GameSession.connected ..

theorem playerName_leave (w : World F) (s t : SessionRef) :
    (((w.dropped s).erasePlayerId s).session t).playerName = (w.session t).playerName :=
  field_setSession_of_eq GameSession.playerName w s { w.session s with connected := false } rfl t

theorem mem_playerIdList_leave (w : World F) (s : SessionRef) (n : Int) :
    n ∈ ((w.dropped s).erasePlayerId s).roomManager.playerIdList ↔
      n ≠ (w.session s).playerName ∧ n ∈ w.roomManager.playerIdList := by
  have hname := playerName_leave w s s
  change n ∈ w.roomManager.playerIdList.erase (((w.dropped s).session s).playerName) ↔ _
  rw [Table.set_mem_erase]
  change ((w.dropped s).session s).playerName = _ at hname
  rw [hname]

/-- A session leaves, and takes with it no id but its own. -/
theorem Inv.leave {c : Logins F} (h : c.Inv) {s : SessionRef}
    (hs : c.accepted s = none → (c.world.session s).playerName ∉ c.world.roomManager.playerIdList) :
    ({ world := (c.world.dropped s).erasePlayerId s, accepted := Function.update c.accepted s none } :
      Logins F).Inv := by
  have hupd : ∀ t x, Function.update c.accepted s none t = some x ↔ t ≠ s ∧ c.accepted t = some x := by
    intro t x
    rw [Function.update_apply]
    by_cases ht : t = s
    · simp [ht]
    · simp [ht]
  refine ⟨?_, ?_, ?_, ?_, ?_⟩
  · intro n
    refine (mem_playerIdList_leave c.world s n).trans ?_
    rw [h.mem_iff]
    constructor
    · rintro ⟨hn, t, x, ht, rfl⟩
      have hts : t ≠ s := by
        rintro rfl
        exact hn (h.name t x ht).symm
      refine ⟨t, x, ⟨?_, (hupd t x).mpr ⟨hts, ht⟩⟩, rfl⟩
      rw [connected_leave, if_neg hts]
      exact (h.live t x ht).2
    · rintro ⟨t, x, ⟨-, ht⟩, rfl⟩
      obtain ⟨hts, ht⟩ := (hupd t x).mp ht
      refine ⟨?_, t, x, ht, rfl⟩
      intro hname
      cases hacc : c.accepted s with
      | none => exact hs hacc (hname ▸ h.mem_iff.mpr ⟨t, x, ht, rfl⟩)
      | some y => exact hts (h.unique t s x y ht hacc (hname.trans (h.name s y hacc)))
  · intro t x ht
    obtain ⟨hts, ht⟩ := (hupd t x).mp ht
    rw [connected_leave, if_neg hts]
    exact h.live t x ht
  · intro t x ht
    rw [playerName_leave]
    exact h.name t x ((hupd t x).mp ht).2
  · intro t u x y ht hu
    exact h.unique t u x y ((hupd t x).mp ht).2 ((hupd u y).mp hu).2
  · intro t hconn hnone
    change Function.update c.accepted s none t = none at hnone
    rw [connected_leave] at hconn
    by_cases hts : t = s
    · rw [if_pos hts] at hconn
      cases hconn
    · rw [if_neg hts] at hconn
      rw [Function.update_of_ne hts] at hnone
      rw [playerName_leave]
      exact h.fresh t hconn hnone

end

theorem inv_init (maps : List UInt8 → Option MapSectionData) : (init maps : Logins F).Inv := by
  refine ⟨?_, ?_, ?_, ?_, fun _ _ _ => rfl⟩
  · intro n
    constructor
    · intro hn
      exact absurd hn Std.ExtTreeSet.not_mem_empty
    · rintro ⟨s, code, ⟨-, hs⟩, -⟩
      cases hs
  · intro s code hs
    cases hs
  · intro s code hs
    cases hs
  · intro s t code code' hs
    cases hs

/-! ## Steps and runs -/

theorem step_eq_some {c c' : Logins F} {a : Env F × Event F} (h : c.step a = some c') :
    c.world.Enabled a.2 ∧ LoginMoves c.world c'.world a.2 ∧ c'.accepted = c.record c'.world a.2 := by
  obtain ⟨w', hw, rfl⟩ := Option.map_eq_some_iff.mp h
  obtain ⟨hen, hm⟩ := loginMoves_next hw
  exact ⟨hen, hm, rfl⟩

/-- The invariant survives the steps that keep logins distinct. -/
theorem inv_step {c c' : Logins F} {a : Env F × Event F} (h : c.Inv) (hg : c.Distinct a)
    (hs : c.step a = some c') : c'.Inv := by
  obtain ⟨hen, hm, ha⟩ := step_eq_some hs
  obtain ⟨world', accepted'⟩ := c'
  obtain ⟨env, e⟩ := a
  dsimp only at hen hm ha
  cases hm with
  | connect hw =>
      subst hw
      exact h.connect ha
  | @admitted s loginCode hid hw hacc =>
      have hfree : c.accepted s = none := by
        cases hx : c.accepted s with
        | none => rfl
        | some x =>
            obtain ⟨t, -, -, ht⟩ := hg.2 (by rw [hx]; simp)
            exact absurd rfl (h.not_held hid ht)
      refine (h.letsIn hen hfree hid).sameLogins hw ?_
      rw [ha]
      exact if_pos hacc
  | refused hid hw hacc =>
      refine h.sameLogins hw ?_
      rw [ha]
      exact if_neg (by rw [hacc]; simp)
  | @packet s pkt hpkt hw =>
      refine h.sameLogins hw ?_
      rw [ha]
      cases pkt with
      | cLogin loginCode => exact absurd rfl (hpkt loginCode)
      | _ => rfl
  | disconnect hw =>
      exact (h.leave fun hnone => (h.fresh_notMem_iff hen.2 hnone).mpr (hg hnone)).sameLogins hw ha
  | update hw => exact h.sameLogins hw ha

/-- What is right was distinct: of what is excluded, each does something wrong. -/
theorem distinct_of_right {c c' : Logins F} {a : Env F × Event F} (h : c.Inv) (hs : c.step a = some c')
    (hright : c.Right c' a.2) (hexact : c'.Exact) : c.Distinct a := by
  obtain ⟨hen, hm, ha⟩ := step_eq_some hs
  obtain ⟨env, e⟩ := a
  dsimp only at hen hm ha hright
  cases hm with
  | connect => trivial
  | @admitted s loginCode hid hw hacc =>
      refine ⟨fun t _ code hcode heq => absurd heq (h.not_held hid hcode), ?_⟩
      intro hne
      obtain ⟨x, hx⟩ := Option.ne_none_iff_exists'.mp hne
      -- the id of the first login stays in the list, and nobody holds it any more
      have hmem : idOf x ∈ c'.world.roomManager.playerIdList := by
        rw [hw.playerIdList]
        exact Table.set_mem_insert.mpr (.inr (h.mem_iff.mpr ⟨s, x, hx, rfl⟩))
      obtain ⟨t, y, ⟨-, ht⟩, hy⟩ := (hexact (idOf x)).mp hmem
      have hrec : c'.accepted = Function.update c.accepted s (some loginCode) := ha.trans (if_pos hacc)
      rw [hrec, Function.update_apply] at ht
      by_cases hts : t = s
      · rw [if_pos hts] at ht
        obtain rfl := Option.some.inj ht
        exact absurd hy.symm (h.not_held hid hx)
      · rw [if_neg hts] at ht
        exact absurd (h.unique t s y x ht hx hy) hts
  | @refused s loginCode hid hw hacc =>
      have hheld : ∃ t, t ≠ s ∧ c.Holds t loginCode := by
        by_contra hno
        have : c'.world.loginAccept = true := hright.mpr fun t hts ht => hno ⟨t, hts, ht⟩
        rw [hacc] at this
        cases this
      obtain ⟨t, hts, -, ht⟩ := hheld
      refine ⟨?_, fun _ => ⟨t, (h.live t loginCode ht).1, hts, ht⟩⟩
      intro u _ code hcode heq
      obtain rfl := h.unique u t code loginCode hcode ht heq
      exact Option.some.inj (hcode.symm.trans ht)
  | @packet s pkt hpkt hw =>
      cases pkt with
      | cLogin loginCode => exact absurd rfl (hpkt loginCode)
      | _ => trivial
  | @disconnect s hw =>
      intro hnone
      refine (h.fresh_notMem_iff hen.2 hnone).mp fun hmem => ?_
      have hsame := hright hnone
      rw [hw.playerIdList] at hsame
      have := (mem_playerIdList_leave c.world s (c.world.session s).playerName).mp (hsame ▸ hmem)
      exact this.1 rfl
  | update => trivial

theorem right_of_distinct {c c' : Logins F} {a : Env F × Event F} (h : c.Inv) (hs : c.step a = some c')
    (hg : c.Distinct a) : c.Right c' a.2 := by
  obtain ⟨hen, hm, ha⟩ := step_eq_some hs
  obtain ⟨env, e⟩ := a
  dsimp only at hen hm ha
  cases hm with
  | connect => trivial
  | @admitted s loginCode hid hw hacc =>
      refine ⟨fun _ t _ ht => ?_, fun _ => hacc⟩
      exact absurd rfl (h.not_held hid ht.2)
  | @refused s loginCode hid hw hacc =>
      refine ⟨fun hf => (by rw [hacc] at hf; cases hf), fun hno => ?_⟩
      obtain ⟨u, code, hu, heq⟩ := h.mem_iff.mp hid
      obtain rfl := hg.1 u (h.live u code hu).1 code hu heq
      by_cases hus : u = s
      · subst hus
        obtain ⟨t, -, hts, ht⟩ := hg.2 (by rw [hu]; simp)
        exact absurd (h.holds_iff.mpr ht) (hno t hts)
      · exact absurd (h.holds_iff.mpr hu) (hno u hus)
  | @packet s pkt hpkt hw =>
      cases pkt with
      | cLogin loginCode => exact absurd rfl (hpkt loginCode)
      | _ => trivial
  | @disconnect s hw =>
      intro hnone
      rw [hw.playerIdList]
      refine Std.ExtTreeSet.ext_mem fun n => (mem_playerIdList_leave c.world s n).trans ?_
      refine ⟨fun hn => hn.2, fun hn => ⟨?_, hn⟩⟩
      rintro rfl
      exact (h.fresh_notMem_iff hen.2 hnone).mpr (hg hnone) hn
  | update => trivial

/-- A step is right, and leaves the list exact, just when it keeps logins distinct. -/
theorem right_iff {c c' : Logins F} {a : Env F × Event F} (h : c.Inv) (hs : c.step a = some c') :
    c.Right c' a.2 ∧ c'.Exact ↔ c.Distinct a :=
  ⟨fun hright => distinct_of_right h hs hright.1 hright.2,
    fun hg => ⟨right_of_distinct h hs hg, (inv_step h hg hs).exact⟩⟩

/-- Two clients log in; a third is refused the code of the second, who leaves. -/
def loginRun : List (Env ℚ × Event ℚ) :=
  still [.connect, .connect, .connect, .packet 0 (.cLogin 1), .packet 1 (.cLogin 2),
    .packet 2 (.cLogin 2), .disconnect 1]

end Logins

end StarCraftIocp
