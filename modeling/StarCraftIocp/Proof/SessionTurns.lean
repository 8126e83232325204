import StarCraftIocp.Lib.Tokens
import StarCraftIocp.ServerCore.Service

/-!
# The turns in the life of a session

Seen from one session, the steps of all the threads come down to a dozen turns. Calls
under way count as tokens: `entering` is the number of threads about to run its
`ProcessConnect`, `hearing` of those that owe it a `WSARecv` or a `Disconnect`, and so
on. What the threads do is shown to be these turns; what can be said of a session is
then said of its tokens.
-/

namespace StarCraftIocp

namespace Service

/-- What one session looks like. -/
@[ext] structure View where
  created : Bool
  accepting : Bool
  connected : Bool
  /-- It is one of `_sessions`. -/
  listed : Prop
  /-- Calls of `ProcessConnect`, before the store to `_connected`. -/
  entering : Nat
  /-- Calls of `ProcessConnect` that have `AddSession` before them. -/
  adding : Nat
  added : Nat
  recvs : Nat
  /-- Calls that will post a `WSARecv` or disconnect. -/
  hearing : Nat
  disconnects : Nat
  /-- Calls that will post a `DisconnectEx`, or that end the session. -/
  closing : Nat
  /-- Calls of `ProcessDisconnect`. -/
  ending : Nat
  disconnected : Nat
  released : Nat

/-- What can happen to a session. -/
inductive Turn where
  | stay
  | create (accepting : Bool)
  | accept (ok : Bool)
  | connect
  | add
  /-- Somebody is about to call `Disconnect`. -/
  | ask
  | hear
  | listen
  /-- A call ends that was to post a `WSARecv` or to disconnect. -/
  | lose
  | disconnect
  | postDisconnect
  | failDisconnect
  | finish
  | release
  deriving DecidableEq

namespace View

/-- When a turn can come. -/
def Can (v : View) : Turn → Prop
  | .stay => True
  | .create _ => v.created = false
  | .accept _ => v.accepting = true
  | .connect => 0 < v.entering
  | .add => 0 < v.adding
  | .ask => True
  | .hear => 0 < v.recvs
  | .listen => 0 < v.hearing
  | .lose => 0 < v.hearing
  | .disconnect => v.connected = true ∧ 0 < v.hearing
  | .postDisconnect => 0 < v.closing
  | .failDisconnect => 0 < v.closing
  | .finish => 0 < v.disconnects
  | .release => 0 < v.closing ∧ 0 < v.ending ∧ v.listed

/-- What a turn changes. -/
def apply (v : View) : Turn → View
  | .stay => v
  | .create accepting => { v with created := true, accepting := accepting }
  | .accept ok => { v with accepting := false, entering := v.entering + if ok then 1 else 0 }
  | .connect => { v with
      connected := true, entering := v.entering - 1, adding := v.adding + 1, hearing := v.hearing + 1 }
  | .add => { v with listed := True, adding := v.adding - 1, added := v.added + 1 }
  | .ask => { v with hearing := v.hearing + 1 }
  | .hear => { v with recvs := v.recvs - 1, hearing := v.hearing + 1 }
  | .listen => { v with recvs := v.recvs + 1, hearing := v.hearing - 1 }
  | .lose => { v with hearing := v.hearing - 1 }
  | .disconnect => { v with connected := false, hearing := v.hearing - 1, closing := v.closing + 1 }
  | .postDisconnect => { v with disconnects := v.disconnects + 1, closing := v.closing - 1 }
  | .failDisconnect => { v with closing := v.closing - 1 }
  | .finish => { v with
      disconnects := v.disconnects - 1, closing := v.closing + 1, ending := v.ending + 1
      disconnected := v.disconnected + 1 }
  | .release => { v with
      listed := False, closing := v.closing - 1, ending := v.ending - 1, released := v.released + 1 }

/-! ## What is kept -/

/-- The tokens of a session. -/
structure Ordered (v : View) : Prop where
  once : v.accepting.toNat + v.entering + v.adding + v.added ≤ 1
  uncreated : v.created = false → v.accepting = false ∧ v.entering = 0 ∧ v.adding = 0 ∧ v.added = 0
  connected : v.connected = true → v.adding + v.added = 1 ∧ v.closing + v.disconnects + v.released = 0
  closed : v.closing + v.disconnects + v.released ≤ v.adding + v.added
  ended : v.disconnected = v.ending + v.released
  released : v.released ≤ v.added
  listed : v.listed ↔ v.added = 1 ∧ v.released = 0

theorem Ordered.apply {v : View} (h : v.Ordered) {turn : Turn} (hcan : v.Can turn) :
    (v.apply turn).Ordered := by
  obtain ⟨honce, huncreated, hconnected, hclosed, hended, hreleased, hlisted⟩ := h
  cases turn with
  | stay => exact ⟨honce, huncreated, hconnected, hclosed, hended, hreleased, hlisted⟩
  | create accepting =>
      obtain ⟨haccepting, hentering, hadding, hadded⟩ := huncreated hcan
      refine ⟨?_, nofun, hconnected, hclosed, hended, hreleased, hlisted⟩
      dsimp only [View.apply]
      have := accepting.toNat_le
      omega
  | accept ok =>
      have haccepting : v.accepting.toNat = 1 := by rw [hcan]; rfl
      refine ⟨?_, ?_, hconnected, hclosed, hended, hreleased, hlisted⟩
      · dsimp only [View.apply, Bool.toNat]
        split <;> simp only [cond_false] <;> omega
      · intro huncr
        obtain ⟨hfalse, -⟩ := huncreated huncr
        rw [hcan] at hfalse
        cases hfalse
  | connect =>
      dsimp only [View.Can] at hcan
      -- a session that nobody has made is not connected
      have hcreated : v.created ≠ false := by
        intro huncr
        obtain ⟨-, hentering, -⟩ := huncreated huncr
        omega
      refine ⟨?_, fun h => absurd h hcreated, ?_, ?_, hended, hreleased, hlisted⟩ <;>
        dsimp only [View.apply] <;> omega
  | add =>
      dsimp only [View.Can] at hcan
      have hcreated : v.created ≠ false := by
        intro huncr
        obtain ⟨-, -, hadding, -⟩ := huncreated huncr
        omega
      refine ⟨?_, fun h => absurd h hcreated, ?_, ?_, hended, ?_, ?_⟩ <;> dsimp only [View.apply]
      · omega
      · intro hconn
        have := hconnected hconn
        omega
      · omega
      · omega
      · have hadded : v.added = 0 := by omega
        have hrel : v.released = 0 := by omega
        simp only [hadded, hrel, and_self]
  | ask | hear | listen | lose =>
      exact ⟨honce, huncreated, hconnected, hclosed, hended, hreleased, hlisted⟩
  | disconnect =>
      -- `_connected` was still set, so that nothing of the end has come yet
      obtain ⟨hconn, -⟩ := hcan
      have := hconnected hconn
      refine ⟨honce, huncreated, nofun, ?_, hended, hreleased, hlisted⟩
      dsimp only [View.apply]
      omega
  | postDisconnect =>
      dsimp only [View.Can] at hcan
      refine ⟨honce, huncreated, ?_, ?_, hended, hreleased, hlisted⟩ <;> dsimp only [View.apply]
      · intro hconn
        have := hconnected hconn
        omega
      · omega
  | failDisconnect =>
      dsimp only [View.Can] at hcan
      refine ⟨honce, huncreated, ?_, ?_, hended, hreleased, hlisted⟩ <;> dsimp only [View.apply]
      · intro hconn
        have := hconnected hconn
        omega
      · omega
  | finish =>
      dsimp only [View.Can] at hcan
      refine ⟨honce, huncreated, ?_, ?_, ?_, hreleased, hlisted⟩ <;> dsimp only [View.apply]
      · intro hconn
        have := hconnected hconn
        omega
      · omega
      · omega
  | release =>
      -- a session that is listed has been added, and not released before
      obtain ⟨hclosing, hending, hmem⟩ := hcan
      obtain ⟨hadded, hrel⟩ := hlisted.mp hmem
      refine ⟨honce, huncreated, ?_, ?_, ?_, ?_, ?_⟩ <;> dsimp only [View.apply]
      · intro hconn
        have := hconnected hconn
        omega
      · omega
      · omega
      · omega
      · simp only [hrel, Nat.zero_add, Nat.one_ne_zero, and_false]

/-- The session has been added before anything of its end. -/
def Settled (v : View) : Prop := 0 < v.closing + v.disconnects + v.released → v.added = 1

theorem Settled.apply {v : View} (h : v.Settled) (ho : v.Ordered) {turn : Turn} (hcan : v.Can turn)
    (hwindow : turn = .disconnect → v.adding = 0) : (v.apply turn).Settled := by
  have hconnected := ho.connected
  have hclosed := ho.closed
  have honce := ho.once
  unfold Settled at h ⊢
  cases turn <;> dsimp only [View.apply, View.Can] at hcan ⊢
  case disconnect =>
    -- outside the gap a connected session has been added
    have hadding := hwindow rfl
    have := hconnected hcan.1
    omega
  all_goals omega

/-- While connected it has a `WSARecv` in flight, or somebody owes it one; afterwards the same of `DisconnectEx`. -/
structure Heard (v : View) : Prop where
  open_ : v.connected = true → 0 < v.recvs + v.hearing
  closed : v.connected = false → v.adding + v.added = 1 → 0 < v.closing + v.disconnects + v.released

theorem Heard.apply {v : View} (h : v.Heard) (ho : v.Ordered) {turn : Turn} (hcan : v.Can turn)
    (hlose : turn = .lose → v.connected = false) (hfail : turn ≠ .failDisconnect) :
    (v.apply turn).Heard := by
  obtain ⟨hopen, hclosed⟩ := h
  have honce := ho.once
  constructor
  · cases turn <;> dsimp only [View.apply, View.Can] at hcan ⊢
    case lose =>
      -- only a session that is closed may lose the call that listens to it
      intro hconn
      rw [hlose rfl] at hconn
      cases hconn
    case connect => omega
    case disconnect => nofun
    all_goals
      intro hconn
      have := hopen hconn
      omega
  · cases turn <;> dsimp only [View.apply, View.Can] at hcan ⊢
    case connect => nofun
    case disconnect => omega
    case failDisconnect => exact absurd rfl hfail
    all_goals
      intro hconn
      have := hclosed hconn
      omega

end View

end Service

end StarCraftIocp
