import Mathlib.Tactic.Common
import Mathlib.Logic.Function.Basic

/-!
# The send path of a session

`Send`, `RegisterSend`, `ProcessSend`, `HandleError` and `Disconnect` of one
session, run by any number of threads. A step is one `WRITE_LOCK` section or one
access to what the threads share outside of a lock: the atomics `_connected` and
`_sendRegistered`, the fields of `_sendEvent`, and the calls of `WSASend`.

`ProcessSend` calls `RegisterSend` with the lock in hand. The lock is reentrant,
so that call goes through, while the other threads' sections wait.
-/

namespace StarCraftIocp

/-- `WSA_IO_PENDING`. -/
def wsaIoPending : Nat := 997

def wsaEConnAborted : Nat := 10053

def wsaEConnReset : Nat := 10054

namespace Session

variable {T B : Type}

/-- Where a thread is in `RegisterSend`; each name is what it does next. -/
inductive RegisterStage (B : Type) where
  | isConnected
  | init
  | drain
  | gather
  /-- `WSASend` on the `WSABUF`s gathered. -/
  | wsaSend (wsaBufs : List B)
  | handleError (errorCode : Nat)
  | releaseOwner
  | clear
  | store

/-- Where a thread is in `ProcessSend(numOfBytes)`. -/
inductive ProcessStage where
  | releaseOwner (numOfBytes : Nat)
  | clear (numOfBytes : Nat)
  | zeroBytes (numOfBytes : Nat)
  /-- Enter the locked section and look at the queue. -/
  | lock
  | unlock

/-- What a thread is doing on this session. -/
inductive Pc (B : Type) where
  | idle
  /-- In `Send`, past its `IsConnected`. -/
  | send (sendBuffer : B)
  /-- In `RegisterSend`, called from `ProcessSend` or from `Send`. -/
  | registerSend (stage : RegisterStage B) (fromProcessSend : Bool)
  | processSend (stage : ProcessStage)

/-- The state of the session, of its threads, and of the system's side of `WSASend`. -/
structure SendState (T B : Type) where
  connected : Bool
  sendRegistered : Bool
  sendQueue : List B
  /-- Whether `_sendEvent.owner` is set. -/
  owner : Bool
  /-- `_sendEvent.sendBuffers`. -/
  sendBuffers : List B
  /-- The thread in the locked section of `ProcessSend`. -/
  lock : Option T
  pc : T → Pc B
  /-- The buffer lists of the `WSASend` calls that are in flight. -/
  outstanding : List (List B)
  /-- Every buffer ever pushed on `_sendQueue`, in order. -/
  pushed : List B
  /-- The buffer lists of all calls of `WSASend`, in order. -/
  handed : List (List B)
  /-- Those of them that did not fail. -/
  posted : List (List B)

/-- What the environment decides in a step. -/
inductive SendAction (B : Type) where
  /-- An idle thread calls `Send`. -/
  | send (sendBuffer : B)
  /-- An idle thread calls `Disconnect`. -/
  | disconnect
  /-- An idle thread is given the completion of the `i`-th `WSASend` in flight. -/
  | complete (i numOfBytes : Nat)
  /-- `WSASend` returns 0, or `SOCKET_ERROR` with the error code. -/
  | wsaSend (errorCode : Option Nat)
  /-- A thread that is under way takes its next step. -/
  | next

/-- Right after `ProcessConnect`. -/
def SendState.init : SendState T B where
  connected := true
  sendRegistered := false
  sendQueue := []
  owner := false
  sendBuffers := []
  lock := none
  pc := fun _ => .idle
  outstanding := []
  pushed := []
  handed := []
  posted := []

namespace SendState

variable [DecidableEq T]

def goto (s : SendState T B) (t : T) (pc : Pc B) : SendState T B :=
  { s with pc := Function.update s.pc t pc }

/-- `t` can enter a `WRITE_LOCK` section. -/
def canLock (s : SendState T B) (t : T) : Prop := s.lock = none ∨ s.lock = some t

instance (s : SendState T B) (t : T) : Decidable (s.canLock t) :=
  inferInstanceAs (Decidable (_ ∨ _))

/-- Where `RegisterSend` returns to. -/
def returnTo (fromProcessSend : Bool) : Pc B :=
  if fromProcessSend then .processSend .unlock else .idle

/-- One step of a thread in `RegisterSend`, the call of `WSASend` apart. -/
def registerSend (s : SendState T B) (t : T) (nested : Bool) : RegisterStage B → Option (SendState T B)
  | .isConnected =>
      if s.connected then some (s.goto t (.registerSend .init nested))
      else some (s.goto t (returnTo nested))
  | .init => some ({ s with owner := true }.goto t (.registerSend .drain nested))
  | .drain =>
      if s.canLock t then
        some ({ s with sendBuffers := s.sendBuffers ++ s.sendQueue, sendQueue := [] }.goto t
          (.registerSend .gather nested))
      else none
  | .gather => some (s.goto t (.registerSend (.wsaSend s.sendBuffers) nested))
  | .wsaSend _ => none
  | .handleError errorCode =>
      -- `HandleError`: a reset or aborted connection is closed, anything else is only logged
      let s := if errorCode = wsaEConnReset ∨ errorCode = wsaEConnAborted
        then { s with connected := false } else s
      some (s.goto t (.registerSend .releaseOwner nested))
  | .releaseOwner => some ({ s with owner := false }.goto t (.registerSend .clear nested))
  | .clear => some ({ s with sendBuffers := [] }.goto t (.registerSend .store nested))
  | .store => some ({ s with sendRegistered := false }.goto t (returnTo nested))

/-- `WSASend` itself. An error of `WSA_IO_PENDING` is no failure. -/
def wsaSend (s : SendState T B) (t : T) (nested : Bool) (wsaBufs : List B) (errorCode : Option Nat) :
    SendState T B :=
  let s := { s with handed := s.handed ++ [wsaBufs] }
  match errorCode with
  | some code =>
      if code = wsaIoPending then
        { s with outstanding := s.outstanding ++ [wsaBufs], posted := s.posted ++ [wsaBufs] }.goto t
          (returnTo nested)
      else s.goto t (.registerSend (.handleError code) nested)
  | none =>
      { s with outstanding := s.outstanding ++ [wsaBufs], posted := s.posted ++ [wsaBufs] }.goto t
        (returnTo nested)

/-- One step of a thread in `ProcessSend`. -/
def processSend (s : SendState T B) (t : T) : ProcessStage → Option (SendState T B)
  | .releaseOwner n => some ({ s with owner := false }.goto t (.processSend (.clear n)))
  | .clear n => some ({ s with sendBuffers := [] }.goto t (.processSend (.zeroBytes n)))
  | .zeroBytes n =>
      if n = 0 then some ({ s with connected := false }.goto t .idle)
      else some (s.goto t (.processSend .lock))
  | .lock =>
      if s.canLock t then
        if s.sendQueue = [] then some ({ s with sendRegistered := false }.goto t .idle)
        else some ({ s with lock := some t }.goto t (.registerSend .isConnected true))
      else none
  | .unlock => some ({ s with lock := none }.goto t .idle)

/-- The locked section of `Send`. -/
def pushSection (s : SendState T B) (t : T) (sendBuffer : B) : Option (SendState T B) :=
  if s.canLock t then
    let s := { s with sendQueue := s.sendQueue ++ [sendBuffer], pushed := s.pushed ++ [sendBuffer] }
    -- `_sendRegistered.exchange(true)`
    if s.sendRegistered then some (s.goto t .idle)
    else some ({ s with sendRegistered := true }.goto t (.registerSend .isConnected false))
  else none

/-- One step of the thread `a.1`; `none` when the action is not possible now. -/
def next (s : SendState T B) (a : T × SendAction B) : Option (SendState T B) :=
  match a.2, s.pc a.1 with
  | .send sendBuffer, .idle => some (if s.connected then s.goto a.1 (.send sendBuffer) else s)
  | .disconnect, .idle => some { s with connected := false }
  | .complete i n, .idle =>
      if i < s.outstanding.length then
        some ({ s with outstanding := s.outstanding.eraseIdx i }.goto a.1
          (.processSend (.releaseOwner n)))
      else none
  | .wsaSend errorCode, .registerSend (.wsaSend wsaBufs) nested =>
      some (s.wsaSend a.1 nested wsaBufs errorCode)
  | .next, .send sendBuffer => s.pushSection a.1 sendBuffer
  | .next, .registerSend stage nested => s.registerSend a.1 nested stage
  | .next, .processSend stage => s.processSend a.1 stage
  | _, _ => none

end SendState

end Session

end StarCraftIocp
