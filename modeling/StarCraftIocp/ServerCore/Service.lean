import Mathlib.Data.Finset.Basic
import Mathlib.Logic.Function.Basic
import StarCraftIocp.ServerCore.RecvBuffer
import StarCraftIocp.ServerCore.SendPath

/-!
# The sessions of a server

`Listener`, `Session` and `Service` from the acceptance of a connection to its end,
for any number of sessions and threads. A thread has a stack of calls, and a step of
it is one `WRITE_LOCK` section, one access to an atomic, or one call of the system.
What a callback does is up to the server: while a thread is in one, or in none of
these functions, it may call `Send` and `Disconnect` of any session.

A session is accepted at most once, since `RegisterAccept` always asks the factory for
a new one. What is sent, and the references that the events hold, are left out.
-/

namespace StarCraftIocp

namespace Service

variable {T S : Type}

/-- A call that is under way, at what it does next. -/
inductive Frame (S : Type) where
  | registerAccept
  /-- `ProcessConnect`, at the store to `_connected`. -/
  | processConnect (s : S)
  | addSession (s : S)
  /-- In `OnConnected`. -/
  | onConnected (s : S)
  | registerRecv (s : S)
  /-- `RegisterRecv`, past its `IsConnected`. -/
  | wsaRecv (s : S)
  /-- `ProcessRecv`, in `OnRecv`. -/
  | onRecv (s : S)
  | send (s : S)
  /-- `Send`, at its locked section. -/
  | sendPush (s : S)
  | registerSend (s : S)
  /-- `RegisterSend`, at its locked section. -/
  | drain (s : S)
  | wsaSend (s : S)
  /-- `RegisterSend`, at the store to `_sendRegistered`. -/
  | sendFailed (s : S)
  /-- `ProcessSend`, in `OnSend`. -/
  | onSend (s : S)
  /-- `ProcessSend`, at its locked section. -/
  | sendNext (s : S)
  | unlock (s : S)
  /-- `Disconnect`, at the exchange of `_connected`. -/
  | disconnect (s : S)
  /-- `RegisterDisconnect`. -/
  | disconnectEx (s : S)
  /-- `ProcessDisconnect`, in `OnDisconnected`. -/
  | onDisconnected (s : S)
  | releaseSession (s : S)
  deriving DecidableEq

/-- The session that a call is about. -/
def Frame.session : Frame S → Option S
  | .registerAccept => none
  | .processConnect s | .addSession s | .onConnected s | .registerRecv s | .wsaRecv s | .onRecv s | .send s
  | .sendPush s | .registerSend s | .drain s | .wsaSend s | .sendFailed s | .onSend s | .sendNext s
  | .unlock s | .disconnect s | .disconnectEx s | .onDisconnected s | .releaseSession s => some s

/-- A session, what the system has in hand for it, and how often it went through its turns. -/
structure SessionState (T : Type) where
  created : Bool
  /-- It is the `session` of an `AcceptEvent` in flight. -/
  accepting : Bool
  connected : Bool
  recvBuffer : RecvBuffer
  /-- The length of `_sendQueue`. -/
  sendQueue : Nat
  sendRegistered : Bool
  /-- The thread in the locked section of `ProcessSend`. -/
  lock : Option T
  /-- The calls of `WSARecv` in flight. -/
  recvs : Nat
  sends : Nat
  /-- The calls of `DisconnectEx` in flight. -/
  disconnects : Nat
  /-- How often `AddSession` has run. -/
  added : Nat
  /-- How often `OnDisconnected` has been called. -/
  disconnected : Nat
  /-- How often `ReleaseSession` has run. -/
  released : Nat

/-- `BUFFER_SIZE`. -/
def bufferSize : Int := 65536

/-- Before the factory is asked for it. -/
def SessionState.new : SessionState T where
  created := false
  accepting := false
  connected := false
  recvBuffer := RecvBuffer.new bufferSize
  sendQueue := 0
  sendRegistered := false
  lock := none
  recvs := 0
  sends := 0
  disconnects := 0
  added := 0
  disconnected := 0
  released := 0

end Service

open Service

/-- The service, its sessions and its threads. -/
structure ServiceState (T S : Type) where
  session : S → SessionState T
  /-- `_sessions`. -/
  sessions : Finset S
  sessionCount : Int
  stack : T → List (Frame S)
  /-- An assertion has failed. -/
  crashed : Bool

namespace Service

/-- What the environment decides in a step. -/
inductive ServiceAction (S : Type) where
  /-- The factory makes a session, and `AcceptEx` returns true, or false with the error code. -/
  | acceptEx (s : S) (errorCode : Option Nat)
  /-- A connection has come in; the socket of the session is set up, or is not. -/
  | completeAccept (s : S) (ok : Bool)
  | completeRecv (s : S) (chunk : List UInt8)
  | completeSend (s : S) (numOfBytes : Nat)
  | completeDisconnect (s : S)
  /-- Code of the server calls `Send`. -/
  | send (s : S)
  /-- Code of the server calls `Disconnect`. -/
  | disconnect (s : S)
  /-- `WSARecv`, `WSASend` or `DisconnectEx` returns without an error, or with this one. -/
  | winsock (errorCode : Option Nat)
  /-- A callback returns; `OnRecv` returns this value. -/
  | ret (processLen : Int)
  /-- A thread takes its next step. -/
  | next

/-- The call has been posted. -/
def posted (errorCode : Option Nat) : Bool :=
  match errorCode with
  | none => true
  | some code => code = wsaIoPending

/-- `HandleError`: the calls it makes. -/
def handleError (s : S) (errorCode : Option Nat) : List (Frame S) :=
  match errorCode with
  | none => []
  | some code => if code = wsaEConnReset ∨ code = wsaEConnAborted then [.disconnect s] else []

end Service

namespace ServiceState

variable {T S : Type} [DecidableEq T] [DecidableEq S]

/-- The thread `main` is in `StartAccept`, and nothing else has happened. -/
def init (main : T) (acceptCount : Nat) : ServiceState T S where
  session := fun _ => .new
  sessions := ∅
  sessionCount := 0
  stack := Function.update (fun _ => []) main (List.replicate acceptCount .registerAccept)
  crashed := false

def set (st : ServiceState T S) (s : S) (σ : SessionState T) : ServiceState T S :=
  { st with session := Function.update st.session s σ }

def goto (st : ServiceState T S) (t : T) (calls : List (Frame S)) : ServiceState T S :=
  { st with stack := Function.update st.stack t calls }

/-- `t` can enter a `WRITE_LOCK` section of the session. -/
def canLock (σ : SessionState T) (t : T) : Prop := σ.lock = none ∨ σ.lock = some t

instance (σ : SessionState T) (t : T) : Decidable (canLock σ t) :=
  inferInstanceAs (Decidable (_ ∨ _))

/-- The first part of `ProcessRecv`, up to `OnRecv`. -/
def processRecv (st : ServiceState T S) (s : S) (chunk : List UInt8) : ServiceState T S × List (Frame S) :=
  let σ := { st.session s with recvs := (st.session s).recvs - 1 }
  if chunk.length = 0 then (st.set s σ, [.disconnect s])
  else
    match (σ.recvBuffer.deposit chunk).onWrite chunk.length with
    | none => (st.set s σ, [.disconnect s])
    | some recvBuffer => (st.set s { σ with recvBuffer := recvBuffer }, [.onRecv s])

/-- What a thread does that is in none of the functions. The result goes with the calls it makes. -/
def idle (st : ServiceState T S) : ServiceAction S → Option (ServiceState T S × List (Frame S))
  | .completeAccept s ok =>
      if (st.session s).accepting then
        let st := st.set s { st.session s with accepting := false }
        if ok then some (st, [.processConnect s, .registerAccept]) else some (st, [.registerAccept])
      else none
  | .completeRecv s chunk =>
      if 0 < (st.session s).recvs then some (st.processRecv s chunk) else none
  | .completeSend s numOfBytes =>
      if 0 < (st.session s).sends then
        let st := st.set s { st.session s with sends := (st.session s).sends - 1 }
        if numOfBytes = 0 then some (st, [.disconnect s]) else some (st, [.onSend s])
      else none
  | .completeDisconnect s =>
      if 0 < (st.session s).disconnects then
        some (st.set s { st.session s with
          disconnects := (st.session s).disconnects - 1
          disconnected := (st.session s).disconnected + 1 }, [.onDisconnected s])
      else none
  | .send s => if (st.session s).created then some (st, [.send s]) else none
  | .disconnect s => if (st.session s).created then some (st, [.disconnect s]) else none
  | _ => none

/-- What a callback does. -/
def callback (st : ServiceState T S) (f : Frame S) (ret : Int → ServiceState T S × List (Frame S)) :
    ServiceAction S → Option (ServiceState T S × List (Frame S))
  | .send s => if (st.session s).created then some (st, [.send s, f]) else none
  | .disconnect s => if (st.session s).created then some (st, [.disconnect s, f]) else none
  | .ret processLen => some (ret processLen)
  | _ => none

/-- The second part of `ProcessRecv`, from the return of `OnRecv`. -/
def recvReturned (st : ServiceState T S) (s : S) (processLen : Int) : ServiceState T S × List (Frame S) :=
  let σ := st.session s
  if processLen < 0 ∨ σ.recvBuffer.dataSize < processLen then (st, [.disconnect s])
  else
    match σ.recvBuffer.onRead processLen with
    | none => (st, [.disconnect s])
    | some recvBuffer => (st.set s { σ with recvBuffer := recvBuffer.clean.value }, [.registerRecv s])

/-- `ReleaseSession`. -/
def releaseSession (st : ServiceState T S) (s : S) : ServiceState T S :=
  if s ∈ st.sessions then
    { st.set s { st.session s with released := (st.session s).released + 1 } with
      sessions := st.sessions.erase s
      sessionCount := st.sessionCount - 1 }
  else { st with crashed := true }

/-- What a thread does next whose innermost call is `f`. The result goes with the calls that take its place. -/
def call (st : ServiceState T S) (t : T) (f : Frame S) (a : ServiceAction S) :
    Option (ServiceState T S × List (Frame S)) :=
  match f, a with
  | .registerAccept, .acceptEx s errorCode =>
      if (st.session s).created then none
      else if posted errorCode then
        some (st.set s { st.session s with created := true, accepting := true }, [])
      else some (st.set s { st.session s with created := true }, [.registerAccept])
  | .processConnect s, .next => some (st.set s { st.session s with connected := true }, [.addSession s])
  | .addSession s, .next =>
      some ({ st.set s { st.session s with added := (st.session s).added + 1 } with
        sessions := insert s st.sessions
        sessionCount := st.sessionCount + 1 }, [.onConnected s])
  | .onConnected s, a => st.callback f (fun _ => (st, [.registerRecv s])) a
  | .registerRecv s, .next => some (st, if (st.session s).connected then [.wsaRecv s] else [])
  | .wsaRecv s, .winsock errorCode =>
      if posted errorCode then
        some (st.set s { st.session s with recvs := (st.session s).recvs + 1 }, [])
      else some (st, handleError s errorCode)
  | .onRecv s, a => st.callback f (st.recvReturned s) a
  | .send s, .next => some (st, if (st.session s).connected then [.sendPush s] else [])
  | .sendPush s, .next =>
      if canLock (st.session s) t then
        let σ := { st.session s with sendQueue := (st.session s).sendQueue + 1, sendRegistered := true }
        some (st.set s σ, if (st.session s).sendRegistered then [] else [.registerSend s])
      else none
  | .registerSend s, .next => some (st, if (st.session s).connected then [.drain s] else [])
  | .drain s, .next =>
      if canLock (st.session s) t then
        some (st.set s { st.session s with sendQueue := 0 }, [.wsaSend s])
      else none
  | .wsaSend s, .winsock errorCode =>
      if posted errorCode then
        some (st.set s { st.session s with sends := (st.session s).sends + 1 }, [])
      else some (st, handleError s errorCode ++ [.sendFailed s])
  | .sendFailed s, .next => some (st.set s { st.session s with sendRegistered := false }, [])
  | .onSend s, a => st.callback f (fun _ => (st, [.sendNext s])) a
  | .sendNext s, .next =>
      if canLock (st.session s) t then
        if (st.session s).sendQueue = 0 then
          some (st.set s { st.session s with sendRegistered := false }, [])
        else some (st.set s { st.session s with lock := some t }, [.registerSend s, .unlock s])
      else none
  | .unlock s, .next => some (st.set s { st.session s with lock := none }, [])
  | .disconnect s, .next =>
      if (st.session s).connected then
        some (st.set s { st.session s with connected := false }, [.disconnectEx s])
      else some (st, [])
  | .disconnectEx s, .winsock errorCode =>
      if posted errorCode then
        some (st.set s { st.session s with disconnects := (st.session s).disconnects + 1 }, [])
      else some (st, [])
  | .onDisconnected s, a => st.callback f (fun _ => (st, [.releaseSession s])) a
  | .releaseSession s, .next => some (st.releaseSession s, [])
  | _, _ => none

/-- One step of the thread `a.1`; `none` when the action is not possible now. -/
def next (st : ServiceState T S) (a : T × ServiceAction S) : Option (ServiceState T S) :=
  if st.crashed then none
  else
    match st.stack a.1 with
    | [] => (st.idle a.2).map fun (st', calls) => st'.goto a.1 calls
    | f :: rest => (st.call a.1 f a.2).map fun (st', calls) => st'.goto a.1 (calls ++ rest)

end ServiceState

end StarCraftIocp
