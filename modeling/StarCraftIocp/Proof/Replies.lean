import StarCraftIocp.Proof.Membership

/-!
# A reply that does not fit

`Handle_C_ROOM_CREATE` sends the client's strings back to it. A packet can carry
more than a chunk holds, so that a client can choose a name that the server
cannot reply to.
-/

namespace StarCraftIocp

open Protocol Outcome

variable {F : Type} [Scalar F]

namespace World

theorem gameName_created (w : World F) (s : SessionRef) (gameId : UInt64)
    (gameName gamePassWord mapHash : List UInt8) :
    ((w.created s gameId gameName gamePassWord mapHash).room w.nextRoom).gameName = gameName := by
  rw [room_created, if_pos rfl]; rfl

/-- The reply to a client that has created a room. -/
def createReply (w : World F) (s : SessionRef) (gameId : UInt64)
    (gameName gamePassWord mapHash : List UInt8) : ServerMessage F :=
  let room := (w.created s gameId gameName gamePassWord mapHash).room w.nextRoom
  roomLobby room room.roomId

theorem handleCRoomCreate_eq (w : World F) (s : SessionRef) (gameId : UInt64)
    (gameName gamePassWord mapHash : List UInt8) :
    w.handleCRoomCreate s gameId gameName gamePassWord mapHash
      = (w.created s gameId gameName gamePassWord mapHash).reply s
          (w.createReply s gameId gameName gamePassWord mapHash) := rfl

theorem le_byteSizeLong_createReply (w : World F) (s : SessionRef) (gameId : UInt64)
    (gameName gamePassWord mapHash : List UInt8) :
    gameName.length ≤ (w.createReply s gameId gameName gamePassWord mapHash).byteSizeLong := by
  have h := gameName_created w s gameId gameName gamePassWord mapHash
  unfold createReply roomLobby
  dsimp only
  rw [h]
  exact le_byteSizeLong_sRoomLobby ..

/-- What has been sent did fit. -/
theorem byteSizeLong_le_of_reply {w w' : World F} {s : SessionRef} {msg : ServerMessage F}
    (h : w.reply s msg = .ok w') : msg.byteSizeLong ≤ 5996 := by
  obtain ⟨packet, hframe, -⟩ := bind_eq_ok.mp h
  exact ServerMessage.byteSizeLong_le_of_frame hframe

/-- A client that calls its game by 6000 letters gets no reply: framing it is a crash. -/
theorem not_roundTrips :
    ∃ w : World ℚ, Reachable (Transition.ofFun next) (World.init fun _ => none) w
      ∧ w.Enabled (.packet 0 (.cRoomCreate 1 (List.replicate 6000 65) [] []))
      ∧ (∀ w', w.handleCRoomCreate 0 1 (List.replicate 6000 65) [] [] ≠ .ok w')
      ∧ ¬ (w.createReply 0 1 (List.replicate 6000 65) [] []).RoundTrips SendBufferManager.init := by
  have hrun : (([(Env.still, .connect)] : List (Env ℚ × Event ℚ)).foldlM next
      (World.init fun _ => none)).map
      (fun w => (decide (0 < w.nextSession), (w.session 0).connected)) = some (true, true) := by
    decide +kernel
  obtain ⟨w, hw, hobs⟩ := Option.map_eq_some_iff.mp hrun
  obtain ⟨hlt, hconn⟩ := Prod.mk.inj hobs
  have hsize := le_byteSizeLong_createReply w 0 1 (List.replicate 6000 65) [] []
  rw [List.length_replicate] at hsize
  refine ⟨w, Reachable.of_run hw .refl, ⟨of_decide_eq_true hlt, hconn⟩, ?_, ?_⟩
  · intro w' hw'
    rw [handleCRoomCreate_eq] at hw'
    have := byteSizeLong_le_of_reply hw'
    omega
  · intro h
    have := (ServerMessage.roundTrips_iff SendBufferManager.wf_init _).mp h
    omega

end World

end StarCraftIocp
