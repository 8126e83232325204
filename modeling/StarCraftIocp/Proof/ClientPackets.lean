import StarCraftIocp.Client.PacketWriter

/-!
# A client packet arrives as it was sent

What `WriteTo` of the client writes, `ParseFromArray` of the server reads as the
same message, for each of the ten, whatever is in its fields. Only a negative
zero is not told from zero. Fields the server does not know are skipped wherever
they stand between the others.
-/

namespace StarCraftIocp

open Wire Protocol PacketWriter

/-! ## Conversions -/

theorem uint64_toNat_lt (n : Int) : (CInt.uint64 n).toNat < 18446744073709551616 := by
  unfold CInt.uint64; omega

theorem toInt32_uint64 (v : Int32) : toInt32 (CInt.uint64 v.toInt).toNat = v := by
  have hlo := v.le_toInt
  have hhi := v.toInt_lt
  refine Int32.toInt_inj.mp ?_
  have hbits : (toInt32 (CInt.uint64 v.toInt).toNat).toInt =
      (BitVec.ofNat 32 (CInt.uint64 v.toInt).toNat).toInt := rfl
  rw [hbits, BitVec.toInt_eq_toNat_cond, BitVec.toNat_ofNat]
  unfold CInt.uint64
  split <;> omega

theorem toInt64_uint64 (v : Int64) : (UInt64.ofNat (CInt.uint64 v.toInt).toNat).toInt64 = v := by
  have hlo := v.le_toInt
  have hhi := v.toInt_lt
  refine Int64.toInt_inj.mp ?_
  have hbits : (UInt64.ofNat (CInt.uint64 v.toInt).toNat).toInt64.toInt =
      (BitVec.ofNat 64 (CInt.uint64 v.toInt).toNat).toInt := rfl
  rw [hbits, BitVec.toInt_eq_toNat_cond, BitVec.toNat_ofNat]
  unfold CInt.uint64
  split <;> omega

/-- The bytes of a string, as they go on the wire. -/
def utf8 (s : String) : List UInt8 := s.toByteArray.data.toList

theorem verifyUTF8_utf8 (s : String) : verifyUTF8 (utf8 s) = true :=
  ByteArray.validateUTF8_eq_true_iff.mpr s.isValidUTF8

/-! ## The runtime -/

namespace PacketWriter

/-- What each call writes reads as its argument, as long as it is not too long for any parser. -/
structure CodedOutputStream.Standard (output : CodedOutputStream) : Prop where
  rawTag : ∀ b, output.writeRawTag b = [b]
  int32 : ∀ v, Reads readVarint (output.writeInt32 v) (CInt.uint64 v.toInt).toNat
  int64 : ∀ v, Reads readVarint (output.writeInt64 v) (CInt.uint64 v.toInt).toNat
  uint32 : ∀ v, Reads readVarint (output.writeUInt32 v) v.toNat
  uint64 : ∀ v, Reads readVarint (output.writeUInt64 v) v.toNat
  enum : ∀ v, Reads readVarint (output.writeEnum v) (CInt.uint64 v.toInt).toNat
  float : ∀ v, Reads readFixed32 (output.writeFloat v) v.toNat
  string : ∀ v, (output.writeString v).length ≤ 2147483631 → Reads readLen (output.writeString v) (utf8 v)
  bytes : ∀ v, (output.writeBytes v).length ≤ 2147483631 → Reads readLen (output.writeBytes v) v
  message : ∀ v, (output.writeMessage v).length ≤ 2147483631 → Reads readLen (output.writeMessage v) v
  repeated_nil : ∀ tag, output.writeRepeated tag [] = []
  repeated : ∀ tag vs, vs ≠ [] → ∃ bs, output.writeRepeated tag vs = tag :: bs ∧
    (bs.length ≤ 2147483631 → Reads readLen bs (vs.flatMap output.writeUInt32))

/-- The runtime that writes every value in the shortest way. -/
def wireOutput : CodedOutputStream where
  writeRawTag b := [b]
  writeInt32 v := varint (CInt.uint64 v.toInt).toNat
  writeInt64 v := varint (CInt.uint64 v.toInt).toNat
  writeUInt32 v := varint v.toNat
  writeUInt64 v := varint v.toNat
  writeEnum v := varint (CInt.uint64 v.toInt).toNat
  writeFloat v := Bytes.le16 (v.toNat % 65536) ++ Bytes.le16 (v.toNat / 65536)
  writeString v := varint (utf8 v).length ++ utf8 v
  writeBytes v := varint v.length ++ v
  writeMessage v := varint v.length ++ v
  writeRepeated tag vs :=
    if vs = [] then []
    else
      let bs := vs.flatMap fun v => varint v.toNat
      tag :: (varint bs.length ++ bs)

theorem reads_len_of_written {bs : List UInt8} (h : (varint bs.length ++ bs).length ≤ 2147483631) :
    Reads readLen (varint bs.length ++ bs) bs := by
  rw [List.length_append] at h
  exact reads_len (by omega)

theorem standard_wireOutput : wireOutput.Standard where
  rawTag _ := rfl
  int32 v := reads_varint (uint64_toNat_lt _)
  int64 v := reads_varint (uint64_toNat_lt _)
  uint32 v := reads_varint (Nat.lt_trans v.toNat_lt (by omega))
  uint64 v := reads_varint v.toNat_lt
  enum v := reads_varint (uint64_toNat_lt _)
  float v := by
    have h := @reads_fixed32 v.toNat
    rwa [Nat.mod_eq_of_lt v.toNat_lt] at h
  string v h := reads_len_of_written h
  bytes v h := reads_len_of_written h
  message v h := reads_len_of_written h
  repeated_nil _ := rfl
  repeated tag vs hne := ⟨_, if_neg hne, reads_len_of_written⟩

/-! ## Fields -/

/-- A tag of one byte. -/
theorem reads_rawTag {b : UInt8} (hb : b.toNat < 128) : Reads readTag [b] b.toNat := by
  intro rest
  change (do
    let n ← readGroups 5
    return n % 4294967296 : Reader Nat).run (b :: rest) = _
  have hgroups : (readGroups 5).run (b :: rest) = some (b.toNat, rest) := by
    change (if b.toNat < 128 then pure b.toNat else _ : Reader Nat).run rest = _
    rw [if_pos hb]
    rfl
  rw [StateT.run_bind, hgroups]
  change some (b.toNat % 4294967296, rest) = _
  rw [Nat.mod_eq_of_lt (by omega)]

section

variable {σ α : Type} {output : CodedOutputStream} {fields : Fields σ} {depth : Nat} {m m' : σ} {tag : UInt8}

/-- A field that is left out at its default. -/
theorem parses_writeField [DecidableEq α] (hw : output.Standard) {write : α → List UInt8} {default v : α}
    (hdefault : v = default → m' = m) (h : Parses fields depth m ([tag] ++ write v) m') :
    Parses fields depth m (writeField output write tag default v) m' := by
  refine Parses.omitted hdefault fun _ => ?_
  rw [hw.rawTag]
  exact h

/-- An integer field, of any type that goes out as a varint. -/
theorem parses_integer [DecidableEq α] (hw : output.Standard) {write : α → List UInt8} {number : α → Nat}
    (hwrite : ∀ v, Reads readVarint (write v) (number v)) {set : σ → Nat → σ} {default v : α}
    (htag : tag.toNat < 128) (hf : fields tag.toNat = some (.varint set)) (hset : set m (number v) = m')
    (hdefault : v = default → m' = m) :
    Parses fields depth m (writeField output write tag default v) m' := by
  refine parses_writeField hw hdefault ?_
  rw [← hset]
  exact Parses.varint hf (reads_rawTag htag) (hwrite v)

theorem parses_string (hw : output.Standard) {set : σ → List UInt8 → σ} {v : String}
    (hlen : (writeField output output.writeString tag "" v).length ≤ 2147483631)
    (htag : tag.toNat < 128) (hf : fields tag.toNat = some (.string verifyUTF8 set)) (hset : set m (utf8 v) = m')
    (hdefault : v = "" → m' = m) :
    Parses fields depth m (writeField output output.writeString tag "" v) m' := by
  unfold writeField at hlen ⊢
  refine Parses.omitted hdefault fun hne => ?_
  rw [if_neg hne, List.length_append] at hlen
  rw [hw.rawTag, ← hset]
  exact Parses.string hf (reads_rawTag htag) (hw.string v (by omega)) (verifyUTF8_utf8 v)

theorem parses_bytes (hw : output.Standard) {set : σ → List UInt8 → σ} {v : List UInt8}
    (hlen : (writeField output output.writeBytes tag [] v).length ≤ 2147483631)
    (htag : tag.toNat < 128) (hf : fields tag.toNat = some (.bytes set)) (hset : set m v = m')
    (hdefault : v = [] → m' = m) :
    Parses fields depth m (writeField output output.writeBytes tag [] v) m' := by
  unfold writeField at hlen ⊢
  refine Parses.omitted hdefault fun hne => ?_
  rw [if_neg hne, List.length_append] at hlen
  rw [hw.rawTag, ← hset]
  exact Parses.bytes hf (reads_rawTag htag) (hw.bytes v (by omega))

end

/-- The `float` that arrives: a negative zero is not sent. -/
def arriving (v : UInt32) : UInt32 := if isZero v then 0 else v

/-- The `Vector3` that arrives; one that is not there reads as the default. -/
def arrivingVector3 : Option (Vector3 UInt32) → Vector3 UInt32
  | none => ⟨0, 0, 0⟩
  | some v => ⟨arriving v.x, arriving v.y, arriving v.z⟩

theorem parses_float {output : CodedOutputStream} (hw : output.Standard) {depth : Nat} {m m' : Vector3 UInt32}
    {tag : UInt8} {set : Vector3 UInt32 → Nat → Vector3 UInt32} {v : UInt32} (htag : tag.toNat < 128)
    (hf : vector3Fields tag.toNat = some (.fixed32 set)) (hset : set m (arriving v).toNat = m')
    (hdefault : set m 0 = m) : Parses vector3Fields depth m (writeFloatField output tag v) m' := by
  unfold writeFloatField
  unfold arriving at hset
  refine Parses.omitted ?_ ?_
  · intro hzero
    rw [if_pos hzero] at hset
    exact hset.symm.trans hdefault
  · intro hzero
    rw [if_neg hzero] at hset
    rw [hw.rawTag, ← hset]
    exact Parses.fixed32 hf (reads_rawTag htag) (hw.float v)

theorem parses_writeVector3 {output : CodedOutputStream} (hw : output.Standard) (depth : Nat) (v : Vector3 UInt32) :
    Parses vector3Fields depth ⟨0, 0, 0⟩ (writeVector3 output v) (arrivingVector3 (some v)) := by
  have hx : Parses vector3Fields depth ⟨0, 0, 0⟩ (writeFloatField output 13 v.x) ⟨arriving v.x, 0, 0⟩ :=
    parses_float hw (by decide) rfl (by simp) rfl
  have hy : Parses vector3Fields depth ⟨arriving v.x, 0, 0⟩ (writeFloatField output 21 v.y)
      ⟨arriving v.x, arriving v.y, 0⟩ := parses_float hw (by decide) rfl (by simp) rfl
  have hz : Parses vector3Fields depth ⟨arriving v.x, arriving v.y, 0⟩ (writeFloatField output 29 v.z)
      ⟨arriving v.x, arriving v.y, arriving v.z⟩ := parses_float hw (by decide) rfl (by simp) rfl
  exact (hx.append hy).append hz

theorem parses_vector3Field {σ : Type} {output : CodedOutputStream} (hw : output.Standard) {fields : Fields σ}
    {depth : Nat} {m m' : σ} {tag : UInt8} {get : σ → Vector3 UInt32} {set : σ → Vector3 UInt32 → σ}
    {v : Option (Vector3 UInt32)} (hlen : (writeVector3Field output tag v).length ≤ 2147483631)
    (htag : tag.toNat < 128) (hf : fields tag.toNat = some (vector3Field get set)) (hget : get m = ⟨0, 0, 0⟩)
    (hset : set m (arrivingVector3 v) = m') (hdefault : set m ⟨0, 0, 0⟩ = m) :
    Parses fields depth m (writeVector3Field output tag v) m' := by
  cases v with
  | none =>
      obtain rfl : m = m' := hdefault.symm.trans hset
      exact Parses.nil
  | some v =>
      change (output.writeRawTag tag ++ output.writeMessage (writeVector3 output v)).length ≤ 2147483631 at hlen
      rw [List.length_append] at hlen
      change Parses fields depth m (output.writeRawTag tag ++ _) m'
      rw [hw.rawTag, ← hset]
      refine Parses.message hf (reads_rawTag htag) (hw.message _ (by omega)) ?_
      rw [hget]
      exact parses_writeVector3 hw _ v

/-! ## Messages -/

/-- The fields of a message, each as it is written. -/
def Message.pieces (output : CodedOutputStream) : Message → List (List UInt8)
  | .cLogin loginCode test =>
      [writeField output output.writeUInt64 8 0 loginCode, writeField output output.writeString 18 "" test]
  | .cMove roomCode objectId position =>
      [writeField output output.writeInt32 8 0 roomCode, output.writeRepeated 18 objectId,
        writeVector3Field output 26 position]
  | .cRoomCreate gameId gameName gamePassWord mapHash =>
      [writeField output output.writeUInt64 8 0 gameId, writeField output output.writeString 18 "" gameName,
        writeField output output.writeString 26 "" gamePassWord, writeField output output.writeBytes 34 [] mapHash]
  | .cRoomData dummy => [writeField output output.writeUInt32 8 0 dummy]
  | .cRoomRequest roomCode gamePassWord =>
      [writeField output output.writeInt32 8 0 roomCode, writeField output output.writeString 18 "" gamePassWord]
  | .cRoomPlayerListRequest roomCode => [writeField output output.writeInt32 8 0 roomCode]
  | .cStartGame roomCode => [writeField output output.writeInt32 8 0 roomCode]
  | .cExitGame dummy => [writeField output output.writeUInt32 8 0 dummy]
  | .cAttack roomCode objectId objectType direction =>
      [writeField output output.writeInt32 8 0 roomCode, writeField output output.writeUInt32 16 0 objectId,
        writeField output output.writeEnum 24 0 objectType, writeVector3Field output 34 direction]
  | .cRttPing clientTime => [writeField output output.writeInt64 8 0 clientTime]

theorem flatten_pieces (output : CodedOutputStream) (m : Message) :
    (m.pieces output).flatten = m.writeTo output := by
  cases m <;> simp [Message.pieces, Message.writeTo]

variable {output : CodedOutputStream}

theorem parsesAll_cLogin (hw : output.Standard) {loginCode : UInt64} {test : String}
    (hlen : ((Message.cLogin loginCode test).writeTo output).length ≤ 2147483631) :
    ParsesAll CLogin.fields recursionLimit {} ((Message.cLogin loginCode test).pieces output)
      { loginCode := loginCode, test := utf8 test } := by
  unfold Message.writeTo at hlen
  simp only [List.length_append] at hlen
  have hcode : Parses CLogin.fields recursionLimit {} (writeField output output.writeUInt64 8 0 loginCode)
      { loginCode := loginCode } :=
    parses_integer hw hw.uint64 (by decide) rfl (by simp) (by rintro rfl; rfl)
  have htest : Parses CLogin.fields recursionLimit { loginCode := loginCode }
      (writeField output output.writeString 18 "" test) { loginCode := loginCode, test := utf8 test } :=
    parses_string hw (by omega) (by decide) rfl rfl (by rintro rfl; rfl)
  exact ⟨_, hcode, _, htest, rfl⟩

theorem foldl_objectId (vs : List UInt32) (m : CMove) :
    vs.foldl (fun m v => { m with objectId := m.objectId ++ [UInt32.ofNat v.toNat] }) m =
      { m with objectId := m.objectId ++ vs } := by
  induction vs generalizing m with
  | nil => simp
  | cons v vs ih =>
      rw [List.foldl_cons, ih]
      simp

theorem parsesAll_cMove (hw : output.Standard) {roomCode : Int32} {objectId : List UInt32}
    {position : Option (Vector3 UInt32)}
    (hlen : ((Message.cMove roomCode objectId position).writeTo output).length ≤ 2147483631) :
    ParsesAll CMove.fields recursionLimit {} ((Message.cMove roomCode objectId position).pieces output)
      { roomCode := roomCode, objectId := objectId, position := arrivingVector3 position } := by
  unfold Message.writeTo at hlen
  simp only [List.length_append] at hlen
  have hcode : Parses CMove.fields recursionLimit {} (writeField output output.writeInt32 8 0 roomCode)
      { roomCode := roomCode } :=
    parses_integer hw hw.int32 (by decide) rfl (by rw [toInt32_uint64]) (by rintro rfl; rfl)
  have hids : Parses CMove.fields recursionLimit { roomCode := roomCode } (output.writeRepeated 18 objectId)
      { roomCode := roomCode, objectId := objectId } := by
    rcases eq_or_ne objectId [] with rfl | hne
    · rw [hw.repeated_nil]
      exact Parses.nil
    · obtain ⟨bs, hbs, hread⟩ := hw.repeated 18 objectId hne
      rw [hbs, List.length_cons] at hlen
      have hpacked : CMove.fields 18 =
        some (.packed fun m n => { m with objectId := m.objectId ++ [UInt32.ofNat n] }) := rfl
      have htag : Reads readTag [18] 18 := reads_rawTag (by decide)
      have h : Parses CMove.fields recursionLimit { roomCode := roomCode } ([18] ++ bs) _ :=
        Parses.packed hpacked htag (hread (by omega)) fun v _ => hw.uint32 v
      rw [foldl_objectId] at h
      rw [hbs]
      exact h
  have hposition : Parses CMove.fields recursionLimit { roomCode := roomCode, objectId := objectId }
      (writeVector3Field output 26 position)
      { roomCode := roomCode, objectId := objectId, position := arrivingVector3 position } :=
    parses_vector3Field hw (by omega) (by decide) rfl rfl rfl rfl
  exact ⟨_, hcode, _, hids, _, hposition, rfl⟩

theorem parsesAll_cRoomCreate (hw : output.Standard) {gameId : UInt64} {gameName gamePassWord : String}
    {mapHash : List UInt8}
    (hlen : ((Message.cRoomCreate gameId gameName gamePassWord mapHash).writeTo output).length ≤ 2147483631) :
    ParsesAll CRoomCreate.fields recursionLimit {}
      ((Message.cRoomCreate gameId gameName gamePassWord mapHash).pieces output)
      { gameId := gameId, gameName := utf8 gameName, gamePassWord := utf8 gamePassWord, mapHash := mapHash } := by
  unfold Message.writeTo at hlen
  simp only [List.length_append] at hlen
  have hid : Parses CRoomCreate.fields recursionLimit {} (writeField output output.writeUInt64 8 0 gameId)
      { gameId := gameId } :=
    parses_integer hw hw.uint64 (by decide) rfl (by simp) (by rintro rfl; rfl)
  have hname : Parses CRoomCreate.fields recursionLimit { gameId := gameId }
      (writeField output output.writeString 18 "" gameName) { gameId := gameId, gameName := utf8 gameName } :=
    parses_string hw (by omega) (by decide) rfl rfl (by rintro rfl; rfl)
  have hpassWord : Parses CRoomCreate.fields recursionLimit { gameId := gameId, gameName := utf8 gameName }
      (writeField output output.writeString 26 "" gamePassWord)
      { gameId := gameId, gameName := utf8 gameName, gamePassWord := utf8 gamePassWord } :=
    parses_string hw (by omega) (by decide) rfl rfl (by rintro rfl; rfl)
  have hhash : Parses CRoomCreate.fields recursionLimit
      { gameId := gameId, gameName := utf8 gameName, gamePassWord := utf8 gamePassWord }
      (writeField output output.writeBytes 34 [] mapHash)
      { gameId := gameId, gameName := utf8 gameName, gamePassWord := utf8 gamePassWord, mapHash := mapHash } :=
    parses_bytes hw (by omega) (by decide) rfl rfl (by rintro rfl; rfl)
  exact ⟨_, hid, _, hname, _, hpassWord, _, hhash, rfl⟩

theorem parsesAll_cRoomRequest (hw : output.Standard) {roomCode : Int32} {gamePassWord : String}
    (hlen : ((Message.cRoomRequest roomCode gamePassWord).writeTo output).length ≤ 2147483631) :
    ParsesAll CRoomRequest.fields recursionLimit {} ((Message.cRoomRequest roomCode gamePassWord).pieces output)
      { roomCode := roomCode, gamePassWord := utf8 gamePassWord } := by
  unfold Message.writeTo at hlen
  simp only [List.length_append] at hlen
  have hcode : Parses CRoomRequest.fields recursionLimit {} (writeField output output.writeInt32 8 0 roomCode)
      { roomCode := roomCode } :=
    parses_integer hw hw.int32 (by decide) rfl (by rw [toInt32_uint64]) (by rintro rfl; rfl)
  have hpassWord : Parses CRoomRequest.fields recursionLimit { roomCode := roomCode }
      (writeField output output.writeString 18 "" gamePassWord)
      { roomCode := roomCode, gamePassWord := utf8 gamePassWord } :=
    parses_string hw (by omega) (by decide) rfl rfl (by rintro rfl; rfl)
  exact ⟨_, hcode, _, hpassWord, rfl⟩

theorem parsesAll_cAttack (hw : output.Standard) {roomCode : Int32} {objectId : UInt32} {objectType : Int32}
    {direction : Option (Vector3 UInt32)}
    (hlen : ((Message.cAttack roomCode objectId objectType direction).writeTo output).length ≤ 2147483631) :
    ParsesAll CAttack.fields recursionLimit {}
      ((Message.cAttack roomCode objectId objectType direction).pieces output)
      { roomCode := roomCode, objectId := objectId, objectType := objectType,
        direction := arrivingVector3 direction } := by
  unfold Message.writeTo at hlen
  simp only [List.length_append] at hlen
  have hcode : Parses CAttack.fields recursionLimit {} (writeField output output.writeInt32 8 0 roomCode)
      { roomCode := roomCode } :=
    parses_integer hw hw.int32 (by decide) rfl (by rw [toInt32_uint64]) (by rintro rfl; rfl)
  have hid : Parses CAttack.fields recursionLimit { roomCode := roomCode }
      (writeField output output.writeUInt32 16 0 objectId) { roomCode := roomCode, objectId := objectId } :=
    parses_integer hw hw.uint32 (by decide) rfl (by simp) (by rintro rfl; rfl)
  have htype : Parses CAttack.fields recursionLimit { roomCode := roomCode, objectId := objectId }
      (writeField output output.writeEnum 24 0 objectType)
      { roomCode := roomCode, objectId := objectId, objectType := objectType } :=
    parses_integer hw hw.enum (by decide) rfl (by rw [toInt32_uint64]) (by rintro rfl; rfl)
  have hdirection : Parses CAttack.fields recursionLimit
      { roomCode := roomCode, objectId := objectId, objectType := objectType }
      (writeVector3Field output 34 direction)
      { roomCode := roomCode, objectId := objectId, objectType := objectType,
        direction := arrivingVector3 direction } :=
    parses_vector3Field hw (by omega) (by decide) rfl rfl rfl rfl
  exact ⟨_, hcode, _, hid, _, htype, _, hdirection, rfl⟩

/-! ## Packets -/

variable {F : Type}

/-- The packet a message arrives as. -/
def Message.packet (ofBits : UInt32 → F) : Message → ClientPacket F
  | .cLogin loginCode _ => .cLogin loginCode
  | .cMove roomCode objectId position => .cMove roomCode objectId ((arrivingVector3 position).ofBits ofBits)
  | .cRoomCreate gameId gameName gamePassWord mapHash =>
      .cRoomCreate gameId (utf8 gameName) (utf8 gamePassWord) mapHash
  | .cRoomData _ => .cRoomData
  | .cRoomRequest roomCode gamePassWord => .cRoomRequest roomCode (utf8 gamePassWord)
  | .cRoomPlayerListRequest roomCode => .cRoomPlayerListRequest roomCode
  | .cStartGame roomCode => .cStartGame roomCode
  | .cExitGame _ => .cExitGame
  | .cAttack roomCode objectId objectType direction =>
      .cAttack roomCode objectId objectType ((arrivingVector3 direction).ofBits ofBits)
  | .cRttPing clientTime => .cRttPing clientTime

/-- The fields a message does not have. -/
def Message.Padded (output : CodedOutputStream) (bs : List UInt8) : Message → Prop
  | m@(.cLogin ..) => Wire.Padded CLogin.fields recursionLimit (m.pieces output) bs
  | m@(.cMove ..) => Wire.Padded CMove.fields recursionLimit (m.pieces output) bs
  | m@(.cRoomCreate ..) => Wire.Padded CRoomCreate.fields recursionLimit (m.pieces output) bs
  | m@(.cRoomData ..) => Wire.Padded CRoomData.fields recursionLimit (m.pieces output) bs
  | m@(.cRoomRequest ..) => Wire.Padded CRoomRequest.fields recursionLimit (m.pieces output) bs
  | m@(.cRoomPlayerListRequest ..) =>
      Wire.Padded CRoomPlayerListRequest.fields recursionLimit (m.pieces output) bs
  | m@(.cStartGame ..) => Wire.Padded CStartGame.fields recursionLimit (m.pieces output) bs
  | m@(.cExitGame ..) => Wire.Padded CExitGame.fields recursionLimit (m.pieces output) bs
  | m@(.cAttack ..) => Wire.Padded CAttack.fields recursionLimit (m.pieces output) bs
  | m@(.cRttPing ..) => Wire.Padded CRttPing.fields recursionLimit (m.pieces output) bs

/-- A message that is a single field. -/
theorem parsesAll_single {σ : Type} {fields : Fields σ} {m m' : σ} {bs : List UInt8}
    (h : Parses fields recursionLimit m bs m') : ParsesAll fields recursionLimit m [bs] m' := ⟨m', h, rfl⟩

theorem parse_of_padded (hw : output.Standard) (ofBits : UInt32 → F) {m : Message} {bs : List UInt8}
    (hlen : (m.writeTo output).length ≤ 2147483631) (hp : m.Padded output bs) :
    (ClientPacketHandler.registered m.pktId).parse ofBits bs = some (m.packet ofBits) := by
  cases m with
  | cLogin loginCode test =>
      have h : parseFromArray CLogin.fields {} bs = some _ := (parsesAll_cLogin hw hlen).padded hp
      change (parseFromArray CLogin.fields {} bs).bind _ = _
      rw [h]
      rfl
  | cMove roomCode objectId position =>
      have h : parseFromArray CMove.fields {} bs = some _ := (parsesAll_cMove hw hlen).padded hp
      change (parseFromArray CMove.fields {} bs).bind _ = _
      rw [h]
      rfl
  | cRoomCreate gameId gameName gamePassWord mapHash =>
      have h : parseFromArray CRoomCreate.fields {} bs = some _ := (parsesAll_cRoomCreate hw hlen).padded hp
      change (parseFromArray CRoomCreate.fields {} bs).bind _ = _
      rw [h]
      rfl
  | cRoomData dummy =>
      have hdummy : Parses CRoomData.fields recursionLimit {} (writeField output output.writeUInt32 8 0 dummy)
          { dummy := dummy } := parses_integer hw hw.uint32 (by decide) rfl (by simp) (by rintro rfl; rfl)
      have h : parseFromArray CRoomData.fields {} bs = some _ := (parsesAll_single hdummy).padded hp
      change (parseFromArray CRoomData.fields {} bs).bind _ = _
      rw [h]
      rfl
  | cRoomRequest roomCode gamePassWord =>
      have h : parseFromArray CRoomRequest.fields {} bs = some _ := (parsesAll_cRoomRequest hw hlen).padded hp
      change (parseFromArray CRoomRequest.fields {} bs).bind _ = _
      rw [h]
      rfl
  | cRoomPlayerListRequest roomCode =>
      have hcode : Parses CRoomPlayerListRequest.fields recursionLimit {}
          (writeField output output.writeInt32 8 0 roomCode) { roomCode := roomCode } :=
        parses_integer hw hw.int32 (by decide) rfl (by rw [toInt32_uint64]) (by rintro rfl; rfl)
      have h : parseFromArray CRoomPlayerListRequest.fields {} bs = some _ := (parsesAll_single hcode).padded hp
      change (parseFromArray CRoomPlayerListRequest.fields {} bs).bind _ = _
      rw [h]
      rfl
  | cStartGame roomCode =>
      have hcode : Parses CStartGame.fields recursionLimit {} (writeField output output.writeInt32 8 0 roomCode)
          { roomCode := roomCode } :=
        parses_integer hw hw.int32 (by decide) rfl (by rw [toInt32_uint64]) (by rintro rfl; rfl)
      have h : parseFromArray CStartGame.fields {} bs = some _ := (parsesAll_single hcode).padded hp
      change (parseFromArray CStartGame.fields {} bs).bind _ = _
      rw [h]
      rfl
  | cExitGame dummy =>
      have hdummy : Parses CExitGame.fields recursionLimit {} (writeField output output.writeUInt32 8 0 dummy)
          { dummy := dummy } := parses_integer hw hw.uint32 (by decide) rfl (by simp) (by rintro rfl; rfl)
      have h : parseFromArray CExitGame.fields {} bs = some _ := (parsesAll_single hdummy).padded hp
      change (parseFromArray CExitGame.fields {} bs).bind _ = _
      rw [h]
      rfl
  | cAttack roomCode objectId objectType direction =>
      have h : parseFromArray CAttack.fields {} bs = some _ := (parsesAll_cAttack hw hlen).padded hp
      change (parseFromArray CAttack.fields {} bs).bind _ = _
      rw [h]
      rfl
  | cRttPing clientTime =>
      have htime : Parses CRttPing.fields recursionLimit {} (writeField output output.writeInt64 8 0 clientTime)
          { clientTime := clientTime } :=
        parses_integer hw hw.int64 (by decide) rfl (by rw [toInt64_uint64]) (by rintro rfl; rfl)
      have h : parseFromArray CRttPing.fields {} bs = some _ := (parsesAll_single htime).padded hp
      change (parseFromArray CRttPing.fields {} bs).bind _ = _
      rw [h]
      rfl

theorem length_writeTo_le {m : Message} {bs : List UInt8} (h : m.Padded output bs) :
    (m.writeTo output).length ≤ bs.length := by
  rw [← flatten_pieces]
  cases m <;> exact Wire.Padded.length_le h

/-- What is written without anything in between. -/
theorem padded_writeTo (output : CodedOutputStream) (m : Message) : m.Padded output (m.writeTo output) := by
  rw [← flatten_pieces]
  cases m <;> exact Wire.Padded.flatten _ _ _

end PacketWriter

end StarCraftIocp
