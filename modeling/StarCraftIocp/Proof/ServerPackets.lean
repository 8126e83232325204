import StarCraftIocp.Client.PacketReader
import StarCraftIocp.Proof.ClientPackets
import StarCraftIocp.Proof.Encoding

/-!
# A server packet is read as it was meant

What the server's `SerializeToArray` writes, the client's `MergeFrom` reads as the
same message: each field as its type holds it, fields that were left out at their
defaults, repeated fields entry by entry.
-/

namespace StarCraftIocp

open Wire Protocol PacketReader

/-! ## Strings -/

/-- The string with these bytes. -/
def text (bs : List UInt8) : String := (String.fromUTF8? ⟨bs.toArray⟩).getD ""

theorem utf8_text {bs : List UInt8} (h : verifyUTF8 bs = true) : utf8 (text bs) = bs := by
  have hvalid : ByteArray.IsValidUTF8 ⟨bs.toArray⟩ := ByteArray.validateUTF8_eq_true_iff.mp h
  unfold text String.fromUTF8?
  rw [dif_pos hvalid]
  rfl

/-! ## Integers -/

theorem toInt32_ofInt (n : Int) : toInt32 (CInt.uint64 n).toNat = Int32.ofInt n := by
  have hbits : BitVec.ofNat 32 (CInt.uint64 n).toNat = BitVec.ofInt 32 n := by
    apply BitVec.eq_of_toNat_eq
    rw [BitVec.toNat_ofNat, BitVec.toNat_ofInt]
    unfold CInt.uint64
    omega
  exact congrArg (fun b => Int32.ofUInt32 (UInt32.ofBitVec b)) hbits

theorem toInt64_ofInt (n : Int) : (UInt64.ofNat (CInt.uint64 n).toNat).toInt64 = Int64.ofInt n := by
  have hbits : BitVec.ofNat 64 (CInt.uint64 n).toNat = BitVec.ofInt 64 n := by
    apply BitVec.eq_of_toNat_eq
    rw [BitVec.toNat_ofNat, BitVec.toNat_ofInt]
    unfold CInt.uint64
    omega
  exact congrArg (fun b => Int64.ofUInt64 (UInt64.ofBitVec b)) hbits

theorem toUInt32_ofInt (n : Int) : UInt32.ofNat (CInt.uint64 n).toNat = UInt32.ofInt n := by
  refine UInt32.toNat_inj.mp ?_
  unfold UInt32.ofInt
  rw [UInt32.toNat_ofNat', UInt32.toNat_ofNat']
  unfold CInt.uint64
  omega

theorem toUInt64_ofInt (n : Int) : UInt64.ofNat (CInt.uint64 n).toNat = UInt64.ofInt n := by
  refine UInt64.toNat_inj.mp ?_
  unfold UInt64.ofInt
  rw [UInt64.toNat_ofNat', UInt64.toNat_ofNat']
  unfold CInt.uint64
  omega

namespace PacketReader

/-! ## The runtime -/

/-- What the server writes for a value, the runtime reads as that value. -/
structure CodedInputStream.Standard (input : CodedInputStream) : Prop where
  tag_nil : input.readTag.run [] = some (0, [])
  tag : ∀ field wireType, 0 < field → field < 16 → wireType < 8 →
    Reads input.readTag (tag field wireType) (field * 8 + wireType)
  int32 : ∀ n, n < 18446744073709551616 → Reads input.readInt32 (varint n) (toInt32 n)
  int64 : ∀ n, n < 18446744073709551616 → Reads input.readInt64 (varint n) (UInt64.ofNat n).toInt64
  uint32 : ∀ n, n < 18446744073709551616 → Reads input.readUInt32 (varint n) (UInt32.ofNat n)
  uint64 : ∀ n, n < 18446744073709551616 → Reads input.readUInt64 (varint n) (UInt64.ofNat n)
  bool : ∀ n, n < 18446744073709551616 → Reads input.readBool (varint n) (n != 0)
  enum : ∀ n, n < 18446744073709551616 → Reads input.readEnum (varint n) (toInt32 n)
  float : ∀ n, Reads input.readFloat (Bytes.le16 (n % 65536) ++ Bytes.le16 (n / 65536)) (UInt32.ofNat n)
  string : ∀ s, (utf8 s).length ≤ 2147483631 → Reads input.readString (varint (utf8 s).length ++ utf8 s) s
  bytes : ∀ bs, bs.length ≤ 2147483631 → Reads input.readBytes (varint bs.length ++ bs) bs
  message : ∀ {σ : Type} (parse : List UInt8 → Option σ) (bs : List UInt8) (m : σ), bs.length ≤ 2147483631 →
    parse bs = some m → Reads (input.readMessage parse) (varint bs.length ++ bs) m
  /-- The entries up to the end of the input, once the tag of the first is read. -/
  entries : ∀ {σ : Type} (parse : List UInt8 → Option σ) (field : Nat) (item : List UInt8)
    (items : List (List UInt8)) (v : σ) (vs : List σ), 0 < field → field < 16 →
    (∀ bs ∈ item :: items, bs.length ≤ 2147483631) → parse item = some v →
    List.Forall₂ (fun bs v => parse bs = some v) items vs →
    (input.addEntriesFrom (field * 8 + 2) parse).run (varint item.length ++ item ++ repeatedField field items) =
      some (v :: vs, [])

/-! ## The loop -/

section

variable {σ α : Type} {input : CodedInputStream} {switch : Nat → σ → Reader σ} {m m' m'' : σ}
  {bs cs rest : List UInt8}

/-- A pass through the loop. -/
theorem mergeLoop_pass {t fuel : Nat} (htag : input.readTag.run bs = some (t, cs)) (ht : t ≠ 0)
    (h : (switch t m).run cs = some (m', rest)) :
    mergeLoop input switch (fuel + 1) m bs = mergeLoop input switch fuel m' rest := by
  rw [mergeLoop, htag]
  cases t with
  | zero => exact absurd rfl ht
  | succ t =>
      simp only [h]

/-- The loop reads `bs` in at most as many passes as these are bytes. -/
def Merges (input : CodedInputStream) (switch : Nat → σ → Reader σ) (m : σ) (bs : List UInt8) (m' : σ) : Prop :=
  ∀ fuel rest, bs.length ≤ fuel → ∃ fuel', fuel ≤ fuel' + bs.length ∧
    mergeLoop input switch fuel m (bs ++ rest) = mergeLoop input switch fuel' m' rest

theorem Merges.nil : Merges input switch m [] m := fun fuel _ _ => ⟨fuel, Nat.le_refl _, rfl⟩

theorem Merges.append (h : Merges input switch m bs m') (h' : Merges input switch m' cs m'') :
    Merges input switch m (bs ++ cs) m'' := by
  intro fuel rest hfuel
  rw [List.length_append] at hfuel
  obtain ⟨k, hk, hloop⟩ := h fuel (cs ++ rest) (by omega)
  obtain ⟨k', hk', hloop'⟩ := h' k rest (by omega)
  refine ⟨k', by rw [List.length_append]; omega, ?_⟩
  rw [List.append_assoc, hloop, hloop']

theorem Merges.omitted {c : Prop} [Decidable c] (hc : c → m' = m) (h : ¬ c → Merges input switch m bs m') :
    Merges input switch m (if c then [] else bs) m' := by
  split
  · next hyes =>
    obtain rfl := hc hyes
    exact Merges.nil
  · next hno => exact h hno

theorem Merges.field {t : Nat} (htag : Reads input.readTag bs t) (ht : t ≠ 0) (hne : bs ≠ [])
    (h : Reads (switch t m) cs m') : Merges input switch m (bs ++ cs) m' := by
  intro fuel rest hfuel
  have hpos := List.length_pos_iff.mpr hne
  rw [List.length_append] at hfuel
  obtain ⟨k, rfl⟩ : ∃ k, fuel = k + 1 := ⟨fuel - 1, by omega⟩
  refine ⟨k, by rw [List.length_append]; omega, ?_⟩
  rw [List.append_assoc]
  exact mergeLoop_pass (htag (cs ++ rest)) ht (h rest)

/-- The end of the input ends the loop. -/
theorem Merges.mergeFrom (hi : input.Standard) (h : Merges input switch m bs m') :
    mergeFrom input switch m bs = some m' := by
  obtain ⟨k, hk, hloop⟩ := h (bs.length + 1) [] (by omega)
  rw [List.append_nil] at hloop
  unfold PacketReader.mergeFrom
  rw [hloop]
  obtain ⟨k, rfl⟩ : ∃ j, k = j + 1 := ⟨k - 1, by omega⟩
  rw [mergeLoop, hi.tag_nil]
  rfl

variable {f n : Nat}

theorem tag_ne_nil (field wireType : Nat) : tag field wireType ≠ [] := by
  unfold tag varint groups
  split <;> exact List.cons_ne_nil _ _

/-- An integer, boolean or enumeration field. -/
theorem merges_varint (hi : input.Standard) {read : Reader α} {convert : Nat → α} {set : α → σ}
    (hread : ∀ n, n < 18446744073709551616 → Reads read (varint n) (convert n)) (hpos : 0 < f) (hlt : f < 16)
    (hf : switch (f * 8 + 0) m = assign read set) (hn : n < 18446744073709551616) (hm : set (convert n) = m')
    (hdefault : n = 0 → m' = m) : Merges input switch m (varintField f n) m' := by
  refine Merges.omitted hdefault fun _ => ?_
  refine Merges.field (hi.tag f 0 hpos hlt (by omega)) (by omega) (tag_ne_nil _ _) ?_
  rw [hf, ← hm]
  exact (hread n hn).map set

theorem merges_fixed32 (hi : input.Standard) {set : UInt32 → σ} (hpos : 0 < f) (hlt : f < 16)
    (hf : switch (f * 8 + 5) m = assign input.readFloat set) (hm : set (UInt32.ofNat n) = m')
    (hdefault : set 0 = m) : Merges input switch m (fixed32Field f n) m' := by
  refine Merges.omitted ?_ fun _ => ?_
  · rintro rfl
    exact hm.symm.trans hdefault
  · refine Merges.field (hi.tag f 5 hpos hlt (by omega)) (by omega) (tag_ne_nil _ _) ?_
    rw [hf, ← hm]
    exact (hi.float n).map set

/-- A field with a length: a string, bytes or a sub-message. -/
theorem merges_lenField (hi : input.Standard) {read : Reader α} {set : α → σ} {a : α} (hpos : 0 < f) (hlt : f < 16)
    (hf : switch (f * 8 + 2) m = assign read set) (hread : Reads read (varint bs.length ++ bs) a)
    (hm : set a = m') : Merges input switch m (lenField f bs) m' := by
  unfold lenField
  rw [List.append_assoc]
  refine Merges.field (hi.tag f 2 hpos hlt (by omega)) (by omega) (tag_ne_nil _ _) ?_
  rw [hf, ← hm]
  exact hread.map set

theorem merges_bytes (hi : input.Standard) {set : List UInt8 → σ} (hpos : 0 < f) (hlt : f < 16)
    (hlen : (bytesField f bs).length ≤ 2147483631)
    (hf : switch (f * 8 + 2) m = assign input.readBytes set) (hm : set bs = m') (hdefault : bs = [] → m' = m) :
    Merges input switch m (bytesField f bs) m' := by
  have hle := le_length_bytesField f bs
  refine Merges.omitted hdefault fun _ => merges_lenField hi hpos hlt hf (hi.bytes bs (by omega)) hm

theorem merges_string (hi : input.Standard) {set : String → σ} (hpos : 0 < f) (hlt : f < 16)
    (hlen : (bytesField f bs).length ≤ 2147483631) (hvalid : verifyUTF8 bs = true)
    (hf : switch (f * 8 + 2) m = assign input.readString set) (hm : set (text bs) = m')
    (hdefault : bs = [] → m' = m) : Merges input switch m (bytesField f bs) m' := by
  have hle := le_length_bytesField f bs
  have hread := hi.string (text bs) (by rw [utf8_text hvalid]; omega)
  rw [utf8_text hvalid] at hread
  exact Merges.omitted hdefault fun _ => merges_lenField hi hpos hlt hf hread hm

end

/-! ## Fields of the protocol -/

section

variable {σ : Type} {input : CodedInputStream} {switch : Nat → σ → Reader σ} {m m' : σ} {f : Nat} {n : Int}

/-- An integer or enumeration field; `convert` is what the reader does with the varint. -/
theorem merges_int {α : Type} (hi : input.Standard) {read : Reader α} {convert : Nat → α} {ofInt : Int → α}
    (hread : ∀ n, n < 18446744073709551616 → Reads read (varint n) (convert n))
    (hconvert : ∀ n, convert (CInt.uint64 n).toNat = ofInt n) {set : α → σ} (hpos : 0 < f) (hlt : f < 16)
    (hf : switch (f * 8 + 0) m = assign read set) (hm : set (ofInt n) = m') (hdefault : set (convert 0) = m) :
    Merges input switch m (intField f n) m' := by
  refine merges_varint hi hread hpos hlt hf (uint64_toNat_lt n) (by rw [hconvert]; exact hm) ?_
  intro hzero
  rw [← hm, ← hconvert, hzero]
  exact hdefault

theorem merges_bool (hi : input.Standard) {set : Bool → σ} {b : Bool} (hpos : 0 < f) (hlt : f < 16)
    (hf : switch (f * 8 + 0) m = assign input.readBool set) (hm : set b = m')
    (hdefault : set false = m) : Merges input switch m (boolField f b) m' := by
  have hvalue : (b.toNat != 0) = b := by cases b <;> rfl
  refine merges_varint hi hi.bool hpos hlt hf (by cases b <;> decide) (by rw [hvalue]; exact hm) ?_
  intro hzero
  rw [← hm, ← hdefault]
  cases b with
  | false => rfl
  | true => cases hzero

end

variable {F : Type} [Scalar F]

/-- The bits of a `float` that arrive. -/
def floatBits (v : F) : UInt32 := UInt32.ofNat (Scalar.bits v)

def bitsOf (v : Vector3 F) : Vector3 UInt32 := ⟨floatBits v.x, floatBits v.y, floatBits v.z⟩

section

variable {σ : Type} {input : CodedInputStream} {switch : Nat → σ → Reader σ} {m m' : σ} {f : Nat}

theorem merges_float (hi : input.Standard) {v : F} {set : UInt32 → σ} (hpos : 0 < f) (hlt : f < 16)
    (hf : switch (f * 8 + 5) m = assign input.readFloat set) (hm : set (floatBits v) = m') (hdefault : set 0 = m) :
    Merges input switch m (floatField f v) m' := merges_fixed32 hi hpos hlt hf hm hdefault

theorem length_vector3_le (v : Vector3 F) : (vector3 v).length ≤ 2147483631 := by
  have hx := length_fixed32Field 1 (Scalar.bits v.x)
  have hy := length_fixed32Field 2 (Scalar.bits v.y)
  have hz := length_fixed32Field 3 (Scalar.bits v.z)
  unfold vector3 floatField
  rw [List.length_append, List.length_append]; omega

/-- A `Vector3`, read into a new one. -/
theorem mergeFrom_vector3 (hi : input.Standard) (v : Vector3 F) :
    mergeFrom input (vector3Field input) ⟨0, 0, 0⟩ (vector3 v) = some (bitsOf v) := by
  have hx : Merges input (vector3Field input) ⟨0, 0, 0⟩ (floatField 1 v.x) ⟨floatBits v.x, 0, 0⟩ :=
    merges_float hi (by omega) (by omega) rfl rfl rfl
  have hy : Merges input (vector3Field input) ⟨floatBits v.x, 0, 0⟩ (floatField 2 v.y)
      ⟨floatBits v.x, floatBits v.y, 0⟩ := merges_float hi (by omega) (by omega) rfl rfl rfl
  have hz : Merges input (vector3Field input) ⟨floatBits v.x, floatBits v.y, 0⟩ (floatField 3 v.z) (bitsOf v) :=
    merges_float hi (by omega) (by omega) rfl rfl rfl
  exact ((hx.append hy).append hz).mergeFrom hi

/-- A field that is a `Vector3`, not there before. -/
theorem merges_vector3 (hi : input.Standard) {v : Vector3 F} {set : Vector3 UInt32 → σ} (hpos : 0 < f) (hlt : f < 16)
    (hf : switch (f * 8 + 2) m = assign (readVector3 input none) set) (hm : set (bitsOf v) = m') :
    Merges input switch m (lenField f (vector3 v)) m' :=
  merges_lenField hi hpos hlt hf
    (hi.message _ _ _ (length_vector3_le v) (mergeFrom_vector3 hi v)) hm

/-- A repeated field that is all there is. -/
theorem merges_repeated (hi : input.Standard) {τ : Type} {parse : List UInt8 → Option τ} {set : List τ → σ}
    {items : List (List UInt8)} {vs : List τ} (hpos : 0 < f) (hlt : f < 16)
    (hf : switch (f * 8 + 2) m = assign (input.addEntriesFrom (f * 8 + 2) parse) set)
    (hlen : ∀ bs ∈ items, bs.length ≤ 2147483631) (hparse : List.Forall₂ (fun bs v => parse bs = some v) items vs)
    (hm : set vs = m') (hdefault : set [] = m) :
    mergeFrom input switch m (repeatedField f items) = some m' := by
  cases hparse with
  | nil =>
      obtain rfl : m = m' := hdefault.symm.trans hm
      exact Merges.nil.mergeFrom hi
  | @cons item v items vs hv hrest =>
      have hentries := hi.entries parse f item items v vs hpos hlt hlen hv hrest
      have hbytes : repeatedField f (item :: items) =
          tag f 2 ++ (varint item.length ++ item ++ repeatedField f items) := by
        simp [repeatedField, lenField]
      have hne := List.length_pos_iff.mpr (tag_ne_nil f 2)
      have hfield : (switch (f * 8 + 2) m).run (varint item.length ++ item ++ repeatedField f items) =
          some (m', []) := by
        rw [hf]
        unfold assign
        rw [StateT.run_bind, hentries, ← hm]
        rfl
      unfold mergeFrom
      rw [hbytes, mergeLoop_pass (hi.tag f 2 hpos hlt (by omega) _) (by omega) hfield, List.length_append]
      obtain ⟨j, hj⟩ : ∃ j, (tag f 2).length + (varint item.length ++ item ++ repeatedField f items).length = j + 1 :=
        ⟨(tag f 2).length - 1 + (varint item.length ++ item ++ repeatedField f items).length, by omega⟩
      rw [hj, mergeLoop, hi.tag_nil]
      rfl

end

/-! ## Messages -/

/-- An entry of the list of rooms, as it arrives. -/
def receivedRoomData (d : Protocol.RoomData) : PacketReader.RoomData where
  roomCode := Int32.ofInt d.roomCode
  playerCount := UInt32.ofInt d.playerCount
  roomName := text d.roomName
  isPassWord := d.isPassWord
  mapHash := d.mapHash

def receivedObjectData (d : Protocol.ObjectData F) : PacketReader.ObjectData where
  type := Int32.ofInt d.type
  objectId := UInt32.ofInt d.objectId
  playerId := Int32.ofInt d.playerId
  position := some (bitsOf d.position)
  direction := some (bitsOf d.direction)
  hp := floatBits d.hp

end PacketReader

namespace Protocol.ServerMessage

variable {F : Type} [Scalar F]

/-- The message a client gets. -/
def received : ServerMessage F → PacketReader.Message
  | .sRttPong clientTime serverTime =>
      .sRttPong { clientTime := Int64.ofInt clientTime, serverTime := Int64.ofInt serverTime }
  | .sLogin gameId loginAccept => .sLogin { gameId := UInt64.ofInt gameId, loginAccept := loginAccept }
  | .sRoomLobby hostId gameName gamePassWord roomCode mapHash =>
      .sRoomLobby { hostId := UInt64.ofInt hostId, gameName := text gameName, gamePassWord := text gamePassWord,
                    roomCode := Int32.ofInt roomCode, mapHash := mapHash }
  | .sLobbyPlayerInfo playerData =>
      .sLobbyPlayerInfo { playerData := playerData.map fun id => { playerId := Int64.ofInt id } }
  | .sGameStart startPos playerId =>
      .sGameStart { startPos := some (bitsOf startPos), playerId := Int32.ofInt playerId }
  | .sRoomExit diconnectCode => .sRoomExit { diconnectCode := Int32.ofInt diconnectCode.toInt }
  | .sRoomData roomData => .sRoomData { roomData := roomData.map receivedRoomData }
  | .sRoomResponse roomAccept roomCode =>
      .sRoomResponse { roomAccept := roomAccept, roomCode := Int32.ofInt roomCode }
  | .sMove objectId state position =>
      .sMove { objectId := UInt32.ofInt objectId, state := Int32.ofInt state, position := some (bitsOf position) }
  | .sObjectSpawn objectData spawnTime =>
      .sObjectSpawn { objectData := some (receivedObjectData objectData), spawnTime := Int64.ofInt spawnTime }
  | .sObjectDead objectId state =>
      .sObjectDead { objectId := UInt32.ofInt objectId, state := Int32.ofInt state }
  | .sObjectDamage objectId hp => .sObjectDamage { objectId := UInt32.ofInt objectId, hp := floatBits hp }
  | .sTest test => .sTest { test := test }

/-- The strings of a message are such that it can be parsed. -/
def Readable : ServerMessage F → Prop
  | .sRoomLobby _ gameName gamePassWord _ _ => verifyUTF8 gameName = true ∧ verifyUTF8 gamePassWord = true
  | .sRoomData roomData => ∀ d ∈ roomData, verifyUTF8 d.roomName = true
  | _ => True

end Protocol.ServerMessage

namespace PacketReader

variable {F : Type} [Scalar F] {input : CodedInputStream}

theorem mergeFrom_roomData (hi : input.Standard) {d : Protocol.RoomData} (hlen : d.serialize.length ≤ 2147483631)
    (hname : verifyUTF8 d.roomName = true) :
    mergeFrom input (RoomData.field input) {} d.serialize = some (receivedRoomData d) := by
  unfold Protocol.RoomData.serialize at hlen ⊢
  simp only [List.length_append] at hlen
  have h1 : Merges input (RoomData.field input) {} (intField 1 d.roomCode) { roomCode := Int32.ofInt d.roomCode } :=
    merges_int hi hi.int32 toInt32_ofInt (by omega) (by omega) rfl rfl rfl
  have h2 : Merges input (RoomData.field input) { roomCode := Int32.ofInt d.roomCode } (intField 2 d.playerCount)
      { roomCode := Int32.ofInt d.roomCode, playerCount := UInt32.ofInt d.playerCount } :=
    merges_int hi hi.uint32 toUInt32_ofInt (by omega) (by omega) rfl rfl rfl
  have h3 : Merges input (RoomData.field input)
      { roomCode := Int32.ofInt d.roomCode, playerCount := UInt32.ofInt d.playerCount } (bytesField 3 d.roomName)
      { roomCode := Int32.ofInt d.roomCode, playerCount := UInt32.ofInt d.playerCount,
        roomName := text d.roomName } :=
    merges_string hi (by omega) (by omega) (by omega) hname rfl rfl (by intro h; rw [h]; rfl)
  have h4 : Merges input (RoomData.field input)
      { roomCode := Int32.ofInt d.roomCode, playerCount := UInt32.ofInt d.playerCount,
        roomName := text d.roomName } (boolField 4 d.isPassWord)
      { roomCode := Int32.ofInt d.roomCode, playerCount := UInt32.ofInt d.playerCount,
        roomName := text d.roomName, isPassWord := d.isPassWord } :=
    merges_bool hi (by omega) (by omega) rfl rfl rfl
  have h5 : Merges input (RoomData.field input)
      { roomCode := Int32.ofInt d.roomCode, playerCount := UInt32.ofInt d.playerCount,
        roomName := text d.roomName, isPassWord := d.isPassWord } (bytesField 5 d.mapHash) (receivedRoomData d) :=
    merges_bytes hi (by omega) (by omega) (by omega) rfl rfl (by intro h; unfold receivedRoomData; rw [h])
  exact ((((h1.append h2).append h3).append h4).append h5).mergeFrom hi

theorem mergeFrom_objectData (hi : input.Standard) (d : Protocol.ObjectData F) :
    mergeFrom input (ObjectData.field input) {} d.serialize = some (receivedObjectData d) := by
  have h1 : Merges input (ObjectData.field input) {} (intField 1 d.type) { type := Int32.ofInt d.type } :=
    merges_int hi hi.enum toInt32_ofInt (by omega) (by omega) rfl rfl rfl
  have h2 : Merges input (ObjectData.field input) { type := Int32.ofInt d.type } (intField 2 d.objectId)
      { type := Int32.ofInt d.type, objectId := UInt32.ofInt d.objectId } :=
    merges_int hi hi.uint32 toUInt32_ofInt (by omega) (by omega) rfl rfl rfl
  have h3 : Merges input (ObjectData.field input)
      { type := Int32.ofInt d.type, objectId := UInt32.ofInt d.objectId } (intField 3 d.playerId)
      { type := Int32.ofInt d.type, objectId := UInt32.ofInt d.objectId, playerId := Int32.ofInt d.playerId } :=
    merges_int hi hi.int32 toInt32_ofInt (by omega) (by omega) rfl rfl rfl
  have h4 : Merges input (ObjectData.field input)
      { type := Int32.ofInt d.type, objectId := UInt32.ofInt d.objectId, playerId := Int32.ofInt d.playerId }
      (lenField 4 (vector3 d.position))
      { type := Int32.ofInt d.type, objectId := UInt32.ofInt d.objectId, playerId := Int32.ofInt d.playerId,
        position := some (bitsOf d.position) } :=
    merges_vector3 hi (by omega) (by omega) rfl rfl
  have h5 : Merges input (ObjectData.field input)
      { type := Int32.ofInt d.type, objectId := UInt32.ofInt d.objectId, playerId := Int32.ofInt d.playerId,
        position := some (bitsOf d.position) } (lenField 5 (vector3 d.direction))
      { type := Int32.ofInt d.type, objectId := UInt32.ofInt d.objectId, playerId := Int32.ofInt d.playerId,
        position := some (bitsOf d.position), direction := some (bitsOf d.direction) } :=
    merges_vector3 hi (by omega) (by omega) rfl rfl
  have h6 : Merges input (ObjectData.field input)
      { type := Int32.ofInt d.type, objectId := UInt32.ofInt d.objectId, playerId := Int32.ofInt d.playerId,
        position := some (bitsOf d.position), direction := some (bitsOf d.direction) } (floatField 6 d.hp)
      (receivedObjectData d) :=
    merges_float hi (by omega) (by omega) rfl rfl rfl
  exact (((((h1.append h2).append h3).append h4).append h5).append h6).mergeFrom hi

theorem mergeFrom_playerInfo (hi : input.Standard) (id : Int) :
    mergeFrom input (PlayerInfo.field input) {} (intField 1 id) = some { playerId := Int64.ofInt id } :=
  (merges_int hi hi.int64 toInt64_ofInt (by omega) (by omega) rfl rfl rfl).mergeFrom hi

/-- An item of a repeated field is no longer than the field. -/
theorem length_le_repeatedField {f : Nat} {items : List (List UInt8)} {bs : List UInt8} (h : bs ∈ items) :
    bs.length ≤ (repeatedField f items).length := by
  have hmem : lenField f bs ∈ items.map (lenField f) := List.mem_map_of_mem h
  have hle := List.Sublist.length_le (List.sublist_flatten_of_mem hmem)
  unfold lenField at hle
  rw [List.length_append, List.length_append] at hle
  unfold repeatedField
  unfold lenField
  omega

theorem mergeFrom_roomLobby (hi : input.Standard) {hostId roomCode : Int} {gameName gamePassWord mapHash : List UInt8}
    (hname : verifyUTF8 gameName = true) (hpassWord : verifyUTF8 gamePassWord = true)
    (hlen : (ServerMessage.sRoomLobby hostId gameName gamePassWord roomCode mapHash :
      ServerMessage F).serialize.length ≤ 2147483631) :
    mergeFrom input (SRoomLobby.field input) {}
        (ServerMessage.sRoomLobby hostId gameName gamePassWord roomCode mapHash : ServerMessage F).serialize =
      some { hostId := UInt64.ofInt hostId, gameName := text gameName, gamePassWord := text gamePassWord,
             roomCode := Int32.ofInt roomCode, mapHash := mapHash } := by
  unfold ServerMessage.serialize at hlen
  simp only [List.length_append] at hlen
  have h1 : Merges input (SRoomLobby.field input) {} (intField 1 hostId) { hostId := UInt64.ofInt hostId } :=
    merges_int hi hi.uint64 toUInt64_ofInt (by omega) (by omega) rfl rfl rfl
  have h2 : Merges input (SRoomLobby.field input) { hostId := UInt64.ofInt hostId } (bytesField 2 gameName)
      { hostId := UInt64.ofInt hostId, gameName := text gameName } :=
    merges_string hi (by omega) (by omega) (by omega) hname rfl rfl (by rintro rfl; rfl)
  have h3 : Merges input (SRoomLobby.field input) { hostId := UInt64.ofInt hostId, gameName := text gameName }
      (bytesField 3 gamePassWord)
      { hostId := UInt64.ofInt hostId, gameName := text gameName, gamePassWord := text gamePassWord } :=
    merges_string hi (by omega) (by omega) (by omega) hpassWord rfl rfl (by rintro rfl; rfl)
  have h4 : Merges input (SRoomLobby.field input)
      { hostId := UInt64.ofInt hostId, gameName := text gameName, gamePassWord := text gamePassWord }
      (intField 4 roomCode)
      { hostId := UInt64.ofInt hostId, gameName := text gameName, gamePassWord := text gamePassWord,
        roomCode := Int32.ofInt roomCode } :=
    merges_int hi hi.int32 toInt32_ofInt (by omega) (by omega) rfl rfl rfl
  have h5 : Merges input (SRoomLobby.field input)
      { hostId := UInt64.ofInt hostId, gameName := text gameName, gamePassWord := text gamePassWord,
        roomCode := Int32.ofInt roomCode } (bytesField 5 mapHash)
      { hostId := UInt64.ofInt hostId, gameName := text gameName, gamePassWord := text gamePassWord,
        roomCode := Int32.ofInt roomCode, mapHash := mapHash } :=
    merges_bytes hi (by omega) (by omega) (by omega) rfl rfl (by rintro rfl; rfl)
  exact ((((h1.append h2).append h3).append h4).append h5).mergeFrom hi

theorem mergeFrom_lobbyPlayerInfo (hi : input.Standard) {playerData : List Int}
    (hlen : (ServerMessage.sLobbyPlayerInfo playerData : ServerMessage F).serialize.length ≤ 2147483631) :
    mergeFrom input (SLobbyPlayerInfo.field input) {}
        (ServerMessage.sLobbyPlayerInfo playerData : ServerMessage F).serialize =
      some { playerData := playerData.map fun id => { playerId := Int64.ofInt id } } := by
  have hitems : List.Forall₂ (fun bs v => mergeFrom input (PlayerInfo.field input) {} bs = some v)
      (playerData.map (intField 1)) (playerData.map fun id => ({ playerId := Int64.ofInt id } : PlayerInfo)) := by
    rw [List.forall₂_map_left_iff, List.forall₂_map_right_iff]
    exact List.forall₂_same.mpr fun id _ => mergeFrom_playerInfo hi id
  exact merges_repeated (f := 1) hi (by omega) (by omega) rfl
    (fun bs hbs => Nat.le_trans (length_le_repeatedField hbs) hlen) hitems rfl rfl

theorem mergeFrom_sRoomData (hi : input.Standard) {roomData : List Protocol.RoomData}
    (hnames : ∀ d ∈ roomData, verifyUTF8 d.roomName = true)
    (hlen : (ServerMessage.sRoomData roomData : ServerMessage F).serialize.length ≤ 2147483631) :
    mergeFrom input (SRoomData.field input) {} (ServerMessage.sRoomData roomData : ServerMessage F).serialize =
      some { roomData := roomData.map receivedRoomData } := by
  have hbytes : ∀ bs ∈ roomData.map Protocol.RoomData.serialize, bs.length ≤ 2147483631 :=
    fun bs hbs => Nat.le_trans (length_le_repeatedField hbs) hlen
  have hitems : List.Forall₂ (fun bs v => mergeFrom input (RoomData.field input) {} bs = some v)
      (roomData.map Protocol.RoomData.serialize) (roomData.map receivedRoomData) := by
    rw [List.forall₂_map_left_iff, List.forall₂_map_right_iff]
    refine List.forall₂_same.mpr fun d hd => ?_
    exact mergeFrom_roomData hi (hbytes _ (List.mem_map_of_mem hd)) (hnames d hd)
  exact merges_repeated (f := 1) hi (by omega) (by omega) rfl hbytes hitems rfl rfl

theorem mergeFrom_objectSpawn (hi : input.Standard) {objectData : Protocol.ObjectData F} {spawnTime : Int}
    (hlen : (ServerMessage.sObjectSpawn objectData spawnTime).serialize.length ≤ 2147483631) :
    mergeFrom input (SObjectSpawn.field input) {} (ServerMessage.sObjectSpawn objectData spawnTime).serialize =
      some { objectData := some (receivedObjectData objectData), spawnTime := Int64.ofInt spawnTime } := by
  unfold ServerMessage.serialize lenField at hlen
  simp only [List.length_append] at hlen
  have h1 : Merges input (SObjectSpawn.field input) {} (lenField 1 objectData.serialize)
      { objectData := some (receivedObjectData objectData) } :=
    merges_lenField hi (by omega) (by omega) rfl
      (hi.message _ _ _ (by omega) (mergeFrom_objectData hi objectData)) rfl
  have h2 : Merges input (SObjectSpawn.field input) { objectData := some (receivedObjectData objectData) }
      (intField 2 spawnTime)
      { objectData := some (receivedObjectData objectData), spawnTime := Int64.ofInt spawnTime } :=
    merges_int hi hi.int64 toInt64_ofInt (by omega) (by omega) rfl rfl rfl
  exact (h1.append h2).mergeFrom hi

/-- **A message that is sent is read as it was meant**, when its strings are strings and no parser finds it too long. -/
theorem parseFrom_serialize (hi : input.Standard) {msg : ServerMessage F} (hreadable : msg.Readable)
    (hlen : msg.byteSizeLong ≤ 2147483631) : parseFrom input msg.pktId msg.serialize = some msg.received := by
  unfold ServerMessage.byteSizeLong at hlen
  cases msg with
  | sRttPong clientTime serverTime =>
      have h1 : Merges input (SRttPong.field input) {} (intField 1 clientTime)
          { clientTime := Int64.ofInt clientTime } :=
        merges_int hi hi.int64 toInt64_ofInt (by omega) (by omega) rfl rfl rfl
      have h2 : Merges input (SRttPong.field input) { clientTime := Int64.ofInt clientTime } (intField 2 serverTime)
          { clientTime := Int64.ofInt clientTime, serverTime := Int64.ofInt serverTime } :=
        merges_int hi hi.int64 toInt64_ofInt (by omega) (by omega) rfl rfl rfl
      exact congrArg (Option.map Message.sRttPong) ((h1.append h2).mergeFrom hi)
  | sLogin gameId loginAccept =>
      have h1 : Merges input (SLogin.field input) {} (intField 1 gameId) { gameId := UInt64.ofInt gameId } :=
        merges_int hi hi.uint64 toUInt64_ofInt (by omega) (by omega) rfl rfl rfl
      have h2 : Merges input (SLogin.field input) { gameId := UInt64.ofInt gameId } (boolField 2 loginAccept)
          { gameId := UInt64.ofInt gameId, loginAccept := loginAccept } :=
        merges_bool hi (by omega) (by omega) rfl rfl rfl
      exact congrArg (Option.map Message.sLogin) ((h1.append h2).mergeFrom hi)
  | sRoomLobby hostId gameName gamePassWord roomCode mapHash =>
      exact congrArg (Option.map Message.sRoomLobby) (mergeFrom_roomLobby hi hreadable.1 hreadable.2 hlen)
  | sLobbyPlayerInfo playerData =>
      exact congrArg (Option.map Message.sLobbyPlayerInfo) (mergeFrom_lobbyPlayerInfo hi hlen)
  | sGameStart startPos playerId =>
      have h1 : Merges input (SGameStart.field input) {} (lenField 1 (vector3 startPos))
          { startPos := some (bitsOf startPos) } := merges_vector3 hi (by omega) (by omega) rfl rfl
      have h2 : Merges input (SGameStart.field input) { startPos := some (bitsOf startPos) } (intField 3 playerId)
          { startPos := some (bitsOf startPos), playerId := Int32.ofInt playerId } :=
        merges_int hi hi.int32 toInt32_ofInt (by omega) (by omega) rfl rfl rfl
      exact congrArg (Option.map Message.sGameStart) ((h1.append h2).mergeFrom hi)
  | sRoomExit diconnectCode =>
      have h1 : Merges input (SRoomExit.field input) {} (intField 1 diconnectCode.toInt)
          { diconnectCode := Int32.ofInt diconnectCode.toInt } :=
        merges_int hi hi.enum toInt32_ofInt (by omega) (by omega) rfl rfl rfl
      exact congrArg (Option.map Message.sRoomExit) (h1.mergeFrom hi)
  | sRoomData roomData =>
      exact congrArg (Option.map Message.sRoomData) (mergeFrom_sRoomData hi hreadable hlen)
  | sRoomResponse roomAccept roomCode =>
      have h1 : Merges input (SRoomResponse.field input) {} (boolField 1 roomAccept) { roomAccept := roomAccept } :=
        merges_bool hi (by omega) (by omega) rfl rfl rfl
      have h2 : Merges input (SRoomResponse.field input) { roomAccept := roomAccept } (intField 2 roomCode)
          { roomAccept := roomAccept, roomCode := Int32.ofInt roomCode } :=
        merges_int hi hi.int32 toInt32_ofInt (by omega) (by omega) rfl rfl rfl
      exact congrArg (Option.map Message.sRoomResponse) ((h1.append h2).mergeFrom hi)
  | sMove objectId state position =>
      have h1 : Merges input (SMove.field input) {} (intField 1 objectId) { objectId := UInt32.ofInt objectId } :=
        merges_int hi hi.uint32 toUInt32_ofInt (by omega) (by omega) rfl rfl rfl
      have h2 : Merges input (SMove.field input) { objectId := UInt32.ofInt objectId } (intField 2 state)
          { objectId := UInt32.ofInt objectId, state := Int32.ofInt state } :=
        merges_int hi hi.enum toInt32_ofInt (by omega) (by omega) rfl rfl rfl
      have h3 : Merges input (SMove.field input) { objectId := UInt32.ofInt objectId, state := Int32.ofInt state }
          (lenField 3 (vector3 position))
          { objectId := UInt32.ofInt objectId, state := Int32.ofInt state, position := some (bitsOf position) } :=
        merges_vector3 hi (by omega) (by omega) rfl rfl
      exact congrArg (Option.map Message.sMove) (((h1.append h2).append h3).mergeFrom hi)
  | sObjectSpawn objectData spawnTime =>
      exact congrArg (Option.map Message.sObjectSpawn) (mergeFrom_objectSpawn hi hlen)
  | sObjectDead objectId state =>
      have h1 : Merges input (SObjectDead.field input) {} (intField 1 objectId)
          { objectId := UInt32.ofInt objectId } :=
        merges_int hi hi.uint32 toUInt32_ofInt (by omega) (by omega) rfl rfl rfl
      have h2 : Merges input (SObjectDead.field input) { objectId := UInt32.ofInt objectId } (intField 2 state)
          { objectId := UInt32.ofInt objectId, state := Int32.ofInt state } :=
        merges_int hi hi.enum toInt32_ofInt (by omega) (by omega) rfl rfl rfl
      exact congrArg (Option.map Message.sObjectDead) ((h1.append h2).mergeFrom hi)
  | sObjectDamage objectId hp =>
      have h1 : Merges input (SObjectDamage.field input) {} (intField 1 objectId)
          { objectId := UInt32.ofInt objectId } :=
        merges_int hi hi.uint32 toUInt32_ofInt (by omega) (by omega) rfl rfl rfl
      have h2 : Merges input (SObjectDamage.field input) { objectId := UInt32.ofInt objectId } (floatField 2 hp)
          { objectId := UInt32.ofInt objectId, hp := floatBits hp } :=
        merges_float hi (by omega) (by omega) rfl rfl rfl
      exact congrArg (Option.map Message.sObjectDamage) ((h1.append h2).mergeFrom hi)
  | sTest test =>
      have h1 : Merges input (STest.field input) {} (bytesField 1 test) { test := test } :=
        merges_bytes hi (by omega) (by omega) hlen rfl rfl (by rintro rfl; rfl)
      exact congrArg (Option.map Message.sTest) (h1.mergeFrom hi)

/-! ## A runtime -/

/-- A message, and those that follow under the same tag. -/
def wireEntries {σ : Type} (t : Nat) (parse : List UInt8 → Option σ) : Nat → List UInt8 → Option (List σ × List UInt8)
  | 0, _ => none
  | fuel + 1, bs =>
      match readLen.run bs with
      | none => none
      | some (item, rest) =>
          match parse item with
          | none => none
          | some v =>
              match readTag.run rest with
              | none => some ([v], rest)
              | some (t', more) =>
                  if t' = t then (wireEntries t parse fuel more).map fun r => (v :: r.1, r.2)
                  else some ([v], rest)

/-- The runtime that reads the wire format and nothing else. -/
def wireInput : CodedInputStream where
  readTag := fun bs => if bs = [] then some (0, []) else readTag.run bs
  readInt32 := assign readVarint toInt32
  readInt64 := assign readVarint fun n => (UInt64.ofNat n).toInt64
  readUInt32 := assign readVarint UInt32.ofNat
  readUInt64 := assign readVarint UInt64.ofNat
  readBool := assign readVarint fun n => n != 0
  readEnum := assign readVarint toInt32
  readFloat := assign readFixed32 UInt32.ofNat
  readString := assign readLen text
  readBytes := readLen
  readMessage parse := do
    let bs ← readLen
    match parse bs with
    | some m => return m
    | none => failure
  addEntriesFrom t parse := fun bs => wireEntries t parse (bs.length + 1) bs
  mergeFieldFrom := skipField recursionLimit

theorem text_utf8 (s : String) : text (utf8 s) = s := by
  unfold text String.fromUTF8?
  rw [dif_pos (show ByteArray.IsValidUTF8 ⟨(utf8 s).toArray⟩ from s.isValidUTF8)]
  rfl

theorem wireEntries_spec {σ : Type} {parse : List UInt8 → Option σ} {f : Nat} (hpos : 0 < f) (hlt : f < 16)
    {items : List (List UInt8)} {vs : List σ} (hrest : List.Forall₂ (fun bs v => parse bs = some v) items vs)
    {item : List UInt8} {v : σ} (hlen : ∀ bs ∈ item :: items, bs.length ≤ 2147483631) (hv : parse item = some v)
    {fuel : Nat} (hfuel : items.length < fuel) :
    wireEntries (f * 8 + 2) parse fuel (varint item.length ++ item ++ repeatedField f items) = some (v :: vs, []) := by
  induction hrest generalizing item v fuel with
  | nil =>
      obtain ⟨k, rfl⟩ : ∃ k, fuel = k + 1 := ⟨fuel - 1, by omega⟩
      rw [wireEntries, reads_len (hlen item List.mem_cons_self)]
      dsimp only
      rw [hv]
      rfl
  | @cons item' v' items vs hv' _ ih =>
      obtain ⟨k, rfl⟩ : ∃ k, fuel = k + 1 := ⟨fuel - 1, by omega⟩
      have hbytes : repeatedField f (item' :: items) =
          tag f 2 ++ (varint item'.length ++ item' ++ repeatedField f items) := by
        simp [repeatedField, lenField]
      have hnext := @ih item' v' (fun bs hbs => hlen bs (List.mem_cons_of_mem _ hbs)) hv' k
        (by rw [List.length_cons] at hfuel; omega)
      have htag := @reads_tag f 2 (by omega) (varint item'.length ++ item' ++ repeatedField f items)
      rw [wireEntries, reads_len (hlen item List.mem_cons_self)]
      dsimp only
      rw [hv, hbytes]
      dsimp only
      rw [htag]
      dsimp only
      rw [if_pos rfl, hnext]
      rfl

theorem standard_wireInput : wireInput.Standard where
  tag_nil := rfl
  tag field wireType hpos hlt hw := by
    intro rest
    have hne := tag_ne_nil field wireType
    change (if tag field wireType ++ rest = [] then _ else _) = _
    rw [if_neg (by simp [hne])]
    exact reads_tag (by omega) rest
  int32 n hn := (reads_varint hn).map _
  int64 n hn := (reads_varint hn).map _
  uint32 n hn := (reads_varint hn).map _
  uint64 n hn := (reads_varint hn).map _
  bool n hn := (reads_varint hn).map _
  enum n hn := (reads_varint hn).map _
  float n := by
    have h := (@reads_fixed32 n).map UInt32.ofNat
    have hcut : UInt32.ofNat (n % 4294967296) = UInt32.ofNat n := by
      refine UInt32.toNat_inj.mp ?_
      rw [UInt32.toNat_ofNat', UInt32.toNat_ofNat']
      omega
    rwa [hcut] at h
  string s hlen := by
    have h := (reads_len hlen).map text
    rwa [text_utf8] at h
  bytes bs hlen := reads_len hlen
  message parse bs m hlen hparse := by
    intro rest
    change StateT.run (readLen >>= _) _ = _
    rw [StateT.run_bind, reads_len hlen rest]
    change StateT.run (match parse bs with
      | some m => return m
      | none => failure) rest = _
    rw [hparse]
    rfl
  entries parse f item items v vs hpos hlt hlen hv hrest := by
    refine wireEntries_spec hpos hlt hrest hlen hv ?_
    have hcount : items.length ≤ (repeatedField f items).length := by
      unfold repeatedField
      clear hrest hlen
      induction items with
      | nil => exact Nat.le_refl _
      | cons bs items ih =>
          have hne := List.length_pos_iff.mpr (tag_ne_nil f 2)
          rw [List.map_cons, List.flatten_cons, List.length_cons, List.length_append]
          unfold lenField
          rw [List.length_append, List.length_append]
          unfold lenField at ih
          omega
    rw [List.length_append]
    omega

end PacketReader

end StarCraftIocp
