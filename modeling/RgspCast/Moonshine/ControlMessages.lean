import RgspCast.Moonshine.Reassembly

/-!
# The messages of the control stream

A message is a type, a length and a body; an encrypted one holds a sequence number, a tag and the
encrypted bytes of another. `fromBytes_eq_panic_iff` names the datagrams on which the parser panics,
and `opens_iff` the payloads that survive `encode_control` and come out at the other end.
-/

namespace RgspCast.ControlStream

open Layout Video

/-! ## The types -/

/-- `ControlMessageType`. -/
inductive ControlMessageType where
  | encrypted
  | terminationExtended
  | rumbleData
  | hdrMode
  | ping
  | lossStats
  | frameStats
  | inputData
  | requestIdrFrame
  | invalidateReferenceFrames
  | startB
  | rumbleTriggers
  | setMotionEvent
  | setRgbLed
  | setTriggerEffect
  deriving DecidableEq, Repr

namespace ControlMessageType

/-- The discriminant. -/
def code : ControlMessageType → ℕ
  | encrypted => 0x0001
  | terminationExtended => 0x0109
  | rumbleData => 0x010b
  | hdrMode => 0x010e
  | ping => 0x0200
  | lossStats => 0x0201
  | frameStats => 0x0204
  | inputData => 0x0206
  | requestIdrFrame => 0x0302
  | invalidateReferenceFrames => 0x0301
  | startB => 0x0307
  | rumbleTriggers => 0x5500
  | setMotionEvent => 0x5501
  | setRgbLed => 0x5502
  | setTriggerEffect => 0x5503

/-- `TryFrom<u16>`: the types in the order of its arms. -/
def tryFrom (v : ℕ) : Option ControlMessageType :=
  [encrypted, terminationExtended, rumbleData, hdrMode, ping, lossStats, frameStats, inputData,
    requestIdrFrame, invalidateReferenceFrames, startB, rumbleTriggers, setMotionEvent, setRgbLed,
    setTriggerEffect].find? fun t => v = t.code

/-- Every type is found by its code. -/
theorem tryFrom_code (t : ControlMessageType) : tryFrom t.code = some t := by
  cases t <;> rfl

/-- And has the code it is found by. -/
theorem code_of_tryFrom {v : ℕ} {t : ControlMessageType} (h : tryFrom v = some t) :
    v = t.code := by
  simpa using List.find?_some h

/-- A code has two bytes. -/
theorem code_lt (t : ControlMessageType) : t.code < 256 ^ 2 := by
  cases t <;> decide

end ControlMessageType

/-! ## The messages -/

/-- `ENCRYPTION_TAG_LENGTH`. -/
def encryptionTagLength : ℕ := 16

/-- `MINIMUM_ENCRYPTED_LENGTH`. -/
def minimumEncryptedLength : ℕ := 4 + encryptionTagLength + 4

/-- A message: its type, the length as it is written, and the body. -/
def packet (t : ControlMessageType) (payloadLength : ℕ) (body : Bytes) : Bytes :=
  le 2 t.code ++ (le 2 payloadLength ++ body)

/-- `EncryptedControlMessage`. -/
structure EncryptedControlMessage where
  length : UInt16
  sequenceNumber : UInt32
  tag : Bytes
  payload : Bytes
  deriving DecidableEq, Repr

/-- `EncryptedControlMessage::as_bytes`. -/
def EncryptedControlMessage.asBytes (m : EncryptedControlMessage) : Bytes :=
  packet .encrypted m.length.toNat (le 4 m.sequenceNumber.toNat ++ (m.tag ++ m.payload))

/-- `ControlMessage`. -/
inductive ControlMessage where
  | encrypted (m : EncryptedControlMessage)
  | terminationExtended
  | rumbleData
  | hdrMode
  | ping
  | lossStats
  | frameStats
  | inputData (event : Bytes)
  | requestIdrFrame
  | invalidateReferenceFrames (first last : UInt32)
  | startB
  | rumbleTriggers
  | setMotionEvent
  | setRgbLed
  | setTriggerEffect
  deriving DecidableEq, Repr

namespace ControlMessage

/-- The arm of `from_bytes` for a message of a type, whose header has been checked. -/
def parseBody (buffer : Bytes) : ControlMessageType → Except Fault ControlMessage
  | .encrypted =>
    if buffer.length < minimumEncryptedLength then .error .err
    else
      let length := UInt16.ofNat (ofLe (slice 2 2 buffer))
      if length.toNat < minimumEncryptedLength then .error .err
      else
        .ok (.encrypted
          { length := length
            sequenceNumber := UInt32.ofNat (ofLe (slice 4 4 buffer))
            tag := slice 8 encryptionTagLength buffer
            payload := buffer.drop (8 + encryptionTagLength) })
  | .ping => .ok .ping
  | .terminationExtended => .ok .terminationExtended
  | .rumbleData => .ok .rumbleData
  | .lossStats => .ok .lossStats
  | .frameStats => .ok .frameStats
  | .inputData =>
    -- the slice of the four bytes behind the header
    if buffer.length < 8 then .error .panic
    else if ofBe (slice 4 4 buffer) ≠ buffer.length - 8 then .error .err
    else .ok (.inputData (buffer.drop 8))
  | .invalidateReferenceFrames =>
    if 16 ≤ buffer.length then
      .ok (.invalidateReferenceFrames (UInt32.ofNat (ofLe (slice 4 4 buffer)))
        (UInt32.ofNat (ofLe (slice 12 4 buffer))))
    else .ok (.invalidateReferenceFrames 0 0xffffffff)
  | .requestIdrFrame => .ok .requestIdrFrame
  | .startB => .ok .startB
  | .hdrMode => .ok .hdrMode
  | .rumbleTriggers => .ok .rumbleTriggers
  | .setMotionEvent => .ok .setMotionEvent
  | .setRgbLed => .ok .setRgbLed
  | .setTriggerEffect => .ok .setTriggerEffect

/-- `from_bytes`. -/
def fromBytes (buffer : Bytes) : Except Fault ControlMessage :=
  if buffer.length < 4 then .error .err
  else if ofLe (slice 2 2 buffer) ≠ buffer.length - 4 then .error .err
  else
    match ControlMessageType.tryFrom (ofLe (slice 0 2 buffer)) with
    | none => .error .err
    | some t => parseBody buffer t

/-- The header of a buffer is that of a message of type `t`. -/
structure Header (t : ControlMessageType) (buffer : Bytes) : Prop where
  length : 4 ≤ buffer.length
  size : ofLe (slice 2 2 buffer) = buffer.length - 4
  type : ofLe (slice 0 2 buffer) = t.code

/-- A message with the right header is parsed by its type. -/
theorem fromBytes_of_header {t : ControlMessageType} {buffer : Bytes} (h : Header t buffer) :
    fromBytes buffer = parseBody buffer t := by
  have hlen := h.length
  rw [fromBytes, if_neg (by omega), if_neg (not_not_intro h.size), h.type,
    ControlMessageType.tryFrom_code]

/-- Whatever `from_bytes` says but `Err(())` it says behind a right header. -/
theorem header_of_fromBytes {buffer : Bytes} (h : fromBytes buffer ≠ .error .err) :
    ∃ t, Header t buffer := by
  rw [fromBytes] at h
  split_ifs at h with hlen hsize
  · exact absurd rfl h
  · exact absurd rfl h
  · cases ht : ControlMessageType.tryFrom (ofLe (slice 0 2 buffer)) with
    | none =>
      rw [ht] at h
      exact absurd rfl h
    | some t => exact ⟨t, by omega, not_not.mp hsize, ControlMessageType.code_of_tryFrom ht⟩

/-- **When the parser panics.** The slice is out of range for input messages of less than eight
bytes, and for them only. -/
theorem fromBytes_eq_panic_iff {buffer : Bytes} :
    fromBytes buffer = .error .panic ↔ Header .inputData buffer ∧ buffer.length < 8 := by
  constructor
  · intro h
    have hne : fromBytes buffer ≠ .error .err := by
      rw [h]
      nofun
    obtain ⟨t, ht⟩ := header_of_fromBytes hne
    rw [fromBytes_of_header ht] at h
    cases t with
    | inputData =>
      simp only [parseBody] at h
      split_ifs at h with hlen hsize
      · exact ⟨ht, hlen⟩
      · cases h
    | encrypted =>
      simp only [parseBody] at h
      split_ifs at h
      · cases h
      · cases h
    | invalidateReferenceFrames =>
      simp only [parseBody] at h
      split_ifs at h
    | _ => cases h
  · rintro ⟨hheader, hlen⟩
    rw [fromBytes_of_header hheader, parseBody, if_pos hlen]

/-- Messages with the length of their body have a right header. -/
theorem header_packet {t : ControlMessageType} {n : ℕ} {body : Bytes} (hn : n < 256 ^ 2)
    (hbody : n = body.length) : Header t (packet t n body) where
  length := by
    simp only [packet, List.length_append, length_le]
    omega
  size := by
    rw [packet, slice_append (length_le 2 _) (length_le 2 _), ofLe_le hn, hbody]
    simp only [List.length_append, length_le]
    omega
  type := by
    have hslice : slice 0 2 (packet t n body) = le 2 t.code := List.take_left' (length_le 2 _)
    rw [hslice, ofLe_le t.code_lt]

/-- What is parsed of an encrypted message: itself, if the length it states is that of its body and
there are four encrypted bytes or more. -/
theorem fromBytes_asBytes {m : EncryptedControlMessage} (htag : m.tag.length = 16) :
    fromBytes m.asBytes =
      if m.length.toNat = 20 + m.payload.length ∧ 4 ≤ m.payload.length then .ok (.encrypted m)
      else .error .err := by
  have hlen : m.asBytes.length = 24 + m.payload.length := by
    simp only [EncryptedControlMessage.asBytes, packet, List.length_append, length_le, htag]
    omega
  have hsize : ofLe (slice 2 2 m.asBytes) = m.length.toNat := by
    rw [EncryptedControlMessage.asBytes, packet, slice_append (length_le 2 _) (length_le 2 _),
      ofLe_le m.length.toNat_lt]
  by_cases hlength : m.length.toNat = 20 + m.payload.length
  -- the length field says what follows, so the fields are where they were written
  · have hheader : Header .encrypted m.asBytes := by
      refine header_packet m.length.toNat_lt ?_
      simp only [List.length_append, length_le, htag]
      omega
    have hshort : ¬ m.asBytes.length < minimumEncryptedLength := by
      rw [hlen, minimumEncryptedLength, encryptionTagLength]
      omega
    have hnumber : slice 4 4 m.asBytes = le 4 m.sequenceNumber.toNat := by
      rw [EncryptedControlMessage.asBytes, packet, ← List.append_assoc]
      exact slice_append rfl (length_le 4 _)
    have hfront : (le 2 ControlMessageType.encrypted.code ++ (le 2 m.length.toNat ++
        le 4 m.sequenceNumber.toNat)).length = 8 := rfl
    have hbytes : m.asBytes = (le 2 ControlMessageType.encrypted.code ++ (le 2 m.length.toNat ++
        le 4 m.sequenceNumber.toNat)) ++ (m.tag ++ m.payload) := by
      simp only [EncryptedControlMessage.asBytes, packet, List.append_assoc]
    have hslice : slice 8 encryptionTagLength m.asBytes = m.tag := by
      rw [hbytes]
      exact slice_append hfront htag
    have hdrop : m.asBytes.drop (8 + encryptionTagLength) = m.payload := by
      rw [hbytes, ← List.append_assoc]
      exact List.drop_left' (by rw [List.length_append, hfront, htag]; rfl)
    rw [fromBytes_of_header hheader, parseBody, if_neg hshort, hsize, hnumber, hslice, hdrop,
      ofLe_le m.sequenceNumber.toNat_lt, UInt32.ofNat_toNat, UInt16.ofNat_toNat]
    change (if m.length.toNat < 24 then _ else _) = _
    -- the parser asks for a payload of four bytes
    by_cases hmin : 4 ≤ m.payload.length
    · rw [if_neg (by omega), if_pos ⟨hlength, hmin⟩]
    · rw [if_pos (by omega), if_neg fun h => hmin h.2]
  · rw [fromBytes, if_neg (by omega), if_pos (by rw [hsize]; omega), if_neg fun h => hlength h.1]

end ControlMessage

/-! ## Encryption -/

/-- The initialisation vector of a message: the sequence number, zeros and two letters. -/
def controlIv (sequenceNumber : UInt32) (letters : Bytes) : Bytes :=
  le 4 sequenceNumber.toNat ++ List.replicate 6 0 ++ letters

/-- `HC`, of the messages of the host. -/
def hostLetters : Bytes := [0x48, 0x43]

/-- `CC`, of those of the client. -/
def clientLetters : Bytes := [0x43, 0x43]

section

variable {K : Type} (aead : Aead K)

/-- `crypto::encrypt`: the last sixteen bytes that the cipher returns are the tag. -/
def encrypt (plaintext key iv : Bytes) : Option (Bytes × Bytes) :=
  (aead.encrypt (aead.newKey key) iv plaintext).bind fun (data, tag) =>
    let ciphertext := data ++ tag
    if ciphertext.length < encryptionTagLength then none
    else
      some (ciphertext.take (ciphertext.length - encryptionTagLength),
        ciphertext.drop (ciphertext.length - encryptionTagLength))

/-- `encode_control`. -/
def encodeControl (key : Bytes) (sequenceNumber : UInt32) (payload : Bytes) : Option Bytes :=
  if key.length ≠ 16 then none
  else
    (encrypt aead payload key (controlIv sequenceNumber hostLetters)).bind fun (payload, tag) =>
      if payload = [] then none
      else
        some (EncryptedControlMessage.asBytes
          { length := 4 + UInt16.ofNat encryptionTagLength + UInt16.ofNat payload.length
            sequenceNumber := sequenceNumber
            tag := tag
            payload := payload })

/-- The datagram of a message that is encrypted for one of the two directions. -/
def Sealed (letters key : Bytes) (sequenceNumber : UInt32) (payload datagram : Bytes) : Prop :=
  ∃ data tag, aead.encrypt (aead.newKey key) (controlIv sequenceNumber letters) payload =
      some (data, tag) ∧
    datagram = EncryptedControlMessage.asBytes
      { length := 4 + UInt16.ofNat encryptionTagLength + UInt16.ofNat data.length
        sequenceNumber := sequenceNumber
        tag := tag
        payload := data }

variable {aead} {decrypt : K → Bytes → Bytes → Bytes → Option Bytes}

/-- The data and the tag are cut apart where they were joined. -/
theorem encrypt_eq (haead : AeadLaw aead decrypt) {plaintext key iv data tag : Bytes}
    (h : aead.encrypt (aead.newKey key) iv plaintext = some (data, tag)) :
    encrypt aead plaintext key iv = some (data, tag) := by
  have hsub : (data ++ tag).length - encryptionTagLength = data.length := by
    rw [List.length_append, (haead.length h).2]
    exact Nat.add_sub_cancel _ _
  have hlen : ¬ (data ++ tag).length < encryptionTagLength := by
    rw [List.length_append, (haead.length h).2, encryptionTagLength]
    omega
  rw [encrypt, h, Option.bind_some]
  simp only [if_neg hlen, hsub, List.take_left, List.drop_left]

/-- What `encode_control` returns is sealed for the way to the client. -/
theorem sealed_of_encodeControl (haead : AeadLaw aead decrypt) {key payload datagram : Bytes}
    {sequenceNumber : UInt32} (h : encodeControl aead key sequenceNumber payload = some datagram) :
    Sealed aead hostLetters key sequenceNumber payload datagram := by
  rw [encodeControl] at h
  split_ifs at h
  obtain ⟨⟨data, tag⟩, hencrypt, h⟩ := Option.bind_eq_some_iff.mp h
  obtain ⟨⟨data', tag'⟩, haes, -⟩ := Option.bind_eq_some_iff.mp hencrypt
  rw [encrypt_eq haead haes] at hencrypt
  obtain ⟨rfl, rfl⟩ := Prod.mk.inj (Option.some.inj hencrypt)
  simp only at h
  split_ifs at h
  exact ⟨data', tag', haes, (Option.some.inj h).symm⟩

/-- What the parser says of a sealed datagram. -/
theorem Sealed.fromBytes (haead : AeadLaw aead decrypt) {letters key payload datagram : Bytes}
    {sequenceNumber : UInt32} (h : Sealed aead letters key sequenceNumber payload datagram) :
    (¬ (4 ≤ payload.length ∧ payload.length + 20 < 2 ^ 16) →
      ControlMessage.fromBytes datagram = .error .err) ∧
    (4 ≤ payload.length ∧ payload.length + 20 < 2 ^ 16 →
      ∃ m, ControlMessage.fromBytes datagram = .ok (.encrypted m) ∧
        m.sequenceNumber = sequenceNumber ∧
        decrypt (aead.newKey key) (controlIv m.sequenceNumber letters) m.tag m.payload =
          some payload) := by
  obtain ⟨data, tag, hencrypt, rfl⟩ := h
  obtain ⟨hdata, htag⟩ := haead.length hencrypt
  have hlength : (4 + UInt16.ofNat encryptionTagLength + UInt16.ofNat data.length).toNat =
      (20 + payload.length) % 2 ^ 16 := by
    rw [UInt16.toNat_add, UInt16.toNat_ofNat', ← hdata]
    change (20 + _) % _ = _
    omega
  rw [ControlMessage.fromBytes_asBytes htag, hlength, hdata]
  constructor
  · intro hsize
    rw [if_neg]
    rintro ⟨hmod, hmin⟩
    exact hsize ⟨hmin, by omega⟩
  · rintro ⟨hmin, hmax⟩
    rw [if_pos ⟨Nat.mod_eq_of_lt (by omega), hmin⟩]
    exact ⟨_, rfl, rfl, haead.decrypt hencrypt⟩

/-- **What survives the encryption.** A sealed message is parsed and decrypted at the other end,
exactly if it has four bytes or more and its length fits the header with the twenty bytes in
front. -/
theorem opens_iff (haead : AeadLaw aead decrypt) {letters key payload datagram : Bytes}
    {sequenceNumber : UInt32} (h : Sealed aead letters key sequenceNumber payload datagram) :
    (∃ m, ControlMessage.fromBytes datagram = .ok (.encrypted m) ∧
      decrypt (aead.newKey key) (controlIv m.sequenceNumber letters) m.tag m.payload =
        some payload) ↔
      4 ≤ payload.length ∧ payload.length + 20 < 2 ^ 16 := by
  obtain ⟨hbad, hgood⟩ := h.fromBytes haead
  constructor
  · rintro ⟨m, hparse, -⟩
    by_contra hsize
    rw [hbad hsize] at hparse
    cases hparse
  · intro hsize
    obtain ⟨m, hparse, -, hdecrypt⟩ := hgood hsize
    exact ⟨m, hparse, hdecrypt⟩

end

/-- A ping of the client. -/
theorem opens_iff_ping :
    ∃ datagram, Sealed aes128Gcm clientLetters (List.replicate 16 7) 1 [0x00, 0x02, 0, 0] datagram ∧
      ((∃ m, ControlMessage.fromBytes datagram = .ok (.encrypted m) ∧
        Aes128Gcm.decrypt (List.replicate 16 7) (controlIv m.sequenceNumber clientLetters) m.tag
          m.payload = some [0x00, 0x02, 0, 0]) ↔ 4 ≤ 4 ∧ 4 + 20 < 2 ^ 16) := by
  have hsealed : ∃ datagram,
      Sealed aes128Gcm clientLetters (List.replicate 16 7) 1 [0x00, 0x02, 0, 0] datagram :=
    ⟨_, _, _, rfl, rfl⟩
  obtain ⟨datagram, hsealed⟩ := hsealed
  exact ⟨datagram, hsealed, opens_iff aeadLaw_aes128Gcm hsealed⟩

/-! ## The messages of the host -/

/-- `HdrMetadata`. -/
structure HdrMetadata where
  displayPrimaries : Vector (UInt16 × UInt16) 3
  whitePoint : UInt16 × UInt16
  maxLuminance : UInt32
  minLuminance : UInt32
  maxCll : UInt16
  maxFall : UInt16
  deriving DecidableEq, Repr

/-- `HdrMetadata::fallback`. -/
def HdrMetadata.fallback : HdrMetadata where
  displayPrimaries := #v[(34000, 16000), (13250, 34500), (7500, 3000)]
  whitePoint := (15635, 16450)
  maxLuminance := 10000000
  minLuminance := 10
  maxCll := 0
  maxFall := 0

/-- `HdrModeState`. -/
structure HdrModeState where
  enabled : Bool
  metadata : Option HdrMetadata
  deriving DecidableEq, Repr

/-- The thirty bytes of the metadata. -/
def HdrMetadata.bytes (m : HdrMetadata) : Bytes :=
  m.displayPrimaries.toList.flatMap (fun (x, y) => le 2 x.toNat ++ le 2 y.toNat) ++
    le 2 m.whitePoint.1.toNat ++ le 2 m.whitePoint.2.toNat ++
    le 2 (min (m.maxLuminance.toNat / 10000) 65535) ++ le 2 (min m.minLuminance.toNat 65535) ++
    le 2 m.maxCll.toNat ++ le 2 m.maxFall.toNat ++ le 2 0 ++ List.replicate 4 0

/-- `build_hdr_mode_payload`. -/
def buildHdrModePayload (enabled : Bool) (metadata : Option HdrMetadata) : Bytes :=
  packet .hdrMode (1 + 30) ((if enabled then 1 else 0) ::
    match metadata with
    | some m => m.bytes
    | none => List.replicate 30 0)

/-- `build_termination_payload`. -/
def buildTerminationPayload (errorCode : UInt32) : Bytes :=
  packet .terminationExtended 4 (be 4 errorCode.toNat)

/-- `FeedbackCommand`. -/
inductive FeedbackCommand where
  | rumble (id lowFrequency highFrequency : UInt16)
  | setLed (id : UInt16) (rgb : UInt8 × UInt8 × UInt8)
  | enableMotionEvent (id reportRate : UInt16) (motionType : UInt8)
  | triggerEffect (id : UInt16) (triggerEventFlags typeLeft typeRight : UInt8)
      (left right : Vector UInt8 10)
  deriving DecidableEq, Repr

/-- `as_packet`. -/
def FeedbackCommand.asPacket : FeedbackCommand → Bytes
  | rumble id lowFrequency highFrequency =>
    packet .rumbleData (4 + 2 + 2 + 2) ([0, 0, 0, 0] ++ le 2 id.toNat ++
      le 2 lowFrequency.toNat ++ le 2 highFrequency.toNat)
  | setLed id (r, g, b) => packet .setRgbLed (2 + 3 * 1) (le 2 id.toNat ++ [r, g, b])
  | enableMotionEvent id reportRate motionType =>
    packet .setMotionEvent (2 + 2 + 1) (le 2 id.toNat ++ le 2 reportRate.toNat ++ [motionType])
  | triggerEffect id flags typeLeft typeRight left right =>
    packet .setTriggerEffect (2 + 1 + 1 + 1 + 10 * 1 + 10 * 1) (le 2 id.toNat ++
      [flags, typeLeft, typeRight] ++ left.toList ++ right.toList)

/-- A payload that the parser reads as a message of this type, and that an encrypted message
holds. -/
structure WellFormed (payload : Bytes) (t : ControlMessageType) : Prop where
  header : ControlMessage.Header t payload
  short : payload.length + 20 < 2 ^ 16

/-- A packet whose length field is that of its body. -/
theorem wellFormed_packet {t : ControlMessageType} {n : ℕ} {body : Bytes} (hn : n < 2 ^ 15)
    (hbody : n = body.length) : WellFormed (packet t n body) t where
  header := ControlMessage.header_packet (by omega) hbody
  short := by
    simp only [packet, List.length_append, length_le]
    omega

/-- The metadata have 30 bytes. -/
theorem HdrMetadata.length_bytes (m : HdrMetadata) : m.bytes.length = 30 := by
  obtain ⟨⟨⟨primaries⟩, hsize⟩, -⟩ := m
  obtain ⟨p, q, r, rfl⟩ := List.length_eq_three.mp hsize
  rfl

/-- The HDR message is well formed, with and without metadata. -/
theorem wellFormed_hdrMode (enabled : Bool) (metadata : Option HdrMetadata) :
    WellFormed (buildHdrModePayload enabled metadata) .hdrMode := by
  apply wellFormed_packet (by decide)
  cases metadata with
  | none => rfl
  | some m => rw [List.length_cons, m.length_bytes]

/-- So is the farewell. -/
theorem wellFormed_termination (errorCode : UInt32) :
    WellFormed (buildTerminationPayload errorCode) .terminationExtended :=
  wellFormed_packet (by decide) (length_be 4 _).symm

/-- The type of a command's message. -/
def FeedbackCommand.type : FeedbackCommand → ControlMessageType
  | rumble .. => .rumbleData
  | setLed .. => .setRgbLed
  | enableMotionEvent .. => .setMotionEvent
  | triggerEffect .. => .setTriggerEffect

/-- So is every command. -/
theorem wellFormed_asPacket (command : FeedbackCommand) :
    WellFormed command.asPacket command.type := by
  cases command with
  | triggerEffect id flags typeLeft typeRight left right =>
    apply wellFormed_packet (by decide)
    simp only [List.length_append, length_le, Vector.length_toList]
    rfl
  | _ => exact wellFormed_packet (by decide) rfl

end RgspCast.ControlStream
