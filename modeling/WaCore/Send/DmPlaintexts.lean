import WaCore.Lib.Wire
import WaCore.Send.Dm

/-!
# The bytes of the two plaintexts

`messages.rs` frames the plaintexts of a direct message by hand: it computes the
length of every nested message before it writes one, takes the bytes of the content
over as they are, and puts the context behind the other fields.  Here is what they
write, and the receiver's side, which takes the padding off and decodes.

What the generated codec does is assumed in `WireCodec.Lawful`.  Its limit for the
nesting of messages is left out.
-/

namespace WaCore.Send

open Binary (Jid)
open Wire (Field)

/-! ## Lengths -/

theorem length_pushVarintBytes (rounds v : Nat) :
    (pushVarintBytes rounds v).length = varintRounds rounds v := by
  induction rounds generalizing v with
  | zero => rfl
  | succ rounds ih =>
    rw [pushVarintBytes, varintRounds]
    split
    · rw [List.length_cons, ih]
    · rfl

theorem length_lenDelimited (field : Nat) (bytes : Bytes) :
    (lenDelimited field bytes).length = lenDelimitedLen field bytes.length := by
  rw [lenDelimited, List.length_append, List.length_append, lenDelimitedLen, varintLen, varintLen,
    varint, varint, length_pushVarintBytes, length_pushVarintBytes]

theorem pushVarintBytes_eq (rounds v : Nat) :
    pushVarintBytes rounds v = Wire.encodeGroups rounds v := by
  induction rounds generalizing v with
  | zero => rfl
  | succ rounds ih =>
    rw [pushVarintBytes, Wire.encodeGroups]
    by_cases hlarge : 0x80 ≤ v
    · have hor : ∀ n < 256, n ||| 128 = n % 128 + 128 := by decide +kernel
      have hbyte : UInt8.ofNat v ||| 0x80 = .ofNat (v % 128 + 128) := by
        refine UInt8.toNat_inj.mp ?_
        rw [UInt8.toNat_or, UInt8.toNat_ofNat', UInt8.toNat_ofNat']
        refine (hor _ (Nat.mod_lt _ (by decide))).trans ?_
        omega
      rw [if_pos hlarge, if_neg (by omega), hbyte, ih, Nat.shiftRight_eq_div_pow]
    · rw [if_neg hlarge, if_pos (by omega)]

/-- What is written by hand is a field of the wire format. -/
theorem lenDelimited_eq_encode (field : Nat) (bytes : Bytes) :
    lenDelimited field bytes = (Field.lengthDelimited field bytes).encode := by
  have htag : wireTagValue field = field * 8 + 2 := by
    rw [wireTagValue, Nat.shiftLeft_eq, Nat.mul_comm]
    exact (Nat.two_pow_add_eq_or_of_lt (by decide) field).symm
  rw [lenDelimited, varint, varint, pushVarintBytes_eq, pushVarintBytes_eq, htag, List.append_assoc]
  rfl

/-! ## Padding -/

/-- `random_pad_len`, from a random byte. -/
def randomPadLen (r : UInt8) : UInt8 := (r &&& 0x0F) + 1

def Pads.random (r r' : UInt8) : Pads := ⟨randomPadLen r, randomPadLen r'⟩

def unpaddedMessageLen (plaintext : Bytes) (version : UInt8) : Except String Nat :=
  if version = 3 then .ok plaintext.length
  else match plaintext.getLast? with
    | none => .error "plaintext is empty, cannot unpad"
    | some last =>
      let padLen := last.toNat
      if padLen = 0 ∨ plaintext.length < padLen then .error s!"invalid padding length: {padLen}"
      else if (plaintext.drop (plaintext.length - padLen)).any (· ≠ UInt8.ofNat padLen) then
        .error "invalid padding bytes"
      else .ok (plaintext.length - padLen)

def unpadMessageRef (plaintext : Bytes) (version : UInt8) : Except String Bytes :=
  (unpaddedMessageLen plaintext version).map plaintext.take

theorem randomPadLen_ne_zero (r : UInt8) : randomPadLen r ≠ 0 := by
  intro h
  have hlow : (r &&& 0x0F).toNat < 16 := by
    exact Nat.lt_of_le_of_lt Nat.and_le_right (by decide)
  have hzero := congrArg UInt8.toNat h
  change ((r &&& 0x0F).toNat + 1) % 256 = 0 at hzero
  omega

/-- The padding is found again, whatever bytes stand before it. -/
theorem unpadMessageRef_padMessageV2 {pad version : UInt8} (hpad : pad ≠ 0) (hversion : version ≠ 3)
    (plaintext : Bytes) :
    unpadMessageRef (padMessageV2 plaintext pad) version = .ok plaintext := by
  have hpos : pad.toNat ≠ 0 := fun h => hpad (UInt8.toNat_inj.mp h)
  have hlast : (padMessageV2 plaintext pad).getLast? = some pad := by
    rw [padMessageV2, List.getLast?_append, List.getLast?_replicate, if_neg hpos, Option.some_or]
  have hlength : (padMessageV2 plaintext pad).length = plaintext.length + pad.toNat := by
    rw [padMessageV2, List.length_append, List.length_replicate]
  have hlen : unpaddedMessageLen (padMessageV2 plaintext pad) version = .ok plaintext.length := by
    rw [unpaddedMessageLen, if_neg hversion, hlast]
    simp only [hlength]
    rw [if_neg (by omega), Nat.add_sub_cancel, padMessageV2]
    simp
  rw [unpadMessageRef, hlen]
  simp [Except.map, padMessageV2]

/-! ## The codec -/

/-- `waproto::codec` with the decoder. -/
structure WireCodec extends MessageCodec where
  messageDecode : Bytes → Except String (MessageParts Content ContextInfo)
  /-- Only a `device_sent_message`, with its destination and message. -/
  deviceSentMessage : String → MessageParts Content ContextInfo → Content
  /-- The fields of a context with a single value. -/
  ScalarField : Type
  scalarField : ContextInfo → ScalarField → Option Bytes

namespace MessageCodec

variable (codec : MessageCodec)

/-- `m` with `extra` merged into its context. -/
def mergeContext (m : codec.Message) (extra : Option codec.ContextInfo) : codec.Message :=
  ⟨m.content, extra.elim m.messageContextInfo fun extra =>
    some (m.messageContextInfo.elim extra (codec.mergeContextInfo · extra))⟩

/-- The field of a context, if there is one. -/
def contextBytes (context : Option codec.ContextInfo) : Bytes :=
  context.elim [] fun c =>
    (Field.lengthDelimited TAG_MESSAGE_CONTEXT_INFO (codec.contextInfoToVec c)).encode

/-- The field of a device-sent message. -/
def deviceSentBytes (destinationJid : String) (content : Bytes) : Bytes :=
  (Field.lengthDelimited TAG_DEVICE_SENT_MESSAGE
    ((Field.lengthDelimited TAG_DSM_DESTINATION_JID (Utf8.ofString destinationJid)).encode
      ++ (Field.lengthDelimited TAG_DSM_MESSAGE content).encode)).encode

/-- The generated codec computes the sizes of what it writes. -/
structure Sized : Prop where
  messageComputeSize_eq (m : codec.Message) :
    codec.messageComputeSize m = (codec.messageToVec m).length
  contextInfoComputeSize_eq (c : codec.ContextInfo) :
    codec.contextInfoComputeSize c = (codec.contextInfoToVec c).length

namespace Sized

variable {codec} (sized : codec.Sized) (m : codec.Message) (extra : Option codec.ContextInfo)
  (destinationJid : Jid) (pads : Pads)
include sized

theorem messageField_eq (context : Option codec.ContextInfo) :
    codec.messageField context = codec.contextBytes context := by
  cases context with
  | none => rfl
  | some c =>
    rw [messageField, contextBytes, Option.elim_some, Option.elim_some, ← lenDelimited_eq_encode,
      sized.contextInfoComputeSize_eq]
    rfl

/-- All lengths are those of what stands behind them. -/
theorem splice_eq (content : Bytes) (context : Option codec.ContextInfo) :
    codec.splice content.length content context destinationJid pads
      = ⟨padMessageV2 (content ++ codec.contextBytes context) pads.recipient,
        padMessageV2 (deviceSentBytes (Binary.jidRefToCompact destinationJid) content
          ++ codec.contextBytes context) pads.ownDevices⟩ := by
  have hdest : encodedLen destinationJid
      = (Utf8.ofString (Binary.jidRefToCompact destinationJid)).length := by
    rfl
  rw [splice, sized.messageField_eq, deviceSentBytes, hdest, List.take_length]
  simp only [← lenDelimited_eq_encode, ← length_lenDelimited, ← List.length_append]
  simp only [lenDelimited, wireTagValue, List.append_assoc]

theorem encodeDmPlaintexts_eq :
    codec.encodeDmPlaintexts m extra destinationJid pads
      = codec.dmPlaintextsFromEncoded (codec.messageToVec { m with messageContextInfo := none })
          (codec.mergeContext m extra).messageContextInfo destinationJid pads := by
  obtain ⟨content, _ | context⟩ := m <;> cases extra <;>
    simp [encodeDmPlaintexts, encodeDmPlaintextsOwned, dmPlaintextsFromEncoded, mergeContext,
      sized.messageComputeSize_eq]

end Sized

end MessageCodec

namespace WireCodec

open MessageCodec

variable (codec : WireCodec)

def wrapDeviceSent (m : codec.Message) (destinationJid : String) : codec.Message :=
  ⟨codec.deviceSentMessage destinationJid { m with messageContextInfo := none },
    m.messageContextInfo⟩

def decodePlaintext (paddedPlaintext : Bytes) (paddingVersion : UInt8) :
    Except String codec.Message := do
  let plaintext ← unpadMessageRef paddedPlaintext paddingVersion
  (codec.messageDecode plaintext).mapError ("Failed to decode decrypted plaintext: " ++ ·)

/-- The generated codec decodes a message that it has encoded, with a context behind it. -/
structure Lawful : Prop extends codec.Sized where
  messageToVec_deviceSentMessage (destinationJid : String) (m : codec.Message) :
    codec.messageToVec ⟨codec.deviceSentMessage destinationJid m, none⟩
      = deviceSentBytes destinationJid (codec.messageToVec m)
  messageDecode_append (content : codec.Content) (extra : Option codec.ContextInfo)
    (h : (codec.messageToVec ⟨content, none⟩ ++ codec.contextBytes extra).length < 2 ^ 64) :
    codec.messageDecode (codec.messageToVec ⟨content, none⟩ ++ codec.contextBytes extra)
      = .ok ⟨content, extra⟩
  /-- A field that is set in the second context wins. -/
  scalarField_mergeContextInfo (c c' : codec.ContextInfo) (f : codec.ScalarField) :
    codec.scalarField (codec.mergeContextInfo c c') f
      = (codec.scalarField c' f).or (codec.scalarField c f)

/-- A context behind a message that has none becomes its context. -/
theorem Lawful.decodePlaintext_padMessageV2 {codec : WireCodec} (laws : codec.Lawful)
    (extra : Option codec.ContextInfo) (content : codec.Content) (r : UInt8)
    (h : (codec.messageToVec ⟨content, none⟩ ++ codec.contextBytes extra).length < 2 ^ 64) :
    codec.decodePlaintext (padMessageV2
        (codec.messageToVec ⟨content, none⟩ ++ codec.contextBytes extra) (randomPadLen r)) 2
      = .ok ⟨content, extra⟩ := by
  rw [decodePlaintext, unpadMessageRef_padMessageV2 (randomPadLen_ne_zero r) (by decide), ok_bind,
    laws.messageDecode_append _ _ h]
  rfl

/-- The plaintexts that are spliced together decode to the messages that they stand
for, every length in them is exact, and the functions that start from an encoded
message write the same below the padding. -/
theorem splicing_builds_messages {codec : WireCodec} (laws : codec.Lawful) (m : codec.Message)
    (extra : Option codec.ContextInfo) (destinationJid : Jid) (r r' : UInt8)
    (hrecipient :
      (codec.encodeDmPlaintexts m extra destinationJid (.random r r')).recipient.length < 2 ^ 64)
    (hownDevices :
      (codec.encodeDmPlaintexts m extra destinationJid (.random r r')).ownDevices.length < 2 ^ 64) :
    let plaintexts := codec.encodeDmPlaintexts m extra destinationJid (.random r r')
    let merged := codec.mergeContext m extra
    let destination := Binary.jidRefToCompact destinationJid
    let content := codec.messageToVec { m with messageContextInfo := none }
    let context := codec.contextBytes merged.messageContextInfo
    codec.decodePlaintext plaintexts.recipient 2 = .ok merged
      ∧ codec.decodePlaintext plaintexts.ownDevices 2 = .ok (codec.wrapDeviceSent merged destination)
      ∧ (∀ own new f, m.messageContextInfo = some own → extra = some new →
          merged.messageContextInfo.bind (codec.scalarField · f)
            = (codec.scalarField new f).or (codec.scalarField own f))
      ∧ (∀ bytes s, unpadMessageRef (padMessageV2 bytes (randomPadLen s)) 2 = .ok bytes)
      ∧ plaintexts = ⟨padMessageV2 (content ++ context) (randomPadLen r),
          padMessageV2 (deviceSentBytes destination content ++ context) (randomPadLen r')⟩
      ∧ (m.messageContextInfo = none → ∀ s s',
          codec.dmPlaintextsFromEncoded (codec.messageToVec m) extra destinationJid (.random s s')
              = ⟨padMessageV2 (content ++ context) (randomPadLen s),
                padMessageV2 (deviceSentBytes destination content ++ context) (randomPadLen s')⟩
            ∧ codec.padWithContextFromEncoded (codec.messageToVec m) extra (randomPadLen s)
              = padMessageV2 (content ++ context) (randomPadLen s)) := by
  rw [laws.encodeDmPlaintexts_eq, dmPlaintextsFromEncoded, laws.splice_eq] at hrecipient hownDevices ⊢
  dsimp only at hrecipient hownDevices
  rw [padMessageV2, List.length_append] at hrecipient hownDevices
  refine ⟨laws.decodePlaintext_padMessageV2 _ _ r (by omega), ?_, fun own new f hown hnew => ?_,
    fun bytes s => unpadMessageRef_padMessageV2 (randomPadLen_ne_zero s) (by decide) bytes, rfl,
    fun hnone s s' => ?_⟩
  · rw [← laws.messageToVec_deviceSentMessage] at hownDevices ⊢
    exact laws.decodePlaintext_padMessageV2 _ _ r' (by omega)
  · simp [mergeContext, hown, hnew, laws.scalarField_mergeContextInfo]
  · obtain ⟨content, context⟩ := m
    obtain rfl : context = none := hnone
    have hmerged : (codec.mergeContext ⟨content, none⟩ extra).messageContextInfo = extra := by
      cases extra <;> rfl
    rw [dmPlaintextsFromEncoded, laws.splice_eq, padWithContextFromEncoded, laws.messageField_eq,
      hmerged]
    exact ⟨rfl, rfl⟩

/-! ## A codec -/

def fieldsOf (m : MessageParts (List Bytes) Bytes) : List Field :=
  m.content.map (.lengthDelimited TAG_DEVICE_SENT_MESSAGE)
    ++ m.messageContextInfo.toList.map (.lengthDelimited TAG_MESSAGE_CONTEXT_INFO)

def encodeFields (m : MessageParts (List Bytes) Bytes) : Bytes := (fieldsOf m).flatMap Field.encode

def decodeFields (bytes : Bytes) : Option (MessageParts (List Bytes) Bytes) := do
  let sent ← Wire.messages (fun _ _ => none) TAG_DEVICE_SENT_MESSAGE pure bytes
  let contexts ← Wire.messages (fun _ _ => none) TAG_MESSAGE_CONTEXT_INFO pure bytes
  pure ⟨sent, contexts.head?⟩

/-- A codec for messages of device-sent fields, which it keeps as bytes.  A context is
a list of values, of which the last one counts. -/
def ofFields : WireCodec where
  Content := List Bytes
  ContextInfo := Bytes
  messageComputeSize m := (encodeFields m).length
  messageToVec := encodeFields
  messageDecode bytes := okOr (decodeFields bytes) "unexpected end of data"
  contextInfoComputeSize := List.length
  contextInfoToVec c := c
  mergeContextInfo := List.append
  deviceSentMessage destination m :=
    [(Field.lengthDelimited TAG_DSM_DESTINATION_JID (Utf8.ofString destination)).encode
      ++ (Field.lengthDelimited TAG_DSM_MESSAGE (encodeFields m)).encode]
  ScalarField := Unit
  scalarField c _ := c.getLast?.map ([·])

theorem decodeFields_encodeFields {m : MessageParts (List Bytes) Bytes}
    (h : (encodeFields m).length < 2 ^ 64) : decodeFields (encodeFields m) = some m := by
  have hfits : ∀ f ∈ fieldsOf m, f.Fits := by
    intro f hf
    have hle := (List.sublist_flatten_of_mem (List.mem_map_of_mem (f := Field.encode) hf)).length_le
    rw [← List.flatMap_def, ← encodeFields] at hle
    rw [fieldsOf, List.mem_append, List.mem_map, List.mem_map] at hf
    obtain ⟨payload, -, rfl⟩ | ⟨payload, -, rfl⟩ := hf <;>
      · simp only [Field.encode, Field.body, List.length_append] at hle
        exact ⟨by simp [Field.tag, Wire.Tag.Fits, TAG_DEVICE_SENT_MESSAGE, TAG_MESSAGE_CONTEXT_INFO],
          show payload.length < 2 ^ 64 by omega⟩
  rw [decodeFields, encodeFields, Wire.messages_encode hfits, Wire.messages_encode hfits, fieldsOf,
    Wire.payloads_append, Wire.payloads_append, Wire.payloads_map,
    Wire.payloads_of_ne (by simp [Field.tag, TAG_DEVICE_SENT_MESSAGE, TAG_MESSAGE_CONTEXT_INFO]),
    Wire.payloads_of_ne (by simp [Field.tag, TAG_DEVICE_SENT_MESSAGE, TAG_MESSAGE_CONTEXT_INFO]),
    List.append_nil]
  have hpure (l : List Bytes) : l.mapM pure = some l :=
    (List.mapM_pure).trans (congrArg some (List.map_id l))
  rw [hpure]
  obtain ⟨content, _ | context⟩ := m <;> rfl

theorem encodeFields_append (content : List Bytes) (extra : Option Bytes) :
    encodeFields ⟨content, none⟩ ++ ofFields.contextBytes extra = encodeFields ⟨content, extra⟩ := by
  cases extra <;> simp [ofFields, contextBytes, encodeFields, fieldsOf]

theorem lawful_ofFields : ofFields.Lawful where
  messageComputeSize_eq _ := rfl
  contextInfoComputeSize_eq _ := rfl
  messageToVec_deviceSentMessage _ _ := List.append_nil _
  messageDecode_append content extra h := by
    have hbytes := encodeFields_append content extra
    exact (congrArg ofFields.messageDecode hbytes).trans
      (congrArg (okOr · _) (decodeFields_encodeFields (hbytes ▸ h)))
  scalarField_mergeContextInfo _ _ _ :=
    (congrArg (Option.map ([·])) List.getLast?_append).trans Option.map_or

/-- A message with a context, to which another is added. -/
theorem splicing_builds_messages_twice :
    ofFields.decodePlaintext (ofFields.encodeDmPlaintexts ⟨[[7]], some [1]⟩ (some [2])
        ⟨"1", .lid, 0, 0, 0⟩ (.random 3 200)).recipient 2
      = .ok ⟨[[7]], some [1, 2]⟩ :=
  (splicing_builds_messages lawful_ofFields ⟨[[7]], some [1]⟩ (some [2]) ⟨"1", .lid, 0, 0, 0⟩ 3 200
    (by decide +kernel) (by decide +kernel)).1

end WireCodec

end WaCore.Send
