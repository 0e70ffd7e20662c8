import WaCore.Lib.Wire
import WaCore.Signal.SenderKeys
import WaCore.Signal.SessionRecord

/-!
# The bytes of a record

How session records and sender-key records are written and read
(`state/session.rs`, `sender_keys.rs`, `local_field.rs`).  A record is a protobuf
message whose fields are put together by hand, with two local fields behind them:
the ceiling of the reservation and the incarnation of the store.  It is read three
times: by the generated decoder, by a scan for the encodings of the archived
sessions, and by a scan for the local fields.

The generated code is outside the repository: `SessionCodec` and `SenderKeyRecordCodec`
have one function for each part of it that is called.  `StoredRecord` is a session
record as it is kept in memory, with its archived sessions encoded.
-/

namespace WaCore.Signal

open Wire

/-! ## Local fields -/

def STORE_INCARNATION_FIELD : Nat := 101

def COUNTER_RESERVATION_FIELD : Nat := 100

structure LocalRecordFields where
  reservation : UInt32
  incarnation : Option (FixedBytes 16)
  deriving DecidableEq, Repr

/-- The variables of the scan. -/
structure LocalFieldScan where
  reservation : Option UInt32
  incarnation : Option (FixedBytes 16)
  incarnationValid : Bool
  deriving DecidableEq, Repr

section LocalFields

variable {ε : Type} (skipGroup : Nat → Bytes → Option Bytes) (reservationField : Nat) (onErr : ε)

/-- One field; an incarnation that is malformed or not the only one is not trusted. -/
def decodeLocalRecordField (scan : LocalFieldScan) (tag : Tag) (bytes : Bytes) :
    Except ε (LocalFieldScan × Bytes) :=
  if tag.number = reservationField then
    if tag.wireType ≠ .varint ∨ scan.reservation.isSome then .error onErr
    else do
      let (raw, bytes) ← okOr (decodeVarint bytes) onErr
      if raw < 2 ^ 32 then pure ({ scan with reservation := some (.ofNat raw) }, bytes)
      else .error onErr
  else if tag.number = STORE_INCARNATION_FIELD then
    if tag.wireType = .lengthDelimited then do
      let (payload, bytes) ← okOr (takePayload bytes) onErr
      let incarnation := (FixedBytes.ofBytes 16 payload).filter
        fun _ => scan.incarnation.isNone && scan.incarnationValid
      pure ({ scan with incarnation, incarnationValid := incarnation.isSome }, bytes)
    else do
      let bytes ← okOr (skipField skipGroup tag bytes) onErr
      pure ({ scan with incarnation := none, incarnationValid := false }, bytes)
  else do
    let bytes ← okOr (skipField skipGroup tag bytes) onErr
    pure (scan, bytes)

def decodeLocalRecordFields (bytes : Bytes) : Except ε LocalRecordFields := do
  let scan ← scanFields onErr (decodeLocalRecordField skipGroup reservationField onErr)
    ⟨none, none, true⟩ bytes
  pure ⟨scan.reservation.getD 0, if scan.incarnationValid then scan.incarnation else none⟩

end LocalFields

/-- The local fields of a record; the incarnation is written only beside a
reservation. -/
def localFields (reserved : UInt32) (incarnation : Option (FixedBytes 16)) : List Field :=
  (if 0 < reserved then [.varint COUNTER_RESERVATION_FIELD reserved.toNat] else [])
    ++ ((incarnation.filter fun _ => 0 < reserved).map fun i =>
      Field.lengthDelimited STORE_INCARNATION_FIELD i.val).toList

/-! ## Sessions -/

/-- A chain in the protobuf message. -/
structure SessionStructure.ChainMessage where
  senderRatchetKey : Option Bytes
  senderRatchetKeyPrivate : Option Bytes
  chainKey : Option SessionStructure.ChainKey
  messageKeys : List SessionStructure.MessageKey
  deriving DecidableEq, Repr

structure SessionStructure where
  sessionVersion : Option UInt32
  localIdentityPublic : Option Bytes
  remoteIdentityPublic : Option Bytes
  rootKey : Option Bytes
  previousCounter : Option UInt32
  senderChain : Option SessionStructure.ChainMessage
  receiverChains : List SessionStructure.ChainMessage
  pendingPreKey : Option SessionStructure.PendingPreKey
  remoteRegistrationId : Option UInt32
  localRegistrationId : Option UInt32
  aliceBaseKey : Option Bytes
  deriving DecidableEq, Repr

namespace SkippedKey

/-- A key that is only a seed is kept as one. -/
def fromPb (pb : SessionStructure.MessageKey) : SkippedKey :=
  match pb.index, pb.seed.bind (FixedBytes.ofBytes 32) with
  | some index, some material =>
    if pb.cipherKey.isNone && pb.macKey.isNone && pb.iv.isNone then seed index material
    else legacy pb
  | _, _ => legacy pb

def toPb : SkippedKey → SessionStructure.MessageKey
  | seed index material => ⟨some index, none, none, none, some material.val⟩
  | legacy pb => pb

/-- The key is as `fromPb` makes it. -/
def Canonical (key : SkippedKey) : Prop := fromPb key.toPb = key

end SkippedKey

namespace SessionStructure

def Chain.fromMessage (chain : ChainMessage) : Chain :=
  ⟨chain.senderRatchetKey, chain.senderRatchetKeyPrivate, chain.chainKey,
    chain.messageKeys.map SkippedKey.fromPb⟩

def Chain.toMessage (chain : Chain) : ChainMessage :=
  ⟨chain.senderRatchetKey, chain.senderRatchetKeyPrivate, chain.chainKey,
    chain.skipped.map SkippedKey.toPb⟩

end SessionStructure

namespace SessionState

def fromSessionStructure (session : SessionStructure) : SessionState where
  sessionVersion := session.sessionVersion
  localIdentityPublic := session.localIdentityPublic
  remoteIdentityPublic := session.remoteIdentityPublic
  rootKeyBytes := session.rootKey
  previousCounterField := session.previousCounter
  senderChain := session.senderChain.map .fromMessage
  receiverChains := session.receiverChains.map .fromMessage
  pendingPreKey := session.pendingPreKey
  remoteRegistrationId := session.remoteRegistrationId
  localRegistrationId := session.localRegistrationId
  aliceBaseKeyBytes := session.aliceBaseKey

/-- The message with the skipped keys put back. -/
def toProtobuf (state : SessionState) : SessionStructure where
  sessionVersion := state.sessionVersion
  localIdentityPublic := state.localIdentityPublic
  remoteIdentityPublic := state.remoteIdentityPublic
  rootKey := state.rootKeyBytes
  previousCounter := state.previousCounterField
  senderChain := state.senderChain.map (·.toMessage)
  receiverChains := state.receiverChains.map (·.toMessage)
  pendingPreKey := state.pendingPreKey
  remoteRegistrationId := state.remoteRegistrationId
  localRegistrationId := state.localRegistrationId
  aliceBaseKey := state.aliceBaseKeyBytes

end SessionState

/-! ## Session records -/

/-- The generated code for `SessionStructure` and `RecordStructure`. -/
structure SessionCodec where
  View : Type
  encodeMessage : SessionStructure → Bytes
  /-- `SessionStructureView::decode_view`. -/
  decodeView : Bytes → Option View
  toOwnedMessage : View → Option SessionStructure
  /-- `RecordStructureView::decode_view`: the current session and the previous ones. -/
  decodeRecordView : Bytes → Option (Option View × List View)
  skipGroup : Nat → Bytes → Option Bytes

/-- A session record in memory. -/
structure StoredRecord where
  currentSession : Option SessionState
  /-- The encodings of the archived sessions. -/
  previousSessions : List Bytes
  lease : CounterLease
  deriving DecidableEq, Repr

def CURRENT_SESSION_FIELD : Nat := 1

def PREVIOUS_SESSIONS_FIELD : Nat := 2

section SessionRecords

variable (codec : SessionCodec)

/-- `ArchivedSession::decode`. -/
def decodeArchived (bytes : Bytes) : Except String SessionStructure := do
  let view ← okOr (codec.decodeView bytes) "failed to decode archived session protobuf"
  okOr (codec.toOwnedMessage view) "failed to decode archived session protobuf"

def archivedSessionSlice (limit : Nat) (out : List Bytes) (tag : Tag) (bytes : Bytes) :
    Except String (List Bytes × Bytes) :=
  let err := "failed to decode session record protobuf"
  if tag.number = PREVIOUS_SESSIONS_FIELD ∧ tag.wireType = .lengthDelimited then do
    let (payload, bytes) ← okOr (takePayload bytes) err
    pure (if out.length < limit then out ++ [payload] else out, bytes)
  else do
    let bytes ← okOr (skipField codec.skipGroup tag bytes) err
    pure (out, bytes)

/-- The encoding of each archived session, at most `limit` of them. -/
def archivedSessionSlices (bytes : Bytes) (limit : Nat) : Except String (List Bytes) :=
  scanFields "failed to decode session record protobuf" (archivedSessionSlice codec limit) [] bytes

namespace StoredRecord

/-- The fields of the written record. -/
def fields (record : StoredRecord) (incarnation : Option (FixedBytes 16)) : List Field :=
  (record.currentSession.map fun state =>
      Field.lengthDelimited CURRENT_SESSION_FIELD (codec.encodeMessage state.toProtobuf)).toList
    ++ record.previousSessions.map (Field.lengthDelimited PREVIOUS_SESSIONS_FIELD)
    ++ localFields record.lease.ceiling incarnation

def serializeIntoInner (record : StoredRecord) (incarnation : Option (FixedBytes 16)) : Bytes :=
  (record.fields codec incarnation).flatMap Field.encode

/-- A row of the store's own incarnation has spent nothing of its reservation since. -/
def fastForwardUntrusted (C : Crypto) (record : StoredRecord) (trustedReload : Bool) :
    Except SignalProtocolError StoredRecord :=
  if !trustedReload && 0 < record.lease.ceiling then
    match record.currentSession with
    | none => pure record
    | some state => do
      let state ← state.fastForwardSenderChain C record.lease.ceiling
      pure { record with currentSession := some state }
  else pure record

def deserializeInner (C : Crypto) (bytes : Bytes) (incarnation : Option (FixedBytes 16)) :
    Except SignalProtocolError StoredRecord := do
  let view ← invalidSession
    (okOr (codec.decodeRecordView bytes) "failed to decode session record protobuf")
  let limit := ARCHIVED_STATES_MAX_LENGTH
  -- a malformed session is refused here, and not when it is promoted
  let _ ← invalidSession ((view.2.take limit).mapM fun v =>
    okOr (codec.toOwnedMessage v) "failed to decode archived session protobuf")
  let previousSessions ← invalidSession (archivedSessionSlices codec bytes limit)
  let localFields ← invalidSession (decodeLocalRecordFields codec.skipGroup COUNTER_RESERVATION_FIELD
    "invalid local session metadata" bytes)
  let currentSession ← invalidSession (view.1.mapM fun v =>
    okOr (codec.toOwnedMessage v) "failed to decode current session protobuf")
  let record : StoredRecord :=
    { currentSession := currentSession.map SessionState.fromSessionStructure
      previousSessions
      lease := .fromPersistedCeiling localFields.reservation }
  let trustedReload := incarnation.isSome && localFields.incarnation == incarnation
  record.fastForwardUntrusted C trustedReload

end StoredRecord

end SessionRecords

/-! ## Sender-key records -/

/-- The generated code for `SenderKeyRecordStructure`. -/
structure SenderKeyRecordCodec where
  senderKeyRecordToVec : List SenderKeyStateStructure → Bytes
  senderKeyRecordDecode : Bytes → Option (List SenderKeyStateStructure)
  skipGroup : Nat → Bytes → Option Bytes

namespace SenderKeyRow

variable (codec : SenderKeyRecordCodec)

/-- The bytes of a row. -/
def encode (row : SenderKeyRow) : Bytes :=
  codec.senderKeyRecordToVec row.senderKeyStates
    ++ (localFields (row.reservation.getD 0) row.incarnation).flatMap Field.encode

/-- The states, and the local fields. -/
def decode (bytes : Bytes) : Except SignalProtocolError SenderKeyRow := do
  let states ← okOr (codec.senderKeyRecordDecode bytes) .invalidProtobufEncoding
  let localFields ← decodeLocalRecordFields codec.skipGroup COUNTER_RESERVATION_FIELD
    .invalidProtobufEncoding bytes
  pure ⟨states, some localFields.reservation, localFields.incarnation⟩

end SenderKeyRow

namespace SenderKeyRecord

variable (codec : SenderKeyRecordCodec)

/-- The bytes that `serialize_inner` returns. -/
def serializeBytes (record : SenderKeyRecord) (incarnation : Option (FixedBytes 16)) : Bytes :=
  (record.serializeInner incarnation).encode codec

/-- `deserialize_inner`, from the bytes on. -/
def deserializeBytes (C : Crypto) (bytes : Bytes) (incarnation : Option (FixedBytes 16)) :
    Except SignalProtocolError SenderKeyRecord := do
  let row ← SenderKeyRow.decode codec bytes
  deserializeInner C row incarnation

end SenderKeyRecord

end WaCore.Signal
