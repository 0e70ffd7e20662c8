import WaCore.Signal.RecordBytes

/-!
# Components of a session record

The owned form in which a session record is handed out and taken in
(`record_components.rs`, `SessionRecord::from_components` and `into_components`).
Going out, the sender chains are moved to the end of the reservation, since the
components do not carry it.  Both ways, keys are checked and public keys are put into
their serialized form.

A pending key exchange, a request for a refresh and the post-quantum part of a pending
prekey are never set by the protocol; they are left out here as they are in
`SessionStructure`.
-/

namespace WaCore.Signal

/-! ## The components -/

inductive SessionMessageKeyMaterial where
  | seed (seed : Key)
  | derived (cipherKey macKey : Key) (iv : FixedBytes 16)
  deriving DecidableEq, Repr

structure SessionMessageKeyComponents where
  index : UInt32
  material : SessionMessageKeyMaterial
  deriving DecidableEq, Repr

structure SessionChainKeyComponents where
  index : Option UInt32
  key : Option Bytes
  deriving DecidableEq, Repr

structure SessionChainComponents where
  senderRatchetKey : Option Bytes
  senderRatchetKeyPrivate : Option Bytes
  chainKey : Option SessionChainKeyComponents
  messageKeys : List SessionMessageKeyComponents
  deriving DecidableEq, Repr

structure PendingPreKeyComponents where
  preKeyId : Option UInt32
  signedPreKeyId : Option UInt32
  baseKey : Option Bytes
  deriving DecidableEq, Repr

structure SessionComponents where
  sessionVersion : Option UInt32
  localIdentityPublic : Option Bytes
  remoteIdentityPublic : Option Bytes
  rootKey : Option Bytes
  previousCounter : Option UInt32
  senderChain : Option SessionChainComponents
  receiverChains : List SessionChainComponents
  pendingPreKey : Option PendingPreKeyComponents
  remoteRegistrationId : Option UInt32
  localRegistrationId : Option UInt32
  aliceBaseKey : Option Bytes
  deriving DecidableEq, Repr

structure SessionRecordComponents where
  currentSession : Option SessionComponents
  previousSessions : List SessionComponents
  deriving DecidableEq, Repr

/-! ## Checks -/

def optionalPublicKey (value : Option Bytes) (field : String) :
    Except SignalProtocolError (Option Bytes) :=
  value.mapM (normalizePublicKey · field)

def requiredPublicKey (value : Option Bytes) (field : String) : Except SignalProtocolError Bytes := do
  let value ← okOr value (invalidField field "present")
  normalizePublicKey value field

def optionalExactBytes (value : Option Bytes) (length : Nat) (field : String) :
    Except SignalProtocolError (Option Bytes) :=
  value.mapM (exactBytes · length field)

def requiredExactBytes (value : Option Bytes) (length : Nat) (field : String) :
    Except SignalProtocolError Bytes := do
  let value ← okOr value (invalidField field "present")
  exactBytes value length field

def keyMaterial (n : Nat) (value : Bytes) (field : String) :
    Except SignalProtocolError (FixedBytes n) :=
  okOr (FixedBytes.ofBytes n value) (.invalidArgument s!"{field} must be {n} bytes")

def requiredKeyMaterial (n : Nat) (value : Option Bytes) (field : String) :
    Except SignalProtocolError (FixedBytes n) := do
  let value ← okOr value (invalidField field "present")
  keyMaterial n value field

/-! ## Message keys -/

namespace SessionMessageKeyComponents

def intoStructure (value : SessionMessageKeyComponents) : SessionStructure.MessageKey :=
  match value.material with
  | .seed seed => ⟨some value.index, none, none, none, some seed.val⟩
  | .derived cipherKey macKey iv =>
    ⟨some value.index, some cipherKey.val, some macKey.val, some iv.val, none⟩

/-- The derived keys that are stored beside a seed are those the seed gives. -/
def isConsistent (C : Crypto) (value : SessionStructure.MessageKey) (seed : Key) (index : UInt32) :
    Bool :=
  let derived := MessageKeys.deriveKeys C seed.val index
  (value.cipherKey.isNone && value.macKey.isNone && value.iv.isNone)
    || (value.cipherKey == some derived.cipherKey.val && value.macKey == some derived.macKey.val
      && value.iv == some derived.iv.val)

def fromStructure (C : Crypto) (value : SessionStructure.MessageKey) :
    Except SignalProtocolError SessionMessageKeyComponents := do
  let index ← okOr value.index (invalidField "session message-key index" "present")
  match value.seed with
  | some seed =>
    let seed ← keyMaterial 32 seed "session message-key seed"
    if isConsistent C value seed index then pure ⟨index, .seed seed⟩
    else throw (invalidField "session message-key seed"
      "consistent with the derived keys stored beside it")
  | none =>
    let cipherKey ← requiredKeyMaterial 32 value.cipherKey "session message cipher key"
    let macKey ← requiredKeyMaterial 32 value.macKey "session message MAC key"
    let iv ← requiredKeyMaterial 16 value.iv "session message IV"
    pure ⟨index, .derived cipherKey macKey iv⟩

end SessionMessageKeyComponents

/-! ## Chains -/

namespace SessionChainKeyComponents

def intoStructure (value : SessionChainKeyComponents) :
    Except SignalProtocolError SessionStructure.ChainKey := do
  let key ← optionalExactBytes value.key 32 "session chain key"
  pure ⟨value.index, key⟩

def fromStructure (value : SessionStructure.ChainKey) :
    Except SignalProtocolError SessionChainKeyComponents := do
  let key ← optionalExactBytes value.key 32 "session chain key"
  pure ⟨value.index, key⟩

def intoRequiredStructure (value : SessionChainKeyComponents) :
    Except SignalProtocolError SessionStructure.ChainKey := do
  let index ← okOr value.index (invalidField "sender chain-key index" "present")
  let key ← requiredExactBytes value.key 32 "sender chain key"
  pure ⟨some index, some key⟩

def fromRequiredStructure (value : SessionStructure.ChainKey) :
    Except SignalProtocolError SessionChainKeyComponents := do
  let index ← okOr value.index (invalidField "sender chain-key index" "present")
  let key ← requiredExactBytes value.key 32 "sender chain key"
  pure ⟨some index, some key⟩

end SessionChainKeyComponents

namespace SessionChainComponents

def intoSenderStructure (value : SessionChainComponents) :
    Except SignalProtocolError SessionStructure.ChainMessage := do
  let ratchetKey ← requiredPublicKey value.senderRatchetKey "sender ratchet public key"
  let privateKey ←
    requiredExactBytes value.senderRatchetKeyPrivate 32 "sender ratchet private key"
  let chainKey ← okOr value.chainKey (invalidField "sender chain key" "present")
  let chainKey ← chainKey.intoRequiredStructure
  pure ⟨some ratchetKey, some privateKey, some chainKey,
    value.messageKeys.map (·.intoStructure)⟩

def intoReceiverStructure (value : SessionChainComponents) :
    Except SignalProtocolError SessionStructure.ChainMessage := do
  ensure value.senderRatchetKeyPrivate.isNone
    (invalidField "receiver ratchet private key" "absent from receiver chains")
  let ratchetKey ← optionalPublicKey value.senderRatchetKey "receiver ratchet public key"
  let chainKey ← value.chainKey.mapM (·.intoStructure)
  pure ⟨ratchetKey, none, chainKey, value.messageKeys.map (·.intoStructure)⟩

def fromSenderStructure (C : Crypto) (value : SessionStructure.ChainMessage) :
    Except SignalProtocolError SessionChainComponents := do
  let ratchetKey ← requiredPublicKey value.senderRatchetKey "sender ratchet public key"
  let privateKey ←
    requiredExactBytes value.senderRatchetKeyPrivate 32 "sender ratchet private key"
  let chainKey ← okOr value.chainKey (invalidField "sender chain key" "present")
  let chainKey ← SessionChainKeyComponents.fromRequiredStructure chainKey
  let messageKeys ← value.messageKeys.mapM (SessionMessageKeyComponents.fromStructure C)
  pure ⟨some ratchetKey, some privateKey, some chainKey, messageKeys⟩

/-- The private key of a receiver chain is not looked at. -/
def fromReceiverStructure (C : Crypto) (value : SessionStructure.ChainMessage) :
    Except SignalProtocolError SessionChainComponents := do
  let ratchetKey ← optionalPublicKey value.senderRatchetKey "receiver ratchet public key"
  let chainKey ← value.chainKey.mapM SessionChainKeyComponents.fromStructure
  let messageKeys ← value.messageKeys.mapM (SessionMessageKeyComponents.fromStructure C)
  pure ⟨ratchetKey, none, chainKey, messageKeys⟩

end SessionChainComponents

/-! ## Sessions -/

namespace PendingPreKeyComponents

def intoStructure (value : PendingPreKeyComponents) :
    Except SignalProtocolError SessionStructure.PendingPreKey := do
  let baseKey ← optionalPublicKey value.baseKey "pending pre-key base key"
  pure ⟨value.preKeyId, value.signedPreKeyId, baseKey⟩

def fromStructure (value : SessionStructure.PendingPreKey) :
    Except SignalProtocolError PendingPreKeyComponents := do
  let baseKey ← optionalPublicKey value.baseKey "pending pre-key base key"
  pure ⟨value.preKeyId, value.signedPreKeyId, baseKey⟩

end PendingPreKeyComponents

def sessionStructureFromComponents (value : SessionComponents) :
    Except SignalProtocolError SessionStructure := do
  let localIdentityPublic ←
    optionalPublicKey value.localIdentityPublic "local identity public key"
  let remoteIdentityPublic ←
    optionalPublicKey value.remoteIdentityPublic "remote identity public key"
  let rootKey ← optionalExactBytes value.rootKey 32 "session root key"
  let senderChain ← value.senderChain.mapM (·.intoSenderStructure)
  let receiverChains ← value.receiverChains.mapM (·.intoReceiverStructure)
  let pendingPreKey ← value.pendingPreKey.mapM (·.intoStructure)
  let aliceBaseKey ← optionalPublicKey value.aliceBaseKey "session base public key"
  pure { sessionVersion := value.sessionVersion, localIdentityPublic, remoteIdentityPublic, rootKey
         previousCounter := value.previousCounter, senderChain, receiverChains, pendingPreKey
         remoteRegistrationId := value.remoteRegistrationId
         localRegistrationId := value.localRegistrationId, aliceBaseKey }

def sessionComponentsFromStructure (C : Crypto) (value : SessionStructure) :
    Except SignalProtocolError SessionComponents := do
  let localIdentityPublic ←
    optionalPublicKey value.localIdentityPublic "local identity public key"
  let remoteIdentityPublic ←
    optionalPublicKey value.remoteIdentityPublic "remote identity public key"
  let rootKey ← optionalExactBytes value.rootKey 32 "session root key"
  let senderChain ← value.senderChain.mapM (SessionChainComponents.fromSenderStructure C)
  let receiverChains ← value.receiverChains.mapM (SessionChainComponents.fromReceiverStructure C)
  let pendingPreKey ← value.pendingPreKey.mapM PendingPreKeyComponents.fromStructure
  let aliceBaseKey ← optionalPublicKey value.aliceBaseKey "session base public key"
  pure { sessionVersion := value.sessionVersion, localIdentityPublic, remoteIdentityPublic, rootKey
         previousCounter := value.previousCounter, senderChain, receiverChains, pendingPreKey
         remoteRegistrationId := value.remoteRegistrationId
         localRegistrationId := value.localRegistrationId, aliceBaseKey }

/-! ## Records -/

namespace SessionRecord

/-- A state that is about to lose its reservation. -/
def burned (C : Crypto) (record : SessionRecord) (state : SessionState) : SessionState :=
  if 0 < record.lease.ceiling then state.fastForwardSenderChainOrDrop C record.lease.ceiling
  else state

/-- The imported record starts without a reservation. -/
def fromComponents (value : SessionRecordComponents) :
    Except SignalProtocolError SessionRecord := do
  let currentSession ← value.currentSession.mapM sessionStructureFromComponents
  let previousSessions ←
    (value.previousSessions.take ARCHIVED_STATES_MAX_LENGTH).mapM sessionStructureFromComponents
  pure { currentSession := currentSession.map SessionState.fromSessionStructure
         previousSessions := previousSessions.map SessionState.fromSessionStructure
         lease := .fresh }

def intoComponents (C : Crypto) (record : SessionRecord) :
    Except SignalProtocolError SessionRecordComponents := do
  let currentSession ← record.currentSession.mapM fun state =>
    sessionComponentsFromStructure C (record.burned C state).toProtobuf
  let previousSessions ← record.previousSessions.mapM fun state =>
    sessionComponentsFromStructure C (record.burned C state).toProtobuf
  pure ⟨currentSession, previousSessions⟩

/-- Every state the lease covered is moved past it. -/
def waiveCounterLease (C : Crypto) (record : SessionRecord) : SessionRecord where
  currentSession := record.currentSession.map (record.burned C)
  previousSessions := record.previousSessions.map (record.burned C)
  lease := record.lease.waive

end SessionRecord

end WaCore.Signal
