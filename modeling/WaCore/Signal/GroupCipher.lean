import WaCore.Signal.SenderKeys

/-!
# The group cipher

Encryption and decryption of group messages and the distribution of sender keys
(`protocol/group_cipher.rs`), with the messages of `protocol/protocol.rs`.  The
functions work over any `SenderKeyStore`.

The protobuf part of a message is outside the model: `SenderKeyCodec` encodes
and decodes it.
-/

namespace WaCore.Signal

def SENDERKEY_MESSAGE_CURRENT_VERSION : UInt8 := 3

/-! ## Messages -/

/-- The fields of a decoded `SenderKeyMessage`. -/
structure SenderKeyMessageView where
  id : Option UInt32
  iteration : Option UInt32
  ciphertext : Option Bytes

/-- The protobuf encoding of a `SenderKeyMessage`. -/
structure SenderKeyCodec where
  encode : UInt32 → UInt32 → Bytes → Bytes
  decode : Bytes → Option SenderKeyMessageView

/-- An encoding with the two numbers as big-endian words, to run the model on. -/
def SenderKeyCodec.words : SenderKeyCodec where
  encode id iteration ciphertext :=
    [(id >>> 24).toUInt8, (id >>> 16).toUInt8, (id >>> 8).toUInt8, id.toUInt8,
      (iteration >>> 24).toUInt8, (iteration >>> 16).toUInt8, (iteration >>> 8).toUInt8,
      iteration.toUInt8] ++ ciphertext
  decode
    | a :: b :: c :: d :: a' :: b' :: c' :: d' :: ciphertext =>
      some ⟨some (a.toUInt32 <<< 24 ||| b.toUInt32 <<< 16 ||| c.toUInt32 <<< 8 ||| d.toUInt32),
        some (a'.toUInt32 <<< 24 ||| b'.toUInt32 <<< 16 ||| c'.toUInt32 <<< 8 ||| d'.toUInt32),
        some ciphertext⟩
    | _ => none

theorem SenderKeyCodec.words_decode_encode (id iteration : UInt32) (ciphertext : Bytes) :
    words.decode (words.encode id iteration ciphertext)
      = some ⟨some id, some iteration, some ciphertext⟩ := by
  simp only [words, List.cons_append, List.nil_append, uint32_of_bytes]

structure SenderKeyMessage where
  messageVersion : UInt8
  chainId : UInt32
  iteration : UInt32
  ciphertext : Bytes
  serialized : Bytes
  deriving DecidableEq, Repr

namespace SenderKeyMessage

def SIGNATURE_LEN : Nat := 64

def new (C : Crypto) (codec : SenderKeyCodec) (messageVersion : UInt8) (chainId iteration : UInt32)
    (ciphertext csprng : Bytes) (signatureKey : PrivateKey) :
    Except SignalProtocolError SenderKeyMessage := do
  let signed := encodeVersionByte messageVersion SENDERKEY_MESSAGE_CURRENT_VERSION ::
    codec.encode chainId iteration ciphertext
  let signature ← okOr (C.calculateSignature signatureKey signed csprng) .signatureValidationFailed
  pure { messageVersion, chainId, iteration, ciphertext, serialized := signed ++ signature.val }

def verifySignature (C : Crypto) (skm : SenderKeyMessage) (signatureKey : PublicKey) : Bool :=
  C.verifySignature signatureKey (skm.serialized.take (skm.serialized.length - SIGNATURE_LEN))
    (skm.serialized.drop (skm.serialized.length - SIGNATURE_LEN))

def tryFrom (codec : SenderKeyCodec) (value : Bytes) :
    Except SignalProtocolError SenderKeyMessage := do
  if value.length < 1 + SIGNATURE_LEN then
    throw (.ciphertextMessageTooShort value.length)
  let messageVersion := value.headD 0 >>> 4
  if messageVersion < SENDERKEY_MESSAGE_CURRENT_VERSION then
    throw (.legacyCiphertextVersion messageVersion)
  if SENDERKEY_MESSAGE_CURRENT_VERSION < messageVersion then
    throw (.unrecognizedCiphertextVersion messageVersion)
  let view ← okOr (codec.decode ((value.take (value.length - SIGNATURE_LEN)).drop 1))
    .invalidProtobufEncoding
  let chainId ← okOr view.id .invalidProtobufEncoding
  let iteration ← okOr view.iteration .invalidProtobufEncoding
  let ciphertext ← okOr view.ciphertext .invalidProtobufEncoding
  pure { messageVersion, chainId, iteration, ciphertext, serialized := value }

theorem verifySignature_append {C : Crypto} {skm : SenderKeyMessage} {signed : Bytes}
    {signature : FixedBytes 64} (h : skm.serialized = signed ++ signature.val)
    (signatureKey : PublicKey) :
    skm.verifySignature C signatureKey = C.verifySignature signatureKey signed signature.val := by
  have hlength : skm.serialized.length - SIGNATURE_LEN = signed.length := by
    rw [h, List.length_append, signature.property]
    exact Nat.add_sub_cancel _ _
  rw [verifySignature, hlength, h, List.take_left, List.drop_left]

/-- A message of the current version whose encoding can be read back is read
back. -/
theorem tryFrom_append {codec : SenderKeyCodec} {chainId iteration : UInt32} {ciphertext : Bytes}
    (hcodec : codec.decode (codec.encode chainId iteration ciphertext)
      = some ⟨some chainId, some iteration, some ciphertext⟩) (signature : FixedBytes 64) :
    let value := (encodeVersionByte 3 SENDERKEY_MESSAGE_CURRENT_VERSION ::
      codec.encode chainId iteration ciphertext) ++ signature.val
    tryFrom codec value = .ok ⟨3, chainId, iteration, ciphertext, value⟩ := by
  intro value
  have hlength : value.length - SIGNATURE_LEN
      = (codec.encode chainId iteration ciphertext).length + 1 := by
    rw [List.length_append, signature.property]
    exact Nat.add_sub_cancel _ _
  have hlong : ¬ value.length < 1 + SIGNATURE_LEN := by
    omega
  have hbody : (value.take (value.length - SIGNATURE_LEN)).drop 1
      = codec.encode chainId iteration ciphertext := by
    rw [hlength, ← List.length_cons, List.take_left]
    rfl
  have hversion : value.headD 0 >>> 4 = 3 := by
    change encodeVersionByte 3 SENDERKEY_MESSAGE_CURRENT_VERSION >>> 4 = 3
    decide
  rw [tryFrom, if_neg hlong, hversion, if_neg (by decide), hbody, hcodec]
  rfl

end SenderKeyMessage

/-- A `SenderKeyDistributionMessage`, without its encoding. -/
structure SenderKeyDistributionMessage where
  messageVersion : UInt8
  chainId : UInt32
  iteration : UInt32
  chainKey : Key
  signingKey : PublicKey
  deriving DecidableEq, Repr

structure SenderKeyName where
  groupId : String
  senderId : String
  deriving DecidableEq, Repr

/-! ## Stores -/

/-- The trait `SenderKeyStore`. -/
structure SenderKeyStore (σ : Type) where
  loadSenderKey : SenderKeyName → Eff σ SignalProtocolError (Option SenderKeyRecord)
  storeSenderKey : SenderKeyName → SenderKeyRecord → Eff σ SignalProtocolError Unit

section Cipher

variable {σ : Type} (C : Crypto) (codec : SenderKeyCodec) (store : SenderKeyStore σ)

/-- What the calls below report when there is no record. -/
def noSenderKeyRecord (name : SenderKeyName) : SignalProtocolError :=
  .noSenderKeyState s!"no sender key record for group {name.groupId} sender {name.senderId}"

/-! ## Encryption -/

/-- The part of `group_encrypt` between load and store: the message, and the
record to store. -/
def encryptWithRecord (record : SenderKeyRecord) (plaintext csprng : Bytes) :
    Except SignalProtocolError (SenderKeyMessage × SenderKeyRecord) := do
  let state ← okOr record.states.head? .invalidSenderKeySession
  let senderChainKey ← okOr state.senderChain .invalidSenderKeySession
  let (messageKeys, nextSenderChainKey) ← senderChainKey.stepWithMessageKey C
  let ciphertext ← okOr (C.aes256CbcEncrypt messageKeys.cipherKey messageKeys.iv plaintext)
    .invalidSenderKeySession
  let signingKey ← okOr state.signingKeyPrivate.toOption .invalidSenderKeySession
  let skm ← SenderKeyMessage.new C codec state.messageVersion.toUInt8 state.chainId
    messageKeys.iteration ciphertext csprng signingKey
  let state := state.setSenderChainKey nextSenderChainKey
  let record := { record with states := state :: record.states.tail }
  pure (skm, record.reserveIterations messageKeys.iteration)

section Encrypt

variable {C codec} {record record' : SenderKeyRecord} {plaintext csprng : Bytes}
  {skm : SenderKeyMessage}

/-- The signed part of the message of a state. -/
def signedPart (codec : SenderKeyCodec) (state : SenderKeyState) (iteration : UInt32)
    (ciphertext : Bytes) : Bytes :=
  encodeVersionByte state.messageVersion.toUInt8 SENDERKEY_MESSAGE_CURRENT_VERSION ::
    codec.encode state.chainId iteration ciphertext

/-- The steps of an encryption that succeeded. -/
theorem encryptWithRecord_eq_ok
    (h : encryptWithRecord C codec record plaintext csprng = .ok (skm, record')) :
    ∃ state states chain key next ciphertext signingKey signature,
      record.states = state :: states ∧ state.senderChain = some chain
      ∧ chain.stepWithMessageKey C = .ok (key, next)
      ∧ C.aes256CbcEncrypt key.cipherKey key.iv plaintext = some ciphertext
      ∧ state.signingKeyPrivate = .ok signingKey
      ∧ C.calculateSignature signingKey (signedPart codec state key.iteration ciphertext) csprng
        = some signature
      ∧ skm = { messageVersion := state.messageVersion.toUInt8, chainId := state.chainId
                iteration := key.iteration, ciphertext
                serialized := signedPart codec state key.iteration ciphertext ++ signature.val }
      ∧ record' = { states := state.setSenderChainKey next :: states
                    lease := record.lease.reserve key.iteration } := by
  obtain ⟨state, hstate, h⟩ := bind_eq_ok.mp h
  obtain ⟨chain, hchain, h⟩ := bind_eq_ok.mp h
  obtain ⟨⟨key, next⟩, hstep, h⟩ := bind_eq_ok.mp h
  obtain ⟨ciphertext, hciphertext, h⟩ := bind_eq_ok.mp h
  obtain ⟨signingKey, hsigning, h⟩ := bind_eq_ok.mp h
  obtain ⟨message, hmessage, h⟩ := bind_eq_ok.mp h
  obtain ⟨signature, hsignature, hnew⟩ := bind_eq_ok.mp hmessage
  cases hnew
  cases h
  obtain ⟨states, hstates⟩ := List.head?_eq_some_iff.mp (okOr_eq_ok.mp hstate)
  refine ⟨state, states, chain, key, next, ciphertext, signingKey, signature, hstates,
    okOr_eq_ok.mp hchain, hstep, okOr_eq_ok.mp hciphertext, ?_, okOr_eq_ok.mp hsignature, rfl, ?_⟩
  · exact toOption_eq_some.mp (okOr_eq_ok.mp hsigning)
  · rw [hstates]
    rfl

end Encrypt

def groupEncrypt (name : SenderKeyName) (plaintext csprng : Bytes) :
    Eff σ SignalProtocolError SenderKeyMessage := do
  let some record ← store.loadSenderKey name | throw (noSenderKeyRecord name)
  let (skm, record) ← Eff.ofExcept (encryptWithRecord C codec record plaintext csprng)
  store.storeSenderKey name record
  pure skm

/-! ## Decryption -/

/-- The catch-up loop of `get_sender_key`. -/
def catchUp : Nat → SenderKeyState → SenderChainKey →
    Except SignalProtocolError (SenderKeyState × SenderChainKey)
  | 0, state, senderChainKey => .ok (state, senderChainKey)
  | steps + 1, state, senderChainKey => do
    let (seed, nextChain) ← senderChainKey.stepSeedOnly C
    catchUp steps (state.addSkippedMessageKey senderChainKey.iteration seed) nextChain

def getSenderKey (state : SenderKeyState) (iteration : UInt32) :
    Except SignalProtocolError (SenderMessageKey × SenderKeyState) := do
  let senderChainKey ← okOr state.senderChain .invalidSenderKeySession
  let currentIteration := senderChainKey.iteration
  if iteration < currentIteration then
    okOr (state.removeSenderMessageKey C iteration) (.duplicatedMessage currentIteration iteration)
  else
    let jump := iteration.toNat - currentIteration.toNat
    if MAX_FORWARD_JUMPS < jump then
      throw (.invalidMessage .senderKey "message from too far into the future")
    let (state, senderChainKey) ← catchUp C jump state senderChainKey
    let (resultMessageKey, nextChain) ← senderChainKey.stepWithMessageKey C
    pure (resultMessageKey, state.setSenderChainKey nextChain)

/-- The part of `group_decrypt` between load and store. -/
def decryptWithRecord (record : SenderKeyRecord) (skm : SenderKeyMessage) :
    Except SignalProtocolError (Bytes × SenderKeyRecord) := do
  let chainId := skm.chainId
  let known := toString (record.states.map (·.chainId))
  let state ← okOr (record.senderKeyStateForChainId chainId)
    (.noSenderKeyState s!"no sender key state for chain id {chainId} (known chain IDs: {known})")
  if skm.messageVersion.toUInt32 ≠ state.messageVersion then
    throw (.unrecognizedMessageVersion skm.messageVersion.toUInt32)
  let signingKey ← okOr state.signingKeyPublic.toOption .invalidSenderKeySession
  if !skm.verifySignature C signingKey then
    throw .signatureValidationFailed
  let (senderKey, state) ← getSenderKey C state skm.iteration
  let plaintext ← okOr (C.aes256CbcDecrypt senderKey.cipherKey senderKey.iv skm.ciphertext)
    (.invalidMessage .senderKey "decryption failed")
  pure (plaintext, record.setStateForChainId chainId state)

/-- The record has a state for the message's chain, and the message is signed by
its key. -/
structure Authenticates (record : SenderKeyRecord) (skm : SenderKeyMessage)
    (state : SenderKeyState) : Prop where
  found : record.senderKeyStateForChainId skm.chainId = some state
  version : skm.messageVersion.toUInt32 = state.messageVersion
  signed : ∃ signingKey, state.signingKeyPublic = .ok signingKey
    ∧ skm.verifySignature C signingKey = true

section Decrypt

variable {C} {record record' : SenderKeyRecord} {skm : SenderKeyMessage}
  {state state' : SenderKeyState}

theorem Authenticates.decryptWithRecord_error (h : Authenticates C record skm state)
    {e : SignalProtocolError} (hkey : getSenderKey C state skm.iteration = .error e) :
    decryptWithRecord C record skm = .error e := by
  obtain ⟨signingKey, hsigned, hverify⟩ := h.signed
  simp [decryptWithRecord, h.found, h.version, hsigned, hverify, Except.toOption, hkey]

theorem decryptWithRecord_eq_ok {plaintext : Bytes}
    (h : decryptWithRecord C record skm = .ok (plaintext, record')) :
    ∃ state key state', record.senderKeyStateForChainId skm.chainId = some state
      ∧ getSenderKey C state skm.iteration = .ok (key, state')
      ∧ record' = record.setStateForChainId skm.chainId state' := by
  obtain ⟨state, hstate, h⟩ := bind_eq_ok.mp h
  split at h
  · cases h
  obtain ⟨signingKey, -, h⟩ := bind_eq_ok.mp h
  split at h
  · cases h
  obtain ⟨⟨key, state'⟩, hkey, h⟩ := bind_eq_ok.mp h
  obtain ⟨ciphertext, -, h⟩ := bind_eq_ok.mp h
  cases h
  exact ⟨state, key, state', okOr_eq_ok.mp hstate, hkey, rfl⟩

end Decrypt

def groupDecrypt (skmBytes : Bytes) (name : SenderKeyName) : Eff σ SignalProtocolError Bytes := do
  let skm ← Eff.ofExcept (SenderKeyMessage.tryFrom codec skmBytes)
  let some record ← store.loadSenderKey name | throw (noSenderKeyRecord name)
  let (plaintext, record) ← Eff.ofExcept (decryptWithRecord C record skm)
  store.storeSenderKey name record
  pure plaintext

/-! ## Distribution -/

def processSenderKeyDistributionMessage (name : SenderKeyName)
    (skdm : SenderKeyDistributionMessage) : Eff σ SignalProtocolError Unit := do
  let record := (← store.loadSenderKey name).getD .newEmpty
  let record ← Eff.ofExcept (record.addSenderKeyState skdm.chainId skdm.iteration skdm.chainKey.val
    skdm.signingKey none)
  store.storeSenderKey name record

def buildSkdmFromRecord (record : SenderKeyRecord) :
    Except SignalProtocolError SenderKeyDistributionMessage := do
  let state ← okOr record.senderKeyState.toOption .invalidSenderKeySession
  let senderChainKey ← okOr state.senderChain .invalidSenderKeySession
  let signingKey ← okOr state.signingKeyPublic.toOption .invalidSenderKeySession
  pure { messageVersion := state.messageVersion.toUInt8, chainId := state.chainId
         iteration := senderChainKey.iteration, chainKey := senderChainKey.chainKey, signingKey }

/-- A distribution message hands out the current chain where it stands. -/
theorem buildSkdmFromRecord_eq_ok {record : SenderKeyRecord} {skdm : SenderKeyDistributionMessage}
    (h : buildSkdmFromRecord record = .ok skdm) :
    ∃ state chain, record.states.head? = some state ∧ state.senderChain = some chain
      ∧ state.signingKeyPublic = .ok skdm.signingKey
      ∧ skdm = ⟨state.messageVersion.toUInt8, state.chainId, chain.iteration, chain.chainKey,
        skdm.signingKey⟩ := by
  obtain ⟨state, hstate, h⟩ := bind_eq_ok.mp h
  obtain ⟨chain, hchain, h⟩ := bind_eq_ok.mp h
  obtain ⟨signingKey, hsigning, h⟩ := bind_eq_ok.mp h
  cases h
  exact ⟨state, chain, okOr_eq_ok.mp (toOption_eq_some.mp (okOr_eq_ok.mp hstate)),
    okOr_eq_ok.mp hchain, toOption_eq_some.mp (okOr_eq_ok.mp hsigning), rfl⟩

/-- What `create_sender_key_distribution_message` draws from the random source
for a new chain. -/
structure NewSenderKey where
  chainId : UInt32
  senderKey : Key
  signingKey : KeyPair
  deriving DecidableEq, Repr

/-- The record of a new chain. -/
def NewSenderKey.record (drawn : NewSenderKey) : Except SignalProtocolError SenderKeyRecord :=
  SenderKeyRecord.newEmpty.addSenderKeyState (drawn.chainId >>> 1) 0 drawn.senderKey.val
    drawn.signingKey.publicKey (some drawn.signingKey.privateKey)

def createSenderKeyDistributionMessage (name : SenderKeyName) (csprng : NewSenderKey) :
    Eff σ SignalProtocolError SenderKeyDistributionMessage := do
  match ← store.loadSenderKey name with
  | some record => Eff.ofExcept (buildSkdmFromRecord record)
  | none =>
    let record ← Eff.ofExcept csprng.record
    let skdm ← Eff.ofExcept (buildSkdmFromRecord record)
    store.storeSenderKey name record
    pure skdm

end Cipher

end WaCore.Signal
