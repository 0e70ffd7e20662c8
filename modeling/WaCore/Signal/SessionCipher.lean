import WaCore.Signal.SessionRecord

/-!
# Decryption with a session record

The part of `protocol/session_cipher.rs` that works on a record in memory, with
the messages of `protocol/protocol.rs`.  A message is tried on the current state
and then on the archived ones.  Each of them is changed in place, and put back as
it was if the message turns out not to be for it.  A decryption that succeeded is
not yet final: `RecordDecrypt` is committed later, or dropped.

The protobuf part of a message is outside the model: `SignalMessageCodec`
encodes it.  What the random source would give to the candidate `i` is
`csprng i`; the current state has the number 0.
-/

namespace WaCore.Signal

def CIPHERTEXT_MESSAGE_CURRENT_VERSION : UInt8 := 3

/-! ## Messages -/

/-- The protobuf encoding of a `SignalMessage`: the ratchet key, the counter, the
previous counter and the ciphertext. -/
structure SignalMessageCodec where
  encode : Bytes → UInt32 → UInt32 → Bytes → Bytes

structure SignalMessage where
  messageVersion : UInt8
  senderRatchetKey : PublicKey
  counter : UInt32
  body : Bytes
  serialized : Bytes
  deriving DecidableEq, Repr

namespace SignalMessage

def MAC_LENGTH : Nat := 8

def computeMac (C : Crypto) (senderIdentityKey receiverIdentityKey : IdentityKey) (macKey : Key)
    (message : Bytes) : Bytes :=
  (C.hmacSha256 macKey.val
    (senderIdentityKey.serialize ++ receiverIdentityKey.serialize ++ message)).val.take MAC_LENGTH

def new (C : Crypto) (codec : SignalMessageCodec) (messageVersion : UInt8) (macKey : Key)
    (senderRatchetKey : PublicKey) (counter previousCounter : UInt32) (ciphertext : Bytes)
    (senderIdentityKey receiverIdentityKey : IdentityKey) : SignalMessage :=
  let message := encodeVersionByte messageVersion CIPHERTEXT_MESSAGE_CURRENT_VERSION ::
    codec.encode senderRatchetKey.serialize counter previousCounter ciphertext
  { messageVersion, senderRatchetKey, counter
    body := ciphertext
    serialized := message ++ computeMac C senderIdentityKey receiverIdentityKey macKey message }

def verifyMac (C : Crypto) (message : SignalMessage)
    (senderIdentityKey receiverIdentityKey : IdentityKey) (macKey : Key) : Bool :=
  let length := message.serialized.length - MAC_LENGTH
  computeMac C senderIdentityKey receiverIdentityKey macKey (message.serialized.take length)
    = message.serialized.drop length

end SignalMessage

/-- A `PreKeySignalMessage`, without its encoding. -/
structure PreKeySignalMessage where
  messageVersion : UInt8
  registrationId : UInt32
  preKeyId : Option UInt32
  signedPreKeyId : UInt32
  baseKey : PublicKey
  identityKey : IdentityKey
  message : SignalMessage
  deriving DecidableEq, Repr

/-- The last two kinds are not decrypted by a session. -/
inductive CiphertextMessage where
  | signalMessage (message : SignalMessage)
  | preKeySignalMessage (message : PreKeySignalMessage)
  | senderKeyMessage
  | plaintextContent
  deriving DecidableEq, Repr

/-- A message to decrypt.  One that the caller gave away is used up once it has
been authenticated. -/
structure SignalDecryptInput where
  message : SignalMessage
  owned : Bool

/-! ## Trying one state -/

/-- A state a message is tried on, and whether the message is still there. -/
structure Attempt where
  state : SessionState
  available : Bool

abbrev Trial := Eff Attempt SignalProtocolError

namespace Trial

def liftState {α : Type} (m : Eff SessionState SignalProtocolError α) : Trial α :=
  ExceptT.mk fun a =>
    match m.exec a.state with
    | (result, state) => (result, { a with state := state })

def updateState (f : SessionState → Except String SessionState) : Trial Unit := do
  let a ← get
  let state ← Eff.ofExcept (invalidSession (f a.state))
  set { a with state := state }

end Trial

def forwardJumpLimit (isSelf : Bool) : Nat :=
  if isSelf then MAX_FORWARD_JUMPS_SELF else MAX_FORWARD_JUMPS

def CLOSED_RECEIVER_CHAIN : String := "receiver chain is closed"

structure DeferredSenderRatchet where
  receiverRootKey : RootKey
  previousCounter : UInt32

inductive StateDecryptEffect where
  | deferredChainKey (ratchetKey : PublicKey) (chainKey : ChainKey)
  | applied (snapshot : DecryptSnapshot) (senderChainReset : Bool)

structure StateDecryptResult where
  plaintext : Bytes
  effect : StateDecryptEffect

namespace StateDecryptEffect

def senderChainReset : StateDecryptEffect → Bool
  | deferredChainKey _ _ => false
  | applied _ senderChainReset => senderChainReset

def commit (state : SessionState) : StateDecryptEffect → Except String SessionState
  | deferredChainKey ratchetKey chainKey => state.setReceiverChainKey ratchetKey chainKey
  | applied _ _ => .ok state

def rollback (state : SessionState) : StateDecryptEffect → SessionState
  | deferredChainKey _ _ => state
  | applied snapshot _ => state.restoreDecryptSnapshot snapshot

end StateDecryptEffect

section Decrypt

variable (C : Crypto) (input : SignalDecryptInput) (originalMessageType : CiphertextMessageType)

/-- The keys have the lengths the cipher takes, so that only the ciphertext can be
bad. -/
def decryptWithMessageKeys (messageKeyGen : MessageKeyGenerator) : Trial Bytes := do
  let messageKeys := messageKeyGen.generateKeys C
  let a ← get
  let remote ← Eff.ofExcept (invalidSession a.state.remoteIdentityKey)
  let theirIdentityKey ← Eff.ofExcept (okOr remote
    (.invalidSessionStructure "cannot decrypt without remote identity key"))
  let localIdentityKey ← Eff.ofExcept (invalidSession a.state.localIdentityKey)
  if input.message.verifyMac C theirIdentityKey localIdentityKey messageKeys.macKey then
    set { a with available := a.available && !input.owned }
    Eff.ofExcept (okOr (C.aes256CbcDecrypt messageKeys.cipherKey messageKeys.iv input.message.body)
      (.invalidMessage originalMessageType "failed to decrypt"))
  else throw (.badMac originalMessageType)

def DeferredSenderRatchet.apply (deferred : DeferredSenderRatchet) (state : SessionState)
    (theirEphemeral : PublicKey) (ourNewEphemeral : KeyPair) :
    Except SignalProtocolError SessionState := do
  let (rootKey, chainKey) ←
    deferred.receiverRootKey.createChain C theirEphemeral ourNewEphemeral.privateKey
  pure (((state.setRootKey rootKey).setPreviousCounter deferred.previousCounter).setSenderChain
    ourNewEphemeral chainKey)

/-- The chain of a ratchet key the state does not know comes from a new root key,
and the sender chain has to follow. -/
def getOrCreateChainKey (theirEphemeral : PublicKey) (receiverChain : Option ReceiverChainState) :
    Trial (ChainKey × Option DeferredSenderRatchet) := do
  match receiverChain with
  | some (.opened chain) => pure (chain, none)
  | some (.closed _) => throw (.invalidSessionStructure CLOSED_RECEIVER_CHAIN)
  | none =>
    let a ← get
    let rootKey ← Eff.ofExcept (invalidSession a.state.rootKey)
    let ourEphemeral ← Eff.ofExcept (invalidSession a.state.senderRatchetPrivateKey)
    let (receiverRootKey, chainKey) ←
      Eff.ofExcept (rootKey.createChain C theirEphemeral ourEphemeral)
    let senderChainKey ← Eff.ofExcept (invalidSession a.state.getSenderChainKey)
    set { a with state := a.state.addReceiverChain theirEphemeral chainKey }
    pure (chainKey, some ⟨receiverRootKey, saturatingSub senderChainKey.index 1⟩)

/-- The loop that puts the keys of skipped messages aside. -/
def skipMessageKeys (theirEphemeral : PublicKey) : Nat → ChainKey → Trial ChainKey
  | 0, chainKey => pure chainKey
  | steps + 1, chainKey => do
    let (messageKeys, nextChain) ← Eff.ofExcept (chainKey.stepWithMessageKeys C)
    Trial.updateState (·.setMessageKeys theirEphemeral messageKeys)
    skipMessageKeys theirEphemeral steps nextChain

def getOrCreateMessageKey (theirEphemeral : PublicKey) (chainKey : ChainKey) (counter : UInt32) :
    Trial MessageKeyGenerator := do
  if counter < chainKey.index then
    let found ← Trial.liftState (SessionState.getMessageKeys theirEphemeral counter)
    Eff.ofExcept (okOr found (.duplicatedMessage chainKey.index counter))
  else
    let jump := counter.toNat - chainKey.index.toNat
    let a ← get
    let isSelf ← Eff.ofExcept (invalidSession a.state.sessionWithSelf)
    if forwardJumpLimit isSelf < jump then
      throw (.invalidMessage originalMessageType "message from too far into the future")
    else
      let chainKey ← skipMessageKeys C theirEphemeral jump chainKey
      let (resultMessageKeys, nextChain) ← Eff.ofExcept (chainKey.stepWithMessageKeys C)
      Trial.updateState (·.setReceiverChainKey theirEphemeral nextChain)
      pure resultMessageKeys

/-- The message from a chain that can advance no more. -/
def decryptFromClosedChain (theirEphemeral : PublicKey) (nextIndex counter : UInt32) :
    Trial Bytes := do
  if nextIndex ≤ counter then throw (.invalidSessionStructure CLOSED_RECEIVER_CHAIN)
  else
    let found ← Trial.liftState (SessionState.getMessageKeys theirEphemeral counter)
    let messageKeyGen ← Eff.ofExcept (okOr found (.duplicatedMessage nextIndex counter))
    decryptWithMessageKeys C input originalMessageType messageKeyGen

/-- The message from a chain that can, or from a new one; the sender ratchet
follows only once the message is authenticated. -/
def decryptFromChain (theirEphemeral : PublicKey) (receiverChain : Option ReceiverChainState)
    (counter : UInt32) (csprng : KeyPair) : Trial (Bytes × Bool) := do
  let (chainKey, deferredRatchet) ← getOrCreateChainKey C theirEphemeral receiverChain
  let messageKeyGen ← getOrCreateMessageKey C originalMessageType theirEphemeral chainKey counter
  let plaintext ← decryptWithMessageKeys C input originalMessageType messageKeyGen
  match deferredRatchet with
  | none => pure (plaintext, false)
  | some deferredRatchet =>
    let a ← get
    let state ← Eff.ofExcept (deferredRatchet.apply C a.state theirEphemeral csprng)
    set { a with state := state }
    pure (plaintext, true)

def decryptWithPendingState (theirEphemeral : PublicKey) (receiverChain : Option ReceiverChainState)
    (counter : UInt32) (csprng : KeyPair) : Trial (Bytes × Bool) := do
  match receiverChain with
  | some (.closed nextIndex) =>
    let plaintext ←
      decryptFromClosedChain C input originalMessageType theirEphemeral nextIndex counter
    pure (plaintext, false)
  | _ => decryptFromChain C input originalMessageType theirEphemeral receiverChain counter csprng

/-- The chain whose next message this is. -/
def inOrderChain (counter : UInt32) : Option ReceiverChainState → Option ChainKey
  | some (.opened chainKey) => if chainKey.index = counter then some chainKey else none
  | _ => none

/-- The next message of a chain, which changes nothing yet. -/
def decryptInOrder (theirEphemeral : PublicKey) (chainKey : ChainKey) : Trial StateDecryptResult := do
  let (messageKeyGen, nextChain) ← Eff.ofExcept (chainKey.stepWithMessageKeys C)
  let plaintext ← decryptWithMessageKeys C input originalMessageType messageKeyGen
  pure ⟨plaintext, .deferredChainKey theirEphemeral nextChain⟩

/-- The state is put back as it was if the message is not for it. -/
def decryptOutOfOrder (theirEphemeral : PublicKey) (receiverChain : Option ReceiverChainState)
    (csprng : KeyPair) : Trial StateDecryptResult := do
  let a ← get
  let snapshot := a.state.decryptSnapshot
  let (plaintext, senderChainReset) ← Eff.onFailure
    (fun a => { a with state := a.state.restoreDecryptSnapshot snapshot })
    (decryptWithPendingState C input originalMessageType theirEphemeral receiverChain
      input.message.counter csprng)
  pure ⟨plaintext, .applied snapshot senderChainReset⟩

def decryptMessageWithState (csprng : KeyPair) : Trial StateDecryptResult := do
  let a ← get
  let _ ← Eff.ofExcept (a.state.rootKey.mapError fun _ =>
    .invalidMessage originalMessageType "No session available to decrypt")
  let ciphertextVersion := input.message.messageVersion.toUInt32
  if ciphertextVersion ≠ a.state.version then throw (.unrecognizedMessageVersion ciphertextVersion)
  else
    let theirEphemeral := input.message.senderRatchetKey
    let receiverChain ← Eff.ofExcept (invalidSession (a.state.receiverChainState theirEphemeral))
    match inOrderChain input.message.counter receiverChain with
    | some chainKey => decryptInOrder C input originalMessageType theirEphemeral chainKey
    | none => decryptOutOfOrder C input originalMessageType theirEphemeral receiverChain csprng

/-! ## Trying a record -/

/-- A decryption that is to be committed or dropped. -/
inductive RecordDecrypt where
  | deferred (ratchetKey : PublicKey) (chainKey : ChainKey) (plaintext : Bytes)
  | current (snapshot : DecryptSnapshot) (senderChainReset : Bool) (plaintext : Bytes)
  | previous (state : SessionState) (effect : StateDecryptEffect) (index : Nat) (plaintext : Bytes)

/-- The current state has decrypted the message. -/
def RecordDecrypt.ofCurrent (result : StateDecryptResult) : RecordDecrypt :=
  match result.effect with
  | .deferredChainKey ratchetKey chainKey => .deferred ratchetKey chainKey result.plaintext
  | .applied snapshot senderChainReset => .current snapshot senderChainReset result.plaintext

def isDuplicatedMessage : SignalProtocolError → Bool
  | .duplicatedMessage _ _ => true
  | _ => false

def isKeyAgreementFailure : SignalProtocolError → Bool
  | .keyAgreementFailed _ => true
  | _ => false

def isBadMac : SignalProtocolError → Bool
  | .badMac _ => true
  | _ => false

/-- What the errors of all candidates amount to: a replay, a local failure, a
message that is not authentic, or any other. -/
def verdict (errs : List SignalProtocolError) : SignalProtocolError :=
  match errs.find? isDuplicatedMessage with
  | some duplicated => duplicated
  | none =>
    match errs.find? isKeyAgreementFailure with
    | some refused => refused
    | none =>
      if errs.any isBadMac then .badMac originalMessageType
      else .invalidMessage originalMessageType "decryption failed"

/-- No other candidate is tried: the message is a replay that no other session can
have, or has been used up. -/
def isFinalError (available : Bool) (e : SignalProtocolError) : Bool :=
  if isDuplicatedMessage e then originalMessageType ≠ .whisper else !available

/-- The loop over the archived states from `idx` on. -/
def tryPreviousSessions (csprng : Nat → KeyPair) :
    Nat → Nat → List SignalProtocolError → SessionRecord →
      Except SignalProtocolError RecordDecrypt × SessionRecord
  | 0, _, errs, record => (.error (verdict originalMessageType errs), record)
  | remaining + 1, idx, errs, record =>
    match record.takePreviousSession idx with
    | none => (.error (verdict originalMessageType errs), record)
    | some (previous, taken) =>
      match (decryptMessageWithState C input originalMessageType (csprng (idx + 1))).exec
          ⟨previous, true⟩ with
      | (.ok result, attempt) =>
        (.ok (.previous attempt.state result.effect idx result.plaintext), taken)
      | (.error e, attempt) =>
        let record := taken.restorePreviousSession idx attempt.state
        if isFinalError originalMessageType attempt.available e then (.error e, record)
        else tryPreviousSessions csprng remaining (idx + 1) (errs ++ [e]) record

def decryptMessageWithRecord (csprng : Nat → KeyPair) (record : SessionRecord) :
    Except SignalProtocolError RecordDecrypt × SessionRecord :=
  let previousCount := record.previousSessions.length
  match record.currentSession with
  | none => tryPreviousSessions C input originalMessageType csprng previousCount 0 [] record
  | some currentState =>
    match (decryptMessageWithState C input originalMessageType (csprng 0)).exec
        ⟨currentState, true⟩ with
    | (.ok result, attempt) =>
      (.ok (.ofCurrent result), { record with currentSession := some attempt.state })
    | (.error e, attempt) =>
      let record := { record with currentSession := some attempt.state }
      if isFinalError originalMessageType attempt.available e then (.error e, record)
      else if originalMessageType = .preKey then (.error (verdict originalMessageType [e]), record)
      else tryPreviousSessions C input originalMessageType csprng previousCount 0 [e] record

end Decrypt

namespace RecordDecrypt

/-- The state that decrypted the message. -/
def state (record : SessionRecord) : RecordDecrypt → Option SessionState
  | deferred _ _ _ => record.currentSession
  | current _ _ _ => record.currentSession
  | previous state _ _ _ => some state

def usedPreviousSession : RecordDecrypt → Bool
  | previous _ _ _ _ => true
  | _ => false

/-- The current state, which a decryption on it leaves in place. -/
def expectCurrent (record : SessionRecord) : Except SignalProtocolError SessionState :=
  okOr record.currentSession
    (.invalidState "expect" "a current decrypt transaction keeps the current state installed")

def commit (C : Crypto) : RecordDecrypt → Eff SessionRecord SignalProtocolError Bytes
  | deferred ratchetKey chainKey plaintext => do
    let record ← get
    let state ← Eff.ofExcept (expectCurrent record)
    let state ← Eff.ofExcept (invalidSession (state.setReceiverChainKey ratchetKey chainKey))
    set { record with currentSession := some state.clearUnacknowledgedPreKeyMessage }
    pure plaintext
  | current _ senderChainReset plaintext => do
    let record ← get
    let state ← Eff.ofExcept (expectCurrent record)
    let record := { record with currentSession := some state.clearUnacknowledgedPreKeyMessage }
    set (if senderChainReset then record.rebaseLeaseAfterSenderChainReset else record)
    pure plaintext
  | previous state effect _ plaintext => do
    let record ← get
    let state ← Eff.ofExcept (invalidSession (effect.commit state))
    let state := state.clearUnacknowledgedPreKeyMessage
    -- a new sender chain has spent no counter, so the lease is not burned into it
    set (if effect.senderChainReset then record.promoteFreshState C state
      else record.promoteState C state)
    pure plaintext

/-- A decryption that is given up leaves the record as it was before. -/
def drop (record : SessionRecord) : RecordDecrypt → SessionRecord
  | deferred _ _ _ => record
  | current snapshot _ _ =>
    { record with currentSession := record.currentSession.map (·.restoreDecryptSnapshot snapshot) }
  | previous state effect index _ => record.restorePreviousSession index (effect.rollback state)

end RecordDecrypt

end WaCore.Signal
