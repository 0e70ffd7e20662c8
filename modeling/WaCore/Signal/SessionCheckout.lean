import WaCore.Signal.SessionSetup

/-!
# Session checkouts

A call takes its record out of the session store, works on it, and puts it back
(`SessionCheckout` in `storage/traits.rs`); the calls are `message_encrypt` and
`message_decrypt` (`session_cipher.rs`) and `process_prekey_bundle`
(`session.rs`).

When a future is dropped at an `await`, the guards it holds are dropped with it:
a decryption that is not committed is undone in the record, and then the
checkout puts the record back.
-/

namespace WaCore.Signal

/-! ## The session store -/

structure SessionCheckoutKey where
  generation : UInt64
  token : UInt64
  deriving DecidableEq, Repr

inductive SessionCheckoutStoreResult where
  | stored
  | rejected
  /-- The record is queued; the number is that of the flag that says whether it
  was stored. -/
  | pending (completion : Nat)
  | unhandled (record : SessionRecord)

/-- The trait `SessionStore`.  A load asks the synchronous hook first; both are one
call here. -/
structure SessionStore (τ : Type) where
  loadSessionForUpdate :
    ProtocolAddress → Eff τ Stop (Option SessionRecord × Option SessionCheckoutKey)
  storeSession : ProtocolAddress → SessionRecord → Eff τ Stop Unit
  tryStoreSessionFromCheckout : ProtocolAddress → SessionRecord → Option SessionCheckoutKey → Bool →
    τ → SessionCheckoutStoreResult × τ
  cancelSessionCheckout : ProtocolAddress → Option SessionCheckoutKey → τ → τ
  completeSessionCheckout : Eff τ Stop Unit
  isCompleted : Nat → τ → Bool

/-- The other stores and the session store. -/
structure World (σ τ : Type) where
  stores : σ
  sessions : τ

namespace World

variable {σ τ α : Type}

def onStores (m : Eff σ Stop α) : Eff (World σ τ) Stop α := ExceptT.mk fun w =>
  match m.exec w.stores with
  | (result, stores) => (result, { w with stores := stores })

def onSessions (m : Eff τ Stop α) : Eff (World σ τ) Stop α := ExceptT.mk fun w =>
  match m.exec w.sessions with
  | (result, sessions) => (result, { w with sessions := sessions })

def modifySessions (f : τ → τ) : Eff (World σ τ) Stop Unit :=
  modify fun w => { w with sessions := f w.sessions }

end World

/-- The future was dropped. -/
def isDropped {α : Type} : Except Stop α → Bool
  | .error .dropped => true
  | _ => false

/-! ## The checkout -/

inductive CheckoutDropRecovery where
  | working
  | restore (snapshot : SessionRecord)
  | discard

/-- What is left of a checkout while a call works on its record. -/
structure SessionCheckout where
  address : ProtocolAddress
  checkout : Option SessionCheckoutKey
  hadSession : Bool
  dropRecovery : CheckoutDropRecovery

def checkoutRejected : SignalProtocolError :=
  .invalidState "SessionCheckout::commit" "session changed during mutation"

namespace SessionCheckout

variable {τ : Type} (store : SessionStore τ)

def tryStore (session : SessionCheckout) (record : SessionRecord) (s : τ) :
    SessionCheckoutStoreResult × τ :=
  store.tryStoreSessionFromCheckout session.address record session.checkout session.hadSession s

def cancel (session : SessionCheckout) (s : τ) : τ :=
  store.cancelSessionCheckout session.address session.checkout s

/-- Put the record back.  The record is out of the checkout before the first
`await`, so that dropping the future there does not put it back again. -/
def commit (session : SessionCheckout) (record : SessionRecord) : Eff τ Stop Unit := do
  let s ← get
  let (result, s) := session.tryStore store record s
  set s
  match result with
  | .stored => pure ()
  | .rejected => throw (.error checkoutRejected)
  | .pending completion =>
    store.completeSessionCheckout
    let s ← get
    if store.isCompleted completion s then pure () else throw (.error checkoutRejected)
  | .unhandled record => store.storeSession session.address record

/-- `SessionCheckout::rollback`. -/
def rollback (session : SessionCheckout) (record : SessionRecord) : Eff τ Stop Unit :=
  match session.dropRecovery with
  | .restore snapshot => session.commit store snapshot
  | .discard => modify (session.cancel store)
  | .working => session.commit store record

/-- The record that a dropped checkout puts back, if it does. -/
def recovered (session : SessionCheckout) (record : SessionRecord) : Option SessionRecord :=
  let candidate := match session.dropRecovery with
    | .working => some record
    | .restore snapshot => some snapshot
    | .discard => none
  candidate.filter fun record => session.hadSession || record.currentSession.isSome

/-- The `Drop` of the checkout, which does not wait for the store. -/
def drop (session : SessionCheckout) (record : SessionRecord) (s : τ) : τ :=
  match session.recovered record with
  | some record => (session.tryStore store record s).2
  | none => session.cancel store s

/-- Work on the record, and then put it back as `finish` says; a future that is
dropped meanwhile drops the checkout. -/
def run {σ α : Type} (session : SessionCheckout) (record : SessionRecord)
    (work : Eff (Working σ) Stop α) (finish : Except Stop α → SessionRecord → Eff τ Stop Unit) :
    Eff (World σ τ) Stop α := do
  let w ← get
  let (result, working) := work.exec ⟨w.stores, record⟩
  set { w with stores := working.stores }
  if isDropped result then
    World.modifySessions (session.drop store working.record)
  else
    World.onSessions (finish result working.record)
  Eff.ofExcept result

end SessionCheckout

/-! ## The calls -/

/-- The text of an address. -/
def ProtocolAddress.asStr (address : ProtocolAddress) : String :=
  s!"{address.name}.{address.deviceId}"

structure DecryptionResult where
  plaintext : Bytes
  identityChange : IdentityChange
  consumedPrekeyId : Option UInt32
  deriving DecidableEq, Repr

section Calls

variable {σ τ : Type} (C : Crypto) (codec : SignalMessageCodec) (store : SessionStore τ)
  (stores : ProtocolStores σ) (remoteAddress : ProtocolAddress)

/-- Load a record that has to be there. -/
def loadCheckout : Eff (World σ τ) Stop (SessionCheckout × SessionRecord) := do
  let (found, checkout) ← World.onSessions (store.loadSessionForUpdate remoteAddress)
  match found with
  | none =>
    World.modifySessions (store.cancelSessionCheckout remoteAddress checkout)
    throw (.error (.sessionNotFound remoteAddress))
  | some record => pure (⟨remoteAddress, checkout, true, .working⟩, record)

def loadOrCreateCheckout : Eff (World σ τ) Stop (SessionCheckout × SessionRecord) := do
  let (found, checkout) ← World.onSessions (store.loadSessionForUpdate remoteAddress)
  pure (⟨remoteAddress, checkout, found.isSome, .working⟩, found.getD .newFresh)

/-! ### Encryption -/

/-- The message of a state, before the chain moves on. -/
def encryptWithState (state : SessionState) (theirIdentityKey : IdentityKey) (ptext : Bytes) :
    Except SignalProtocolError CiphertextMessage := do
  let chainKey ← invalidSession state.getSenderChainKey
  let (messageKeysGen, _) ← chainKey.stepWithMessageKeys C
  let messageKeys := messageKeysGen.generateKeys C
  let senderEphemeral ← invalidSession state.senderRatchetKey
  let localIdentityKey ← invalidSession state.localIdentityKey
  let ctext ← okOr (C.aes256CbcEncrypt messageKeys.cipherKey messageKeys.iv ptext)
    (.invalidSessionStructure "invalid sender chain message keys")
  let items ← invalidSession state.unacknowledgedPreKeyMessageItems
  let message := SignalMessage.new C codec state.version.toUInt8 messageKeys.macKey senderEphemeral
    chainKey.index state.previousCounter ctext localIdentityKey theirIdentityKey
  match items with
  | none => pure (.signalMessage message)
  | some items => pure (.preKeySignalMessage
      { messageVersion := state.version.toUInt8
        registrationId := state.localRegistrationId.getD 0
        preKeyId := items.preKeyId
        signedPreKeyId := items.signedPreKeyId
        baseKey := items.baseKey
        identityKey := localIdentityKey
        message })

/-- What is checked before the identity is. -/
def checkSender (state : SessionState) : Except SignalProtocolError IdentityKey := do
  let chainKey ← invalidSession state.getSenderChainKey
  let _ ← chainKey.stepWithMessageKeys C
  let _ ← invalidSession state.senderRatchetKey
  if state.version.toNat < 256 then
    let _ ← invalidSession state.localIdentityKey
    let remote ← invalidSession state.remoteIdentityKey
    okOr remote (.invalidState "message_encrypt"
      s!"no remote identity key for {remoteAddress.asStr}")
  else throw (.invalidSessionStructure "version does not fit in u8")

/-- The record once a message has been made. -/
def advanceSender (record : SessionRecord) (state : SessionState) :
    Except SignalProtocolError SessionRecord := do
  let chainKey ← invalidSession state.getSenderChainKey
  let (_, nextChainKey) ← chainKey.stepWithMessageKeys C
  let state ← invalidSession (state.setSenderChainKey nextChainKey)
  pure ({ record with currentSession := some state }.reserveSenderChainCounters chainKey.index)

def messageEncryptInner (ptext : Bytes) : Eff (Working σ) Stop CiphertextMessage := do
  let w ← get
  let state ← sync (okOr w.record.currentSession (.sessionNotFound remoteAddress))
  let theirIdentityKey ← sync (checkSender C remoteAddress state)
  let trusted ← Working.await (stores.isTrustedIdentity remoteAddress theirIdentityKey .sending)
  if trusted then
    let message ← sync (encryptWithState C codec state theirIdentityKey ptext)
    let _ ← Working.await (stores.saveIdentity remoteAddress theirIdentityKey)
    let record ← sync (advanceSender C w.record state)
    modify fun w => { w with record := record }
    pure message
  else throw (.error (.untrustedIdentity remoteAddress))

def messageEncrypt (ptext : Bytes) : Eff (World σ τ) Stop CiphertextMessage := do
  let (session, record) ← loadCheckout store remoteAddress
  session.run store record (messageEncryptInner C codec stores remoteAddress ptext)
    fun _ record => session.commit store record

/-! ### Decryption -/

/-- Await a call while a decryption waits to be committed. -/
def guarding {α : Type} (decrypt : RecordDecrypt) (m : Eff (Working σ) Stop α) :
    Eff (Working σ) Stop α :=
  Eff.onFailure (fun w => { w with record := decrypt.drop w.record }) m

/-- Decrypt with the record at hand. -/
def decryptRecord (input : SignalDecryptInput) (originalMessageType : CiphertextMessageType)
    (csprng : Nat → KeyPair) : Eff (Working σ) Stop RecordDecrypt := do
  let w ← get
  let (result, record) := decryptMessageWithRecord C input originalMessageType csprng w.record
  set { w with record := record }
  sync result

/-- The identity of the state that decrypted a message. -/
def decryptedIdentity (decrypt : RecordDecrypt) (record : SessionRecord) :
    Except SignalProtocolError IdentityKey := do
  let expected := SignalProtocolError.invalidState "expect"
    "successfully decrypted; must have a remote identity key"
  let state ← okOr (decrypt.state record) expected
  let remote ← state.remoteIdentityKey.mapError fun _ => expected
  okOr remote expected

/-- Save the identity of an archived session, or check and save the one of the
current session. -/
def updateIdentity (decrypt : RecordDecrypt) : Eff (Working σ) Stop IdentityChange := do
  let w ← get
  let theirIdentityKey ← sync (decryptedIdentity decrypt w.record)
  if decrypt.usedPreviousSession then
    let _ ← Working.await (stores.saveIdentity remoteAddress theirIdentityKey)
    pure .newOrUnchanged
  else
    let trusted ← Working.await (stores.isTrustedIdentity remoteAddress theirIdentityKey .receiving)
    if trusted then Working.await (stores.saveIdentity remoteAddress theirIdentityKey)
    else throw (.error (.untrustedIdentity remoteAddress))

def messageDecryptSignalInner (input : SignalDecryptInput) (csprng : Nat → KeyPair) :
    Eff (Working σ) Stop DecryptionResult := do
  let w ← get
  if w.record.currentSession.isNone && w.record.previousSessions.isEmpty then
    throw (.error (.sessionNotFound remoteAddress))
  else
    let decrypt ← decryptRecord C input .whisper csprng
    let identityChange ← guarding decrypt (updateIdentity stores remoteAddress decrypt)
    let plaintext ← Working.onRecord (decrypt.commit C)
    pure ⟨plaintext, identityChange, none⟩

def messageDecryptSignalInput (input : SignalDecryptInput) (csprng : Nat → KeyPair) :
    Eff (World σ τ) Stop DecryptionResult := do
  let (session, record) ← loadCheckout store remoteAddress
  session.run store record (messageDecryptSignalInner C stores remoteAddress input csprng)
    fun _ record => session.commit store record

def messageDecryptPrekeyInner (message : PreKeySignalMessage) (owned : Bool)
    (csprng : Nat → KeyPair) : Eff (Working σ) Stop DecryptionResult := do
  let (preKeyUsed, reusedExistingSession) ← processPrekey C stores remoteAddress message
  let decrypt ← decryptRecord C ⟨message.message, owned⟩ .preKey csprng
  let saved ← guarding decrypt
    (Working.await (stores.saveIdentity remoteAddress message.identityKey))
  let plaintext ← Working.onRecord (decrypt.commit C)
  pure ⟨plaintext, if reusedExistingSession then .newOrUnchanged else saved, preKeyUsed⟩

/-- The session is put back as it was unless the message is decrypted. -/
def messageDecryptPrekeyInput (message : PreKeySignalMessage) (owned : Bool)
    (csprng : Nat → KeyPair) : Eff (World σ τ) Stop DecryptionResult := do
  let (session, record) ← loadOrCreateCheckout store remoteAddress
  let session := { session with
    dropRecovery := if session.hadSession then .restore record else .discard }
  session.run store record (messageDecryptPrekeyInner C stores remoteAddress message owned csprng)
    fun result record =>
      if result.isOk then session.commit store record else session.rollback store record

def messageDecrypt (ciphertext : CiphertextMessage) (csprng : Nat → KeyPair) :
    Eff (World σ τ) Stop DecryptionResult :=
  match ciphertext with
  | .signalMessage m => messageDecryptSignalInput C store stores remoteAddress ⟨m, false⟩ csprng
  | .preKeySignalMessage m => messageDecryptPrekeyInput C store stores remoteAddress m false csprng
  | .senderKeyMessage => throw (.error
      (.invalidArgument "message_decrypt cannot be used to decrypt SenderKey messages"))
  | .plaintextContent => throw (.error
      (.invalidArgument "message_decrypt cannot be used to decrypt Plaintext messages"))

/-- The envelope is `none` once it has been used up. -/
def messageDecryptOwned (ciphertext : Option CiphertextMessage) (csprng : Nat → KeyPair) :
    Eff (World σ τ) Stop DecryptionResult :=
  match ciphertext with
  | some (.signalMessage m) =>
    messageDecryptSignalInput C store stores remoteAddress ⟨m, true⟩ csprng
  | some (.preKeySignalMessage m) =>
    messageDecryptPrekeyInput C store stores remoteAddress m true csprng
  | some .senderKeyMessage => throw (.error
      (.invalidArgument "message_decrypt_owned cannot decrypt SenderKey messages"))
  | some .plaintextContent => throw (.error
      (.invalidArgument "message_decrypt_owned cannot decrypt Plaintext messages"))
  | none => throw (.error (.invalidArgument "owned ciphertext was already consumed"))

/-! ### Prekey bundles -/

/-- A new session that fails is not stored. -/
def processPrekeyBundle (bundle : PreKeyBundle) (csprng : NewSessionKeys) :
    Eff (World σ τ) Stop IdentityChange := do
  let trusted ←
    World.onStores (stores.isTrustedIdentity remoteAddress bundle.identityKey .sending)
  if !trusted then throw (.error (.untrustedIdentity remoteAddress))
  else if !C.verifySignature bundle.identityKey bundle.signedPreKeyPublic.serialize
      bundle.signedPreKeySignature then
    throw (.error .signatureValidationFailed)
  else
    let (session, record) ← loadOrCreateCheckout store remoteAddress
    session.run store record (processPrekeyBundleInner C stores remoteAddress bundle csprng)
      fun result record =>
        if session.hadSession || result.isOk then session.commit store record
        else modify (session.cancel store)

end Calls

end WaCore.Signal
