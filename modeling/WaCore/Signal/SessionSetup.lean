import WaCore.Signal.SessionCipher

/-!
# Setting up a session

The key agreement a session starts from (`ratchet.rs`), and the processing of a
prekey message or a prekey bundle (`session.rs`), which calls the other stores of
the protocol.

A call of a store is asynchronous: it may fail, and it may be where the future of
the caller is dropped.  Both are ways to `Stop`.
-/

namespace WaCore.Signal

/-! ## Key agreement -/

structure AliceSignalProtocolParameters where
  ourIdentityKeyPair : KeyPair
  ourBaseKeyPair : KeyPair
  theirIdentityKey : IdentityKey
  theirSignedPreKey : PublicKey
  theirOneTimePreKey : Option PublicKey
  theirRatchetKey : PublicKey

structure BobSignalProtocolParameters where
  ourIdentityKeyPair : KeyPair
  ourSignedPreKeyPair : KeyPair
  ourOneTimePreKeyPair : Option KeyPair
  ourRatchetKeyPair : KeyPair
  theirIdentityKey : IdentityKey
  theirBaseKey : PublicKey

/-- `message_version` of `ratchet.rs`. -/
def SESSION_MESSAGE_VERSION : UInt8 := 3

/-- The secret of a session: the "discontinuity bytes" and the agreements. -/
def sessionSecret (agreements : List Key) : Bytes :=
  List.replicate 32 0xFF ++ agreements.flatMap (·.val)

section Initialize

variable (C : Crypto)

def initializeAliceSession (parameters : AliceSignalProtocolParameters)
    (sendingRatchetKey : KeyPair) : Except SignalProtocolError SessionState := do
  let ourBasePrivateKey := parameters.ourBaseKeyPair.privateKey
  let identity ←
    parameters.ourIdentityKeyPair.privateKey.calculateAgreement C parameters.theirSignedPreKey
  let base ← ourBasePrivateKey.calculateAgreement C parameters.theirIdentityKey
  let signed ← ourBasePrivateKey.calculateAgreement C parameters.theirSignedPreKey
  let oneTime ← parameters.theirOneTimePreKey.toList.mapM (ourBasePrivateKey.calculateAgreement C ·)
  let (rootKey, chainKey) := deriveKeys C (sessionSecret ([identity, base, signed] ++ oneTime))
  let (sendingChainRootKey, sendingChainChainKey) ←
    rootKey.createChain C parameters.theirRatchetKey sendingRatchetKey.privateKey
  let session := SessionState.new SESSION_MESSAGE_VERSION parameters.ourIdentityKeyPair.publicKey
    parameters.theirIdentityKey sendingChainRootKey parameters.ourBaseKeyPair.publicKey
  pure ((session.addReceiverChain parameters.theirRatchetKey chainKey).setSenderChain
    sendingRatchetKey sendingChainChainKey)

def initializeBobSession (parameters : BobSignalProtocolParameters) :
    Except SignalProtocolError SessionState := do
  let ourSignedPrivateKey := parameters.ourSignedPreKeyPair.privateKey
  let identity ← ourSignedPrivateKey.calculateAgreement C parameters.theirIdentityKey
  let base ←
    parameters.ourIdentityKeyPair.privateKey.calculateAgreement C parameters.theirBaseKey
  let signed ← ourSignedPrivateKey.calculateAgreement C parameters.theirBaseKey
  let oneTime ← parameters.ourOneTimePreKeyPair.toList.mapM
    (·.privateKey.calculateAgreement C parameters.theirBaseKey)
  let (rootKey, chainKey) := deriveKeys C (sessionSecret ([identity, base, signed] ++ oneTime))
  let session := SessionState.new SESSION_MESSAGE_VERSION parameters.ourIdentityKeyPair.publicKey
    parameters.theirIdentityKey rootKey parameters.theirBaseKey
  pure (session.setSenderChain parameters.ourRatchetKeyPair chainKey)

end Initialize

/-! ## Stores -/

/-- How an asynchronous call ends without a value. -/
inductive Stop where
  | error (e : SignalProtocolError)
  | dropped
  deriving DecidableEq, Repr

inductive Direction where
  | sending
  | receiving
  deriving DecidableEq, Repr

inductive IdentityChange where
  | newOrUnchanged
  | replacedExisting
  deriving DecidableEq, Repr

/-- The traits `IdentityKeyStore`, `PreKeyStore` and `SignedPreKeyStore`, as far as
sessions call them.  A prekey is read with its key pair. -/
structure ProtocolStores (σ : Type) where
  getIdentityKeyPair : Eff σ Stop KeyPair
  getLocalRegistrationId : Eff σ Stop UInt32
  saveIdentity : ProtocolAddress → IdentityKey → Eff σ Stop IdentityChange
  isTrustedIdentity : ProtocolAddress → IdentityKey → Direction → Eff σ Stop Bool
  getPreKey : UInt32 → Eff σ Stop KeyPair
  getSignedPreKey : UInt32 → Eff σ Stop KeyPair

/-- The stores, and the record a call works on. -/
structure Working (σ : Type) where
  stores : σ
  record : SessionRecord

namespace Working

variable {σ α : Type}

/-- Await a call of a store. -/
def await (m : Eff σ Stop α) : Eff (Working σ) Stop α := ExceptT.mk fun w =>
  match m.exec w.stores with
  | (result, stores) => (result, { w with stores := stores })

def onRecord (m : Eff SessionRecord SignalProtocolError α) : Eff (Working σ) Stop α :=
  ExceptT.mk fun w =>
    match m.exec w.record with
    | (result, record) => (result.mapError .error, { w with record := record })

end Working

/-- A result of the protocol in an asynchronous call. -/
def sync {σ α : Type} (r : Except SignalProtocolError α) : Eff σ Stop α :=
  Eff.ofExcept (r.mapError .error)

/-! ## Prekey messages -/

structure PreKeyBundle where
  registrationId : UInt32
  preKeyId : Option UInt32
  preKeyPublic : Option PublicKey
  signedPreKeyId : UInt32
  signedPreKeyPublic : PublicKey
  signedPreKeySignature : Bytes
  identityKey : IdentityKey

section Process

variable {σ : Type} (C : Crypto) (stores : ProtocolStores σ) (remoteAddress : ProtocolAddress)

/-- The one-time prekey that a message names, if it names one. -/
def oneTimePreKeyPair : Option UInt32 → Eff (Working σ) Stop (Option KeyPair)
  | none => pure none
  | some preKeyId => do
    let keyPair ← Working.await (stores.getPreKey preKeyId)
    pure (some keyPair)

/-- A new session for a prekey message. -/
def newBobSession (message : PreKeySignalMessage) : Eff (Working σ) Stop SessionState := do
  let ourSignedPreKeyPair ← Working.await (stores.getSignedPreKey message.signedPreKeyId)
  let ourOneTimePreKeyPair ← oneTimePreKeyPair stores message.preKeyId
  let ourIdentityKeyPair ← Working.await stores.getIdentityKeyPair
  let newSession ← sync (initializeBobSession C
    { ourIdentityKeyPair, ourSignedPreKeyPair, ourOneTimePreKeyPair
      ourRatchetKeyPair := ourSignedPreKeyPair
      theirIdentityKey := message.identityKey
      theirBaseKey := message.baseKey })
  let localRegistrationId ← Working.await stores.getLocalRegistrationId
  pure (newSession.setRegistrationIds localRegistrationId message.registrationId)

/-- The prekey that was used, and whether there was a session for the message. -/
def processPrekeyImpl (message : PreKeySignalMessage) :
    Eff (Working σ) Stop (Option UInt32 × Bool) := do
  let w ← get
  let (found, record) := w.record.promoteMatchingSession C message.messageVersion.toUInt32
    message.baseKey.serialize
  set { w with record := record }
  if found then pure (none, true)
  else
    let newSession ← newBobSession C stores message
    modify fun w => { w with record := w.record.promoteFreshState C newSession }
    pure (message.preKeyId, false)

def processPrekey (message : PreKeySignalMessage) : Eff (Working σ) Stop (Option UInt32 × Bool) := do
  let trusted ←
    Working.await (stores.isTrustedIdentity remoteAddress message.identityKey .receiving)
  if trusted then processPrekeyImpl C stores message
  else throw (.error (.untrustedIdentity remoteAddress))

/-! ## Prekey bundles -/

/-- The keys a new session of ours draws. -/
structure NewSessionKeys where
  baseKeyPair : KeyPair
  sendingRatchetKey : KeyPair

def processPrekeyBundleInner (bundle : PreKeyBundle) (csprng : NewSessionKeys) :
    Eff (Working σ) Stop IdentityChange := do
  let ourIdentityKeyPair ← Working.await stores.getIdentityKeyPair
  let session ← sync (initializeAliceSession C
    { ourIdentityKeyPair
      ourBaseKeyPair := csprng.baseKeyPair
      theirIdentityKey := bundle.identityKey
      theirSignedPreKey := bundle.signedPreKeyPublic
      theirOneTimePreKey := bundle.preKeyPublic
      theirRatchetKey := bundle.signedPreKeyPublic } csprng.sendingRatchetKey)
  let session := session.setUnacknowledgedPreKeyMessage bundle.preKeyId bundle.signedPreKeyId
    csprng.baseKeyPair.publicKey
  let localRegistrationId ← Working.await stores.getLocalRegistrationId
  let session := session.setRegistrationIds localRegistrationId bundle.registrationId
  let identityChange ← Working.await (stores.saveIdentity remoteAddress bundle.identityKey)
  modify fun w => { w with record := w.record.promoteFreshState C session }
  pure identityChange

end Process

end WaCore.Signal
