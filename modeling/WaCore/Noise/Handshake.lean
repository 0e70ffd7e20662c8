import WaCore.Noise.State

/-!
# The handshakes

The client's side of the three handshakes (`handshake.rs`): XX, IK for a server
whose static key is known, and XXfallback when the server does not accept an IK
hello.  The protobuf codec is a parameter.  A state that draws a random key pair
takes it as an argument.
-/

namespace WaCore.Noise

open Signal (Key PublicKey PrivateKey KeyPair SignalProtocolError)

/-! ## Messages -/

structure ClientHello where
  ephemeral : Option Bytes
  static : Option Bytes
  payload : Option Bytes
  deriving DecidableEq

structure ServerHello where
  ephemeral : Option Bytes
  static : Option Bytes
  payload : Option Bytes
  deriving DecidableEq

structure ClientFinish where
  static : Option Bytes
  payload : Option Bytes
  deriving DecidableEq

structure HandshakeMessage where
  clientHello : Option ClientHello
  serverHello : Option ServerHello
  clientFinish : Option ClientFinish
  deriving DecidableEq

structure NoiseCertificate where
  details : Option Bytes
  signature : Option Bytes

structure NoiseCertificateDetails where
  serial : Option UInt32
  issuerSerial : Option UInt32
  key : Option Bytes
  notBefore : Option UInt64
  notAfter : Option UInt64

structure CertChain where
  leaf : Option NoiseCertificate
  intermediate : Option NoiseCertificate

/-- `waproto::codec`. -/
structure HandshakeCodec where
  handshakeMessageToVec : HandshakeMessage → Bytes
  handshakeMessageDecode : Bytes → Except String HandshakeMessage
  certChainDecode : Bytes → Except String CertChain
  noiseCertificateDetailsDecode : Bytes → Except String NoiseCertificateDetails

/-! ## Certificates -/

def WA_CERT_ISSUER_SERIAL : Int := 0

def WA_CERT_PUB_KEY : Key :=
  ⟨[0x14, 0x23, 0x75, 0x57, 0x4d, 0x0a, 0x58, 0x71, 0x66, 0xaa, 0xe7, 0x1e, 0xbe, 0x51, 0x64, 0x37,
    0xc4, 0xa2, 0x8b, 0x73, 0xe3, 0x69, 0x5c, 0x6c, 0xe1, 0xf7, 0xf9, 0x54, 0x5d, 0xa8, 0xee, 0x6b],
    rfl⟩

inductive NoiseCertPolicy where
  | strict
  | dangerSkipCertChainVerify
  deriving DecidableEq, Repr

namespace NoiseCertPolicy

def skipSignatureCheck : NoiseCertPolicy → Bool
  | strict => false
  | dangerSkipCertChainVerify => true

end NoiseCertPolicy

structure VerifiedServerCertChain where
  intermediateKey : Key
  intermediateNotBefore : Int64
  intermediateNotAfter : Int64
  leafKey : Key
  leafNotBefore : Int64
  leafNotAfter : Int64
  deriving DecidableEq

inductive ChainAcceptance where
  | trusted (chain : VerifiedServerCertChain)
  | untrusted
  deriving DecidableEq

/-- The chain that may be handed out. -/
def ChainAcceptance.trustedChain : ChainAcceptance → Option VerifiedServerCertChain
  | trusted chain => some chain
  | untrusted => none

section Certificates

variable (P : NoiseProvider) (codec : HandshakeCodec)

def verifyCertStep (issuerKey : Key) (details : Bytes) (signature : Option Bytes) (label : String)
    (certPolicy : NoiseCertPolicy) : Except HandshakeError Unit :=
  if certPolicy.skipSignatureCheck then pure ()
  else do
    let signature ← okOr signature (.certVerification s!"Missing {label} signature")
    let pk ← (PublicKey.fromDjbPublicKeyBytes issuerKey.val).mapError fun _ =>
      .certVerification s!"Invalid {label} issuer key (not Djb/Curve25519)"
    if P.signal.verifySignature pk details signature then pure ()
    else throw (.certVerification s!"{label} signature failed XEdDSA verify")

/-- `Some(n)` or `None`. -/
def debugSerial : Option UInt32 → String
  | some n => s!"Some({n})"
  | none => "None"

def verifyChain (certDecrypted : Bytes) (staticDecrypted : Key) (certPolicy : NoiseCertPolicy) :
    Except HandshakeError ChainAcceptance := do
  let certChain ← (codec.certChainDecode certDecrypted).mapError .protoDecode
  let intermediate ← okOr certChain.intermediate (.certVerification "Missing intermediate cert")
  let leaf ← okOr certChain.leaf (.certVerification "Missing leaf cert")
  let intermediateDetailsBytes ←
    okOr intermediate.details (.certVerification "Missing intermediate details")
  let intermediateDetails ←
    (codec.noiseCertificateDetailsDecode intermediateDetailsBytes).mapError .protoDecode
  let issuerSerial := intermediateDetails.issuerSerial.getD 0
  ensure ((issuerSerial.toNat : Int) = WA_CERT_ISSUER_SERIAL) (.certVerification
    s!"Unexpected intermediate issuer serial: got {issuerSerial}, expected {WA_CERT_ISSUER_SERIAL}")
  let intermediatePkBytes := intermediateDetails.key.getD []
  ensure (!intermediatePkBytes.isEmpty) (.certVerification "Intermediate details missing key")
  let intermediateKey ← okOr (FixedBytes.ofBytes 32 intermediatePkBytes)
    (.certVerification "Intermediate details key is not 32 bytes")
  verifyCertStep P WA_CERT_PUB_KEY intermediateDetailsBytes intermediate.signature "intermediate"
    certPolicy
  let leafDetailsBytes ← okOr leaf.details (.certVerification "Missing leaf details")
  let leafDetails ← (codec.noiseCertificateDetailsDecode leafDetailsBytes).mapError .protoDecode
  ensure (leafDetails.issuerSerial = intermediateDetails.serial) (.certVerification
    (s!"Leaf issuer serial mismatch: got {debugSerial leafDetails.issuerSerial}"
      ++ s!", expected {debugSerial intermediateDetails.serial}"))
  ensure (leafDetails.key.getD [] = staticDecrypted.val)
    (.certVerification "Cert key does not match decrypted static key")
  verifyCertStep P intermediateKey leafDetailsBytes leaf.signature "leaf" certPolicy
  if certPolicy.skipSignatureCheck then pure .untrusted
  else pure (.trusted
    { intermediateKey
      intermediateNotBefore := (intermediateDetails.notBefore.getD 0).toInt64
      intermediateNotAfter := (intermediateDetails.notAfter.getD 0).toInt64
      leafKey := staticDecrypted
      leafNotBefore := (leafDetails.notBefore.getD 0).toInt64
      leafNotAfter := (leafDetails.notAfter.getD 0).toInt64 })

end Certificates

/-! ## Hellos -/

section Hellos

variable (codec : HandshakeCodec)

def buildClientHelloMessage (ephemeralKey : Bytes) : HandshakeMessage :=
  ⟨some ⟨some ephemeralKey, none, none⟩, none, none⟩

def buildIkClientHelloMessage (ephemeralKey encryptedStatic encryptedPayload : Bytes) :
    HandshakeMessage :=
  ⟨some ⟨some ephemeralKey, some encryptedStatic, some encryptedPayload⟩, none, none⟩

def buildClientFinishMessage (encryptedPubkey encryptedPayload : Bytes) : HandshakeMessage :=
  ⟨none, none, some ⟨some encryptedPubkey, some encryptedPayload⟩⟩

def parseServerHelloBody (responseBytes : Bytes) : Except HandshakeError ServerHello := do
  let handshakeResponse ← (codec.handshakeMessageDecode responseBytes).mapError .protoDecode
  let serverHello ← okOr handshakeResponse.serverHello .incompleteResponse
  match serverHello.ephemeral with
  | some ephemeral =>
    if ephemeral.length ≠ 32 then
      throw (.invalidLength "server ephemeral key" 32 ephemeral.length)
    else pure serverHello
  | none => pure serverHello

/-- The ephemeral, the encrypted static key and the encrypted certificate. -/
def parseServerHello (responseBytes : Bytes) : Except HandshakeError (Bytes × Bytes × Bytes) := do
  let serverHello ← parseServerHelloBody codec responseBytes
  let serverEphemeral ← okOr serverHello.ephemeral .incompleteResponse
  let serverStaticCiphertext ← okOr serverHello.static .incompleteResponse
  let certificateCiphertext ← okOr serverHello.payload .incompleteResponse
  pure (serverEphemeral, serverStaticCiphertext, certificateCiphertext)

end Hellos

structure XxHandshakeOutcome where
  writeCipher : NoiseCipher
  readCipher : NoiseCipher
  serverCertChain : Option VerifiedServerCertChain

structure IkHandshakeOutcome where
  writeCipher : NoiseCipher
  readCipher : NoiseCipher

/-! ## XX -/

def NOISE_PATTERN_XX : Bytes := Signal.label "Noise_XX_25519_AESGCM_SHA256\x00\x00\x00\x00"

def NOISE_PATTERN_IK : Bytes := Signal.label "Noise_IK_25519_AESGCM_SHA256\x00\x00\x00\x00"

def NOISE_PATTERN_XXFALLBACK : Bytes := Signal.label "Noise_XXfallback_25519_AESGCM_SHA256"

structure XxHandshakeState where
  noise : NoiseState
  ephemeralKp : KeyPair
  staticKp : KeyPair
  payload : Bytes
  certPolicy : NoiseCertPolicy
  certChain : Option ChainAcceptance

variable {noise : NoiseState} {responseBytes clientFinish : Bytes} {serverEphemeral : Key}

section Handshakes

variable (P : NoiseProvider) (codec : HandshakeCodec)

/-- The server hello and the answer to it, of XX and XXfallback; the verdict on the
chain stands beside the answer. -/
def processXxServerHelloInto (ephemeralKp staticKp : KeyPair) (payload : Bytes) (serverEphemeral : Key)
    (serverStaticCiphertext certificateCiphertext : Bytes) (certPolicy : NoiseCertPolicy) :
    Hs (Bytes × ChainAcceptance) := do
  NoiseHandshake.authenticate P serverEphemeral.val
  NoiseHandshake.mixSharedSecret P ephemeralKp.privateKey.serialize serverEphemeral.val
  let staticDecrypted ← NoiseHandshake.decrypt P serverStaticCiphertext
  let staticDecryptedArr ← Eff.ofExcept (okOr (FixedBytes.ofBytes 32 staticDecrypted) .invalidKeyLength)
  NoiseHandshake.mixSharedSecret P ephemeralKp.privateKey.serialize staticDecryptedArr.val
  let certDecrypted ← NoiseHandshake.decrypt P certificateCiphertext
  let chain ← Eff.ofExcept
    ((verifyChain P codec certDecrypted staticDecryptedArr certPolicy).mapError .verifyingServerCert)
  let encryptedPubkey ← NoiseHandshake.encrypt P staticKp.publicKey.key.val
  NoiseHandshake.mixSharedSecret P staticKp.privateKey.serialize serverEphemeral.val
  let encryptedPayload ← NoiseHandshake.encrypt P payload
  pure (codec.handshakeMessageToVec (buildClientFinishMessage encryptedPubkey encryptedPayload), chain)

/-- The server hello is parsed and answered from this state of the transcript on. -/
def AnswersHello (ephemeralKp staticKp : KeyPair) (payload : Bytes) (certPolicy : NoiseCertPolicy)
    (responseBytes : Bytes) (s : NoiseState) (clientFinish : Bytes) (chain : ChainAcceptance)
    (s' : NoiseState) : Prop :=
  ∃ (serverEphemeral : Key) (sc cc : Bytes),
    parseServerHello codec responseBytes = .ok (serverEphemeral.val, sc, cc)
      ∧ (processXxServerHelloInto P codec ephemeralKp staticKp payload serverEphemeral sc cc
        certPolicy).exec s = (.ok (clientFinish, chain), s')

def finishXxOutcome (noise : NoiseState) (certChain : Option ChainAcceptance) :
    Except HandshakeError XxHandshakeOutcome := do
  let serverCertChain ← match certChain with
    | some (.trusted chain) => pure (some chain)
    | some .untrusted => pure none
    | none => throw HandshakeError.incompleteResponse
  let (writeCipher, readCipher) ← NoiseHandshake.finish P noise
  pure ⟨writeCipher, readCipher, serverCertChain⟩

theorem finishXxOutcome_eq_ok {certChain : Option ChainAcceptance} {outcome : XxHandshakeOutcome} :
    finishXxOutcome P noise certChain = .ok outcome ↔ ∃ acceptance, certChain = some acceptance
      ∧ NoiseHandshake.finish P noise = .ok (outcome.writeCipher, outcome.readCipher)
      ∧ outcome.serverCertChain = acceptance.trustedChain := by
  obtain ⟨write, read, serverCertChain⟩ := outcome
  rcases hfinish : NoiseHandshake.finish P noise with _ | ⟨w, r⟩ <;>
    rcases certChain with _ | _ | _ <;>
    simp [finishXxOutcome, hfinish, pure, Except.pure, bind, Except.bind, throw, throwThe,
      ChainAcceptance.trustedChain, eq_comm, and_assoc]

namespace XxHandshakeState

def newWithCertPolicy (staticKp : KeyPair) (clientPayload prologue : Bytes)
    (certPolicy : NoiseCertPolicy) (ephemeralKp : KeyPair) : XxHandshakeState :=
  let noise := NoiseState.new P NOISE_PATTERN_XX prologue
  ⟨noise.authenticate P ephemeralKp.publicKey.key.val, ephemeralKp, staticKp, clientPayload, certPolicy,
    none⟩

def buildClientHello (s : XxHandshakeState) : Bytes :=
  codec.handshakeMessageToVec (buildClientHelloMessage s.ephemeralKp.publicKey.key.val)

def readServerHelloAndBuildClientFinish (s : XxHandshakeState) (responseBytes : Bytes) :
    Except HandshakeError (Bytes × XxHandshakeState) := do
  let (serverEphemeralRaw, serverStaticCiphertext, certificateCiphertext) ←
    (parseServerHello codec responseBytes).mapError .parsingServerHello
  let serverEphemeral ← okOr (FixedBytes.ofBytes 32 serverEphemeralRaw) .invalidKeyLength
  let (result, noise) := (processXxServerHelloInto P codec s.ephemeralKp s.staticKp s.payload
    serverEphemeral serverStaticCiphertext certificateCiphertext s.certPolicy).exec s.noise
  let (clientFinish, chain) ← result
  pure (clientFinish, { s with noise := noise, certChain := some chain })

variable {P codec} in
theorem readServerHelloAndBuildClientFinish_eq_ok {s s' : XxHandshakeState} :
    s.readServerHelloAndBuildClientFinish P codec responseBytes = .ok (clientFinish, s')
      ↔ ∃ chain noise, AnswersHello P codec s.ephemeralKp s.staticKp s.payload s.certPolicy
          responseBytes s.noise clientFinish chain noise
        ∧ s' = { s with noise := noise, certChain := some chain } := by
  constructor
  · intro h
    obtain ⟨⟨e, sc, cc⟩, hparse, h⟩ := bind_eq_ok.mp h
    obtain ⟨serverEphemeral, hephemeral, h⟩ := bind_eq_ok.mp h
    obtain ⟨⟨clientFinish', chain⟩, hresult, h⟩ := bind_eq_ok.mp h
    cases h
    obtain rfl := FixedBytes.val_of_ofBytes (okOr_eq_ok.mp hephemeral)
    exact ⟨chain, _, ⟨serverEphemeral, sc, cc, mapError_eq_ok.mp hparse, Prod.ext hresult rfl⟩, rfl⟩
  · rintro ⟨chain, noise, ⟨serverEphemeral, sc, cc, hparse, hexec⟩, rfl⟩
    simp [readServerHelloAndBuildClientFinish, hparse, Except.mapError, hexec]

def finish (s : XxHandshakeState) : Except HandshakeError XxHandshakeOutcome :=
  finishXxOutcome P s.noise s.certChain

end XxHandshakeState

/-! ## IK -/

end Handshakes

structure IkHandshakeState where
  noise : NoiseState
  ephemeralKp : KeyPair
  staticKp : KeyPair
  serverStaticPub : Key
  payload : Bytes

structure IkFallbackInputs where
  ephemeralKp : KeyPair
  staticKp : KeyPair
  clientPayload : Bytes
  serverHelloBytes : Bytes

inductive IkServerHelloOutcome where
  | «continue» (outcome : IkHandshakeOutcome)
  | fallback (inputs : IkFallbackInputs)

structure XxFallbackHandshakeState where
  noise : NoiseState
  ephemeralKp : KeyPair
  staticKp : KeyPair
  payload : Bytes
  serverHelloBytes : Bytes
  certPolicy : NoiseCertPolicy
  certChain : Option ChainAcceptance

section Resume

variable (P : NoiseProvider) (codec : HandshakeCodec)

namespace IkHandshakeState

def new (staticKp : KeyPair) (serverStaticPub : Key) (clientPayload prologue : Bytes)
    (ephemeralKp : KeyPair) : IkHandshakeState :=
  ⟨NoiseState.new P NOISE_PATTERN_IK prologue, ephemeralKp, staticKp, serverStaticPub, clientPayload⟩

/-- The operations of `build_client_hello`. -/
def writeClientHello (s : IkHandshakeState) : Hs Bytes := do
  NoiseHandshake.authenticate P s.serverStaticPub.val
  NoiseHandshake.authenticate P s.ephemeralKp.publicKey.key.val
  NoiseHandshake.mixSharedSecret P s.ephemeralKp.privateKey.serialize s.serverStaticPub.val
  let encryptedStatic ← NoiseHandshake.encrypt P s.staticKp.publicKey.key.val
  NoiseHandshake.mixSharedSecret P s.staticKp.privateKey.serialize s.serverStaticPub.val
  let encryptedPayload ← NoiseHandshake.encrypt P s.payload
  pure (codec.handshakeMessageToVec (buildIkClientHelloMessage s.ephemeralKp.publicKey.key.val
    encryptedStatic encryptedPayload))

def buildClientHello (s : IkHandshakeState) : Except HandshakeError (Bytes × IkHandshakeState) := do
  let (result, noise) := (s.writeClientHello P codec).exec s.noise
  let clientHello ← result
  pure (clientHello, { s with noise := noise })

variable {s : IkHandshakeState}

variable {P codec} in
theorem buildClientHello_of_exec {clientHello : Bytes}
    (h : (s.writeClientHello P codec).exec s.noise = (.ok clientHello, noise)) :
    s.buildClientHello P codec = .ok (clientHello, { s with noise := noise }) := by
  simp [buildClientHello, h]

/-- The operations that read an accepting hello. -/
def readAcceptingHello (s : IkHandshakeState) (serverEphemeral : Key) (certPayload : Bytes) :
    Hs Unit := do
  NoiseHandshake.authenticate P serverEphemeral.val
  NoiseHandshake.mixSharedSecret P s.ephemeralKp.privateKey.serialize serverEphemeral.val
  NoiseHandshake.mixSharedSecret P s.staticKp.privateKey.serialize serverEphemeral.val
  let _ ← NoiseHandshake.decrypt P certPayload

def readServerHello (s : IkHandshakeState) (responseBytes : Bytes) :
    Except HandshakeError IkServerHelloOutcome := do
  let serverHello ← parseServerHelloBody codec responseBytes
  if serverHello.static.isSome then
    pure (.fallback ⟨s.ephemeralKp, s.staticKp, s.payload, responseBytes⟩)
  else
    let serverEphemeral ← okOr serverHello.ephemeral .incompleteResponse
    let certPayload ← okOr serverHello.payload .incompleteResponse
    let serverEphemeral ← okOr (FixedBytes.ofBytes 32 serverEphemeral) .invalidKeyLength
    let (result, noise) := (s.readAcceptingHello P serverEphemeral certPayload).exec s.noise
    result
    let (writeCipher, readCipher) ← NoiseHandshake.finish P noise
    pure (.continue ⟨writeCipher, readCipher⟩)

variable {P codec} in
theorem readServerHello_of_exec {certPayload : Bytes}
    {write read : NoiseCipher}
    (hparse : parseServerHelloBody codec responseBytes = .ok ⟨some serverEphemeral.val, none, some
      certPayload⟩)
    (hexec : (s.readAcceptingHello P serverEphemeral certPayload).exec s.noise = (.ok (), noise))
    (hfinish : NoiseHandshake.finish P noise = .ok (write, read)) :
    s.readServerHello P codec responseBytes = .ok (.continue ⟨write, read⟩) := by
  refine bind_eq_ok.mpr ⟨_, hparse, ?_⟩
  refine (if_neg Bool.false_ne_true).trans ?_
  refine bind_eq_ok.mpr ⟨_, rfl, bind_eq_ok.mpr ⟨_, rfl, bind_eq_ok.mpr ⟨serverEphemeral, ?_, ?_⟩⟩⟩
  · exact okOr_eq_ok.mpr (FixedBytes.ofBytes_val _)
  · rw [hexec]
    exact bind_eq_ok.mpr ⟨(), rfl, bind_eq_ok.mpr ⟨_, hfinish, rfl⟩⟩

variable {P codec} in
theorem readServerHello_eq_fallback {inputs : IkFallbackInputs}
    (h : s.readServerHello P codec responseBytes = .ok (.fallback inputs)) :
    inputs = ⟨s.ephemeralKp, s.staticKp, s.payload, responseBytes⟩ := by
  obtain ⟨serverHello, hparse, h⟩ := bind_eq_ok.mp h
  split at h
  · cases h
    rfl
  · obtain ⟨ephemeral, -, h⟩ := bind_eq_ok.mp h
    obtain ⟨certPayload, -, h⟩ := bind_eq_ok.mp h
    obtain ⟨key, -, h⟩ := bind_eq_ok.mp h
    obtain ⟨u, -, h⟩ := bind_eq_ok.mp h
    obtain ⟨ciphers, -, h⟩ := bind_eq_ok.mp h
    cases h

end IkHandshakeState

/-! ## XXfallback -/

namespace XxFallbackHandshakeState

def fromIkFailureWithCertPolicy (inputs : IkFallbackInputs) (prologue : Bytes)
    (certPolicy : NoiseCertPolicy) : XxFallbackHandshakeState :=
  let noise := NoiseState.new P NOISE_PATTERN_XXFALLBACK prologue
  ⟨noise.authenticate P inputs.ephemeralKp.publicKey.key.val, inputs.ephemeralKp, inputs.staticKp,
    inputs.clientPayload, inputs.serverHelloBytes, certPolicy, none⟩

def buildClientFinish (s : XxFallbackHandshakeState) :
    Except HandshakeError (Bytes × XxFallbackHandshakeState) := do
  let (serverEphemeralRaw, serverStaticCiphertext, certificateCiphertext) ←
    (parseServerHello codec s.serverHelloBytes).mapError .parsingServerHello
  let serverEphemeral ← okOr (FixedBytes.ofBytes 32 serverEphemeralRaw) .invalidKeyLength
  let (result, noise) := (processXxServerHelloInto P codec s.ephemeralKp s.staticKp s.payload
    serverEphemeral serverStaticCiphertext certificateCiphertext s.certPolicy).exec s.noise
  let (clientFinish, chain) ← result
  pure (clientFinish, { s with noise := noise, certChain := some chain })

/-- The hello is answered as in XX. -/
theorem buildClientFinish_eq (s : XxFallbackHandshakeState) :
    s.buildClientFinish P codec = (XxHandshakeState.readServerHelloAndBuildClientFinish P codec
      ⟨s.noise, s.ephemeralKp, s.staticKp, s.payload, s.certPolicy, s.certChain⟩
        s.serverHelloBytes) >>= fun (clientFinish, xx) =>
          pure (clientFinish, { s with noise := xx.noise, certChain := xx.certChain }) := by
  simp only [buildClientFinish, XxHandshakeState.readServerHelloAndBuildClientFinish, bind_assoc,
    pure_bind]

def finish (s : XxFallbackHandshakeState) : Except HandshakeError XxHandshakeOutcome :=
  finishXxOutcome P s.noise s.certChain

end XxFallbackHandshakeState

end Resume

end WaCore.Noise
