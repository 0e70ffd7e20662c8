import WaCore.Lib.Layout
import WaCore.Noise.Exchange
import WaCore.Noise.Handover

/-!
# The certificate chain of a handshake

What stands behind a chain that a handshake returns, whatever the server has sent:
signatures from the pinned key down to the static key, and that key was decrypted
in the transcript of the same handshake.
-/

namespace WaCore.Noise

open Eff
open Signal (Key PublicKey PrivateKey KeyPair)

/-! ## Chains -/

/-- The signed parts of a certificate chain, and what they say. -/
structure CertParts where
  intermediate : Bytes
  intermediateSignature : Bytes
  intermediateDetails : NoiseCertificateDetails
  leaf : Bytes
  leafSignature : Bytes
  leafDetails : NoiseCertificateDetails

/-- The certificate is a chain from the pinned key down to this static key. -/
structure CertParts.Signed (parts : CertParts) (P : NoiseProvider) (codec : HandshakeCodec)
    (certificate : Bytes) (static : Key) (chain : VerifiedServerCertChain) : Prop where
  decoded : codec.certChainDecode certificate
    = .ok ⟨some ⟨some parts.leaf, some parts.leafSignature⟩,
        some ⟨some parts.intermediate, some parts.intermediateSignature⟩⟩
  intermediateDecoded :
    codec.noiseCertificateDetailsDecode parts.intermediate = .ok parts.intermediateDetails
  leafDecoded : codec.noiseCertificateDetailsDecode parts.leaf = .ok parts.leafDetails
  intermediateSigned :
    P.signal.verifySignature ⟨WA_CERT_PUB_KEY⟩ parts.intermediate parts.intermediateSignature = true
  intermediateKey : parts.intermediateDetails.key = some chain.intermediateKey.val
  leafSigned :
    P.signal.verifySignature ⟨chain.intermediateKey⟩ parts.leaf parts.leafSignature = true
  serial : parts.leafDetails.issuerSerial = parts.intermediateDetails.serial
  leafKey : parts.leafDetails.key = some static.val
  chainKey : chain.leafKey = static

variable {certPolicy : NoiseCertPolicy} {clientFinish : Bytes}

section Verify

variable {P : NoiseProvider} {codec : HandshakeCodec}

theorem verifyCertStep_strict {issuerKey : Key} {details : Bytes} {signature : Option Bytes}
    {what : String} (h : verifyCertStep P issuerKey details signature what .strict = .ok ()) :
    ∃ bytes, signature = some bytes ∧ P.signal.verifySignature ⟨issuerKey⟩ details bytes = true := by
  obtain ⟨bytes, hbytes, h⟩ := bind_eq_ok.mp h
  obtain ⟨pk, hpk, h⟩ := bind_eq_ok.mp h
  obtain rfl : ⟨issuerKey⟩ = pk := by
    simpa [PublicKey.fromDjbPublicKeyBytes, Except.mapError] using hpk
  refine ⟨bytes, okOr_eq_ok.mp hbytes, ?_⟩
  by_contra hverify
  rw [if_neg hverify] at h
  cases h

theorem key_of_getD {key : Option Bytes} {static : Key} (h : key.getD [] = static.val) :
    key = some static.val := by
  cases key with
  | none =>
    have hlength := congrArg List.length h
    rw [static.property] at hlength
    cases hlength
  | some bytes => exact congrArg some h

/-- A trusted chain is signed, and the policy checks signatures. -/
theorem signed_of_verifyChain {certificate : Bytes} {static : Key} {chain : VerifiedServerCertChain}
    (h : verifyChain P codec certificate static certPolicy = .ok (.trusted chain)) :
    certPolicy = .strict ∧ ∃ parts : CertParts, parts.Signed P codec certificate static chain := by
  obtain ⟨certChain, hdecoded, h⟩ := bind_eq_ok.mp h
  obtain ⟨intermediate, hintermediate, h⟩ := bind_eq_ok.mp h
  obtain ⟨leaf, hleaf, h⟩ := bind_eq_ok.mp h
  obtain ⟨iBytes, hiBytes, h⟩ := bind_eq_ok.mp h
  obtain ⟨iDetails, hiDetails, h⟩ := bind_eq_ok.mp h
  obtain ⟨-, -, h⟩ := bind_eq_ok.mp h
  obtain ⟨-, -, h⟩ := bind_eq_ok.mp h
  obtain ⟨intermediateKey, hkey, h⟩ := bind_eq_ok.mp h
  obtain ⟨_, hiSigned, h⟩ := bind_eq_ok.mp h
  obtain ⟨lBytes, hlBytes, h⟩ := bind_eq_ok.mp h
  obtain ⟨lDetails, hlDetails, h⟩ := bind_eq_ok.mp h
  obtain ⟨_, hserial, h⟩ := bind_eq_ok.mp h
  obtain ⟨_, hstatic, h⟩ := bind_eq_ok.mp h
  obtain ⟨_, hlSigned, h⟩ := bind_eq_ok.mp h
  cases certPolicy with
  | dangerSkipCertChainVerify => cases h
  | strict =>
    refine ⟨rfl, ?_⟩
    cases h
    obtain ⟨iSignature, hiSignature, hiVerified⟩ := verifyCertStep_strict hiSigned
    obtain ⟨lSignature, hlSignature, hlVerified⟩ := verifyCertStep_strict hlSigned
    refine ⟨⟨iBytes, iSignature, iDetails, lBytes, lSignature, lDetails⟩, ?_,
      mapError_eq_ok.mp hiDetails, mapError_eq_ok.mp hlDetails, hiVerified, ?_, hlVerified, ?_, ?_, rfl⟩
    · obtain ⟨leaf', intermediate'⟩ := certChain
      obtain ⟨iDetails', iSignature'⟩ := intermediate
      obtain ⟨lDetails', lSignature'⟩ := leaf
      simp only [okOr_eq_ok] at hintermediate hleaf hiBytes hlBytes
      dsimp only at hiSignature hlSignature
      rw [mapError_eq_ok.mp hdecoded, hintermediate, hleaf, hiBytes, hlBytes, hiSignature,
        hlSignature]
    · exact key_of_getD (FixedBytes.val_of_ofBytes (okOr_eq_ok.mp hkey)).symm
    · exact of_decide_eq_true (ensure_eq_ok.mp hserial)
    · exact key_of_getD (of_decide_eq_true (ensure_eq_ok.mp hstatic))

end Verify

/-! ## Transcripts -/

section Transcript

variable (P : NoiseProvider)

/-- Read the static key of a server hello. -/
def readStatic (ephemeralKp : KeyPair) (ephemeral : Key) (sc : Bytes) : Hs Bytes := do
  NoiseHandshake.authenticate P ephemeral.val
  NoiseHandshake.mixSharedSecret P ephemeralKp.privateKey.serialize ephemeral.val
  NoiseHandshake.decrypt P sc

/-- Read the certificate behind it. -/
def readCertificate (ephemeralKp : KeyPair) (static : Key) (cc : Bytes) : Hs Bytes := do
  NoiseHandshake.mixSharedSecret P ephemeralKp.privateKey.serialize static.val
  NoiseHandshake.decrypt P cc

/-- From this state of the transcript on, the hello decrypts to the static key and
the certificate. -/
def Decrypts (ephemeralKp : KeyPair) (s : NoiseState) (ephemeral : Key) (sc cc : Bytes) (static : Key)
    (certificate : Bytes) : Prop :=
  ∃ s₁ s₂, (readStatic P ephemeralKp ephemeral sc).exec s = (.ok static.val, s₁)
    ∧ (readCertificate P ephemeralKp static cc).exec s₁ = (.ok certificate, s₂)

variable {P} {codec : HandshakeCodec}

/-- The verdict on a chain is about the key and the certificate of this transcript. -/
theorem decrypted_of_processXx {ephemeralKp staticKp : KeyPair} {payload sc cc : Bytes}
    {ephemeral : Key} {acceptance : ChainAcceptance} {s s' : NoiseState}
    (h : (processXxServerHelloInto P codec ephemeralKp staticKp payload ephemeral sc cc
      certPolicy).exec s = (.ok (clientFinish, acceptance), s')) :
    ∃ static certificate, Decrypts P ephemeralKp s ephemeral sc cc static certificate
      ∧ verifyChain P codec certificate static certPolicy = .ok acceptance := by
  obtain ⟨_, s₁, hauth, h⟩ := exec_bind_eq_ok.mp h
  obtain ⟨_, s₂, hmix, h⟩ := exec_bind_eq_ok.mp h
  obtain ⟨plain, s₃, hplain, h⟩ := exec_bind_eq_ok.mp h
  obtain ⟨static, s₄, hstatic, h⟩ := exec_bind_eq_ok.mp h
  obtain ⟨_, s₅, hmix', h⟩ := exec_bind_eq_ok.mp h
  obtain ⟨certificate, s₆, hcertificate, h⟩ := exec_bind_eq_ok.mp h
  obtain ⟨acceptance', s₇, hchain, h⟩ := exec_bind_eq_ok.mp h
  obtain ⟨encryptedPubkey, s₈, hpubkey, h⟩ := exec_bind_eq_ok.mp h
  obtain ⟨_, s₉, hmix'', h⟩ := exec_bind_eq_ok.mp h
  obtain ⟨encryptedPayload, s₁₀, hpayload, h⟩ := exec_bind_eq_ok.mp h
  obtain ⟨hfinish, -⟩ := Prod.mk.inj h
  obtain ⟨-, rfl⟩ := Prod.mk.inj (Except.ok.inj hfinish)
  obtain ⟨hbytes, rfl⟩ := Prod.mk.inj hstatic
  obtain ⟨hverify, rfl⟩ := Prod.mk.inj hchain
  have hplain' := FixedBytes.val_of_ofBytes (okOr_eq_ok.mp hbytes)
  refine ⟨static, certificate, ⟨s₃, s₆, ?_, ?_⟩, mapError_eq_ok.mp hverify⟩
  · rw [readStatic, exec_bind_ok hauth, exec_bind_ok hmix, hplain, hplain']
  · rw [readCertificate, exec_bind_ok hmix', hcertificate]

end Transcript

/-! ## Runs -/

section Runs

variable {P : NoiseProvider} {codec : HandshakeCodec} {transport : Transport}

/-- What a returned chain rests on: signatures were checked, the hello was decrypted
from this state of the transcript on, and the chain is signed down to its key. -/
def Endorsed (P : NoiseProvider) (codec : HandshakeCodec) (certPolicy : NoiseCertPolicy)
    (ephemeralKp : KeyPair) (s : NoiseState) (respFrame : Bytes) (chain : VerifiedServerCertChain) :
    Prop :=
  certPolicy = .strict ∧ ∃ (ephemeral : Key) (sc cc certificate : Bytes) (static : Key)
      (parts : CertParts), parseServerHello codec respFrame = .ok (ephemeral.val, sc, cc)
    ∧ Decrypts P ephemeralKp s ephemeral sc cc static certificate
    ∧ parts.Signed P codec certificate static chain

theorem endorsed_of_answersHello {ephemeralKp staticKp : KeyPair} {respFrame payload : Bytes}
    {acceptance : ChainAcceptance} {chain : VerifiedServerCertChain} {s s' : NoiseState}
    (h : AnswersHello P codec ephemeralKp staticKp payload certPolicy respFrame s clientFinish
      acceptance s')
    (hchain : acceptance.trustedChain = some chain) :
    Endorsed P codec certPolicy ephemeralKp s respFrame chain := by
  obtain ⟨ephemeral, sc, cc, hparse, hexec⟩ := h
  obtain ⟨static, certificate, hdecrypts, hverify⟩ := decrypted_of_processXx hexec
  cases acceptance with
  | untrusted => cases hchain
  | trusted chain' =>
    obtain rfl : chain' = chain := Option.some.inj hchain
    obtain ⟨hpolicy, parts, hparts⟩ := signed_of_verifyChain hverify
    exact ⟨hpolicy, ephemeral, sc, cc, certificate, static, parts, hparse, hdecrypts, hparts⟩

theorem finishHandshake_eq_ok {noise : NoiseState} {certChain : Option ChainAcceptance}
    {success : HandshakeSuccess}
    (h : finishHandshake transport clientFinish (finishXxOutcome P noise certChain) = .ok success) :
    ∃ acceptance, certChain = some acceptance
      ∧ success.serverCertChain = acceptance.trustedChain := by
  obtain ⟨_, -, h⟩ := bind_eq_ok.mp h
  obtain ⟨outcome, houtcome, h⟩ := bind_eq_ok.mp h
  cases h
  obtain ⟨acceptance, hsome, -, hchain⟩ :=
    (finishXxOutcome_eq_ok P).mp (mapError_eq_ok.mp houtcome)
  exact ⟨acceptance, hsome, hchain⟩

/-- The state of the transcript before the server hello, in the handshakes that read
a certificate. -/
def transcriptStart (P : NoiseProvider) (ephemeralKp : KeyPair) (pattern : HandshakePattern) :
    NoiseState :=
  let name := match pattern with
    | .xx => NOISE_PATTERN_XX
    | .ik _ => NOISE_PATTERN_XXFALLBACK
  (NoiseState.new P name WA_CONN_HEADER).authenticate P ephemeralKp.publicKey.key.val

variable {grow : Grow} {device : Device} {certPolicy : NoiseCertPolicy} {ephemeralKp : KeyPair}
  {events rest : List TransportEvent} {success : HandshakeSuccess} {chain : VerifiedServerCertChain}

/-- Whatever a server has sent, a chain that a handshake returns is endorsed. -/
theorem endorsed_of_runHandshake {pattern : HandshakePattern}
    (h : runHandshake P codec grow transport device certPolicy ephemeralKp pattern events
      = .ok (success, rest))
    (hchain : success.serverCertChain = some chain) :
    ∃ respFrame d, recvFrame grow transport events .new = .ok (respFrame, d, rest)
      ∧ Endorsed P codec certPolicy ephemeralKp (transcriptStart P ephemeralKp pattern) respFrame
          chain := by
  cases pattern with
  | xx =>
    obtain ⟨_, -, h⟩ := bind_eq_ok.mp h
    obtain ⟨⟨respFrame, d, rest'⟩, hrecv, h⟩ := bind_eq_ok.mp h
    obtain ⟨⟨clientFinish, s⟩, hread, h⟩ := bind_eq_ok.mp h
    obtain ⟨success', hfinish, h⟩ := bind_eq_ok.mp h
    cases h
    obtain ⟨acceptance, noise, hanswers, rfl⟩ :=
      XxHandshakeState.readServerHelloAndBuildClientFinish_eq_ok.mp (mapError_eq_ok.mp hread)
    obtain ⟨acceptance', hsome, haccept⟩ := finishHandshake_eq_ok hfinish
    cases hsome
    rw [haccept] at hchain
    exact ⟨respFrame, d, hrecv, endorsed_of_answersHello hanswers hchain⟩
  | ik serverStaticPub =>
    obtain ⟨⟨clientHello, ik⟩, hhello, h⟩ := bind_eq_ok.mp h
    obtain ⟨_, -, h⟩ := bind_eq_ok.mp h
    obtain ⟨⟨respFrame, d, rest'⟩, hrecv, h⟩ := bind_eq_ok.mp h
    obtain ⟨success', hresume, h⟩ := bind_eq_ok.mp h
    cases h
    obtain ⟨outcome, hanswer, hresume⟩ := bind_eq_ok.mp hresume
    cases outcome with
    | «continue» out =>
      cases hresume
      cases hchain
    | fallback inputs =>
      obtain ⟨⟨clientFinish, fb⟩, hbuild, hfinish⟩ := bind_eq_ok.mp hresume
      rw [mapError_eq_ok, XxFallbackHandshakeState.buildClientFinish_eq] at hbuild
      obtain ⟨⟨clientFinish, xx⟩, hread, hbuild⟩ := bind_eq_ok.mp hbuild
      cases hbuild
      obtain ⟨acceptance, noise, hanswers, rfl⟩ :=
        XxHandshakeState.readServerHelloAndBuildClientFinish_eq_ok.mp hread
      obtain ⟨acceptance', hsome, haccept⟩ := finishHandshake_eq_ok hfinish
      cases hsome
      rw [haccept] at hchain
      obtain rfl := IkHandshakeState.readServerHello_eq_fallback (mapError_eq_ok.mp hanswer)
      have hephemeral : ik.ephemeralKp = ephemeralKp := by
        obtain ⟨hello', -, hik⟩ := bind_eq_ok.mp (mapError_eq_ok.mp hhello)
        cases hik
        rfl
      have hendorsed := endorsed_of_answersHello hanswers hchain
      rw [← hephemeral]
      exact ⟨respFrame, d, hrecv, hendorsed⟩

end Runs

/-! ## Agreement and certificates -/

/-- Against a responder with a valid chain the three handshakes complete, and both
ends agree.  Whatever a server sends, a chain that a handshake returns is endorsed. -/
theorem handshakes_agree (P : NoiseProvider) (codec : HandshakeCodec) :
    (P.Ideal → codec.Lawful → ∀ (self : Responder) (static eph : PrivateKey)
        (payload prologue : Bytes) (certPolicy : NoiseCertPolicy) (chain : ChainAcceptance)
        (known : Key),
      verifyChain P codec self.certificate (P.publicKey self.static).key certPolicy = .ok chain →
      (∃ outcome learned,
        exchangeXx P codec self static eph payload prologue certPolicy = some (outcome, learned)
          ∧ Agreed P static payload outcome.writeCipher outcome.readCipher learned)
      ∧ (∃ outcome learned,
        exchangeIk P codec self static eph payload prologue = some (outcome, learned)
          ∧ Agreed P static payload outcome.writeCipher outcome.readCipher learned)
      ∧ ∃ outcome learned,
        exchangeFallback P codec self static eph payload prologue certPolicy known
            = some (outcome, learned)
          ∧ Agreed P static payload outcome.writeCipher outcome.readCipher learned)
    ∧ ∀ (grow : Grow) (transport : Transport) (device : Device) (certPolicy : NoiseCertPolicy)
        (ephemeralKp : KeyPair) (pattern : HandshakePattern) (events rest : List TransportEvent)
        (success : HandshakeSuccess) (chain : VerifiedServerCertChain),
      runHandshake P codec grow transport device certPolicy ephemeralKp pattern events
        = .ok (success, rest) →
      success.serverCertChain = some chain →
      ∃ respFrame d, recvFrame grow transport events .new = .ok (respFrame, d, rest)
        ∧ Endorsed P codec certPolicy ephemeralKp (transcriptStart P ephemeralKp pattern) respFrame
            chain := by
  constructor
  · intro hP hcodec self static eph payload prologue certPolicy chain known hchain
    exact ⟨exchangeXx_agrees self static eph payload prologue hP hcodec hchain,
      exchangeIk_agrees self static eph payload prologue hP hcodec,
      exchangeFallback_agrees self static eph payload prologue hP hcodec known hchain⟩
  · intro grow transport device certPolicy ephemeralKp pattern events rest success chain hrun hchain
    exact endorsed_of_runHandshake hrun hchain

theorem ideal_transparent : NoiseProvider.transparent.Ideal where
  dh_total _ _ := ⟨_, rfl⟩
  dh_symmetric _ _ := ⟨_, rfl, rfl⟩
  hkdf_total _ _ := ⟨_, rfl⟩
  decrypt_encrypt _ _ _ m := ⟨m, rfl, rfl⟩
  transportAead_total _ := ⟨_, rfl⟩

def ClientHello.layout : Layout ClientHello :=
  (Layout.pair (.option .bytes) <| .pair (.option .bytes) (.option .bytes)).map
    (fun hello => (hello.ephemeral, hello.static, hello.payload))
    (fun (ephemeral, static, payload) => ⟨ephemeral, static, payload⟩) fun _ => rfl

def ServerHello.layout : Layout ServerHello :=
  (Layout.pair (.option .bytes) <| .pair (.option .bytes) (.option .bytes)).map
    (fun hello => (hello.ephemeral, hello.static, hello.payload))
    (fun (ephemeral, static, payload) => ⟨ephemeral, static, payload⟩) fun _ => rfl

def ClientFinish.layout : Layout ClientFinish :=
  (Layout.pair (.option .bytes) (.option .bytes)).map (fun finish => (finish.static, finish.payload))
    (fun (static, payload) => ⟨static, payload⟩) fun _ => rfl

def HandshakeMessage.layout : Layout HandshakeMessage :=
  (Layout.pair (.option ClientHello.layout) <| .pair (.option ServerHello.layout)
    (.option ClientFinish.layout)).map (fun m => (m.clientHello, m.serverHello, m.clientFinish))
    (fun (clientHello, serverHello, clientFinish) => ⟨clientHello, serverHello, clientFinish⟩)
    fun _ => rfl

/-- A message is its fields one by one; each certificate is signed, and the leaf has the
key of threes. -/
def HandshakeCodec.fieldwise : HandshakeCodec where
  handshakeMessageToVec := HandshakeMessage.layout.put
  handshakeMessageDecode bytes := okOr (HandshakeMessage.layout.decode bytes) "no message"
  certChainDecode _ := .ok ⟨some ⟨some [1], some []⟩, some ⟨some [], some []⟩⟩
  noiseCertificateDetailsDecode bytes :=
    .ok ⟨none, none, some (List.replicate 32 (if bytes = [] then 5 else 3)), none, none⟩

theorem lawful_fieldwise : HandshakeCodec.fieldwise.Lawful := fun m => by
  simp [HandshakeCodec.fieldwise]

/-- The same, and every frame is a server hello with the static key of threes. -/
def HandshakeCodec.greeting : HandshakeCodec :=
  { HandshakeCodec.fieldwise with
    handshakeMessageToVec := fun _ => []
    handshakeMessageDecode := fun _ =>
      .ok ⟨none, some ⟨some (List.replicate 32 4), some (List.replicate 32 3), some []⟩, none⟩ }

/-- The static key of threes, and an ephemeral one. -/
def threesResponder : Responder := ⟨⟨.replicate 32 3⟩, ⟨.replicate 32 4⟩, []⟩

/-- A client with the key of ones and the responder agree in all three handshakes, in
the last one although the client knows another key of the responder. -/
theorem handshakes_agree_transparent :
    (∃ outcome learned,
      exchangeXx .transparent .fieldwise threesResponder ⟨.replicate 32 1⟩ ⟨.replicate 32 2⟩ [7] []
          .strict = some (outcome, learned)
        ∧ Agreed .transparent ⟨.replicate 32 1⟩ [7] outcome.writeCipher outcome.readCipher learned)
    ∧ (∃ outcome learned,
      exchangeIk .transparent .fieldwise threesResponder ⟨.replicate 32 1⟩ ⟨.replicate 32 2⟩ [7] []
          = some (outcome, learned)
        ∧ Agreed .transparent ⟨.replicate 32 1⟩ [7] outcome.writeCipher outcome.readCipher learned)
    ∧ (∃ outcome learned,
      exchangeFallback .transparent .fieldwise threesResponder ⟨.replicate 32 1⟩ ⟨.replicate 32 2⟩
          [7] [] .strict (.replicate 32 6) = some (outcome, learned)
        ∧ Agreed .transparent ⟨.replicate 32 1⟩ [7] outcome.writeCipher outcome.readCipher learned)
    ∧ ∃ success rest chain respFrame d,
      runHandshake .transparent .greeting (fun b additional => b.data.length + additional)
          ⟨fun _ => .ok (), 1, false⟩ ⟨⟨⟨.replicate 32 1⟩, ⟨.replicate 32 1⟩⟩, [], none⟩ .strict
          ⟨⟨.replicate 32 2⟩, ⟨.replicate 32 2⟩⟩ .xx [.dataReceived ⟨[0, 0, 0], none⟩]
        = .ok (success, rest)
      ∧ success.serverCertChain = some chain
      ∧ recvFrame (fun b additional => b.data.length + additional) ⟨fun _ => .ok (), 1, false⟩
          [.dataReceived ⟨[0, 0, 0], none⟩] .new = .ok (respFrame, d, rest)
      ∧ Endorsed .transparent .greeting .strict ⟨⟨.replicate 32 2⟩, ⟨.replicate 32 2⟩⟩
          (transcriptStart .transparent ⟨⟨.replicate 32 2⟩, ⟨.replicate 32 2⟩⟩ .xx) respFrame
          chain := by
  obtain ⟨hxx, hik, hfallback⟩ := (handshakes_agree .transparent .fieldwise).1 ideal_transparent
    lawful_fieldwise threesResponder ⟨.replicate 32 1⟩ ⟨.replicate 32 2⟩ [7] [] .strict _
    (.replicate 32 6) rfl
  refine ⟨hxx, hik, hfallback, ?_⟩
  obtain ⟨respFrame, d, hrecv, hendorsed⟩ := (handshakes_agree .transparent .greeting).2
    (fun b additional => b.data.length + additional) ⟨fun _ => .ok (), 1, false⟩
    ⟨⟨⟨.replicate 32 1⟩, ⟨.replicate 32 1⟩⟩, [], none⟩ .strict
    ⟨⟨.replicate 32 2⟩, ⟨.replicate 32 2⟩⟩ .xx [.dataReceived ⟨[0, 0, 0], none⟩] _ _ _ rfl rfl
  exact ⟨_, _, _, respFrame, d, rfl, rfl, hrecv, hendorsed⟩

end WaCore.Noise
