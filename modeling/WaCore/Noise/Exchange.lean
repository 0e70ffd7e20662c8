import WaCore.Noise.HandshakeAgree

/-!
# Whole handshakes against a responder

The three exchanges, from the first message to the ciphers of the client and the
keys of the responder.
-/

namespace WaCore.Noise

open Eff
open Signal (Key PublicKey PrivateKey KeyPair)
open Pattern (Party Role Token Symmetric Known Aligned)

/-! ## Exchanges -/

section Exchanges

variable (P : NoiseProvider) (codec : HandshakeCodec) (self : Responder) (static eph : PrivateKey)
  (payload prologue : Bytes) (certPolicy : NoiseCertPolicy)

def exchangeXx : Option (XxHandshakeOutcome × ResponderOutcome) := do
  let client := XxHandshakeState.newWithCertPolicy P (P.keyPair static) payload prologue certPolicy
    (P.keyPair eph)
  let (answer, p) ← self.answerXx P codec prologue (client.buildClientHello codec)
  let (finish, client) ← (client.readServerHelloAndBuildClientFinish P codec answer).toOption
  let learned ← Responder.complete P codec p finish
  let outcome ← (client.finish P).toOption
  pure (outcome, learned)

/-- The client knows the static key of the responder. -/
def exchangeIk : Option (IkHandshakeOutcome × ResponderOutcome) := do
  let client := IkHandshakeState.new P (P.keyPair static) (P.publicKey self.static).key payload prologue
    (P.keyPair eph)
  let (hello, client) ← (client.buildClientHello P codec).toOption
  let (answer, learned) ← self.acceptIk P codec prologue hello
  match ← (client.readServerHello P codec answer).toOption with
  | .continue outcome => pure (outcome, learned)
  | .fallback _ => none

/-- The client knows some key, and the responder answers with its own. -/
def exchangeFallback (known : Key) : Option (XxHandshakeOutcome × ResponderOutcome) := do
  let client := IkHandshakeState.new P (P.keyPair static) known payload prologue (P.keyPair eph)
  let (hello, client) ← (client.buildClientHello P codec).toOption
  let (answer, p) ← self.answerFallback P codec prologue hello
  match ← (client.readServerHello P codec answer).toOption with
  | .continue _ => none
  | .fallback inputs =>
    let client := XxFallbackHandshakeState.fromIkFailureWithCertPolicy P inputs prologue certPolicy
    let (finish, client) ← (client.buildClientFinish P codec).toOption
    let learned ← Responder.complete P codec p finish
    let outcome ← (client.finish P).toOption
    pure (outcome, learned)

end Exchanges

/-! ## XX -/

section Agreement

variable {P : NoiseProvider} {codec : HandshakeCodec} (self : Responder) (static eph : PrivateKey)
  (payload prologue : Bytes) {certPolicy : NoiseCertPolicy} {chain : ChainAcceptance}

theorem exchangeXx_agrees (hP : P.Ideal) (hcodec : codec.Lawful)
    (hchain : verifyChain P codec self.certificate (P.publicKey self.static).key certPolicy
      = .ok chain) :
    ∃ outcome learned,
      exchangeXx P codec self static eph payload prologue certPolicy = some (outcome, learned)
        ∧ Agreed P static payload outcome.writeCipher outcome.readCipher learned := by
  obtain ⟨answer, finish, hello, p, s', outcome, learned, hanswer, -, hhello, hcomplete, houtcome,
      hagreed⟩ := answer_agrees self static eph XX_NAME payload prologue hP hcodec
    ((represents_new XX_NAME prologue patternHash_xx).authenticate _) hchain
  refine ⟨outcome, learned, Option.bind_eq_some_iff.mpr ⟨(answer, p), ?_, ?_⟩, hagreed⟩
  · rw [Responder.answerXx, XxHandshakeState.buildClientHello, buildClientHelloMessage,
      clientHello_toVec hcodec]
    exact hanswer
  refine Option.bind_eq_some_iff.mpr ⟨(finish, _), toOption_eq_some.mpr
    (XxHandshakeState.readServerHelloAndBuildClientFinish_eq_ok.mpr ⟨chain, s', hhello, rfl⟩), ?_⟩
  refine Option.bind_eq_some_iff.mpr ⟨learned, hcomplete, ?_⟩
  exact Option.bind_eq_some_iff.mpr ⟨outcome, toOption_eq_some.mpr houtcome, rfl⟩

/-! ## IK -/

/-- The client of IK as a party of the pattern. -/
def ikClientParty (P : NoiseProvider) : Party (primitives P) :=
  let known := P.publicKey self.static
  ⟨.initiator, static, eph, some known, none,
    (initialSymmetric P IK_NAME prologue).mixHash ((primitives P).encode known)⟩

theorem exchangeIk_agrees (hP : P.Ideal) (hcodec : codec.Lawful) :
    ∃ outcome learned, exchangeIk P codec self static eph payload prologue = some (outcome, learned)
      ∧ Agreed P static payload outcome.writeCipher outcome.readCipher learned := by
  have hstart : Aligned (ikClientParty self static eph prologue P) (self.ikParty P prologue)
      ⟨false, false, false, true⟩ := ⟨nofun, rfl, rfl, rfl, rfl, rfl⟩
  obtain ⟨parts₁, c₁, r₁, hwrite₁, hread₁, hc₁, hr₁, halign₁⟩ :=
    Pattern.readMessage_writeMessage hP.lawful hstart
      (show Known.afterTokens _ _ ikTokens = some ⟨true, true, false, true⟩ from rfl) payload
  have hrep := (represents_new IK_NAME prologue (patternHash_ik (P := P))).authenticate
    (P.publicKey self.static).key.val
  obtain ⟨sc, pc, s₁, rfl, hs₁, hexec₁⟩ :=
    exec_writeClientHello codec hrep rfl rfl rfl hwrite₁
  obtain ⟨parts₂, r₂, c₂, hwrite₂, hread₂, hr₂, hc₂, halign₂⟩ :=
    Pattern.readMessage_writeMessage hP.lawful halign₁.flip
      (show Known.afterTokens _ r₁.role ikAnswerTokens = some ⟨true, true, true, true⟩ by
        rw [hr₁.role]; rfl) self.certificate
  obtain ⟨rest, rfl, hrest⟩ := Pattern.writeMessage_e_eq_some hwrite₂
  obtain ⟨cc, rfl⟩ := List.length_eq_one_iff.mp hrest
  rw [hr₁.e] at hwrite₂ hread₂
  obtain ⟨s₂, hs₂, hexec₂⟩ := exec_readAcceptingHello hs₁ (hc₁.role.trans rfl) hread₂ s₁
    (P.publicKey self.static).key payload
  rw [hc₁.e, hc₁.s] at hexec₂
  obtain ⟨⟨k, k'⟩, hsplit⟩ := hP.lawful.split_isSome c₂.sym.ck
  obtain ⟨write, read, hfinish, hwrite, hread⟩ := finish_of_represents hP hs₂ hsplit
  have hclient : r₂.rs = some (P.publicKey static) := by
    have := halign₂.writer_rs
    rw [hc₂.s, hc₁.s] at this
    exact this
  rw [← halign₂.sym] at hsplit
  refine ⟨⟨write, read⟩, ⟨P.publicKey static, payload, k, k'⟩, ?_, rfl, rfl, hwrite, hread⟩
  have houtcome := IkHandshakeState.readServerHello_of_exec
    (parseServerHelloBody_toVec hcodec (P.publicKey self.ephemeral).key none (some cc)) hexec₂ hfinish
  refine Option.bind_eq_some_iff.mpr
    ⟨_, toOption_eq_some.mpr (IkHandshakeState.buildClientHello_of_exec hexec₁), ?_⟩
  refine Option.bind_eq_some_iff.mpr ⟨(_, ⟨P.publicKey static, payload, k, k'⟩), ?_,
    Option.bind_eq_some_iff.mpr ⟨_, toOption_eq_some.mpr houtcome, rfl⟩⟩
  simp only [Responder.acceptIk, Responder.clientHello, hcodec _, Except.toOption,
    buildIkClientHelloMessage, bind, Option.bind, hread₁, hwrite₂,
    Responder.outcome_eq_some hclient hsplit, pure]
  rfl

/-! ## XXfallback -/

theorem exec_mixSharedSecret_total (hP : P.Ideal) (ours : PrivateKey) (theirs : Key) (s : NoiseState) :
    ∃ s', (NoiseHandshake.mixSharedSecret P ours.serialize theirs.val).exec s = (.ok (), s')
      ∧ s'.counter = 0 := by
  obtain ⟨secret, hsecret⟩ := hP.dh_total ours ⟨theirs⟩
  obtain ⟨okm, hokm⟩ := hP.hkdf_total s.salt secret.val
  simp [NoiseHandshake.mixSharedSecret, exec_bind, PrivateKey.serialize, PrivateKey.deserialize,
    PublicKey.fromDjbPublicKeyBytes, Except.mapError, hsecret, NoiseHandshake.mixIntoKey,
    NoiseState.extractAndExpand, hokm]

theorem exec_encrypt_total (hP : P.Ideal) {s : NoiseState} (h : s.counter = 0) (m : Bytes) :
    ∃ c s', (NoiseHandshake.encrypt P m).exec s = (.ok c, s') := by
  obtain ⟨next, -, hincrement⟩ := exec_postIncrementCounter (by rw [h]; decide)
  obtain ⟨c, hc, -⟩ := hP.decrypt_encrypt s.key (generateIv s.counter) s.hash.val m
  refine ⟨c, ({ s with counter := next }).authenticate P c, ?_⟩
  simp only [NoiseHandshake.encrypt, exec_bind, hincrement, exec_get, hc, Except.mapError,
    exec_ofExcept, NoiseHandshake.authenticate, exec_modify, exec_pure]

variable (codec) in
/-- The hello of IK is built whatever key the client knows. -/
theorem buildClientHello_total (hP : P.Ideal) (known : Key) :
    ∃ c c' noise, IkHandshakeState.buildClientHello P codec
        (.new P (P.keyPair static) known payload prologue (P.keyPair eph))
      = .ok (codec.handshakeMessageToVec
          (buildIkClientHelloMessage (P.publicKey eph).key.val c c'),
        ⟨noise, P.keyPair eph, P.keyPair static, known, payload⟩) := by
  obtain ⟨s₁, hexec₁, hzero₁⟩ := exec_mixSharedSecret_total hP eph known
    (((NoiseState.new P NOISE_PATTERN_IK prologue).authenticate P known.val).authenticate P
      (P.publicKey eph).key.val)
  obtain ⟨c, s₂, hexec₂⟩ := exec_encrypt_total hP hzero₁ (P.publicKey static).key.val
  obtain ⟨s₃, hexec₃, hzero₃⟩ := exec_mixSharedSecret_total hP static known s₂
  obtain ⟨c', s₄, hexec₄⟩ := exec_encrypt_total hP hzero₃ payload
  refine ⟨c, c', s₄, IkHandshakeState.buildClientHello_of_exec ?_⟩
  simp only [IkHandshakeState.writeClientHello, IkHandshakeState.new, NoiseProvider.keyPair, exec_bind,
    exec_authenticate, hexec₁, hexec₂, hexec₃, hexec₄, exec_pure]

theorem exchangeFallback_agrees (hP : P.Ideal) (hcodec : codec.Lawful) (known : Key)
    (hchain : verifyChain P codec self.certificate (P.publicKey self.static).key certPolicy
      = .ok chain) :
    ∃ outcome learned,
      exchangeFallback P codec self static eph payload prologue certPolicy known
          = some (outcome, learned)
        ∧ Agreed P static payload outcome.writeCipher outcome.readCipher learned := by
  obtain ⟨c, c', noise, hhello⟩ :=
    buildClientHello_total codec static eph payload prologue hP known
  obtain ⟨answer, finish, hello, p, s', outcome, learned, hanswer, ⟨hparse, hstatic⟩, hread,
      hcomplete, houtcome, hagreed⟩ :=
    answer_agrees self static eph XXFALLBACK_NAME payload prologue hP hcodec
      ((represents_new XXFALLBACK_NAME prologue rfl).authenticate _) hchain
  refine ⟨outcome, learned, Option.bind_eq_some_iff.mpr ⟨_, toOption_eq_some.mpr hhello, ?_⟩, hagreed⟩
  refine Option.bind_eq_some_iff.mpr ⟨(answer, p), ?_, ?_⟩
  · rw [Responder.answerFallback, buildIkClientHelloMessage, clientHello_toVec hcodec]
    exact hanswer
  refine Option.bind_eq_some_iff.mpr ⟨.fallback ⟨P.keyPair eph, P.keyPair static, payload, answer⟩,
    ?_, Option.bind_eq_some_iff.mpr ⟨(finish, ⟨s', P.keyPair eph, P.keyPair static, payload, answer,
      certPolicy, some chain⟩), toOption_eq_some.mpr ?_, ?_⟩⟩
  · simp [IkHandshakeState.readServerHello, hparse, hstatic, pure, Except.pure, Except.toOption]
  · obtain ⟨serverEphemeral, sc, cc, hparse, hexec⟩ := hread
    change exec _ (NoiseState.authenticate P (NoiseState.new P NOISE_PATTERN_XXFALLBACK prologue)
      (P.keyPair eph).publicKey.key.val) = _ at hexec
    simp [XxFallbackHandshakeState.fromIkFailureWithCertPolicy,
      XxFallbackHandshakeState.buildClientFinish, hparse, Except.mapError, hexec]
  refine Option.bind_eq_some_iff.mpr ⟨learned, hcomplete, ?_⟩
  exact Option.bind_eq_some_iff.mpr ⟨outcome, toOption_eq_some.mpr houtcome, rfl⟩

end Agreement

end WaCore.Noise
