import WaCore.Noise.Responder

/-!
# The handshakes agree

The client's operations against the symmetric state of the patterns: `Represents`
says that a `NoiseState` holds one, and each operation of the client keeps that.
So the client reads and writes the messages of the patterns, and what it shares
with a responder follows from the agreement of the patterns.
-/

namespace WaCore.Noise

open Eff
open Signal (Key PublicKey PrivateKey KeyPair)
open Pattern (Party Role Token Symmetric Known Aligned)

/-- What is assumed of the primitives: key agreement is symmetric, decryption undoes
encryption, and nothing fails. -/
structure NoiseProvider.Ideal (P : NoiseProvider) : Prop where
  dh_total : ∀ (a : PrivateKey) (k : PublicKey), ∃ secret,
    P.signal.calculateAgreement ⟨Signal.clampInteger a.key⟩ k = .ok secret
  dh_symmetric : ∀ a b : PrivateKey, ∃ secret,
    P.signal.calculateAgreement ⟨Signal.clampInteger a.key⟩ (P.publicKey b) = .ok secret
      ∧ P.signal.calculateAgreement ⟨Signal.clampInteger b.key⟩ (P.publicKey a) = .ok secret
  hkdf_total : ∀ salt ikm, ∃ okm, P.hkdf salt ikm = some okm
  decrypt_encrypt : ∀ key iv ad m, ∃ c, P.aes256GcmEncrypt key iv ad m = .ok c
    ∧ P.aes256GcmDecrypt key iv ad c = .ok m
  transportAead_total : ∀ key, ∃ aead, P.transportAead key = .ok aead

def HandshakeCodec.Lawful (codec : HandshakeCodec) : Prop :=
  ∀ m, codec.handshakeMessageDecode (codec.handshakeMessageToVec m) = .ok m

section Primitives

variable {P : NoiseProvider}

theorem NoiseProvider.Ideal.lawful (hP : P.Ideal) : (primitives P).Lawful where
  decode_encode k := by
    change (FixedBytes.ofBytes 32 k.key.val).map PublicKey.mk = some k
    rw [FixedBytes.ofBytes_val]
    rfl
  dh_comm a b := by
    obtain ⟨secret, ha, hb⟩ := hP.dh_symmetric a b
    exact ⟨secret, by simp [ha, Except.toOption], by simp [hb, Except.toOption]⟩
  mixKey_isSome ck secret := by
    obtain ⟨okm, hokm⟩ := hP.hkdf_total ck secret.val
    exact ⟨okm.halves, by simp [hokm]⟩
  split_isSome ck := by
    obtain ⟨okm, hokm⟩ := hP.hkdf_total ck []
    exact ⟨okm.halves, by simp [hokm]⟩
  decrypt_encrypt key n ad m := by
    obtain ⟨c, hc, hm⟩ := hP.decrypt_encrypt key (patternNonce n) ad.val m
    exact ⟨c, by simp [hc, Except.toOption], by simp [hm, Except.toOption]⟩

/-- The nonce of a counter of the client is that of the patterns. -/
theorem generateIv_eq (counter : UInt32) : generateIv counter = patternNonce counter.toNat := by
  have hlt := counter.toNat_lt
  apply Subtype.ext
  simp only [generateIv, patternNonce, toBeBytes, List.replicate, List.cons_append,
    List.nil_append, List.cons.injEq, and_true, true_and, ← UInt8.toNat_inj, UInt8.toNat_ofNat',
    UInt32.toNat_toUInt8, UInt32.toNat_shiftRight, UInt32.reduceToNat, Nat.reduceMod, Nat.reducePow]
  simp only [UInt8.reduceToNat]
  omega

end Primitives

/-! ## One operation -/

/-- The state of the client holds the symmetric state. -/
structure Represents {P : NoiseProvider} (s : NoiseState) (sym : Symmetric (primitives P)) : Prop where
  hash : s.hash = sym.h
  salt : s.salt = sym.ck
  key : ∀ key, sym.key = some key → s.key = key ∧ s.counter.toNat = sym.n

variable {key : Key} {parts : List Bytes} {certificate : Bytes}

section Operations

variable {P : NoiseProvider} {s : NoiseState} {sym sym' : Symmetric (primitives P)}

theorem Represents.authenticate (h : Represents s sym) (data : Bytes) :
    Represents (s.authenticate P data) (sym.mixHash data) where
  hash := congrArg (fun hash : Key => P.sha256 (hash.val ++ data)) h.hash
  salt := h.salt
  key := h.key

theorem Represents.mixIntoKey (h : Represents s sym) {secret : Key}
    (hmix : sym.mixKey secret = some sym') :
    ∃ s', (NoiseHandshake.mixIntoKey P secret.val).exec s = (.ok (), s') ∧ Represents s' sym' := by
  obtain ⟨⟨ck, key⟩, hkeys, hsym⟩ := Option.bind_eq_some_iff.mp hmix
  cases hsym
  obtain ⟨okm, hokm, hhalves⟩ := Option.map_eq_some_iff.mp hkeys
  have hexpand : ({ s with counter := 0 }).extractAndExpand P (some secret.val) = .ok (ck, key) := by
    rw [NoiseState.extractAndExpand, Option.getD_some, h.salt, hokm]
    exact congrArg Except.ok hhalves
  refine ⟨⟨s.hash, ck, key, 0⟩, ?_, h.hash, rfl, ?_⟩
  · simp [NoiseHandshake.mixIntoKey, exec_bind, hexpand, Except.mapError]
  · rintro key' ⟨⟩
    exact ⟨rfl, rfl⟩

/-- A key agreement of the pattern, by the client. -/
theorem exec_mix {p p' : Party (primitives P)} {d : Pattern.Dh} (hmix : p.mix d = some p')
    (h : Represents s p.sym) (ours : PrivateKey) (theirs : PublicKey)
    (hagree : p.agree d = (primitives P).dh ours theirs) :
    ∃ s' sym' key, p' = { p with sym := sym' } ∧ sym'.key = some key ∧ sym'.n = 0
      ∧ Represents s' sym'
      ∧ (NoiseHandshake.mixSharedSecret P ours.serialize theirs.key.val).exec s = (.ok (), s') := by
  obtain ⟨secret, sym', hsecret, hmixKey, rfl⟩ := Pattern.mix_eq_some hmix
  obtain ⟨s', hexec, hs'⟩ := h.mixIntoKey hmixKey
  obtain ⟨key, hkey, hzero⟩ := Symmetric.mixKey_eq_some hmixKey
  refine ⟨s', sym', key, rfl, hkey, hzero, hs', ?_⟩
  have hdh : P.signal.calculateAgreement ⟨Signal.clampInteger ours.key⟩ theirs = .ok secret :=
    toOption_eq_some.mp (hagree.symm.trans hsecret)
  simp [NoiseHandshake.mixSharedSecret, exec_bind, PrivateKey.serialize, PrivateKey.deserialize,
    PublicKey.fromDjbPublicKeyBytes, Except.mapError, hdh, hexec]

theorem exec_postIncrementCounter (h : s.counter.toNat < 2 ^ 32 - 1) :
    ∃ next, next.toNat = s.counter.toNat + 1 ∧ NoiseHandshake.postIncrementCounter.exec s
      = (.ok s.counter, { s with counter := next }) := by
  cases hnext : checkedSucc s.counter with
  | none =>
    have := checkedSucc_eq_none.mp hnext
    omega
  | some next =>
    refine ⟨next, checkedSucc_eq_some.mp hnext, ?_⟩
    simp only [NoiseHandshake.postIncrementCounter, exec_bind, exec_get, hnext, okOr_some,
      exec_ofExcept, exec_set, exec_pure]

/-- The state after a part of a message under a key. -/
theorem Represents.next (h : Represents s sym) {next : UInt32}
    (hnext : next.toNat = s.counter.toNat + 1) (c : Bytes) :
    Represents ({ s with counter := next }.authenticate P c)
      { sym.mixHash c with n := sym.n + 1 } where
  hash := (h.authenticate c).hash
  salt := h.salt
  key key' hkey' := by
    obtain ⟨hkey, hn⟩ := h.key key' hkey'
    exact ⟨hkey, by rw [← hn]; exact hnext⟩

theorem Represents.encrypt (h : Represents s sym) {m c : Bytes} (hkey : sym.key = some key)
    (hn : sym.n < 2 ^ 32 - 1) (hencrypt : sym.encryptAndHash m = some (c, sym')) :
    ∃ s', (NoiseHandshake.encrypt P m).exec s = (.ok c, s') ∧ Represents s' sym' := by
  obtain ⟨hskey, hcounter⟩ := h.key key hkey
  rw [Symmetric.encryptAndHash_of_key hkey] at hencrypt
  obtain ⟨c', hc, hsym⟩ := Option.map_eq_some_iff.mp hencrypt
  cases hsym
  have haead : P.aes256GcmEncrypt s.key (generateIv s.counter) s.hash.val m = .ok c := by
    rw [generateIv_eq, hcounter, hskey, h.hash]
    exact toOption_eq_some.mp hc
  obtain ⟨next, hnext, hincrement⟩ := exec_postIncrementCounter (s := s) (by omega)
  refine ⟨_, ?_, h.next hnext c⟩
  simp only [NoiseHandshake.encrypt, exec_bind, hincrement, exec_get, haead, Except.mapError,
    exec_ofExcept, NoiseHandshake.authenticate, exec_modify, exec_pure]

theorem Represents.decrypt (h : Represents s sym) {m c : Bytes} (hkey : sym.key = some key)
    (hn : sym.n < 2 ^ 32 - 1) (hdecrypt : sym.decryptAndHash c = some (m, sym')) :
    ∃ s', (NoiseHandshake.decrypt P c).exec s = (.ok m, s') ∧ Represents s' sym' := by
  obtain ⟨hskey, hcounter⟩ := h.key key hkey
  rw [Symmetric.decryptAndHash_of_key hkey] at hdecrypt
  obtain ⟨m', hm, hsym⟩ := Option.map_eq_some_iff.mp hdecrypt
  cases hsym
  have haead : P.aes256GcmDecrypt s.key (generateIv s.counter) s.hash.val c = .ok m := by
    rw [generateIv_eq, hcounter, hskey, h.hash]
    exact toOption_eq_some.mp hm
  obtain ⟨next, hnext, hincrement⟩ := exec_postIncrementCounter (s := s) (by omega)
  refine ⟨_, ?_, h.next hnext c⟩
  simp only [NoiseHandshake.decrypt, exec_bind, hincrement, exec_get, haead, Except.mapError,
    exec_ofExcept, NoiseHandshake.authenticate, exec_modify, exec_pure]

end Operations

/-! ## The client's messages -/

/-- The key pair of a private key. -/
def NoiseProvider.keyPair (P : NoiseProvider) (k : PrivateKey) : KeyPair := ⟨P.publicKey k, k⟩

section Messages

variable {P : NoiseProvider} {codec : HandshakeCodec} {s : NoiseState}
  {p p' p'' : Party (primitives P)}

theorem decode_eq_some {m : Bytes} {k : PublicKey} :
    (primitives P).decode m = some k ↔ k.key.val = m := by
  constructor
  · intro h
    obtain ⟨key, hkey, rfl⟩ := Option.map_eq_some_iff.mp h
    exact FixedBytes.val_of_ofBytes hkey
  · rintro rfl
    exact congrArg (Option.map PublicKey.mk) (FixedBytes.ofBytes_val k.key)

theorem exec_authenticate (data : Bytes) (s : NoiseState) :
    (NoiseHandshake.authenticate P data).exec s = (.ok (), s.authenticate P data) := rfl

variable {re : PublicKey} {payload : Bytes}

/-- The static key and the payload, encrypted. -/
theorem exec_staticPart {d : Pattern.Dh} (h : Represents s p.sym) (hkey : p.sym.key = some key)
    (hn : p.sym.n < 2) (theirs : PublicKey)
    (hagree : ∀ sym, Party.agree { p with sym := sym } d = (primitives P).dh p.s theirs)
    (hwrite : Pattern.writeMessage p [.s, .mix d] payload = some (parts, p')) :
    ∃ c c' s₁ s₂ s₃, parts = [c, c']
      ∧ (NoiseHandshake.encrypt P (P.publicKey p.s).key.val).exec s = (.ok c, s₁)
      ∧ (NoiseHandshake.mixSharedSecret P p.s.serialize theirs.key.val).exec s₁ = (.ok (), s₂)
      ∧ (NoiseHandshake.encrypt P payload).exec s₂ = (.ok c', s₃) ∧ Represents s₃ p'.sym := by
  obtain ⟨_, p₁, _, hs, hwrite, rfl⟩ := Pattern.writeMessage_cons_eq_some hwrite
  obtain ⟨c, sym₁, hstatic, rfl, rfl⟩ := Pattern.writeToken_s_eq_some hs
  obtain ⟨s₁, hexec₁, hs₁⟩ := h.encrypt hkey (by omega) hstatic
  obtain ⟨_, p₂, _, htoken, hwrite, rfl⟩ := Pattern.writeMessage_cons_eq_some hwrite
  obtain ⟨hmix, rfl⟩ := Pattern.writeToken_mix_eq_some htoken
  obtain ⟨s₂, sym₂, key', rfl, hkey', hzero, hs₂, hexec₂⟩ :=
    exec_mix hmix hs₁ p.s theirs (hagree sym₁)
  obtain ⟨c', sym₃, hpayload, rfl, rfl⟩ := Pattern.writeMessage_nil_eq_some hwrite
  obtain ⟨s₃, hexec₃, hs₃⟩ := hs₂.encrypt hkey' (by omega) hpayload
  exact ⟨c, c', s₁, s₂, s₃, rfl, hexec₁, hexec₂, hexec₃, hs₃⟩

/-- The ephemeral key of a server hello. -/
theorem exec_ephemeralPart (h : Represents s p.sym) {tokens : List Token} {r : Bytes × Party _}
    (hread : Pattern.readMessage p (.e :: .mix .ee :: tokens) (re.key.val :: parts) = some r) :
    ∃ s' sym key, (NoiseHandshake.mixSharedSecret P p.e.serialize re.key.val).exec
        (s.authenticate P re.key.val) = (.ok (), s')
      ∧ sym.key = some key ∧ sym.n = 0 ∧ Represents s' sym
      ∧ Pattern.readMessage { p with re := some re, sym := sym } tokens parts = some r := by
  obtain ⟨_, p₁, he, hread⟩ := Pattern.readMessage_cons_eq_some hread
  obtain ⟨re', hre, rfl, rfl⟩ := Pattern.readToken_e_eq_some he
  obtain rfl : re = re' := Option.some.inj ((decode_eq_some.mpr rfl).symm.trans hre)
  obtain ⟨_, p₂, hee, hread⟩ := Pattern.readMessage_cons_eq_some hread
  obtain ⟨hmix, rfl⟩ := Pattern.readToken_mix_eq_some hee
  obtain ⟨s', sym, key, rfl, hkey, hzero, hs', hexec⟩ :=
    exec_mix hmix (h.authenticate re.key.val) p.e re rfl
  exact ⟨s', sym, key, hexec, hkey, hzero, hs', hread⟩

/-- The server hello of XX and XXfallback, up to the certificate. -/
theorem exec_helloPart (h : Represents s p.sym) (hrole : p.role = .initiator) {sc cc : Bytes}
    (hread : Pattern.readMessage p helloTokens [re.key.val, sc, cc] = some (certificate, p')) :
    ∃ (rs : PublicKey) (s₁ s₂ s₃ s₄ : NoiseState) (key : Key),
      (NoiseHandshake.mixSharedSecret P p.e.serialize re.key.val).exec
          (s.authenticate P re.key.val) = (.ok (), s₁)
      ∧ (NoiseHandshake.decrypt P sc).exec s₁ = (.ok rs.key.val, s₂)
      ∧ (NoiseHandshake.mixSharedSecret P p.e.serialize rs.key.val).exec s₂ = (.ok (), s₃)
      ∧ (NoiseHandshake.decrypt P cc).exec s₃ = (.ok certificate, s₄) ∧ Represents s₄ p'.sym
      ∧ p'.re = some re ∧ p'.rs = some rs ∧ p'.role = .initiator ∧ p'.s = p.s
      ∧ p'.sym.key = some key ∧ p'.sym.n = 1 := by
  obtain ⟨s₁, sym₁, key₁, hexec₁, hkey₁, hzero₁, hs₁, hread⟩ := exec_ephemeralPart h hread
  obtain ⟨_, p₂, hs, hread⟩ := Pattern.readMessage_cons_eq_some hread
  obtain ⟨plain, sym₂, rs, hstatic, hrs, rfl, rfl⟩ := Pattern.readToken_s_eq_some hs
  obtain rfl := decode_eq_some.mp hrs
  obtain ⟨s₂, hexec₂, hs₂⟩ := hs₁.decrypt hkey₁ (by omega) hstatic
  obtain ⟨_, p₃, hes, hread⟩ := Pattern.readMessage_cons_eq_some hread
  obtain ⟨hmix, rfl⟩ := Pattern.readToken_mix_eq_some hes
  obtain ⟨s₃, sym₃, key₂, rfl, hkey₂, hzero₂, hs₃, hexec₃⟩ :=
    exec_mix hmix hs₂ p.e rs (by simp [Party.agree, hrole])
  obtain ⟨_, _, sym₄, hcc, hpayload, rfl⟩ := Pattern.readMessage_nil_eq_some hread
  cases hcc
  obtain ⟨s₄, hexec₄, hs₄⟩ := hs₃.decrypt hkey₂ (by omega) hpayload
  obtain ⟨hkey₃, hn₃⟩ := Symmetric.decryptAndHash_eq_some hkey₂ hpayload
  exact ⟨rs, s₁, s₂, s₃, s₄, key₂, hexec₁, hexec₂, hexec₃, hexec₄, hs₄, rfl, rfl, hrole, rfl, hkey₃,
    by rw [hn₃, hzero₂]⟩

/-- The client's part of XX and XXfallback from the server hello on. -/
theorem exec_processXxServerHelloInto (h : Represents s p.sym) (hrole : p.role = .initiator)
    {rs : PublicKey} {sc cc : Bytes} {certPolicy : NoiseCertPolicy} {chain : ChainAcceptance}
    (hread : Pattern.readMessage p helloTokens [re.key.val, sc, cc] = some (certificate, p'))
    (hrs : p'.rs = some rs) (hchain : verifyChain P codec certificate rs.key certPolicy = .ok chain)
    (hwrite : Pattern.writeMessage p' finishTokens payload = some (parts, p'')) :
    ∃ c c' s', parts = [c, c'] ∧ Represents s' p''.sym
      ∧ (processXxServerHelloInto P codec (P.keyPair p.e) (P.keyPair p.s) payload re.key sc cc
          certPolicy).exec s
        = (.ok (codec.handshakeMessageToVec (buildClientFinishMessage c c'), chain), s') := by
  obtain ⟨rs', s₁, s₂, s₃, s₄, key, hexec₁, hexec₂, hexec₃, hexec₄, hs₄, hre', hrs', hrole', hstatic,
    hkey, hn⟩ := exec_helloPart h hrole hread
  obtain rfl : rs = rs' := Option.some.inj (hrs.symm.trans hrs')
  obtain ⟨c, c', s₅, s₆, s₇, rfl, hexec₅, hexec₆, hexec₇, hs₇⟩ :=
    exec_staticPart hs₄ hkey (by omega) re (by simp [Party.agree, hrole', hre']) hwrite
  rw [hstatic] at hexec₅ hexec₆
  refine ⟨c, c', s₇, rfl, hs₇, ?_⟩
  simp only [processXxServerHelloInto, NoiseProvider.keyPair, exec_bind, exec_authenticate, hexec₁,
    hexec₂, FixedBytes.ofBytes_val, okOr_some, exec_ofExcept, hexec₃, hexec₄, hchain, Except.mapError,
    hexec₅, hexec₆, hexec₇, exec_pure]

variable (codec) in
/-- The client's first message of IK. -/
theorem exec_writeClientHello (h : Represents s p.sym) (hrole : p.role = .initiator)
    {rs : PublicKey} (hrs : p.rs = some rs) {noise : NoiseState}
    (hnoise : noise.authenticate P rs.key.val = s)
    (hwrite : Pattern.writeMessage p ikTokens payload = some (parts, p')) :
    ∃ c c' s', parts = [(P.publicKey p.e).key.val, c, c'] ∧ Represents s' p'.sym
      ∧ (IkHandshakeState.writeClientHello P codec
          ⟨noise, P.keyPair p.e, P.keyPair p.s, rs.key, payload⟩).exec noise
        = (.ok (codec.handshakeMessageToVec
            (buildIkClientHelloMessage (P.publicKey p.e).key.val c c')), s') := by
  obtain ⟨_, p₁, _, he, hwrite, rfl⟩ := Pattern.writeMessage_cons_eq_some hwrite
  cases he
  obtain ⟨_, p₂, _, hes, hwrite, rfl⟩ := Pattern.writeMessage_cons_eq_some hwrite
  obtain ⟨hmix, rfl⟩ := Pattern.writeToken_mix_eq_some hes
  obtain ⟨s₁, sym₁, key₁, rfl, hkey₁, hzero₁, hs₁, hexec₁⟩ := exec_mix hmix
    (h.authenticate (P.publicKey p.e).key.val) p.e rs (by simp [Party.agree, hrole, hrs])
  obtain ⟨c, c', s₂, s₃, s₄, rfl, hexec₂, hexec₃, hexec₄, hs₄⟩ := exec_staticPart hs₁ hkey₁
    (by dsimp only; omega) rs (by simp [Party.agree, hrs]) hwrite
  refine ⟨c, c', s₄, rfl, hs₄, ?_⟩
  simp only [IkHandshakeState.writeClientHello, NoiseProvider.keyPair, exec_bind, exec_authenticate,
    hnoise, hexec₁, hexec₂, hexec₃, hexec₄, exec_pure]

/-- An accepting server hello. -/
theorem exec_readAcceptingHello (h : Represents s p.sym) (hrole : p.role = .initiator) {cc : Bytes}
    (hread : Pattern.readMessage p ikAnswerTokens [re.key.val, cc] = some (certificate, p'))
    (noise : NoiseState) (rs : Key) (payload : Bytes) :
    ∃ s', Represents s' p'.sym ∧ (IkHandshakeState.readAcceptingHello P
      ⟨noise, P.keyPair p.e, P.keyPair p.s, rs, payload⟩ re.key cc).exec s = (.ok (), s') := by
  obtain ⟨s₁, sym₁, _, hexec₁, -, -, hs₁, hread⟩ := exec_ephemeralPart h hread
  obtain ⟨_, p₂, hse, hread⟩ := Pattern.readMessage_cons_eq_some hread
  obtain ⟨hmix, rfl⟩ := Pattern.readToken_mix_eq_some hse
  obtain ⟨s₂, sym₂, key, rfl, hkey, hzero, hs₂, hexec₂⟩ :=
    exec_mix hmix hs₁ p.s re (by simp [Party.agree, hrole])
  obtain ⟨_, _, sym₃, hcc, hpayload, rfl⟩ := Pattern.readMessage_nil_eq_some hread
  cases hcc
  obtain ⟨s₃, hexec₃, hs₃⟩ := hs₂.decrypt hkey (by omega) hpayload
  refine ⟨s₃, hs₃, ?_⟩
  simp only [IkHandshakeState.readAcceptingHello, NoiseProvider.keyPair, exec_bind, exec_authenticate,
    hexec₁, hexec₂, hexec₃, exec_pure]

/-- The keys of the client's ciphers. -/
theorem finish_of_represents (hP : P.Ideal) {sym : Symmetric (primitives P)} (h : Represents s sym)
    {k k' : Key} (hsplit : (primitives P).split sym.ck = some (k, k')) :
    ∃ write read, NoiseHandshake.finish P s = .ok (write, read)
      ∧ NoiseCipher.new P k = .ok write ∧ NoiseCipher.new P k' = .ok read := by
  obtain ⟨okm, hokm, hhalves⟩ := Option.map_eq_some_iff.mp hsplit
  have hexpand : s.extractAndExpand P none = .ok (k, k') := by
    rw [NoiseState.extractAndExpand, Option.getD_none, h.salt, hokm]
    exact congrArg Except.ok hhalves
  have hnew (key : Key) : ∃ cipher, NoiseCipher.new P key = .ok cipher := by
    obtain ⟨aead, haead⟩ := hP.transportAead_total key
    exact ⟨⟨aead⟩, by rw [NoiseCipher.new, haead]; rfl⟩
  obtain ⟨write, hwrite⟩ := hnew k
  obtain ⟨read, hread⟩ := hnew k'
  rw [NoiseHandshake.finish, hexpand]
  simp [Except.mapError, hwrite, hread]

end Messages

/-! ## Parsing -/

section Parsing

variable {codec : HandshakeCodec} (hcodec : codec.Lawful)

include hcodec

theorem parseServerHelloBody_toVec (ephemeral : Key) (static payload : Option Bytes) :
    parseServerHelloBody codec (codec.handshakeMessageToVec
        ⟨none, some ⟨some ephemeral.val, static, payload⟩, none⟩)
      = .ok ⟨some ephemeral.val, static, payload⟩ := by
  simp [parseServerHelloBody, hcodec _, Except.mapError, ephemeral.property, pure, Except.pure]

theorem clientHello_toVec (hello : ClientHello) :
    Responder.clientHello codec (codec.handshakeMessageToVec ⟨some hello, none, none⟩)
      = some hello := by
  simp [Responder.clientHello, hcodec _, Except.toOption]

end Parsing

/-! ## Agreement -/

/-- Both ends are done: the responder has the client's static key and payload, and
each end reads with the key that the other one writes with. -/
structure Agreed (P : NoiseProvider) (static : PrivateKey) (payload : Bytes)
    (write read : NoiseCipher) (learned : ResponderOutcome) : Prop where
  clientStatic : learned.clientStatic = P.publicKey static
  clientPayload : learned.clientPayload = payload
  write : NoiseCipher.new P learned.readKey = .ok write
  read : NoiseCipher.new P learned.writeKey = .ok read

section Agreement

variable {P : NoiseProvider} {codec : HandshakeCodec} (self : Responder) (static eph : PrivateKey)
  (name : String) (payload prologue : Bytes) {s : NoiseState}

/-- The client as a party of the pattern. -/
def clientParty (P : NoiseProvider) : Party (primitives P) :=
  ⟨.initiator, static, eph, none, none, initialSymmetric P name prologue⟩

/-- A client whose first message is its ephemeral key, and a responder that answers
with its static key. -/
theorem answer_agrees (hP : P.Ideal) (hcodec : codec.Lawful)
    (hs : Represents s ((initialSymmetric P name prologue).mixHash (P.publicKey eph).key.val))
    {certPolicy : NoiseCertPolicy} {chain : ChainAcceptance}
    (hchain : verifyChain P codec self.certificate (P.publicKey self.static).key certPolicy
      = .ok chain) :
    ∃ (answer finish : Bytes) (hello : ServerHello) (p : Party (primitives P)) (s' : NoiseState)
        (outcome : XxHandshakeOutcome) (learned : ResponderOutcome),
      self.answer P codec name prologue (P.publicKey eph).key.val = some (answer, p)
      ∧ (parseServerHelloBody codec answer = .ok hello ∧ hello.static.isSome = true)
      ∧ AnswersHello P codec (P.keyPair eph) (P.keyPair static) payload certPolicy answer s finish
          chain s'
      ∧ Responder.complete P codec p finish = some learned
      ∧ finishXxOutcome P s' (some chain) = .ok outcome
      ∧ Agreed P static payload outcome.writeCipher outcome.readCipher learned := by
  have hstart : Aligned (clientParty static eph name prologue P) (self.party P name prologue)
      ⟨false, false, false, false⟩ := ⟨nofun, rfl, rfl, rfl, rfl, rfl⟩
  obtain ⟨parts₁, c₁, hwrite₁, hc₁, hread₁⟩ := Pattern.readTokens_writeTokens hP.lawful hstart
    (show Known.afterTokens _ _ [.e] = some ⟨true, false, false, false⟩ from rfl)
  obtain ⟨rfl, rfl⟩ := Prod.mk.inj (Option.some.inj hwrite₁)
  obtain ⟨r₁, hread₁, hr₁, halign₁⟩ := hread₁ []
  obtain ⟨parts₂, r₂, c₂, hwrite₂, hread₂, hr₂, hc₂, halign₂⟩ :=
    Pattern.readMessage_writeMessage hP.lawful halign₁.flip
      (show Known.afterTokens _ r₁.role helloTokens = some ⟨true, true, true, false⟩ by
        rw [hr₁.role]; rfl) self.certificate
  obtain ⟨rest, rfl, hrest⟩ := Pattern.writeMessage_e_eq_some hwrite₂
  obtain ⟨sc, cc, rfl⟩ := List.length_eq_two.mp hrest
  obtain ⟨parts₃, c₃, r₃, hwrite₃, hread₃, hc₃, hr₃, halign₃⟩ :=
    Pattern.readMessage_writeMessage hP.lawful halign₂.flip
      (show Known.afterTokens _ c₂.role finishTokens = some ⟨true, true, true, true⟩ by
        rw [hc₂.role]; rfl) payload
  have hrs : c₂.rs = some (P.publicKey self.static) := by
    rw [halign₂.reader_rs, hr₂.s, hr₁.s]
    rfl
  rw [hr₁.e] at hwrite₂ hread₂
  obtain ⟨f, f', s', rfl, hs', hexec⟩ :=
    exec_processXxServerHelloInto hs rfl hread₂ hrs hchain hwrite₃
  obtain ⟨⟨k, k'⟩, hsplit⟩ := hP.lawful.split_isSome c₃.sym.ck
  obtain ⟨write, read, hfinish, hwrite, hread⟩ := finish_of_represents hP hs' hsplit
  have hclient : r₃.rs = some (P.publicKey static) := by
    rw [halign₃.reader_rs, hc₃.s, hc₂.s]
    rfl
  rw [halign₃.sym] at hsplit
  refine ⟨_, _, _, r₂, s', ⟨write, read, chain.trustedChain⟩, ⟨P.publicKey static, payload, k, k'⟩,
    ?_, ⟨parseServerHelloBody_toVec hcodec (P.publicKey self.ephemeral).key (some sc) (some cc), rfl⟩,
    ⟨_, sc, cc, by simp [parseServerHello, parseServerHelloBody_toVec hcodec, Responder.party],
      hexec⟩, ?_,
    (finishXxOutcome_eq_ok P).mpr ⟨chain, rfl, hfinish, rfl⟩, rfl, rfl, hwrite, hread⟩
  · refine Option.bind_eq_some_iff.mpr ⟨_, hread₁, ?_⟩
    exact Option.bind_eq_some_iff.mpr ⟨_, hwrite₂, rfl⟩
  · simp only [Responder.complete, hcodec _, Except.toOption, buildClientFinishMessage, bind,
      Option.bind, hread₃]
    exact Responder.outcome_eq_some hclient hsplit payload

theorem patternHash_xx : NoiseState.patternHash P NOISE_PATTERN_XX
    = NoiseState.patternHash P (Signal.label XX_NAME) := by
  rw [NoiseState.patternHash, NoiseState.patternHash, dif_pos (by decide +kernel),
    dif_pos (by decide +kernel)]
  exact Subtype.ext (by decide +kernel)

theorem patternHash_ik : NoiseState.patternHash P NOISE_PATTERN_IK
    = NoiseState.patternHash P (Signal.label IK_NAME) := by
  rw [NoiseState.patternHash, NoiseState.patternHash, dif_pos (by decide +kernel),
    dif_pos (by decide +kernel)]
  exact Subtype.ext (by decide +kernel)

theorem represents_new {pattern : Bytes}
    (h : NoiseState.patternHash P pattern = NoiseState.patternHash P (Signal.label name)) :
    Represents (NoiseState.new P pattern prologue) (initialSymmetric P name prologue) where
  hash := by
    rw [NoiseState.new, h]
    rfl
  salt := by
    rw [NoiseState.new, h]
    rfl
  key := nofun

end Agreement

end WaCore.Noise
