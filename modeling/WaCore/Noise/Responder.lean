import WaCore.Lib.TokenPattern
import WaCore.Noise.Handshake

/-!
# The other end of a handshake

A responder that runs the token patterns of the Noise protocol framework: XX, IK
and XXfallback with Curve25519, AES-GCM and SHA-256.  It is what the client talks
to, and not part of the client.
-/

namespace WaCore.Noise

open Signal (Key PublicKey PrivateKey KeyPair)
open Pattern (Party Role Token Symmetric)

/-- A nonce of AES-GCM: four zeroes and the counter in eight bytes. -/
def patternNonce (n : Nat) : FixedBytes 12 :=
  ⟨[0, 0, 0, 0, .ofNat (n / 256 ^ 7), .ofNat (n / 256 ^ 6), .ofNat (n / 256 ^ 5),
    .ofNat (n / 256 ^ 4), .ofNat (n / 256 ^ 3), .ofNat (n / 256 ^ 2), .ofNat (n / 256), .ofNat n], rfl⟩

/-- The primitives of the patterns. -/
@[reducible] def primitives (P : NoiseProvider) : Pattern.Primitives where
  Hash := Key
  Key := Key
  Secret := Key
  Pub := PublicKey
  Priv := PrivateKey
  Msg := Bytes
  pub := P.publicKey
  encode k := k.key.val
  decode m := (FixedBytes.ofBytes 32 m).map PublicKey.mk
  dh ours theirs := (P.signal.calculateAgreement ⟨Signal.clampInteger ours.key⟩ theirs).toOption
  mixHash h m := P.sha256 (h.val ++ m)
  mixKey ck secret := (P.hkdf ck secret.val).map FixedBytes.halves
  split ck := (P.hkdf ck []).map FixedBytes.halves
  encrypt key n ad m := (P.aes256GcmEncrypt key (patternNonce n) ad.val m).toOption
  decrypt key n ad c := (P.aes256GcmDecrypt key (patternNonce n) ad.val c).toOption

/-- The first state of a handshake with this protocol name. -/
def initialSymmetric (P : NoiseProvider) (name : String) (prologue : Bytes) :
    Symmetric (primitives P) :=
  let h := NoiseState.patternHash P (Signal.label name)
  Symmetric.mixHash (P := primitives P) ⟨h, h, none, 0⟩ prologue

def XX_NAME : String := "Noise_XX_25519_AESGCM_SHA256"

def IK_NAME : String := "Noise_IK_25519_AESGCM_SHA256"

def XXFALLBACK_NAME : String := "Noise_XXfallback_25519_AESGCM_SHA256"

/-! ## Tokens -/

/-- The second message of XX and XXfallback. -/
def helloTokens : List Token := [.e, .mix .ee, .s, .mix .es]

/-- The third one. -/
def finishTokens : List Token := [.s, .mix .se]

def ikTokens : List Token := [.e, .mix .es, .s, .mix .ss]

def ikAnswerTokens : List Token := [.e, .mix .ee, .mix .se]

/-! ## Responders -/

/-- A responder has its static and its ephemeral key, and a certificate to show. -/
structure Responder where
  static : PrivateKey
  ephemeral : PrivateKey
  certificate : Bytes

/-- What the responder has learned, and the keys it goes on with. -/
structure ResponderOutcome where
  clientStatic : PublicKey
  clientPayload : Bytes
  readKey : Key
  writeKey : Key

namespace Responder

variable (P : NoiseProvider) (codec : HandshakeCodec) (self : Responder)

def party (name : String) (prologue : Bytes) : Party (primitives P) :=
  ⟨.responder, self.static, self.ephemeral, none, none, initialSymmetric P name prologue⟩

def clientHello (bytes : Bytes) : Option ClientHello := do
  let message ← (codec.handshakeMessageDecode bytes).toOption
  message.clientHello

/-- Answer with a static key, after the client's ephemeral has been read. -/
def answer (name : String) (prologue ephemeral : Bytes) :
    Option (Bytes × Party (primitives P)) := do
  let (_, p) ← Pattern.readTokens (self.party P name prologue) [.e] [ephemeral]
  let (parts, p) ← Pattern.writeMessage p helloTokens self.certificate
  match parts with
  | [e, s, payload] =>
    pure (codec.handshakeMessageToVec ⟨none, some ⟨some e, some s, some payload⟩, none⟩, p)
  | _ => none

/-- The answer to an XX hello; its first message has no payload. -/
def answerXx (prologue hello : Bytes) : Option (Bytes × Party (primitives P)) := do
  let hello ← clientHello codec hello
  let ephemeral ← hello.ephemeral
  self.answer P codec XX_NAME prologue ephemeral

/-- The answer to an IK hello that the responder cannot or will not read. -/
def answerFallback (prologue hello : Bytes) : Option (Bytes × Party (primitives P)) := do
  let hello ← clientHello codec hello
  let ephemeral ← hello.ephemeral
  self.answer P codec XXFALLBACK_NAME prologue ephemeral

def outcome (payload : Bytes) (p : Party (primitives P)) : Option ResponderOutcome := do
  let clientStatic ← p.rs
  let (readKey, writeKey) ← (primitives P).split p.sym.ck
  pure ⟨clientStatic, payload, readKey, writeKey⟩

variable {clientStatic : PublicKey}

theorem outcome_eq_some {P : NoiseProvider} {p : Party (primitives P)} {k k' : Key}
    (hstatic : p.rs = some clientStatic) (hsplit : (primitives P).split p.sym.ck = some (k, k'))
    (payload : Bytes) : outcome P payload p = some ⟨clientStatic, payload, k, k'⟩ := by
  refine Option.bind_eq_some_iff.mpr ⟨clientStatic, hstatic, ?_⟩
  exact Option.bind_eq_some_iff.mpr ⟨(k, k'), hsplit, rfl⟩

/-- The last message of XX and XXfallback. -/
def complete (p : Party (primitives P)) (bytes : Bytes) : Option ResponderOutcome := do
  let message ← (codec.handshakeMessageDecode bytes).toOption
  let finish ← message.clientFinish
  let static ← finish.static
  let payload ← finish.payload
  let (payload, p) ← Pattern.readMessage p finishTokens [static, payload]
  outcome P payload p

/-- The responder before an IK hello; the client knows its static key already. -/
def ikParty (prologue : Bytes) : Party (primitives P) :=
  let p := self.party P IK_NAME prologue
  { p with sym := p.sym.mixHash ((primitives P).encode (P.publicKey self.static)) }

/-- The answer to an IK hello, and the outcome. -/
def acceptIk (prologue hello : Bytes) : Option (Bytes × ResponderOutcome) := do
  let hello ← clientHello codec hello
  let ephemeral ← hello.ephemeral
  let static ← hello.static
  let payload ← hello.payload
  let (payload, p) ←
    Pattern.readMessage (self.ikParty P prologue) ikTokens [ephemeral, static, payload]
  let (parts, p) ← Pattern.writeMessage p ikAnswerTokens self.certificate
  match parts with
  | [e, certificate] => do
    let learned ← outcome P payload p
    pure (codec.handshakeMessageToVec ⟨none, some ⟨some e, none, some certificate⟩, none⟩, learned)
  | _ => none

end Responder

end WaCore.Noise
