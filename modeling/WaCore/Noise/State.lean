import WaCore.Noise.Cipher
import WaCore.Signal.Keys

/-!
# The state of a Noise handshake

`NoiseState` (`state.rs`) and `NoiseHandshake` (`handshake.rs`), which adds the key
agreement.  The primitives are outside the repository; `NoiseProvider` has one
function for each.
-/

namespace WaCore.Noise

open Signal (Key PublicKey PrivateKey KeyPair SignalProtocolError)

structure NoiseProvider where
  signal : Signal.Crypto
  /-- The public key of a private one. -/
  publicKey : PrivateKey → PublicKey
  sha256 : Bytes → Key
  /-- HKDF with a salt and an empty info. -/
  hkdf : Key → Bytes → Option (FixedBytes 64)
  aes256GcmEncrypt : Key → FixedBytes 12 → Bytes → Bytes → Except CryptoProviderError Bytes
  aes256GcmDecrypt : Key → FixedBytes 12 → Bytes → Bytes → Except CryptoProviderError Bytes
  transportAead : Key → Except CryptoProviderError TransportAead

inductive HandshakeError where
  | protoDecode (what : String)
  | incompleteResponse
  | crypto (source : SignalProtocolError)
  | certVerification (what : String)
  /-- `CertVerification` with the text `Error parsing server hello: …`. -/
  | parsingServerHello (source : HandshakeError)
  /-- `CertVerification` with the text `Error verifying server cert: …`. -/
  | verifyingServerCert (source : HandshakeError)
  | invalidLength (name : String) (expected got : Nat)
  | invalidKeyLength
  | noise (source : NoiseError)
  deriving DecidableEq

structure NoiseState where
  hash : Key
  salt : Key
  key : Key
  counter : UInt32

/-- An operation of a handshake. -/
abbrev Hs := Eff NoiseState HandshakeError

namespace NoiseState

variable (P : NoiseProvider)

/-- Mix data into the transcript. -/
def authenticate (s : NoiseState) (data : Bytes) : NoiseState :=
  { s with hash := P.sha256 (s.hash.val ++ data) }

/-- The first value of the hash: the name of the protocol with zeroes behind it, or
its digest if it is too long for that. -/
def patternHash (pattern : Bytes) : Key :=
  if h : pattern.length ≤ 32 then
    ⟨pattern ++ List.replicate (32 - pattern.length) 0, by
      rw [List.length_append, List.length_replicate]
      omega⟩
  else P.sha256 pattern

def new (pattern prologue : Bytes) : NoiseState :=
  let h := patternHash P pattern
  authenticate P ⟨h, h, h, 0⟩ prologue

def extractAndExpand (s : NoiseState) (ikm : Option Bytes) : Except NoiseError (Key × Key) := do
  let okm ← okOr (P.hkdf s.salt (ikm.getD [])) .hkdfExpandFailed
  pure okm.halves

end NoiseState

def NoiseCipher.new (P : NoiseProvider) (key : Key) : Except NoiseError NoiseCipher := do
  let aead ← (P.transportAead key).mapError .encrypt
  pure ⟨aead⟩

namespace NoiseHandshake

variable (P : NoiseProvider)

def authenticate (data : Bytes) : Hs Unit := modify (NoiseState.authenticate P · data)

def postIncrementCounter : Hs UInt32 := do
  let s ← get
  let next ← Eff.ofExcept (okOr (checkedSucc s.counter) (.noise .counterExhausted))
  set { s with counter := next }
  pure s.counter

def encrypt (plaintext : Bytes) : Hs Bytes := do
  let counter ← postIncrementCounter
  let s ← get
  let out ← Eff.ofExcept ((P.aes256GcmEncrypt s.key (generateIv counter) s.hash.val plaintext).mapError
    fun e => .noise (.encrypt e))
  authenticate P out
  pure out

def decrypt (ciphertext : Bytes) : Hs Bytes := do
  let counter ← postIncrementCounter
  let s ← get
  let out ← Eff.ofExcept ((P.aes256GcmDecrypt s.key (generateIv counter) s.hash.val ciphertext).mapError
    fun e => .noise (.decrypt e))
  authenticate P ciphertext
  pure out

/-- `mix_into_key`.  The counter is reset also if the derivation fails. -/
def mixIntoKey (data : Bytes) : Hs Unit := do
  modify fun s => { s with counter := 0 }
  let s ← get
  let (salt, key) ← Eff.ofExcept ((s.extractAndExpand P (some data)).mapError .noise)
  set { s with salt := salt, key := key }

def mixSharedSecret (privKeyBytes pubKeyBytes : Bytes) : Hs Unit := do
  let ourPrivateKey ← Eff.ofExcept ((PrivateKey.deserialize privKeyBytes).mapError .crypto)
  let theirPublicKey ← Eff.ofExcept ((PublicKey.fromDjbPublicKeyBytes pubKeyBytes).mapError .crypto)
  let sharedSecret ← Eff.ofExcept
    (((P.signal.calculateAgreement ourPrivateKey theirPublicKey).mapError .keyAgreementFailed).mapError
      .crypto)
  mixIntoKey P sharedSecret.val

/-- The write and the read cipher. -/
def finish (s : NoiseState) : Except HandshakeError (NoiseCipher × NoiseCipher) := do
  let (writeBytes, readBytes) ← (s.extractAndExpand P none).mapError .noise
  let write ← (NoiseCipher.new P writeBytes).mapError .noise
  let read ← (NoiseCipher.new P readBytes).mapError .noise
  pure (write, read)

end NoiseHandshake

end WaCore.Noise
