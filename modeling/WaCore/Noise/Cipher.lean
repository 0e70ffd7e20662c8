import WaCore.Noise.Framing

/-!
# The transport cipher

AES-GCM under a fixed key with a counter as the nonce (`NoiseCipher` in
`state.rs`).  The cipher itself comes from a provider; it works on a buffer in
place, and what it leaves there when it fails is not fixed.
-/

namespace WaCore.Noise

inductive CryptoProviderError where
  | badInput
  | authFailed
  | backendFailed
  deriving DecidableEq, Repr

inductive NoiseError where
  | invalidPatternLength (expected got : Nat)
  | encrypt (source : CryptoProviderError)
  | decrypt (source : CryptoProviderError)
  | ciphertextTooShort
  | hkdfExpandFailed
  | invalidKeyLength (name : String) (expected got : Nat)
  | counterExhausted
  deriving DecidableEq, Repr

/-- The counter in the last four bytes. -/
def generateIv (counter : UInt32) : FixedBytes 12 := ⟨List.replicate 8 0 ++ toBeBytes counter, rfl⟩

/-- The trait of the provider: the result, and what is in the buffer after it. -/
structure TransportAead where
  encryptInPlace : FixedBytes 12 → Bytes → Bytes → Except CryptoProviderError Unit × Bytes
  decryptInPlace : FixedBytes 12 → Bytes → Bytes → Except CryptoProviderError Unit × Bytes

structure NoiseCipher where
  aead : TransportAead

namespace NoiseCipher

def encryptInPlaceWithCounter (c : NoiseCipher) (counter : UInt32) (buffer : Bytes) :
    Except NoiseError Unit × Bytes :=
  let (result, buffer) := c.aead.encryptInPlace (generateIv counter) [] buffer
  (result.mapError .encrypt, buffer)

def encryptWithCounter (c : NoiseCipher) (counter : UInt32) (plaintext : Bytes) :
    Except NoiseError Bytes :=
  let (result, out) := c.aead.encryptInPlace (generateIv counter) [] plaintext
  (result.mapError .encrypt).map fun _ => out

def decryptInPlaceWithCounter (c : NoiseCipher) (counter : UInt32) (buffer : Bytes) :
    Except NoiseError Unit × Bytes :=
  let (result, buffer) := c.aead.decryptInPlace (generateIv counter) [] buffer
  (result.mapError .decrypt, buffer)

end NoiseCipher

end WaCore.Noise
