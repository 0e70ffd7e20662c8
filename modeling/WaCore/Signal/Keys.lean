import WaCore.Lib.Bytes
import WaCore.Lib.Effect
import WaCore.Lib.Counter

/-!
# Keys, primitives and errors of the Signal protocol

The Curve25519 keys with their encodings (`core/curve.rs`), the errors of
`protocol/error.rs`, limits of `protocol/consts.rs`, and the primitives the
protocol is built on.  The primitives are outside the repository: `Crypto` holds
one function for each of them, and nothing is assumed about it here.
-/

namespace WaCore.Signal

/-- Key material of 32 bytes. -/
abbrev Key := FixedBytes 32

/-! ## Limits -/

def MAX_FORWARD_JUMPS : Nat := 2000

def MAX_FORWARD_JUMPS_SELF : Nat := 25000

def MAX_MESSAGE_KEYS : Nat := 2000

def MESSAGE_KEY_PRUNE_THRESHOLD : Nat := 50

/-! ## Errors -/

inductive CiphertextMessageType where
  | whisper
  | preKey
  | senderKey
  | plaintext
  deriving DecidableEq, Repr

structure ProtocolAddress where
  name : String
  deviceId : UInt32
  deriving DecidableEq, Repr

inductive SignalProtocolError where
  | invalidArgument (what : String)
  | invalidState (call why : String)
  | backendError (context : String)
  | invalidProtobufEncoding
  | ciphertextMessageTooShort (length : Nat)
  | legacyCiphertextVersion (version : UInt8)
  | unrecognizedCiphertextVersion (version : UInt8)
  | unrecognizedMessageVersion (version : UInt32)
  | noKeyTypeIdentifier
  | badKeyType (raw : UInt8)
  | badKeyLength (length : Nat)
  | signatureValidationFailed
  | keyAgreementFailed (source : String)
  | untrustedIdentity (address : ProtocolAddress)
  | invalidPreKeyId
  | invalidSignedPreKeyId
  | noSenderKeyState (what : String)
  | sessionNotFound (address : ProtocolAddress)
  | invalidSessionStructure (what : String)
  | invalidSenderKeySession
  | duplicatedMessage (chain counter : UInt32)
  | invalidMessage (kind : CiphertextMessageType) (what : String)
  | badMac (kind : CiphertextMessageType)
  deriving DecidableEq, Repr

/-! ## Curve25519 keys -/

structure PublicKey where
  key : Key
  deriving DecidableEq, Repr

structure PrivateKey where
  key : Key
  deriving DecidableEq, Repr

structure KeyPair where
  publicKey : PublicKey
  privateKey : PrivateKey
  deriving DecidableEq, Repr

/-- `KeyType::Djb`. -/
def KEY_TYPE_DJB : UInt8 := 0x05

namespace PublicKey

def RAW_KEY_LEN : Nat := 32

def SERIALIZED_KEY_LEN : Nat := 33

def serialize (k : PublicKey) : Bytes := KEY_TYPE_DJB :: k.key.val

/-- Data after the key is ignored. -/
def deserialize : Bytes → Except SignalProtocolError PublicKey
  | [] => .error .noKeyTypeIdentifier
  | t :: bytes =>
    if t ≠ KEY_TYPE_DJB then .error (.badKeyType t)
    else
      match FixedBytes.ofBytes 32 (bytes.take 32) with
      | none => .error (.badKeyLength (bytes.length + 1))
      | some key => .ok ⟨key⟩

def fromDjbPublicKeyBytes (bytes : Bytes) : Except SignalProtocolError PublicKey :=
  match FixedBytes.ofBytes 32 bytes with
  | none => .error (.badKeyLength bytes.length)
  | some key => .ok ⟨key⟩

@[simp] theorem length_serialize (k : PublicKey) : k.serialize.length = SERIALIZED_KEY_LEN := by
  rw [serialize, List.length_cons, k.key.property]
  rfl

@[simp] theorem deserialize_serialize (k : PublicKey) : deserialize k.serialize = .ok k := by
  have htake : k.key.val.take 32 = k.key.val :=
    List.take_of_length_le (Nat.le_of_eq k.key.property)
  rw [serialize, deserialize, if_neg (by simp), htake, FixedBytes.ofBytes_val]

end PublicKey

/-- The clamping of `scalar::clamp_integer`. -/
def clampInteger (k : Key) : Key :=
  ⟨(k.val.modify 0 (· &&& 248)).modify 31 (fun b => b &&& 127 ||| 64), by
    rw [List.length_modify, List.length_modify, k.property]⟩

namespace PrivateKey

def serialize (k : PrivateKey) : Bytes := k.key.val

def deserialize (bytes : Bytes) : Except SignalProtocolError PrivateKey :=
  match FixedBytes.ofBytes 32 bytes with
  | none => .error (.badKeyLength bytes.length)
  | some key => .ok ⟨clampInteger key⟩

end PrivateKey

/-! ## Primitives -/

/-- The primitives of the protocol.  Signing takes the bytes it draws from the
random source. -/
structure Crypto where
  hmacSha256 : Bytes → Bytes → Key
  hkdfExpand : Key → Bytes → (n : Nat) → FixedBytes n
  aes256CbcEncrypt : Key → FixedBytes 16 → Bytes → Option Bytes
  aes256CbcDecrypt : Key → FixedBytes 16 → Bytes → Option Bytes
  calculateAgreement : PrivateKey → PublicKey → Except String Key
  calculateSignature : PrivateKey → Bytes → Bytes → Option (FixedBytes 64)
  verifySignature : PublicKey → Bytes → Bytes → Bool

/-- HKDF without a salt, whose extract step is an HMAC under zeroes. -/
def Crypto.hkdf (C : Crypto) (input info : Bytes) (n : Nat) : FixedBytes n :=
  C.hkdfExpand (C.hmacSha256 (List.replicate 32 0) input) info n

/-- A chain step: the seed of this step's message key, and the next chain key. -/
def Crypto.messageKeySeed (C : Crypto) (chainKey : Key) : Key := C.hmacSha256 chainKey.val [0x01]

def Crypto.nextChainKey (C : Crypto) (chainKey : Key) : Key := C.hmacSha256 chainKey.val [0x02]

/-- Primitives that hide nothing, to run the model on. -/
def Crypto.transparent : Crypto where
  hmacSha256 _ _ := .replicate 32 0
  hkdfExpand _ _ n := .replicate n 0
  aes256CbcEncrypt _ _ plaintext := some plaintext
  aes256CbcDecrypt _ _ ciphertext := some ciphertext
  calculateAgreement _ _ := .ok (.replicate 32 0)
  calculateSignature _ _ _ := some (.replicate 64 0)
  verifySignature _ _ _ := true

/-- The bytes of a label. -/
def label (s : String) : Bytes := s.toUTF8.toList

/-- The first byte of a message. -/
def encodeVersionByte (messageVersion currentVersion : UInt8) : UInt8 :=
  (messageVersion &&& 0x0F) <<< 4 ||| currentVersion &&& 0x0F

end WaCore.Signal
