import WaCore.Signal.Keys

/-!
# Keys of the pairwise ratchet

Chain keys, root keys and the message keys they give (`ratchet/keys.rs`), and
the keys a session starts from (`ratchet.rs`).

A message key is kept as the seed it is derived from.  A record that was written
before seeds were has the derived keys instead; these are `SessionStructure`
entries and are passed on as they are.
-/

namespace WaCore.Signal

/-! ## Message keys -/

structure MessageKeys where
  cipherKey : Key
  macKey : Key
  iv : FixedBytes 16
  counter : UInt32
  deriving DecidableEq, Repr

/-- Keys without a salt, which no caller has. -/
def MessageKeys.deriveKeys (C : Crypto) (inputKeyMaterial : Bytes) (counter : UInt32) :
    MessageKeys :=
  let okm := C.hkdf inputKeyMaterial (label "WhisperMessageKeys") 80
  { cipherKey := okm.slice 0 32 (by decide)
    macKey := okm.slice 32 32 (by decide)
    iv := okm.slice 64 16 (by decide)
    counter }

/-- The entry `MessageKey` of a stored chain. -/
structure SessionStructure.MessageKey where
  index : Option UInt32
  cipherKey : Option Bytes
  macKey : Option Bytes
  iv : Option Bytes
  seed : Option Bytes
  deriving DecidableEq, Repr

inductive MessageKeyGenerator where
  | seed (material : Key) (counter : UInt32)
  | serialized (pb : SessionStructure.MessageKey)
  deriving DecidableEq, Repr

namespace MessageKeyGenerator

/-- The fields of a serialized entry have the right lengths, or are read as
zeroes. -/
def generateKeys (C : Crypto) : MessageKeyGenerator → MessageKeys
  | .seed material counter => MessageKeys.deriveKeys C material.val counter
  | .serialized pb =>
    { cipherKey := (pb.cipherKey.bind (FixedBytes.ofBytes 32)).getD (.replicate 32 0)
      macKey := (pb.macKey.bind (FixedBytes.ofBytes 32)).getD (.replicate 32 0)
      iv := (pb.iv.bind (FixedBytes.ofBytes 16)).getD (.replicate 16 0)
      counter := pb.index.getD 0 }

def fromPb (pb : SessionStructure.MessageKey) : Except String MessageKeyGenerator :=
  if pb.cipherKey.any (·.length = 32) && pb.macKey.any (·.length = 32)
      && pb.iv.any (·.length = 16) then
    .ok (serialized pb)
  else
    match pb.seed.bind (FixedBytes.ofBytes 32) with
    | some material => .ok (.seed material (pb.index.getD 0))
    | none => .error "invalid message key format"

end MessageKeyGenerator

/-! ## Chain keys -/

structure ChainKey where
  key : Key
  index : UInt32
  deriving DecidableEq, Repr

namespace ChainKey

def nextChainKey (C : Crypto) (c : ChainKey) : Except SignalProtocolError ChainKey := do
  let index ← okOr (checkedSucc c.index)
    (.invalidState "next_chain_key" "chain key index overflow (u32::MAX)")
  pure ⟨C.nextChainKey c.key, index⟩

def stepWithMessageKeys (C : Crypto) (c : ChainKey) :
    Except SignalProtocolError (MessageKeyGenerator × ChainKey) := do
  let index ← okOr (checkedSucc c.index)
    (.invalidState "step_with_message_keys" "chain key index overflow (u32::MAX)")
  pure (.seed (C.messageKeySeed c.key) c.index, ⟨C.nextChainKey c.key, index⟩)

/-- `steps` rounds of the loop that advances a chain. -/
def advance (C : Crypto) : Nat → ChainKey → Except SignalProtocolError ChainKey
  | 0, c => .ok c
  | steps + 1, c => do
    let c' ← c.nextChainKey C
    advance C steps c'

theorem index_advance {C : Crypto} {steps : Nat} {c c' : ChainKey}
    (h : c.advance C steps = .ok c') : c'.index.toNat = c.index.toNat + steps := by
  induction steps generalizing c with
  | zero =>
    cases h
    rfl
  | succ steps ih =>
    obtain ⟨next, hnext, h⟩ := bind_eq_ok.mp h
    obtain ⟨index, hsucc, hnext⟩ := bind_eq_ok.mp hnext
    cases hnext
    have hindex := checkedSucc_eq_some.mp (okOr_eq_ok.mp hsucc)
    rw [ih h]
    dsimp only
    omega

end ChainKey

/-! ## Root keys -/

structure RootKey where
  key : Key
  deriving DecidableEq, Repr

/-- `calculate_agreement`; what the provider reports is the error's source. -/
def PrivateKey.calculateAgreement (C : Crypto) (ours : PrivateKey) (theirs : PublicKey) :
    Except SignalProtocolError Key :=
  (C.calculateAgreement ours theirs).mapError .keyAgreementFailed

namespace RootKey

/-- The root key and the chain key that an agreed secret gives. -/
def nextKeys (C : Crypto) (root : RootKey) (sharedSecret : Key) : RootKey × ChainKey :=
  let derivedSecretBytes :=
    C.hkdfExpand (C.hmacSha256 root.key.val sharedSecret.val) (label "WhisperRatchet") 64
  (⟨derivedSecretBytes.halves.1⟩, ⟨derivedSecretBytes.halves.2, 0⟩)

def createChain (C : Crypto) (root : RootKey) (theirRatchetKey : PublicKey)
    (ourRatchetKey : PrivateKey) : Except SignalProtocolError (RootKey × ChainKey) := do
  let sharedSecret ← ourRatchetKey.calculateAgreement C theirRatchetKey
  pure (root.nextKeys C sharedSecret)

end RootKey

/-- The keys of a new session; the third part of the derived bytes has no use. -/
def deriveKeys (C : Crypto) (secretInput : Bytes) : RootKey × ChainKey :=
  let secrets := C.hkdf secretInput (label "WhisperText") 96
  (⟨secrets.slice 0 32 (by decide)⟩, ⟨secrets.slice 32 32 (by decide), 0⟩)

end WaCore.Signal
