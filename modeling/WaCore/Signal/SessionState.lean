import WaCore.Signal.CounterLease
import WaCore.Signal.Ratchet

/-!
# The state of a pairwise session

`SessionState` (`state/session.rs`): the keys of a session, its sender chain, and
the receiver chains with the keys that were passed over.  The source keeps the
latter in a list beside the chains; here they are part of the chain.

An `expect` of the source is an error with its text here.  The texts of
`InvalidSessionError` reach the caller as `invalidSessionStructure`.
-/

namespace WaCore.Signal

def MAX_RECEIVER_CHAINS : Nat := 5

abbrev IdentityKey := PublicKey

/-! ## Keys that were passed over -/

/-- A key of a receiver chain's backlog. -/
inductive SkippedKey where
  | seed (index : UInt32) (material : Key)
  | legacy (pb : SessionStructure.MessageKey)
  deriving DecidableEq, Repr

namespace SkippedKey

def fromGenerator : MessageKeyGenerator → SkippedKey
  | .seed material index => .seed index material
  | .serialized pb => .legacy pb

def intoGenerator : SkippedKey → Except String MessageKeyGenerator
  | .seed index material => .ok (.seed material index)
  | .legacy pb => MessageKeyGenerator.fromPb pb

def index : SkippedKey → Option UInt32
  | .seed index _ => some index
  | .legacy pb => pb.index

/-- The place of the first key with a counter. -/
def position (counter : UInt32) : List SkippedKey → Except String (Option Nat)
  | [] => .ok none
  | key :: keys => do
    let index ← okOr key.index "missing message key index"
    if index = counter then pure (some 0)
    else
      let rest ← position counter keys
      pure (rest.map (· + 1))

/-- `Vec::swap_remove`. -/
def swapRemove (keys : List SkippedKey) (i : Nat) : List SkippedKey :=
  match keys.getLast? with
  | none => []
  | some last => (keys.set i last).dropLast

/-- The loop that removes `excess` keys with counters up to the threshold.  A
round removes a key or goes to the next, so `rounds` is the number of keys. -/
def evict (threshold : UInt32) : Nat → Nat → Nat → List SkippedKey → List SkippedKey
  | 0, _, _, keys => keys
  | rounds + 1, excess, i, keys =>
    match excess, keys[i]? with
    | excess + 1, some key =>
      if key.index.getD 0 ≤ threshold then evict threshold rounds excess i (swapRemove keys i)
      else evict threshold rounds (excess + 1) (i + 1) keys
    | _, _ => keys

/-- A backlog that has grown too long loses the keys with the lowest counters. -/
def prune (keys : List SkippedKey) : List SkippedKey :=
  if MAX_MESSAGE_KEYS + MESSAGE_KEY_PRUNE_THRESHOLD < keys.length then
    let excess := keys.length - MAX_MESSAGE_KEYS
    let counters := keys.map fun key => key.index.getD 0
    let threshold := ((counters.mergeSort (· ≤ ·))[excess - 1]?).getD 0
    evict threshold keys.length excess 0 keys
  else keys

end SkippedKey

/-! ## The state -/

/-- The entry `ChainKey` of a stored chain. -/
structure SessionStructure.ChainKey where
  index : Option UInt32
  key : Option Bytes
  deriving DecidableEq, Repr

/-- A chain as it is stored, and its backlog. -/
structure SessionStructure.Chain where
  senderRatchetKey : Option Bytes
  senderRatchetKeyPrivate : Option Bytes
  chainKey : Option SessionStructure.ChainKey
  skipped : List SkippedKey
  deriving DecidableEq, Repr

structure SessionStructure.PendingPreKey where
  preKeyId : Option UInt32
  signedPreKeyId : Option UInt32
  baseKey : Option Bytes
  deriving DecidableEq, Repr

structure SessionState where
  sessionVersion : Option UInt32
  localIdentityPublic : Option Bytes
  remoteIdentityPublic : Option Bytes
  rootKeyBytes : Option Bytes
  previousCounterField : Option UInt32
  senderChain : Option SessionStructure.Chain
  receiverChains : List SessionStructure.Chain
  pendingPreKey : Option SessionStructure.PendingPreKey
  remoteRegistrationId : Option UInt32
  localRegistrationId : Option UInt32
  aliceBaseKeyBytes : Option Bytes
  deriving DecidableEq, Repr

/-- What the decrypt path may change before a message is authenticated. -/
structure DecryptSnapshot where
  receiverChains : List SessionStructure.Chain
  rootKeyBytes : Option Bytes
  previousCounterField : Option UInt32
  senderChain : Option SessionStructure.Chain
  deriving DecidableEq, Repr

inductive ReceiverChainState where
  | opened (chainKey : ChainKey)
  | closed (nextIndex : UInt32)
  deriving DecidableEq, Repr

structure UnacknowledgedPreKeyMessageItems where
  preKeyId : Option UInt32
  signedPreKeyId : UInt32
  baseKey : PublicKey
  deriving DecidableEq, Repr

/-- `InvalidSessionError` as an error of the protocol. -/
def invalidSession {α : Type} (r : Except String α) : Except SignalProtocolError α :=
  r.mapError .invalidSessionStructure

theorem invalidSession_eq_ok {α : Type} {r : Except String α} {a : α} :
    invalidSession r = .ok a ↔ r = .ok a := by
  cases r <;> simp [invalidSession, Except.mapError]

/-- A chain key as it is stored. -/
def ChainKey.toStructure (c : ChainKey) : SessionStructure.ChainKey := ⟨some c.index, some c.key.val⟩

namespace SessionState

def decryptSnapshot (state : SessionState) : DecryptSnapshot :=
  ⟨state.receiverChains, state.rootKeyBytes, state.previousCounterField, state.senderChain⟩

def restoreDecryptSnapshot (state : SessionState) (snap : DecryptSnapshot) : SessionState :=
  { state with receiverChains := snap.receiverChains, rootKeyBytes := snap.rootKeyBytes
               previousCounterField := snap.previousCounterField
               senderChain := snap.senderChain }

def new (version : UInt8) (ourIdentity theirIdentity : IdentityKey) (rootKey : RootKey)
    (aliceBaseKey : PublicKey) : SessionState where
  sessionVersion := some version.toUInt32
  localIdentityPublic := some ourIdentity.serialize
  remoteIdentityPublic := some theirIdentity.serialize
  rootKeyBytes := some rootKey.key.val
  previousCounterField := some 0
  senderChain := none
  receiverChains := []
  pendingPreKey := none
  remoteRegistrationId := some 0
  localRegistrationId := some 0
  aliceBaseKeyBytes := some aliceBaseKey.serialize

def aliceBaseKey (state : SessionState) : Bytes := state.aliceBaseKeyBytes.getD []

/-- The version, which is 2 where none is stored. -/
def version (state : SessionState) : UInt32 :=
  if state.sessionVersion.getD 0 = 0 then 2 else state.sessionVersion.getD 0

def remoteIdentityKey (state : SessionState) : Except String (Option IdentityKey) :=
  match state.remoteIdentityPublic.getD [] with
  | [] => .ok none
  | bytes => ((PublicKey.deserialize bytes).mapError fun _ => "invalid remote identity key").map some

def localIdentityKey (state : SessionState) : Except String IdentityKey :=
  (PublicKey.deserialize (state.localIdentityPublic.getD [])).mapError
    fun _ => "invalid local identity key"

def sessionWithSelf (state : SessionState) : Except String Bool := do
  match ← state.remoteIdentityKey with
  | none => pure false
  | some remote =>
    let localId ← state.localIdentityKey
    pure (remote.serialize = localId.serialize)

def previousCounter (state : SessionState) : UInt32 := state.previousCounterField.getD 0

def rootKey (state : SessionState) : Except String RootKey :=
  (okOr (FixedBytes.ofBytes 32 (state.rootKeyBytes.getD [])) "invalid root key").map RootKey.mk

def setRootKey (state : SessionState) (rootKey : RootKey) : SessionState :=
  { state with rootKeyBytes := some rootKey.key.val }

def setPreviousCounter (state : SessionState) (ctr : UInt32) : SessionState :=
  { state with previousCounterField := some ctr }

/-! ### The sender chain -/

def senderRatchetKey (state : SessionState) : Except String PublicKey := do
  let chain ← okOr state.senderChain "missing sender chain"
  let keyBytes ← okOr chain.senderRatchetKey "missing sender ratchet key"
  (PublicKey.deserialize keyBytes).mapError fun _ => "invalid sender chain ratchet key"

def senderRatchetPrivateKey (state : SessionState) : Except String PrivateKey := do
  let chain ← okOr state.senderChain "missing sender chain"
  let keyBytes ← okOr chain.senderRatchetKeyPrivate "missing sender ratchet private key"
  (PrivateKey.deserialize keyBytes).mapError fun _ => "invalid sender chain private ratchet key"

def getSenderChainKey (state : SessionState) : Except String ChainKey := do
  let senderChain ← okOr state.senderChain "missing sender chain"
  let chainKey ← okOr senderChain.chainKey "missing sender chain key"
  let keyBytes ← okOr chainKey.key "missing sender chain key bytes"
  let key ← okOr (FixedBytes.ofBytes 32 keyBytes) "invalid sender chain key"
  let index ← okOr chainKey.index "missing sender chain key index"
  pure ⟨key, index⟩

def setSenderChain (state : SessionState) (sender : KeyPair) (nextChainKey : ChainKey) :
    SessionState :=
  let newChain : SessionStructure.Chain :=
    { senderRatchetKey := some sender.publicKey.serialize
      senderRatchetKeyPrivate := some sender.privateKey.serialize
      chainKey := some nextChainKey.toStructure
      skipped := [] }
  { state with senderChain := some newChain }

def setSenderChainKey (state : SessionState) (nextChainKey : ChainKey) :
    Except String SessionState := do
  let chain ← okOr state.senderChain "missing sender chain"
  pure { state with senderChain := some { chain with chainKey := some nextChainKey.toStructure } }

/-- Advance the sender chain to the end of a reservation. -/
def fastForwardSenderChain (C : Crypto) (state : SessionState) (target : UInt32) :
    Except SignalProtocolError SessionState :=
  match state.getSenderChainKey with
  | .error _ => .ok state
  | .ok chainKey =>
    if MAX_RESERVATION_FAST_FORWARD < saturatingSub target chainKey.index then
      .error (.invalidSessionStructure "reserved sender chain index implausibly far ahead")
    else if target ≤ chainKey.index then .ok state
    else do
      let chainKey ← chainKey.advance C (target.toNat - chainKey.index.toNat)
      invalidSession (state.setSenderChainKey chainKey)

def fastForwardSenderChainOrDrop (C : Crypto) (state : SessionState) (target : UInt32) :
    SessionState :=
  match state.fastForwardSenderChain C target with
  | .ok state => state
  | .error _ => { state with senderChain := none }

/-! ### Receiver chains -/

/-- The loop of `get_receiver_chain_index`. -/
def receiverChainIndex (senderBytes : Bytes) :
    List SessionStructure.Chain → Except String (Option Nat)
  | [] => .ok none
  | chain :: chains => do
    let keyBytes ← okOr chain.senderRatchetKey "missing receiver chain ratchet key"
    if keyBytes.length ≠ PublicKey.SERIALIZED_KEY_LEN ∨ keyBytes.head? ≠ some KEY_TYPE_DJB then
      throw "invalid receiver chain ratchet key"
    else if keyBytes = senderBytes then pure (some 0)
    else
      let rest ← receiverChainIndex senderBytes chains
      pure (rest.map (· + 1))

def getReceiverChainIndex (state : SessionState) (sender : PublicKey) : Except String (Option Nat) :=
  receiverChainIndex sender.serialize state.receiverChains

/-- What a chain that was found says. -/
def receiverChainStateOf (chain : SessionStructure.Chain) : Except String ReceiverChainState := do
  let chainKey ← okOr chain.chainKey "missing receiver chain key"
  let index ← okOr chainKey.index "missing receiver chain key index"
  match chainKey.key with
  | none => pure (.closed index)
  | some keyBytes =>
    let key ← okOr (FixedBytes.ofBytes 32 keyBytes) "invalid receiver chain key"
    pure (.opened ⟨key, index⟩)

def receiverChainState (state : SessionState) (sender : PublicKey) :
    Except String (Option ReceiverChainState) := do
  match ← state.getReceiverChainIndex sender with
  | none => pure none
  | some idx =>
    let chain ← okOr state.receiverChains[idx]? "index out of bounds"
    let found ← receiverChainStateOf chain
    pure (some found)

/-- The oldest chains are given up beyond `MAX_RECEIVER_CHAINS`. -/
def addReceiverChain (state : SessionState) (sender : PublicKey) (chainKey : ChainKey) :
    SessionState :=
  let chain : SessionStructure.Chain :=
    { senderRatchetKey := some sender.serialize
      senderRatchetKeyPrivate := some []
      chainKey := some chainKey.toStructure
      skipped := [] }
  let chains := state.receiverChains ++ [chain]
  { state with receiverChains := chains.drop (chains.length - MAX_RECEIVER_CHAINS) }

/-- The state with the receiver chain of a sender changed by `f`. -/
def modifyReceiverChain (state : SessionState) (sender : PublicKey) (missing : String)
    (f : SessionStructure.Chain → SessionStructure.Chain) : Except String SessionState := do
  let found ← state.getReceiverChainIndex sender
  let idx ← okOr found missing
  pure { state with receiverChains := state.receiverChains.modify idx f }

theorem modifyReceiverChain_eq_ok {state state' : SessionState} {sender : PublicKey}
    {missing : String} {f : SessionStructure.Chain → SessionStructure.Chain} :
    state.modifyReceiverChain sender missing f = .ok state'
      ↔ ∃ idx, state.getReceiverChainIndex sender = .ok (some idx)
        ∧ state' = { state with receiverChains := state.receiverChains.modify idx f } := by
  rw [modifyReceiverChain, bind_eq_ok]
  constructor
  · rintro ⟨found, hfound, h⟩
    obtain ⟨idx, hidx, h⟩ := bind_eq_ok.mp h
    cases h
    exact ⟨idx, okOr_eq_ok.mp hidx ▸ hfound, rfl⟩
  · rintro ⟨idx, hidx, rfl⟩
    exact ⟨some idx, hidx, rfl⟩

def setReceiverChainKey (state : SessionState) (sender : PublicKey) (chainKey : ChainKey) :
    Except String SessionState :=
  state.modifyReceiverChain sender "called set_receiver_chain_key for a non-existent chain"
    fun chain => { chain with chainKey := some chainKey.toStructure }

def setMessageKeys (state : SessionState) (sender : PublicKey) (messageKeys : MessageKeyGenerator) :
    Except String SessionState :=
  state.modifyReceiverChain sender "called set_message_keys for a non-existent chain" fun chain =>
    { chain with
      skipped := SkippedKey.prune chain.skipped ++ [SkippedKey.fromGenerator messageKeys] }

/-- Take a key out of the backlog; it is gone also when it turns out malformed. -/
def getMessageKeys (sender : PublicKey) (counter : UInt32) :
    Eff SessionState SignalProtocolError (Option MessageKeyGenerator) := do
  let state ← get
  let found ← Eff.ofExcept (invalidSession (state.getReceiverChainIndex sender))
  match found with
  | none => pure none
  | some idx =>
    let skipped := (state.receiverChains[idx]?.map (·.skipped)).getD []
    let position ← Eff.ofExcept (invalidSession (SkippedKey.position counter skipped))
    match position.bind fun i => skipped[i]?.map (i, ·) with
    | none => pure none
    | some (i, key) =>
      set { state with receiverChains := state.receiverChains.modify idx fun chain =>
        { chain with skipped := SkippedKey.swapRemove skipped i } }
      let keys ← Eff.ofExcept (invalidSession key.intoGenerator)
      pure (some keys)

/-! ### The pending prekey message -/

def setUnacknowledgedPreKeyMessage (state : SessionState) (preKeyId : Option UInt32)
    (signedEcPreKeyId : UInt32) (baseKey : PublicKey) : SessionState :=
  { state with pendingPreKey := some ⟨preKeyId, some signedEcPreKeyId, some baseKey.serialize⟩ }

def unacknowledgedPreKeyMessageItems (state : SessionState) :
    Except String (Option UnacknowledgedPreKeyMessageItems) :=
  match state.pendingPreKey with
  | none => .ok none
  | some pending => do
    let bytes ← okOr pending.baseKey "missing base key"
    let baseKey ← (PublicKey.deserialize bytes).mapError
      fun _ => "invalid pending PreKey message base key"
    pure (some ⟨pending.preKeyId, pending.signedPreKeyId.getD 0, baseKey⟩)

def clearUnacknowledgedPreKeyMessage (state : SessionState) : SessionState :=
  { state with pendingPreKey := none }

def setRegistrationIds (state : SessionState) (ours theirs : UInt32) : SessionState :=
  { state with localRegistrationId := some ours, remoteRegistrationId := some theirs }

end SessionState

end WaCore.Signal
