import WaCore.Signal.Keys
import WaCore.Signal.CounterLease

/-!
# Sender keys

The state of a group's sender chain and the record that keeps it
(`protocol/sender_keys.rs`), with the conversions of
`protocol/record_components.rs`.  The lazily built signing and verifying keys of
a state are functions of its signing key and are not part of it.

The persisted form of a record is `SenderKeyRow`: the fields of its protobuf
message and the two local fields that are appended to it.  The bytes of that
encoding are left out.
-/

namespace WaCore.Signal

def MAX_SENDER_KEY_STATES : Nat := 5

/-! ## Message keys and chain keys -/

structure SenderMessageKey where
  iteration : UInt32
  iv : FixedBytes 16
  cipherKey : Key
  seed : Key
  deriving DecidableEq, Repr

def SenderMessageKey.new (C : Crypto) (iteration : UInt32) (seed : Key) : SenderMessageKey :=
  let derived := C.hkdf seed.val (label "WhisperGroup") 48
  { iteration, seed
    iv := derived.slice 0 16 (by decide)
    cipherKey := derived.slice 16 32 (by decide) }

/-- A key of the backlog, from which the message key is derived. -/
structure StoredMessageKey where
  iteration : UInt32
  seed : Key
  deriving DecidableEq, Repr

structure SenderChainKey where
  iteration : UInt32
  chainKey : Key
  deriving DecidableEq, Repr

variable {C : Crypto}

namespace SenderChainKey

def next (C : Crypto) (c : SenderChainKey) : Except SignalProtocolError SenderChainKey := do
  let newIteration ← okOr (checkedSucc c.iteration)
    (.invalidState "sender_chain_key_next" "Sender chain is too long")
  pure ⟨newIteration, C.nextChainKey c.chainKey⟩

/-- The seed of this iteration's message key, and the next chain key. -/
def stepSeedOnly (C : Crypto) (c : SenderChainKey) :
    Except SignalProtocolError (Key × SenderChainKey) := do
  let newIteration ← okOr (checkedSucc c.iteration)
    (.invalidState "sender_chain_key_step" "Sender chain is too long")
  pure (C.messageKeySeed c.chainKey, ⟨newIteration, C.nextChainKey c.chainKey⟩)

def stepWithMessageKey (C : Crypto) (c : SenderChainKey) :
    Except SignalProtocolError (SenderMessageKey × SenderChainKey) := do
  let (seed, nextChain) ← c.stepSeedOnly C
  pure (SenderMessageKey.new C c.iteration seed, nextChain)

/-- The message key is of this iteration, and the chain goes to the next, as long
as there is one. -/
theorem stepWithMessageKey_eq_ok {c next : SenderChainKey} {key : SenderMessageKey}
    (h : c.stepWithMessageKey C = .ok (key, next)) :
    key.iteration = c.iteration ∧ next.iteration.toNat = c.iteration.toNat + 1 := by
  obtain ⟨⟨seed, next'⟩, hstep, heq⟩ := bind_eq_ok.mp h
  obtain ⟨iteration, hsucc, heq'⟩ := bind_eq_ok.mp hstep
  cases heq'
  cases heq
  exact ⟨rfl, checkedSucc_eq_some.mp (okOr_eq_ok.mp hsucc)⟩

/-- `steps` rounds of the loop that advances a chain. -/
def advance (C : Crypto) : Nat → SenderChainKey → Except SignalProtocolError SenderChainKey
  | 0, c => .ok c
  | steps + 1, c => do
    let c' ← c.next C
    advance C steps c'

theorem iteration_advance {steps : Nat} {c c' : SenderChainKey} (h : c.advance C steps = .ok c') :
    c'.iteration.toNat = c.iteration.toNat + steps := by
  induction steps generalizing c with
  | zero =>
    cases h
    rfl
  | succ steps ih =>
    obtain ⟨next, hnext, h⟩ := bind_eq_ok.mp h
    obtain ⟨iteration, hsucc, hnext⟩ := bind_eq_ok.mp hnext
    cases hnext
    have hiteration := checkedSucc_eq_some.mp (okOr_eq_ok.mp hsucc)
    rw [ih h]
    dsimp only
    omega

end SenderChainKey

/-! ## States -/

structure SenderSigningKey where
  publicKey : Option Bytes
  privateKey : Option Bytes
  deriving DecidableEq, Repr

/-- A chain of a group; `messageKeys` is the backlog of keys that were passed
over, the oldest first. -/
structure SenderKeyState where
  senderKeyId : Option UInt32
  senderSigningKey : Option SenderSigningKey
  messageKeys : List StoredMessageKey
  senderChain : Option SenderChainKey
  deriving DecidableEq, Repr

variable {state : SenderKeyState} {chainKey : Bytes} {signatureKey : PublicKey}
  {signaturePrivateKey : Option PrivateKey}

namespace SenderKeyState

def new (chainId iteration : UInt32) (chainKey : Bytes) (signatureKey : PublicKey)
    (signaturePrivateKey : Option PrivateKey) : Except SignalProtocolError SenderKeyState := do
  let chainKey ← okOr (FixedBytes.ofBytes 32 chainKey) .invalidProtobufEncoding
  pure { senderKeyId := some chainId
         senderSigningKey := some
          ⟨some signatureKey.serialize, signaturePrivateKey.map (·.serialize)⟩
         messageKeys := []
         senderChain := some ⟨iteration, chainKey⟩ }

def messageVersion (_ : SenderKeyState) : UInt32 := 3

def chainId (state : SenderKeyState) : UInt32 := state.senderKeyId.getD 0

def setSenderChainKey (state : SenderKeyState) (chainKey : SenderChainKey) : SenderKeyState :=
  { state with senderChain := some chainKey }

/-- Advance the chain to the end of a reservation. -/
def fastForwardSenderChain (C : Crypto) (state : SenderKeyState) (target : UInt32) :
    Except SignalProtocolError SenderKeyState :=
  match state.senderChain with
  | none => .ok state
  | some chainKey =>
    if MAX_RESERVATION_FAST_FORWARD < saturatingSub target chainKey.iteration then
      .error (.invalidState "fast_forward_sender_chain"
        "reserved sender-key iteration implausibly far ahead")
    else if target ≤ chainKey.iteration then .ok state
    else do
      let chainKey ← chainKey.advance C (target.toNat - chainKey.iteration.toNat)
      pure (state.setSenderChainKey chainKey)

/-- A chain that is advanced stands at the target, or was past it. -/
theorem fastForwardSenderChain_eq_ok {state' : SenderKeyState} {target : UInt32}
    (h : state.fastForwardSenderChain C target = .ok state') :
    (state.senderChain = none ∧ state' = state)
      ∨ ∃ c c', state.senderChain = some c ∧ state' = state.setSenderChainKey c'
        ∧ c.iteration.toNat ≤ c'.iteration.toNat ∧ target.toNat ≤ c'.iteration.toNat := by
  rw [fastForwardSenderChain] at h
  split at h
  · rename_i hchain
    cases h
    exact .inl ⟨hchain, rfl⟩
  · rename_i c hchain
    refine .inr ⟨c, ?_⟩
    split at h
    · cases h
    split at h
    · rename_i hpast
      cases h
      exact ⟨c, hchain, by rw [setSenderChainKey, ← hchain], Nat.le_refl _,
        UInt32.le_iff_toNat_le.mp hpast⟩
    · rename_i hpast
      obtain ⟨c', hadvance, heq⟩ := bind_eq_ok.mp h
      cases heq
      have hiteration := SenderChainKey.iteration_advance hadvance
      exact ⟨c', hchain, rfl, by omega, by omega⟩

/-- The errors are the texts of `InvalidSenderKeySessionError`. -/
def signingKeyPublic (state : SenderKeyState) : Except String PublicKey := do
  let signingKey ← okOr state.senderSigningKey "missing signing key"
  let publicKey ← okOr signingKey.publicKey "missing public key bytes"
  match PublicKey.deserialize publicKey with
  | .ok key => pure key
  | .error _ => throw "invalid public signing key"

theorem signingKeyPublic_serialize {publicKey : PublicKey} {privateKey : Option Bytes}
    (h : state.senderSigningKey = some ⟨some publicKey.serialize, privateKey⟩) :
    state.signingKeyPublic = .ok publicKey := by
  simp [signingKeyPublic, h, pure, Except.pure]

def signingKeyPrivate (state : SenderKeyState) : Except String PrivateKey := do
  let signingKey ← okOr state.senderSigningKey "missing signing key"
  let privateKey ← okOr signingKey.privateKey "missing private key bytes"
  match PrivateKey.deserialize privateKey with
  | .ok key => pure key
  | .error _ => throw "invalid private signing key"

/-- Put a key aside; a backlog that has grown too long loses its oldest keys. -/
def addSkippedMessageKey (state : SenderKeyState) (iteration : UInt32) (seed : Key) :
    SenderKeyState :=
  let keys := state.messageKeys ++ [⟨iteration, seed⟩]
  let keys :=
    if MAX_MESSAGE_KEYS + MESSAGE_KEY_PRUNE_THRESHOLD < keys.length then
      keys.drop (keys.length - MAX_MESSAGE_KEYS)
    else keys
  { state with messageKeys := keys }

def removeSenderMessageKey (C : Crypto) (state : SenderKeyState) (iteration : UInt32) :
    Option (SenderMessageKey × SenderKeyState) := do
  let smk ← state.messageKeys.find? (·.iteration = iteration)
  pure (SenderMessageKey.new C smk.iteration smk.seed,
    { state with messageKeys := state.messageKeys.eraseP (·.iteration = iteration) })

end SenderKeyState

/-! ## Records -/

structure SenderKeyRecord where
  states : List SenderKeyState
  lease : CounterLease
  deriving DecidableEq, Repr

variable {record : SenderKeyRecord}

namespace SenderKeyRecord

def newEmpty : SenderKeyRecord := ⟨[], .fresh⟩

/-- The record with its first state changed by `f`. -/
def modifyFront (record : SenderKeyRecord)
    (f : SenderKeyState → Except SignalProtocolError SenderKeyState) :
    Except SignalProtocolError SenderKeyRecord :=
  match record.states with
  | [] => .ok record
  | state :: states => do
    let state ← f state
    pure { record with states := state :: states }

/-- Advance the current chain to the end of its reservation, if there is one. -/
def fastForward (C : Crypto) (record : SenderKeyRecord) (ceiling : UInt32) :
    Except SignalProtocolError SenderKeyRecord :=
  if 0 < ceiling then record.modifyFront (·.fastForwardSenderChain C ceiling) else .ok record

variable {record' : SenderKeyRecord} {chainId iteration : UInt32}

/-- Only the current chain is advanced, and stands at the ceiling then or was past
it. -/
theorem fastForward_eq_ok {ceiling : UInt32} (h : record.fastForward C ceiling = .ok record') :
    (record' = record ∧ (ceiling = 0 ∨ ∀ state ∈ record.states.head?, state.senderChain = none))
      ∨ ∃ state states c c', record.states = state :: states ∧ state.senderChain = some c
        ∧ record' = { record with states := state.setSenderChainKey c' :: states }
        ∧ c.iteration.toNat ≤ c'.iteration.toNat ∧ ceiling.toNat ≤ c'.iteration.toNat := by
  obtain ⟨states, lease⟩ := record
  rw [fastForward] at h
  split at h
  · cases states with
    | nil =>
      cases h
      exact .inl ⟨rfl, .inr nofun⟩
    | cons state states =>
      obtain ⟨state', hstate, heq⟩ := bind_eq_ok.mp h
      cases heq
      rcases SenderKeyState.fastForwardSenderChain_eq_ok hstate with
        ⟨hnone, rfl⟩ | ⟨c, c', hchain, rfl, hle⟩
      · exact .inl ⟨rfl, .inr fun _ hhead => Option.some.inj hhead ▸ hnone⟩
      · exact .inr ⟨state, states, c, c', rfl, hchain, rfl, hle⟩
  · rename_i hzero
    cases h
    exact .inl ⟨rfl, .inl (eq_zero_of_not_pos hzero)⟩

def reserveIterations (record : SenderKeyRecord) (spentIteration : UInt32) : SenderKeyRecord :=
  { record with lease := record.lease.reserve spentIteration }

/-- A chain too far behind its reservation stays on the lease. -/
def waiveCounterLease (C : Crypto) (record : SenderKeyRecord) :
    Except SignalProtocolError SenderKeyRecord := do
  let record ← record.fastForward C record.lease.ceiling
  pure { record with lease := record.lease.waive }

def isWireGated (record : SenderKeyRecord) : Bool := record.lease.isPendingFlush

def clearWireGated (record : SenderKeyRecord) : SenderKeyRecord :=
  { record with lease := record.lease.setPendingFlush false }

def senderKeyState (record : SenderKeyRecord) : Except String SenderKeyState :=
  okOr record.states.head? "empty sender key state"

/-- The first state of a chain. -/
def senderKeyStateForChainId (record : SenderKeyRecord) (chainId : UInt32) :
    Option SenderKeyState :=
  record.states.find? (·.chainId = chainId)

/-- The record with the first state of a chain replaced. -/
def setStateForChainId (record : SenderKeyRecord) (chainId : UInt32) (state : SenderKeyState) :
    SenderKeyRecord :=
  { record with states := record.states.replaceF fun s => if s.chainId = chainId then state else none }

/-- The state is the one of a chain under a signing key. -/
def hasSigningKey (chainId : UInt32) (signatureKey : PublicKey) (state : SenderKeyState) : Bool :=
  state.chainId = chainId && state.signingKeyPublic.toOption = some signatureKey

/-- Make a chain the current one.  A chain the record knows keeps its state; a
reservation is given up. -/
def addSenderKeyState (record : SenderKeyRecord) (chainId iteration : UInt32) (chainKey : Bytes)
    (signatureKey : PublicKey) (signaturePrivateKey : Option PrivateKey) :
    Except SignalProtocolError SenderKeyRecord := do
  let existingState := record.states.find? (hasSigningKey chainId signatureKey)
  let states := (record.states.eraseP (hasSigningKey chainId signatureKey)).filter
    (·.chainId ≠ chainId)
  let state ← match existingState with
    | none => SenderKeyState.new chainId iteration chainKey signatureKey signaturePrivateKey
    | some state => pure state
  pure { states := state :: states.take (MAX_SENDER_KEY_STATES - 1)
         lease := record.lease.clearReservation }

/-- The record that learned a chain: its state, known or new, comes first, and the
others are of other chains. -/
theorem addSenderKeyState_eq_ok
    (h : record.addSenderKeyState chainId iteration chainKey signatureKey signaturePrivateKey =
      .ok record') :
    ∃ front states, record' = ⟨front :: states, record.lease.clearReservation⟩
      ∧ states.Sublist (record.states.filter (·.chainId ≠ chainId)) ∧ front.chainId = chainId
      ∧ (front ∈ record.states
        ∨ SenderKeyState.new chainId iteration chainKey signatureKey signaturePrivateKey
          = .ok front) := by
  have hrest : (((record.states.eraseP (hasSigningKey chainId signatureKey)).filter
      (·.chainId ≠ chainId)).take (MAX_SENDER_KEY_STATES - 1)).Sublist
      (record.states.filter (·.chainId ≠ chainId)) :=
    (List.take_sublist _ _).trans (List.eraseP_sublist.filter _)
  rw [addSenderKeyState] at h
  split at h
  · obtain ⟨front, hfront, heq⟩ := bind_eq_ok.mp h
    cases heq
    refine ⟨front, _, rfl, hrest, ?_, .inr hfront⟩
    obtain ⟨key, -, heq⟩ := bind_eq_ok.mp hfront
    cases heq
    rfl
  · rename_i front hfind
    cases h
    have hfound := List.find?_some hfind
    rw [hasSigningKey, Bool.and_eq_true, decide_eq_true_eq] at hfound
    exact ⟨front, _, rfl, hrest, hfound.1, .inl (List.mem_of_find?_eq_some hfind)⟩

theorem length_addSenderKeyState
    (h : record.addSenderKeyState chainId iteration chainKey signatureKey signaturePrivateKey =
      .ok record') :
    record'.states.length ≤ MAX_SENDER_KEY_STATES := by
  have hpos : 0 < MAX_SENDER_KEY_STATES := by decide
  rw [addSenderKeyState] at h
  split at h
  · obtain ⟨state, -, heq⟩ := bind_eq_ok.mp h
    cases heq
    rw [List.length_cons, List.length_take]
    omega
  · cases h
    rw [List.length_cons, List.length_take]
    omega

end SenderKeyRecord

/-! ## Rows -/

structure SenderChainKeyStructure where
  iteration : Option UInt32
  seed : Option Bytes
  deriving DecidableEq, Repr

structure SenderMessageKeyStructure where
  iteration : Option UInt32
  seed : Option Bytes
  deriving DecidableEq, Repr

structure SenderKeyStateStructure where
  senderKeyId : Option UInt32
  senderChainKey : Option SenderChainKeyStructure
  senderSigningKey : Option SenderSigningKey
  senderMessageKeys : List SenderMessageKeyStructure
  deriving DecidableEq, Repr

/-- A persisted record: its states, the ceiling of its reservation and the
incarnation of the store that wrote it. -/
structure SenderKeyRow where
  senderKeyStates : List SenderKeyStateStructure
  reservation : Option UInt32
  incarnation : Option (FixedBytes 16)
  deriving DecidableEq, Repr

/-- A seed that is not 32 bytes long reads as zeroes. -/
def StoredMessageKey.fromProtobuf (smk : SenderMessageKeyStructure) : StoredMessageKey :=
  ⟨smk.iteration.getD 0, (smk.seed.bind (FixedBytes.ofBytes 32)).getD (FixedBytes.replicate 32 0)⟩

def SenderKeyState.fromProtobuf (state : SenderKeyStateStructure) : SenderKeyState where
  senderKeyId := state.senderKeyId
  senderSigningKey := state.senderSigningKey
  messageKeys := state.senderMessageKeys.map StoredMessageKey.fromProtobuf
  senderChain := do
    let chain ← state.senderChainKey
    let seed ← FixedBytes.ofBytes 32 (← chain.seed)
    pure ⟨chain.iteration.getD 0, seed⟩

def SenderKeyState.asProtobuf (state : SenderKeyState) : SenderKeyStateStructure where
  senderKeyId := state.senderKeyId
  senderChainKey := state.senderChain.map fun c => ⟨some c.iteration, some c.chainKey.val⟩
  senderSigningKey := state.senderSigningKey
  senderMessageKeys := state.messageKeys.map fun k => ⟨some k.iteration, some k.seed.val⟩

@[simp] theorem SenderKeyState.fromProtobuf_asProtobuf (state : SenderKeyState) :
    fromProtobuf state.asProtobuf = state := by
  obtain ⟨id, signingKey, messageKeys, chain⟩ := state
  have hkeys : (messageKeys.map fun k => (⟨some k.iteration, some k.seed.val⟩ :
      SenderMessageKeyStructure)).map StoredMessageKey.fromProtobuf = messageKeys := by
    rw [List.map_map]
    refine (List.map_congr_left fun k _ => ?_).trans (List.map_id _)
    simp [StoredMessageKey.fromProtobuf]
  cases chain with
  | none => simp only [fromProtobuf, asProtobuf, hkeys]; rfl
  | some chain => simp [fromProtobuf, asProtobuf, hkeys]

/-- A seed that is present and 32 bytes long. -/
def seedToArray (seed : Option Bytes) : Except SignalProtocolError Key :=
  okOr (seed.bind (FixedBytes.ofBytes 32)) .invalidProtobufEncoding

namespace SenderKeyRecord

def serializeInner (record : SenderKeyRecord) (incarnation : Option (FixedBytes 16)) :
    SenderKeyRow :=
  let reserved := record.lease.ceiling
  { senderKeyStates := record.states.map (·.asProtobuf)
    reservation := if 0 < reserved then some reserved else none
    incarnation := if 0 < reserved then incarnation else none }

/-- The check of a state's seeds when its row is loaded. -/
def checkSeeds (state : SenderKeyStateStructure) : Except SignalProtocolError Unit := do
  if let some chain := state.senderChainKey then
    let _ ← seedToArray chain.seed
  state.senderMessageKeys.forM fun smk => do
    let _ ← seedToArray smk.seed

/-- Only a row of this incarnation was not recovered after a crash: any other
one may have spent what it has reserved. -/
def deserializeInner (C : Crypto) (row : SenderKeyRow) (incarnation : Option (FixedBytes 16)) :
    Except SignalProtocolError SenderKeyRecord := do
  let kept := row.senderKeyStates.take MAX_SENDER_KEY_STATES
  kept.forM checkSeeds
  let ceiling := row.reservation.getD 0
  let record : SenderKeyRecord :=
    ⟨kept.map SenderKeyState.fromProtobuf, .fromPersistedCeiling ceiling⟩
  let trustedReload := incarnation.isSome && row.incarnation == incarnation
  if trustedReload then pure record else record.fastForward C ceiling

def deserialize (C : Crypto) (row : SenderKeyRow) : Except SignalProtocolError SenderKeyRecord :=
  deserializeInner C row none

/-- Without a matching incarnation a row is loaded as after a crash. -/
theorem deserializeInner_of_ne {row : SenderKeyRow} {incarnation : Option (FixedBytes 16)}
    (h : incarnation = none ∨ row.incarnation ≠ incarnation) :
    deserializeInner C row incarnation = deserialize C row := by
  have huntrusted : (incarnation.isSome && row.incarnation == incarnation) = false := by
    rcases h with rfl | h
    · rfl
    · simp [h]
  rw [deserialize, deserializeInner, deserializeInner]
  simp [huntrusted]

theorem checkSeeds_asProtobuf (state : SenderKeyState) : checkSeeds state.asProtobuf = .ok () := by
  have hseed : ∀ key : Key, seedToArray (some key.val) = .ok key := fun key => by
    rw [seedToArray, Option.bind_some, FixedBytes.ofBytes_val, okOr_some]
  have hkeys : state.asProtobuf.senderMessageKeys.forM
      (fun smk => do let _ ← seedToArray smk.seed) = .ok () := by
    refine forM_eq_ok.mpr fun smk hsmk => ?_
    obtain ⟨key, -, rfl⟩ := List.mem_map.mp hsmk
    rw [hseed]
    rfl
  rw [checkSeeds]
  cases hchain : state.senderChain with
  | none => simpa [SenderKeyState.asProtobuf, hchain] using hkeys
  | some chain => simpa [SenderKeyState.asProtobuf, hchain, hseed] using hkeys

/-- A row that was made from states is loaded with these states. -/
theorem deserializeInner_asProtobuf (C : Crypto) (states : List SenderKeyState)
    (reservation : Option UInt32) (incarnation current : Option (FixedBytes 16)) :
    deserializeInner C ⟨states.map (·.asProtobuf), reservation, incarnation⟩ current
      = if current.isSome && incarnation == current then
          .ok ⟨states.take MAX_SENDER_KEY_STATES, .fromPersistedCeiling (reservation.getD 0)⟩
        else
          fastForward C ⟨states.take MAX_SENDER_KEY_STATES,
            .fromPersistedCeiling (reservation.getD 0)⟩ (reservation.getD 0) := by
  have hkept : (states.map (·.asProtobuf)).take MAX_SENDER_KEY_STATES
      = (states.take MAX_SENDER_KEY_STATES).map (·.asProtobuf) := List.map_take.symm
  have hseeds : ((states.take MAX_SENDER_KEY_STATES).map (·.asProtobuf)).forM checkSeeds
      = .ok () := by
    refine forM_eq_ok.mpr fun state hstate => ?_
    obtain ⟨state, -, rfl⟩ := List.mem_map.mp hstate
    exact checkSeeds_asProtobuf state
  have hstates : ((states.take MAX_SENDER_KEY_STATES).map (·.asProtobuf)).map
      SenderKeyState.fromProtobuf = states.take MAX_SENDER_KEY_STATES := by
    rw [List.map_map]
    exact (List.map_congr_left fun state _ => state.fromProtobuf_asProtobuf).trans (List.map_id _)
  rw [deserializeInner, hkept, hseeds, hstates]
  rfl

/-- The ceiling is in the row, also where none is written. -/
theorem reservation_serializeInner (record : SenderKeyRecord) (incarnation : Option (FixedBytes 16)) :
    (record.serializeInner incarnation).reservation.getD 0 = record.lease.ceiling := by
  rw [serializeInner]
  split
  · rfl
  · rename_i hzero
    exact (eq_zero_of_not_pos hzero).symm

/-- A record that is written and loaded after a crash is advanced past its
reservation. -/
theorem deserialize_serializeInner (C : Crypto) (record : SenderKeyRecord)
    (incarnation : Option (FixedBytes 16)) :
    deserialize C (record.serializeInner incarnation)
      = fastForward C ⟨record.states.take MAX_SENDER_KEY_STATES,
        .fromPersistedCeiling record.lease.ceiling⟩ record.lease.ceiling := by
  rw [← reservation_serializeInner record incarnation]
  exact deserializeInner_asProtobuf C record.states _ _ none

end SenderKeyRecord

/-! ## Components -/

/-- `invalid` of `record_components.rs`. -/
def invalidField (field expectation : String) : SignalProtocolError :=
  .invalidArgument s!"{field} must be {expectation}"

def exactBytes (value : Bytes) (length : Nat) (field : String) :
    Except SignalProtocolError Bytes :=
  if value.length = length then .ok value
  else .error (.invalidArgument s!"{field} must be {length} bytes")

theorem exactBytes_again {value value' : Bytes} {length : Nat} {field : String}
    (h : exactBytes value length field = .ok value') : exactBytes value' length field = .ok value := by
  rw [exactBytes] at h ⊢
  split at h
  · cases h
    rename_i hlength
    rw [if_pos hlength]
  · cases h

/-- A raw or a serialized public key, in its serialized form. -/
def normalizePublicKey (value : Bytes) (field : String) : Except SignalProtocolError Bytes :=
  let parsed :=
    if value.length = PublicKey.RAW_KEY_LEN then some (PublicKey.fromDjbPublicKeyBytes value)
    else if value.length = PublicKey.SERIALIZED_KEY_LEN then some (PublicKey.deserialize value)
    else none
  match parsed with
  | none => .error (invalidField field "a raw or canonically serialized public key")
  | some (.error _) => .error (invalidField field "a valid public key")
  | some (.ok key) => .ok key.serialize

structure SenderKeyStateComponents where
  keyId : UInt32
  chainIteration : UInt32
  chainSeed : Bytes
  signingPublic : Bytes
  signingPrivate : Option Bytes
  messageKeys : List (UInt32 × Bytes)
  deriving DecidableEq, Repr

def senderStateStructureFromComponents (value : SenderKeyStateComponents) :
    Except SignalProtocolError SenderKeyStateStructure := do
  let chainSeed ← exactBytes value.chainSeed 32 "sender chain seed"
  let signingPublic ← normalizePublicKey value.signingPublic "sender signing public key"
  let signingPrivate ← value.signingPrivate.mapM
    fun key => exactBytes key 32 "sender signing private key"
  let messageKeys ← value.messageKeys.mapM fun key => do
    pure ⟨some key.1, some (← exactBytes key.2 32 "sender message-key seed")⟩
  pure { senderKeyId := some value.keyId
         senderChainKey := some ⟨some value.chainIteration, some chainSeed⟩
         senderSigningKey := some ⟨some signingPublic, signingPrivate⟩
         senderMessageKeys := messageKeys }

def senderStateComponentsFromStructure (value : SenderKeyStateStructure) :
    Except SignalProtocolError SenderKeyStateComponents := do
  let chain ← okOr value.senderChainKey (invalidField "sender chain key" "present")
  let signing ← okOr value.senderSigningKey (invalidField "sender signing key" "present")
  let keyId ← okOr value.senderKeyId (invalidField "sender key id" "present")
  let iteration ← okOr chain.iteration (invalidField "sender chain iteration" "present")
  let seed ← okOr chain.seed (invalidField "sender chain seed" "present")
  let seed ← exactBytes seed 32 "sender chain seed"
  let signingPublic ← okOr signing.publicKey (invalidField "sender signing public key" "present")
  let signingPublic ← normalizePublicKey signingPublic "sender signing public key"
  let signingPrivate ← signing.privateKey.mapM
    fun key => exactBytes key 32 "sender signing private key"
  let messageKeys ← value.senderMessageKeys.mapM fun key => do
    let iteration ← okOr key.iteration (invalidField "sender message-key iteration" "present")
    let seed ← okOr key.seed (invalidField "sender message-key seed" "present")
    pure (iteration, ← exactBytes seed 32 "sender message-key seed")
  pure { keyId, chainIteration := iteration, chainSeed := seed, signingPublic, signingPrivate,
         messageKeys }

/-- The signing key of the state is encoded as the code encodes keys. -/
def SenderKeyState.SignedBy (state : SenderKeyState) (publicKey : PublicKey)
    (privateKey : Option Bytes) : Prop :=
  state.senderSigningKey = some ⟨some publicKey.serialize, privateKey⟩

theorem SenderKeyState.signedBy_of_new {chainId iteration : UInt32}
    (h : new chainId iteration chainKey signatureKey signaturePrivateKey = .ok state) :
    state.SignedBy signatureKey (signaturePrivateKey.map (·.serialize)) := by
  obtain ⟨key, -, heq⟩ := bind_eq_ok.mp h
  cases heq
  rfl

theorem normalizePublicKey_serialize (publicKey : PublicKey) (field : String) :
    normalizePublicKey publicKey.serialize field = .ok publicKey.serialize := by
  simp [normalizePublicKey, PublicKey.RAW_KEY_LEN, PublicKey.SERIALIZED_KEY_LEN]

/-- A state that is exported and imported is the same. -/
theorem components_roundTrip {publicKey : PublicKey} {privateKey : Option Bytes}
    {components : SenderKeyStateComponents} (hkey : state.SignedBy publicKey privateKey)
    (h : senderStateComponentsFromStructure state.asProtobuf = .ok components) :
    senderStateStructureFromComponents components = .ok state.asProtobuf := by
  obtain ⟨chain, hchain, h⟩ := bind_eq_ok.mp h
  obtain ⟨signing, hsigning, h⟩ := bind_eq_ok.mp h
  obtain ⟨keyId, hkeyId, h⟩ := bind_eq_ok.mp h
  obtain ⟨iteration, hiteration, h⟩ := bind_eq_ok.mp h
  obtain ⟨seed, hseed, h⟩ := bind_eq_ok.mp h
  obtain ⟨seed', hseed', h⟩ := bind_eq_ok.mp h
  obtain ⟨signingPublic, hpublic, h⟩ := bind_eq_ok.mp h
  obtain ⟨signingPublic', hpublic', h⟩ := bind_eq_ok.mp h
  obtain ⟨signingPrivate, hprivate, h⟩ := bind_eq_ok.mp h
  obtain ⟨messageKeys, hmessageKeys, h⟩ := bind_eq_ok.mp h
  cases h
  have hmessageKeys' := mapM_inverse hmessageKeys
    (g := fun key => do pure ⟨some key.1, some (← exactBytes key.2 32 "sender message-key seed")⟩)
    fun key hkey out hout => by
      obtain ⟨iteration, hiteration, hout⟩ := bind_eq_ok.mp hout
      obtain ⟨seed, hseed, hout⟩ := bind_eq_ok.mp hout
      obtain ⟨seed', hseed', hout⟩ := bind_eq_ok.mp hout
      cases hout
      rw [exactBytes_again hseed', ok_bind, ← okOr_eq_ok.mp hiteration, ← okOr_eq_ok.mp hseed]
      rfl
  obtain rfl : signing = ⟨some publicKey.serialize, privateKey⟩ :=
    Option.some.inj ((okOr_eq_ok.mp hsigning).symm.trans hkey)
  obtain rfl : publicKey.serialize = signingPublic := Option.some.inj (okOr_eq_ok.mp hpublic)
  rw [normalizePublicKey_serialize] at hpublic'
  obtain rfl := Except.ok.inj hpublic'
  have hprivate' : signingPrivate.mapM (fun key => exactBytes key 32 "sender signing private key")
      = .ok privateKey := by
    cases privateKey with
    | none =>
      cases hprivate
      rfl
    | some key =>
      obtain ⟨key', hkey', heq⟩ := bind_eq_ok.mp hprivate
      cases heq
      exact bind_eq_ok.mpr ⟨key, exactBytes_again hkey', rfl⟩
  rw [senderStateStructureFromComponents]
  rw [exactBytes_again hseed', normalizePublicKey_serialize, ok_bind, hprivate', ok_bind,
    hmessageKeys', ok_bind]
  have hchain' : some ⟨chain.iteration, chain.seed⟩ = state.asProtobuf.senderChainKey :=
    (okOr_eq_ok.mp hchain).symm
  rw [← okOr_eq_ok.mp hiteration, ← okOr_eq_ok.mp hseed, ← okOr_eq_ok.mp hkeyId, hchain', ← hkey]
  rfl

namespace SenderKeyRecord

/-- The imported chain starts without a reservation. -/
def fromComponents (value : List SenderKeyStateComponents) :
    Except SignalProtocolError SenderKeyRecord := do
  let states ← (value.take MAX_SENDER_KEY_STATES).mapM fun components => do
    pure (SenderKeyState.fromProtobuf (← senderStateStructureFromComponents components))
  pure ⟨states, .fresh⟩

/-- The exported chain starts at the end of its reservation. -/
def intoComponents (C : Crypto) (record : SenderKeyRecord) :
    Except SignalProtocolError (List SenderKeyStateComponents) := do
  let record ← record.fastForward C record.lease.ceiling
  record.states.mapM fun state => senderStateComponentsFromStructure state.asProtobuf

/-- A record that is exported and imported is advanced past its reservation, and
has none. -/
theorem fromComponents_intoComponents {record' : SenderKeyRecord}
    {components : List SenderKeyStateComponents}
    (hkeys : ∀ state ∈ record.states, ∃ publicKey privateKey, state.SignedBy publicKey privateKey)
    (hinto : record.intoComponents C = .ok components)
    (hfrom : fromComponents components = .ok record') :
    ∃ forwarded, record.fastForward C record.lease.ceiling = .ok forwarded
      ∧ record' = ⟨forwarded.states.take MAX_SENDER_KEY_STATES, .fresh⟩ := by
  obtain ⟨forwarded, hforwarded, hinto⟩ := bind_eq_ok.mp hinto
  have hkeys' : ∀ state ∈ forwarded.states, ∃ publicKey privateKey,
      state.SignedBy publicKey privateKey := by
    rcases fastForward_eq_ok hforwarded with ⟨rfl, -⟩ | ⟨state, states, -, -, hstates, -, rfl, -⟩
    · exact hkeys
    · rw [hstates, List.forall_mem_cons] at hkeys
      exact List.forall_mem_cons.mpr ⟨hkeys.1, hkeys.2⟩
  have hback := mapM_inverse hinto
    (g := fun components => do
      pure (SenderKeyState.fromProtobuf (← senderStateStructureFromComponents components)))
    fun state hstate components hcomponents => by
      obtain ⟨publicKey, privateKey, hkey⟩ := hkeys' state hstate
      rw [components_roundTrip hkey hcomponents, ok_bind, SenderKeyState.fromProtobuf_asProtobuf]
      rfl
  obtain ⟨states, hstates, hrecord⟩ := bind_eq_ok.mp hfrom
  cases hrecord
  rw [mapM_eq_ok.mpr (List.forall₂_take MAX_SENDER_KEY_STATES (mapM_eq_ok.mp hback))] at hstates
  cases hstates
  exact ⟨forwarded, hforwarded, rfl⟩

end SenderKeyRecord

end WaCore.Signal
