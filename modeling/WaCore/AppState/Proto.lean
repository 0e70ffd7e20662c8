import WaCore.Lib.Bytes

/-!
# The messages of app-state sync

A collection of app state is a set of records, each encrypted under an index.
The server hands it out as a snapshot and as patches on top of it.  These are
the protobuf messages of that exchange (`whatsapp.proto`), the errors of
`appstate/src/errors.rs` and the lists of `patch_decode.rs`.

A message field that only wraps one optional value, such as `SyncdIndex` around
its `blob`, is that optional value: no reader tells an absent message from a
present one whose field is absent.  The one exception is the record of a
mutation, whose presence is asked for.
-/

namespace WaCore.AppState

/-! ## Operations -/

/-- What a mutation does to the record at its index. -/
inductive SyncdOperation where
  | set
  | remove
  deriving DecidableEq, Repr

/-- A value of the open enum `SyncdOperation`, which may be one this client
does not know. -/
inductive OperationValue where
  | known (op : SyncdOperation)
  | unknown (raw : Int)
  deriving DecidableEq, Repr

def OperationValue.asKnown : OperationValue → Option SyncdOperation
  | known op => some op
  | unknown _ => none

/-- The number of an operation on the wire. -/
def SyncdOperation.toUInt8 : SyncdOperation → UInt8
  | set => 0
  | remove => 1

def OperationValue.toI32 : OperationValue → Int
  | known op => op.toUInt8.toNat
  | unknown raw => raw

/-! ## Records, patches and snapshots -/

structure SyncdRecord where
  index : Option Bytes
  value : Option Bytes
  keyId : Option Bytes
  deriving DecidableEq, Repr

structure SyncdMutation where
  operation : Option OperationValue
  record : Option SyncdRecord
  deriving DecidableEq, Repr

structure SyncdPatch where
  version : Option UInt64
  mutations : List SyncdMutation
  snapshotMac : Option Bytes
  patchMac : Option Bytes
  keyId : Option Bytes
  deriving DecidableEq, Repr

structure SyncdSnapshot where
  version : Option UInt64
  records : List SyncdRecord
  mac : Option Bytes
  keyId : Option Bytes
  deriving DecidableEq, Repr

/-- The index MAC that a mutation's record carries. -/
def SyncdMutation.indexMac (m : SyncdMutation) : Option Bytes := m.record.bind (·.index)

/-- The value blob that a mutation's record carries. -/
def SyncdMutation.valueBlob (m : SyncdMutation) : Option Bytes := m.record.bind (·.value)

/-! ## Actions

Of an action's payload only the status privacy is looked at; the other fields
are kept as the bytes of their encoding. -/

structure StatusPrivacyAction where
  mode : Option Int
  others : Bytes
  deriving DecidableEq, Repr

structure SyncActionValue where
  statusPrivacy : Option StatusPrivacyAction
  others : Bytes
  deriving DecidableEq, Repr

structure SyncActionData where
  index : Option Bytes
  value : Option SyncActionValue
  padding : Option Bytes
  version : Option Int
  deriving DecidableEq, Repr

/-- A decoded mutation. -/
structure Mutation where
  actionValue : Option SyncActionValue
  index : List String
  operation : SyncdOperation
  deriving DecidableEq, Repr

/-- One record of a recovery: the primary sends its action in the clear. -/
structure SyncdPlainTextRecord where
  value : Option SyncActionData
  keyId : Option Bytes
  mac : Option Bytes
  deriving DecidableEq, Repr

/-- A collection as the primary device sends it back. -/
structure SyncdSnapshotRecovery where
  version : Option UInt64
  collectionName : Option String
  mutationRecords : List SyncdPlainTextRecord
  collectionLthash : Option Bytes
  deriving DecidableEq, Repr

/-- A row of the mutation-MAC store. -/
structure AppStateMutationMAC where
  indexMac : Bytes
  valueMac : Bytes
  deriving DecidableEq, Repr

/-! ## Errors -/

inductive AppStateError where
  | mismatchingLTHash
  | mismatchingContentMAC
  | mismatchingIndexMAC
  | keyNotFound
  | missingValueBlob
  | valueBlobTooShort
  | decryptionFailed
  | decodeFailed
  | missingIndexMAC
  | missingKeyId
  | snapshotMACMismatch
  | snapshotMACMissing
  | patchSnapshotMACMismatch
  | patchMACMismatch
  | patchVersionMismatch (expected got : UInt64)
  | duplicateIndexInPatch
  | unsupportedSyncdOperation (raw : Int)
  deriving DecidableEq, Repr

/-- The text of an error. -/
def AppStateError.text : AppStateError → String
  | mismatchingLTHash => "mismatching LTHash"
  | mismatchingContentMAC => "mismatching content MAC"
  | mismatchingIndexMAC => "mismatching index MAC"
  | keyNotFound => "didn't find app state key"
  | missingValueBlob => "missing value blob in record"
  | valueBlobTooShort => "value blob too short (need at least 48 bytes for IV + MAC)"
  | decryptionFailed => "decryption failed"
  | decodeFailed => "failed to decode protobuf"
  | missingIndexMAC => "missing index MAC in record"
  | missingKeyId => "missing key ID in record"
  | snapshotMACMismatch => "snapshot MAC mismatch"
  | snapshotMACMissing => "snapshot MAC missing"
  | patchSnapshotMACMismatch => "patch snapshot MAC mismatch"
  | patchMACMismatch => "patch MAC mismatch"
  | patchVersionMismatch expected got =>
    s!"patch version mismatch: expected {expected}, got {got}"
  | duplicateIndexInPatch => "duplicate index within a single patch"
  | unsupportedSyncdOperation raw => s!"unsupported syncd operation {raw} in patch"

/-! ## Collections -/

/-- The collections this client syncs. -/
inductive WAPatchName where
  | criticalBlock
  | criticalUnblockLow
  | regularLow
  | regularHigh
  | regular
  | unknown
  deriving DecidableEq, Repr

def WAPatchName.asStr : WAPatchName → String
  | criticalBlock => "critical_block"
  | criticalUnblockLow => "critical_unblock_low"
  | regularLow => "regular_low"
  | regularHigh => "regular_high"
  | regular => "regular"
  | unknown => "unknown"

/-- A collection's error, from the server or of this client's own. -/
inductive CollectionSyncError where
  | conflict (hasMore : Bool)
  | fatal (code : UInt16) (text : String)
  | retry (code : UInt16) (text : String)
  deriving DecidableEq, Repr

/-- What the server answered for one collection.  An external snapshot that is
not downloaded yet is only asked for its presence. -/
structure PatchList where
  name : WAPatchName
  hasMorePatches : Bool
  patches : List SyncdPatch
  snapshot : Option SyncdSnapshot
  snapshotRef : Bool
  error : Option CollectionSyncError
  deriving DecidableEq, Repr

/-! ## The state of a collection -/

/-- How far a collection has synced: its version, the aggregate hash of its
records, and two flags about the baseline under them. -/
structure HashState where
  version : UInt64
  hash : FixedBytes 128
  macMismatchFatal : Bool
  bootstrapped : Bool
  deriving DecidableEq, Repr

/-- The hash of a collection without records. -/
def emptyHash : FixedBytes 128 := .replicate 128 0

/-- `HashState::default`. -/
def HashState.default : HashState := ⟨0, emptyHash, false, false⟩

/-- Whether nothing was ever folded into this state: version zero and an
all-zero hash. -/
def HashState.isUnsynced (state : HashState) : Bool := state.version = 0 && state.hash = emptyHash

/-- `u64::saturating_add(1)`. -/
def saturatingSucc (v : UInt64) : UInt64 := if v = UInt64.ofNat (2 ^ 64 - 1) then v else v + 1

theorem toNat_saturatingSucc {v : UInt64} (h : v.toNat + 1 < 2 ^ 64) :
    (saturatingSucc v).toNat = v.toNat + 1 := by
  have hne : v ≠ UInt64.ofNat (2 ^ 64 - 1) := by
    rintro rfl
    simp at h
  rw [saturatingSucc, if_neg hne, UInt64.toNat_add, UInt64.toNat_one]
  omega

theorem le_saturatingSucc (v : UInt64) : v ≤ saturatingSucc v := by
  rw [UInt64.le_iff_toNat_le]
  by_cases h : v.toNat + 1 < 2 ^ 64
  · rw [toNat_saturatingSucc h]
    omega
  · have hmax : v = UInt64.ofNat (2 ^ 64 - 1) := by
      apply UInt64.toNat_inj.mp
      have hlt := v.toNat_lt
      simp
      omega
    rw [saturatingSucc, if_pos hmax]

end WaCore.AppState
