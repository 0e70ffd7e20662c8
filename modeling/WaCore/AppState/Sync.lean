import WaCore.AppState.Store

/-!
# Syncing a collection

`appstate_sync.rs`: the processor that brings a collection of the store up to
what the server, or the primary device, sends.

`processPatchList` applies a snapshot and then patches, and commits after each.
Its parts are definitions of their own: `openCursor` (keys, stored state and
snapshot), `applyPatch` (one turn of the loop) and `finish` (the last write).
A `Cursor` is what the function carries between them.  `applySnapshotRecovery`
replaces a collection by the primary's copy of it, and `buildPatch` makes an
outgoing patch.
-/

namespace WaCore.AppState

/-! ## Keys -/

namespace KeyCache

def capacity : Nat := 32

def get (cache : KeyCache) (keyId : Bytes) : Option ExpandedAppStateKeys :=
  (cache.find? (·.1 = keyId)).map Prod.snd

/-- A key that is there is replaced in its place; a new one is the youngest,
and the oldest ones go beyond the capacity. -/
def insert (cache : KeyCache) (keyId : Bytes) (keys : ExpandedAppStateKeys) : KeyCache :=
  if (cache.get keyId).isSome then cache.map fun e => if e.1 = keyId then (keyId, keys) else e
  else
    let grown := cache ++ [(keyId, keys)]
    grown.drop (grown.length - capacity)

end KeyCache

/-- `get_app_state_key`: from the cache, or from the store into the cache. -/
def getAppStateKey (env : Env) (keyId : Bytes) : SyncM ExpandedAppStateKeys := do
  let cached ← (fun w : World => KeyCache.get w.keyCache keyId) <$> get
  match cached with
  | some keys => pure keys
  | none => do
    let key ← readBackend env .getSyncKey (·.syncKeys.lookup keyId)
    match key with
    | none => throw (.keyNotFound keyId)
    | some keyData => do
      let expanded := expandAppStateKeys env.primitives keyData
      modify fun w => { w with keyCache := KeyCache.insert w.keyCache keyId expanded }
      pure expanded

/-- The key ids of a list, each once, in the order in which they come up. -/
def collectKeyIds (snapshot : Option SyncdSnapshot) (patches : List SyncdPatch) : List Bytes :=
  let ofSnapshot := snapshot.toList.flatMap fun snap =>
    snap.keyId.toList ++ snap.records.flatMap (·.keyId.toList)
  let ofPatches := patches.flatMap fun patch =>
    patch.keyId.toList ++ patch.mutations.flatMap fun m => (m.record.bind (·.keyId)).toList
  firstPerKey id [] (ofSnapshot ++ ofPatches)

/-- Fetch some keys; one that the backend does not have is left out. -/
def fetchKeys (env : Env) :
    List Bytes → Keyed Bytes ExpandedAppStateKeys → SyncM (Keyed Bytes ExpandedAppStateKeys)
  | [], keys => pure keys
  | keyId :: keyIds, keys => do
    let fetched ← Eff.attempt (getAppStateKey env keyId)
    match fetched with
    | .ok expanded => fetchKeys env keyIds (keys.insert keyId expanded)
    | .error (.keyNotFound _) => fetchKeys env keyIds keys
    | .error e => throw e

def prefetchKeys (env : Env) (pl : PatchList) : SyncM (Keyed Bytes ExpandedAppStateKeys) :=
  fetchKeys env (collectKeyIds pl.snapshot pl.patches) ∅

def lookupAppStateKey (keys : Keyed Bytes ExpandedAppStateKeys) : KeyLookup :=
  fun keyId => okOr (keys.lookup keyId) .keyNotFound

/-! ## Previous values -/

/-- The index MAC of a mutation as an array; one of another length is dropped,
since no stored row can match it. -/
def mutationIndexMacArray (m : SyncdMutation) : Option (FixedBytes 32) :=
  m.indexMac.bind (FixedBytes.ofBytes 32)

/-- The distinct index MACs of a patch, by a scan or by a sort. -/
def collectUniqueIndexMacs (mutations : List SyncdMutation) : List (FixedBytes 32) :=
  let macs := mutations.filterMap mutationIndexMacArray
  if mutations.length ≤ macDedupScanLimit then firstPerKey Subtype.val [] macs
  else runEnds Subtype.val (macs.mergeSort fun a b => bytesLe a.val b.val)

/-- The callback over the rows fetched for a patch. -/
def prevValueMac (dbPrev : Keyed Bytes Bytes) (indexMac : Bytes) : Option Bytes :=
  (FixedBytes.ofBytes 32 indexMac).bind fun key => dbPrev.lookup key.val

/-! ## The persistence hook -/

/-- The status privacy that a mutation sets, if it has a mode. -/
def statusPrivacyAction (m : Mutation) : Option StatusPrivacyAction :=
  if m.operation ≠ .set ∨ m.index ≠ ["status_privacy"] then none
  else (m.actionValue.bind (·.statusPrivacy)).filter (·.mode.isSome)

def persistStatusPrivacy (env : Env) (mutations : List Mutation) : SyncM Unit :=
  match mutations.reverse.findSome? statusPrivacyAction with
  | none => pure ()
  | some action =>
    if env.mutationPersistence then
      backend env .persistStatusPrivacy fun s => ((), { s with statusPrivacy := some action })
    else pure ()

/-! ## Patch lists -/

/-- What `process_patch_list` carries along: the state, the state that was last
committed, and the mutations to hand back. -/
structure Cursor where
  state : HashState
  committed : HashState
  mutations : List Mutation

/-- `committed_mutations_error`: an error never loses what was committed. -/
def committedMutationsError (source : SyncError) (mutations : List Mutation) (state : HashState)
    (collection : WAPatchName) : SyncError :=
  if mutations.isEmpty then source else .committed mutations state collection source

/-- Run a program; its error is returned with the mutations committed so far. -/
def Cursor.guard (cursor : Cursor) (collection : WAPatchName) {α : Type} (m : SyncM α) : SyncM α := do
  let result ← Eff.attempt m
  match result with
  | .ok a => pure a
  | .error e =>
    throw (committedMutationsError e cursor.mutations cursor.committed collection)

/-- `snapshot_is_stale`. -/
def snapshotIsStale (persistedVersion snapshotVersion : UInt64) : Bool :=
  persistedVersion > 0 && snapshotVersion ≤ persistedVersion

/-- The result of a pure step, with its error put into the errors of sync. -/
def liftResult {ε α : Type} (f : ε → SyncError) : Except ε α → SyncM α
  | .ok a => pure a
  | .error e => throw (f e)

/-- Replace the collection by a snapshot.  The version is written last. -/
def applySnapshot (env : Env) (keys : Keyed Bytes ExpandedAppStateKeys) (pl : PatchList)
    (validateMacs : Bool) (snapshot : SyncdSnapshot) (cursor : Cursor) : SyncM Cursor := do
  let name := pl.name.asStr
  let result ← liftResult .appState (processSnapshot env.primitives snapshot .default
    (lookupAppStateKey keys) validateMacs name)
  record (.decoded name cursor.state.version result.state.version result.mutations)
  writeBackend env .clearMutationMacs (Collections.clearMutationMacs name)
  (if result.mutationMacs.isEmpty then pure ()
    else writeBackend env .putMutationMacs (Collections.putMutationMacs name result.mutationMacs))
  let state := { result.state with
    bootstrapped := result.state.bootstrapped || !pl.hasMorePatches }
  persistStatusPrivacy env result.mutations
  setVersion env name state
  pure ⟨state, state, cursor.mutations ++ result.mutations⟩

/-- The keys, the stored state, and the snapshot of the list unless it is
stale. -/
def openCursor (env : Env) (pl : PatchList) (validateMacs : Bool) :
    SyncM (Keyed Bytes ExpandedAppStateKeys × Cursor) := do
  let keys ← prefetchKeys env pl
  let state ← readBackend env .getVersion (·.collections.held pl.name.asStr)
  let cursor : Cursor := ⟨state, state, []⟩
  match pl.snapshot with
  | none => pure (keys, cursor)
  | some snapshot =>
    if snapshotIsStale state.version (snapshot.version.getD 0) then pure (keys, cursor)
    else do
      let cursor ← applySnapshot env keys pl validateMacs snapshot cursor
      pure (keys, cursor)

/-- One turn of the loop over the patches. -/
def applyPatch (env : Env) (keys : Keyed Bytes ExpandedAppStateKeys) (pl : PatchList)
    (validateMacs : Bool) (cursor : Cursor) (patch : SyncdPatch) : SyncM Cursor := do
  let name := pl.name.asStr
  let dbPrev ← cursor.guard pl.name (readBackend env .getMutationMacs
    (·.collections.getMutationMacs name (collectUniqueIndexMacs patch.mutations)))
  let result ← cursor.guard pl.name (liftResult (fun e => .text e.text)
    (processPatch env.primitives patch cursor.state (lookupAppStateKey keys)
      (fun indexMac => .ok (prevValueMac dbPrev indexMac)) validateMacs name))
  record (.decoded name cursor.state.version result.state.version result.mutations)
  let state := { result.state with
    bootstrapped := result.state.bootstrapped || !pl.hasMorePatches }
  cursor.guard pl.name (persistStatusPrivacy env result.mutations)
  cursor.guard pl.name (commitPatch env name state result.removedIndexMacs result.addedMacs)
  pure ⟨state, state, cursor.mutations ++ result.mutations⟩

def applyPatches (env : Env) (keys : Keyed Bytes ExpandedAppStateKeys) (pl : PatchList)
    (validateMacs : Bool) : List SyncdPatch → Cursor → SyncM Cursor
  | [], cursor => pure cursor
  | patch :: patches, cursor => do
    let cursor ← applyPatch env keys pl validateMacs cursor patch
    applyPatches env keys pl validateMacs patches cursor

/-- The last write: a list without patches may still finish a bootstrap. -/
def finish (env : Env) (pl : PatchList) (cursor : Cursor) : SyncM Cursor :=
  if pl.patches.isEmpty && pl.snapshot.isSome then do
    let state := { cursor.state with
      bootstrapped := cursor.state.bootstrapped || !pl.hasMorePatches }
    cursor.guard pl.name (setVersion env pl.name.asStr state)
    pure { cursor with state := state }
  else if pl.patches.isEmpty && !pl.hasMorePatches && !pl.snapshotRef && !cursor.state.bootstrapped
      && pl.error.isNone then do
    let state := { cursor.state with bootstrapped := true }
    setVersion env pl.name.asStr state
    pure { cursor with state := state }
  else pure cursor

/-- A collection without a baseline takes no patch but the first one. -/
def missesGenesis (patches : List SyncdPatch) : Bool :=
  !patches.isEmpty && (patches.head?.bind (·.version)).getD 0 ≠ 1

/-- The rows of a collection without a baseline belong to nothing. -/
def dropStaleMacs (env : Env) (pl : PatchList) (cursor : Cursor) : SyncM Unit :=
  if cursor.state.isUnsynced then
    cursor.guard pl.name (writeBackend env .clearMutationMacs
      (Collections.clearMutationMacs pl.name.asStr))
  else pure ()

/-- `process_patch_list`: the mutations, the state, and the list, which is
marked for a refetch when it cannot be applied. -/
def processPatchList (env : Env) (pl : PatchList) (validateMacs : Bool) :
    SyncM (List Mutation × HashState × PatchList) := do
  let (keys, cursor) ← openCursor env pl validateMacs
  if cursor.state.isUnsynced && missesGenesis pl.patches then
    pure (cursor.mutations, cursor.state, { pl with error := some (.retry 0 "empty lthash") })
  else do
    dropStaleMacs env pl cursor
    let cursor ← applyPatches env keys pl validateMacs pl.patches cursor
    let cursor ← finish env pl cursor
    pure (cursor.mutations, cursor.state, pl)

/-! ## Recovery -/

/-- What became of a recovery. -/
inductive RecoveryOutcome where
  | applied (mutations : List Mutation)
  | stale (held offered : UInt64)
  | retired
  deriving DecidableEq, Repr

/-- Whether each record is the last one for its index and key, by a backward
scan.  A record without an index or a key is not dropped here. -/
def winnersFrom : List (Bytes × Bytes) → List SyncdPlainTextRecord → List Bool
  | _, [] => []
  | seen, record :: records =>
    match record.value.bind (·.index), record.keyId with
    | some index, some keyId =>
      if (index, keyId) ∈ seen then false :: winnersFrom seen records
      else true :: winnersFrom ((index, keyId) :: seen) records
    | _, _ => true :: winnersFrom seen records

def recoveryWinners (records : List SyncdPlainTextRecord) : List Bool :=
  (winnersFrom [] records.reverse).reverse

/-- One record of a recovery, at its position. -/
def recoverRecord (P : Primitives) (keys : Keyed Bytes ExpandedAppStateKeys) (name : String)
    (i : Nat) (record : SyncdPlainTextRecord) : Except String Decoded := do
  let action ← okOr record.value s!"recovery record {i} of {name} carries no value"
  let value ← okOr action.value s!"recovery record {i} of {name} carries no action value"
  let keyId ← okOr record.keyId s!"recovery record {i} of {name} carries no key id"
  let valueMac ← okOr record.mac s!"recovery record {i} of {name} carries no MAC"
  let len := valueMac.length
  ensure (len = 32) s!"recovery record {i} of {name} carries a {len}-byte MAC, not 32"
  let index ← okOr action.index s!"recovery record {i} of {name} carries no index"
  let expanded ← okOr (keys.lookup keyId) "every key id was fetched above"
  let parsed ← (P.parseIndex index).mapError fun e =>
    s!"recovery record {i} of {name} has an unreadable index: {e}"
  ensure (!parsed.isEmpty) s!"recovery record {i} of {name} carries an empty index"
  pure (⟨some value, parsed, .set⟩, ⟨(generateIndexMac P index expanded.index).val, valueMac⟩)

/-- The records of a recovery that count. -/
def recoverRecords (P : Primitives) (keys : Keyed Bytes ExpandedAppStateKeys) (name : String)
    (records : List SyncdPlainTextRecord) : Except String (List Decoded) :=
  (((records.zip (recoveryWinners records)).zipIdx.filter (·.1.2)).mapM fun r =>
    recoverRecord P keys name r.2 r.1.1)

/-- The keys that a recovery names. -/
def fetchRecoveryKeys (env : Env) (name : String) :
    List (SyncdPlainTextRecord × Nat) → Keyed Bytes ExpandedAppStateKeys →
      SyncM (Keyed Bytes ExpandedAppStateKeys)
  | [], keys => pure keys
  | (record, i) :: records, keys =>
    match record.keyId with
    | none => throw (.text s!"recovery record {i} of {name} carries no key id")
    | some keyId =>
      if (keys.lookup keyId).isSome then fetchRecoveryKeys env name records keys
      else do
        let expanded ← getAppStateKey env keyId
        fetchRecoveryKeys env name records (keys.insert keyId expanded)

/-- The hash that a recovery carries. -/
def recoveryHash (recovery : SyncdSnapshotRecovery) (name : String) :
    Except String (FixedBytes 128) := do
  let lthash ← okOr recovery.collectionLthash s!"snapshot recovery for {name} carries no ltHash"
  let len := lthash.length
  okOr (FixedBytes.ofBytes 128 lthash)
    s!"snapshot recovery for {name} carries a {len}-byte ltHash, not 128"

/-- Replace a collection by what the primary sent.  The version is written
last. -/
def replaceCollection (env : Env) (name : String) (version : UInt64) (hash : FixedBytes 128)
    (decoded : List Decoded) : SyncM RecoveryOutcome := do
  let macs := decoded.map Prod.snd
  let mutations := decoded.map Prod.fst
  writeBackend env .clearMutationMacs (Collections.clearMutationMacs name)
  (if macs.isEmpty then pure ()
    else writeBackend env .putMutationMacs (Collections.putMutationMacs name macs))
  persistStatusPrivacy env mutations
  setVersion env name ⟨version, hash, false, true⟩
  pure (.applied mutations)

/-- `apply_snapshot_recovery`.  `stillCurrent` is what the caller answers right
before the first write. -/
def applySnapshotRecovery (env : Env) (recovery : SyncdSnapshotRecovery)
    (expectedCollection : String) (stillCurrent : Bool) : SyncM RecoveryOutcome := do
  let name ← liftResult .text (okOr recovery.collectionName "snapshot recovery names no collection")
  liftResult .text (ensure (name = expectedCollection)
    s!"snapshot recovery is for {name}, not the {expectedCollection} that was asked for")
  let version ← liftResult .text
    (okOr recovery.version s!"snapshot recovery for {name} carries no version")
  let held ← readBackend env .getVersion (·.collections.held name)
  if snapshotIsStale held.version version then pure (.stale held.version version)
  else do
    let hash ← liftResult .text (recoveryHash recovery name)
    let keys ← fetchRecoveryKeys env name recovery.mutationRecords.zipIdx ∅
    let decoded ← liftResult .text
      (recoverRecords env.primitives keys name recovery.mutationRecords)
    if stillCurrent then replaceCollection env name version hash decoded
    else pure .retired

/-! ## Outgoing patches -/

/-- The state that an outgoing patch leads to. -/
def outgoingState (P : Primitives) (state : HashState) (mutations : List SyncdMutation)
    (dbPrev : Keyed Bytes Bytes) : Except AppStateError HashState := do
  let updated ← (state.updateHash P mutations
    (fun indexMac _ captured => (.ok (prevValueMac dbPrev indexMac), captured)) ()).2
  pure { updated with version := updated.version + 1 }

/-- The patch from a state to the one it leads to, signed with a key. -/
def signPatch (P : Primitives) (name : String) (keyId : Bytes) (keys : ExpandedAppStateKeys)
    (state : HashState) (mutations : List SyncdMutation) : SyncdPatch :=
  let patch : SyncdPatch :=
    { version := none
      mutations := mutations
      snapshotMac := some (state.generateSnapshotMac P name keys.snapshotMac)
      patchMac := none
      keyId := some keyId }
  { patch with patchMac := some (generatePatchMac P patch name keys.patchMac state.version) }

/-- `build_patch`: the encoded patch and the version that it is built on. -/
def buildPatch (env : Env) (name : String) (mutations : List SyncdMutation) :
    SyncM (Bytes × UInt64) := do
  let latest ← readBackend env .getLatestSyncKeyId (·.latestSyncKeyId)
  let keyId ← liftResult .text (okOr latest "No app state sync key available")
  let keys ← getAppStateKey env keyId
  let state ← readBackend env .getVersion (·.collections.held name)
  let dbPrev ← readBackend env .getMutationMacs
    (·.collections.getMutationMacs name (collectUniqueIndexMacs mutations))
  let next ← liftResult .appState (outgoingState env.primitives state mutations dbPrev)
  let patch := signPatch env.primitives name keyId keys next mutations
  pure (env.primitives.syncdPatchToVec patch, state.version)

/-! ## A first patch -/

/-- The first patch of a collection, with one mutation and the MACs that a
sender gives it. -/
def firstPatch (operation : SyncdOperation) : SyncdPatch :=
  let mutations := [{ sampleEntry with operation := operation }.encode samplePrimitives]
  let next := (outgoingState samplePrimitives .default mutations ∅).toOption.getD .default
  { signPatch samplePrimitives "regular" [1] sampleKeys next mutations with version := some 1 }

/-- A list with that patch alone. -/
def firstPatchList (operation : SyncdOperation) : PatchList :=
  { name := .regular, hasMorePatches := false, patches := [firstPatch operation],
    snapshot := none, snapshotRef := false, error := none }

/-- An empty store, with the key of the patch in memory. -/
def emptyWorld : World :=
  { store := ⟨∅, some [1], none, fun _ => none, fun _ => ∅⟩
    keyCache := [([1], sampleKeys)], calls := 0, log := [] }

/-- A transactional backend where nothing fails. -/
def reliableEnv : Env :=
  { primitives := samplePrimitives, transactional := true, mutationPersistence := false,
    faults := fun _ _ => none }

end WaCore.AppState
