import WaCore.AppState.Record

/-!
# Processing a snapshot and a patch

`processor.rs`: the pure part of app-state sync.  A snapshot replaces a
collection, a patch changes it; both are folded into the hash, checked against
their MACs and decoded record by record.

The last part says what an accepted patch and an accepted snapshot amount to.
The hash and the rows for the MAC store are computed by different passes over
the mutations; `laneOf_processPatch` and `laneOf_processSnapshot` state the new
hash in terms of those rows.
-/

namespace WaCore.AppState

variable (P : Primitives)

/-- The callback for the keys of a key id. -/
abbrev KeyLookup := Bytes → Except AppStateError ExpandedAppStateKeys

/-- A decoded record: its mutation and its MACs. -/
abbrev Decoded := Mutation × AppStateMutationMAC

/-! ## Snapshots -/

structure ProcessedSnapshot where
  state : HashState
  mutations : List Mutation
  mutationMacs : List AppStateMutationMAC
  deriving DecidableEq, Repr

/-- The key of a record in a snapshot. -/
def SyncdRecord.key (record : SyncdRecord) : Bytes := record.index.getD []

/-- The records that a snapshot describes: the last one for each key, of those
that have a value. -/
def lastRecordPerIndex (records : List SyncdRecord) : List SyncdRecord :=
  (firstPerKey SyncdRecord.key [] (records.reverse.filter (·.value.isSome))).reverse

/-- A snapshot without a MAC or without a key to check it is refused. -/
def checkSnapshotMac (snapshot : SyncdSnapshot) (state : HashState) (getKeys : KeyLookup)
    (name : String) : Except AppStateError Unit :=
  match snapshot.mac, snapshot.keyId with
  | some mac, some keyId => do
    let keys ← getKeys keyId
    ensure (state.generateSnapshotMac P name keys.snapshotMac = mac) .snapshotMACMismatch
  | _, _ => .error .snapshotMACMissing

/-- Decode a record under the key that it names. -/
def decodeKeyed (getKeys : KeyLookup) (validateMacs : Bool) (op : SyncdOperation)
    (record : SyncdRecord) : Except AppStateError Decoded := do
  let keyId ← okOr record.keyId .missingKeyId
  let keys ← getKeys keyId
  decodeRecord P op record keys keyId validateMacs

/-- `process_snapshot`. -/
def processSnapshot (snapshot : SyncdSnapshot) (initialState : HashState) (getKeys : KeyLookup)
    (validateMacs : Bool) (name : String) : Except AppStateError ProcessedSnapshot := do
  let folded := { initialState with version := snapshot.version.getD 0 }.updateHashFromRecords P
    snapshot.records
  ensure (folded.2.valueless = 0) .missingValueBlob
  (if validateMacs then checkSnapshotMac P snapshot folded.1 getKeys name else pure ())
  let decoded ← (lastRecordPerIndex snapshot.records).mapM (decodeKeyed P getKeys validateMacs .set)
  pure ⟨folded.1, decoded.map Prod.fst, decoded.map Prod.snd⟩

/-! ## Patches -/

structure PatchProcessingResult where
  state : HashState
  mutations : List Mutation
  addedMacs : List AppStateMutationMAC
  removedIndexMacs : List Bytes
  deriving DecidableEq, Repr

/-- The callback that `process_patch` hands to `update_hash`: an overlay of the
values that the patch has set so far, over the stored ones.  A REMOVE is never
answered from the overlay. -/
def inPatchLookup (mutations : List SyncdMutation)
    (getPrevValueMac : Bytes → Except AppStateError (Option Bytes)) :
    PrevLookup (Keyed Bytes Bytes) := fun indexMac idx inPatch =>
  match mutations[idx]? with
  | none => (.ok none, inPatch)
  | some m =>
    let overlaid := if m.isRemove then none else inPatch.lookup indexMac
    match overlaid.elim (getPrevValueMac indexMac) (fun valueMac => .ok (some valueMac)) with
    | .error e => (.error e, inPatch)
    | .ok prev =>
      (.ok prev,
        if m.isRemove then inPatch
        else
          match m.indexMac, m.valueBlob with
          | some index, some value => inPatch.insert index (valueMacTail value)
          | _, _ => inPatch)

/-- `validate_patch_macs`: whether the patch's `snapshotMac` disagrees with the
hash.  `state` is the state after the patch. -/
def validatePatchMacs (patch : SyncdPatch) (state : HashState) (keys : ExpandedAppStateKeys)
    (name : String) (hadNoPriorState : Bool) : Except AppStateError Bool := do
  (match patch.patchMac with
    | some mac =>
      ensure (generatePatchMac P patch name keys.patchMac (patch.version.getD 0) = mac)
        .patchMACMismatch
    | none => ensure (!hadNoPriorState) .patchMACMismatch)
  if state.macMismatchFatal then pure false
  else
    match patch.snapshotMac with
    | some mac => pure (state.generateSnapshotMac P name keys.snapshotMac ≠ mac)
    | none => do
      ensure (!hadNoPriorState) .patchSnapshotMACMismatch
      pure false

/-- The MAC check of `process_patch`, made only when the patch names a key.  It
returns the state, marked once its hash is known to have diverged. -/
def macGate (patch : SyncdPatch) (state : HashState) (getKeys : KeyLookup) (validateMacs : Bool)
    (name : String) (hadNoPriorState : Bool) : Except AppStateError HashState :=
  match validateMacs, patch.keyId with
  | true, some keyId => do
    let keys ← getKeys keyId
    let diverged ← validatePatchMacs P patch state keys name hadNoPriorState
    pure (if diverged && !state.macMismatchFatal then { state with macMismatchFatal := true }
      else state)
  | _, _ => pure state

/-- The scan of `detect_duplicate_index_in_patch`, with the indices seen so far
for each operation. -/
def detectDuplicates : List Bytes → List Bytes → List SyncdMutation → Except AppStateError Unit
  | _, _, [] => .ok ()
  | seenSet, seenRemove, m :: mutations =>
    match m.indexMac with
    | none => detectDuplicates seenSet seenRemove mutations
    | some indexMac =>
      match knownOp m.operation with
      | .error e => .error e
      | .ok .set =>
        if seenSet.contains indexMac then .error .duplicateIndexInPatch
        else detectDuplicates (seenSet ++ [indexMac]) seenRemove mutations
      | .ok .remove =>
        if seenRemove.contains indexMac then .error .duplicateIndexInPatch
        else detectDuplicates seenSet (seenRemove ++ [indexMac]) mutations

def detectDuplicateIndexInPatch (mutations : List SyncdMutation) : Except AppStateError Unit :=
  detectDuplicates [] [] mutations

/-- Decode the mutations that have a record. -/
def decodeMutations (getKeys : KeyLookup) (validateMacs : Bool) :
    List SyncdMutation → Except AppStateError (List Decoded)
  | [] => .ok []
  | m :: mutations =>
    match m.record with
    | none => decodeMutations getKeys validateMacs mutations
    | some record => do
      let op ← knownOp m.operation
      let decoded ← decodeKeyed P getKeys validateMacs op record
      let rest ← decodeMutations getKeys validateMacs mutations
      pure (decoded :: rest)

/-- The rows that decoded mutations add to the MAC store. -/
def addedOf (decoded : List Decoded) : List AppStateMutationMAC :=
  (decoded.filter (·.1.operation = .set)).map Prod.snd

/-- The indices that decoded mutations delete from the MAC store. -/
def removedOf (decoded : List Decoded) : List Bytes :=
  (decoded.filter (·.1.operation = .remove)).map (·.2.indexMac)

/-- Every operation of a patch is known. -/
def checkOperations (mutations : List SyncdMutation) : Except AppStateError Unit :=
  mutations.forM fun m => do
    let _ ← knownOp m.operation
    pure ()

/-- The version check and the fold of `process_patch`: the state before the
MACs are looked at. -/
def foldPatch (patch : SyncdPatch) (state : HashState)
    (getPrevValueMac : Bytes → Except AppStateError (Option Bytes)) :
    Except AppStateError HashState := do
  let patchVersion := patch.version.getD 0
  let expected := saturatingSucc state.version
  ensure (state.isUnsynced || patchVersion = expected) (.patchVersionMismatch expected patchVersion)
  checkOperations patch.mutations
  ({ state with version := patchVersion }.updateHash P patch.mutations
    (inPatchLookup patch.mutations getPrevValueMac) ∅).2.mapError fun _ => .mismatchingLTHash

/-- `process_patch`. -/
def processPatch (patch : SyncdPatch) (state : HashState) (getKeys : KeyLookup)
    (getPrevValueMac : Bytes → Except AppStateError (Option Bytes)) (validateMacs : Bool)
    (name : String) : Except AppStateError PatchProcessingResult := do
  let folded ← foldPatch P patch state getPrevValueMac
  let checked ← macGate P patch folded getKeys validateMacs name state.isUnsynced
  (if validateMacs then detectDuplicateIndexInPatch patch.mutations else pure ())
  let decoded ← decodeMutations P getKeys validateMacs patch.mutations
  pure ⟨checked, decoded.map Prod.fst, addedOf decoded, removedOf decoded⟩

/-! ## What an accepted patch amounts to -/

/-- The indices that a patch sets. -/
def setIndices (mutations : List SyncdMutation) : List Bytes :=
  (mutations.filter (!·.isRemove)).filterMap (·.indexMac)

/-- The indices that a patch removes. -/
def removeIndices (mutations : List SyncdMutation) : List Bytes :=
  (mutations.filter (·.isRemove)).filterMap (·.indexMac)

variable {mutations : List SyncdMutation} {op : SyncdOperation} {validateMacs : Bool}
  {getKeys : KeyLookup} {decoded : List Decoded} {patch : SyncdPatch} {state : HashState}
  {getPrev : Bytes → Except AppStateError (Option Bytes)} {name : String}
  {result : PatchProcessingResult}

theorem checkOperations_eq_ok :
    checkOperations mutations = .ok () ↔ ∀ m ∈ mutations, ∃ op, knownOp m.operation = .ok op := by
  refine forM_eq_ok.trans (forall₂_congr fun m _ => bind_eq_ok.trans ?_)
  exact exists_congr fun op => and_iff_left rfl

theorem setIndices_append (a b : List SyncdMutation) :
    setIndices (a ++ b) = setIndices a ++ setIndices b := by
  rw [setIndices, List.filter_append, List.filterMap_append]
  rfl

theorem setIndices_cons (m : SyncdMutation) (mutations : List SyncdMutation) :
    setIndices (m :: mutations)
      = (if m.isRemove then [] else m.indexMac.toList) ++ setIndices mutations := by
  cases hr : m.isRemove <;> cases hidx : m.indexMac <;> simp [setIndices, hr, hidx]

theorem removeIndices_cons (m : SyncdMutation) (mutations : List SyncdMutation) :
    removeIndices (m :: mutations)
      = (if m.isRemove then m.indexMac.toList else []) ++ removeIndices mutations := by
  cases hr : m.isRemove <;> cases hidx : m.indexMac <;> simp [removeIndices, hr, hidx]

theorem nodup_append_cons {α : Type} {seen rest : List α} {x : α} :
    (seen ++ x :: rest).Nodup ↔ x ∉ seen ∧ (seen ++ [x] ++ rest).Nodup := by
  rw [List.append_assoc]
  refine ⟨fun h => ⟨fun hx => ?_, h⟩, And.right⟩
  exact (List.nodup_append.mp h).2.2 x hx x List.mem_cons_self rfl

/-- The scan for duplicates accepts the patches that repeat no index within an
operation. -/
theorem detectDuplicates_eq_ok (hops : ∀ m ∈ mutations, ∃ op, knownOp m.operation = .ok op)
    {seenSet seenRemove : List Bytes} (hset : seenSet.Nodup) (hremove : seenRemove.Nodup) :
    detectDuplicates seenSet seenRemove mutations = .ok ()
      ↔ (seenSet ++ setIndices mutations).Nodup ∧ (seenRemove ++ removeIndices mutations).Nodup := by
  induction mutations generalizing seenSet seenRemove with
  | nil => simp [detectDuplicates, setIndices, removeIndices, hset, hremove]
  | cons m mutations ih =>
    obtain ⟨op, hop⟩ := hops m List.mem_cons_self
    have hrest := fun m' hm' => hops m' (List.mem_cons_of_mem m hm')
    have hisRemove := isRemove_iff hop
    rw [detectDuplicates, setIndices_cons, removeIndices_cons]
    cases hidx : m.indexMac with
    | none =>
      rw [ih hrest hset hremove]
      simp
    | some indexMac =>
      rw [hop]
      cases op with
      | set =>
        have hr : m.isRemove = false := by simpa using hisRemove
        simp only [hr, Bool.false_eq_true, if_false, Option.toList_some, List.singleton_append,
          nodup_append_cons]
        by_cases hseen : indexMac ∈ seenSet
        · simp [hseen]
        · have hset' : (seenSet ++ [indexMac]).Nodup := by simpa using hset.concat hseen
          simp [hseen, ih hrest hset' hremove]
      | remove =>
        have hr : m.isRemove = true := by simpa using hisRemove
        simp only [hr, if_true, Option.toList_some, List.singleton_append, nodup_append_cons]
        by_cases hseen : indexMac ∈ seenRemove
        · simp [hseen]
        · have hremove' : (seenRemove ++ [indexMac]).Nodup := by simpa using hremove.concat hseen
          simp [hseen, ih hrest hset hremove']

/-- In a patch that sets no index twice the overlay is never asked for a value
that it holds. -/
theorem answersFrom_inPatchLookup (look : Bytes → Option Bytes)
    (hnodup : (setIndices mutations).Nodup) :
    AnswersFrom look mutations (inPatchLookup mutations fun i => .ok (look i))
      fun done inPatch => ∀ i, inPatch.lookup i ≠ none → i ∈ setIndices done := by
  have hgrow : ∀ done m i, i ∈ setIndices done → i ∈ setIndices (done ++ [m]) := by
    intro done m i hi
    rw [setIndices_append]
    exact List.mem_append_left _ hi
  refine ⟨?_, fun done m rest inPatch _ h i hi => hgrow done m i (h i hi)⟩
  intro done m rest inPatch indexMac hall h hidx
  have hget : mutations[done.length]? = some m := by rw [hall]; simp
  rw [inPatchLookup, hget]
  cases hr : m.isRemove with
  | true => exact ⟨inPatch, by simp [hr], fun i hi => hgrow done m i (h i hi)⟩
  | false =>
    have hnone : inPatch.lookup indexMac = none := by
      by_contra hsome
      rw [hall, setIndices_append] at hnodup
      refine (List.nodup_append.mp hnodup).2.2 indexMac (h indexMac hsome) indexMac ?_ rfl
      simp [setIndices_cons, hr, hidx]
    have hlast : indexMac ∈ setIndices (done ++ [m]) := by
      simp [setIndices, hr, hidx]
    simp only [hr, hnone, hidx]
    refine ⟨_, rfl, ?_⟩
    cases m.valueBlob with
    | none => exact fun i hi => hgrow done m i (h i hi)
    | some value =>
      intro i hi
      by_cases heq : i = indexMac
      · exact heq ▸ hlast
      · simp only [Bool.false_eq_true, if_false, AList.lookup_insert_ne heq] at hi
        exact hgrow done m i (h i hi)

/-- What decoding makes of a mutation that carries a record with an index. -/
structure Decodes (validateMacs : Bool) (m : SyncdMutation) (decoded : Decoded) : Prop where
  index : m.indexMac = some decoded.2.indexMac
  value : m.valueBlob.map valueMacTail = some decoded.2.valueMac
  operation : decoded.1.operation = if m.isRemove then .remove else .set
  index_length : validateMacs → decoded.2.indexMac.length = 32

theorem decodeKeyed_eq_ok {record : SyncdRecord} {decoded : Decoded}
    (h : decodeKeyed P getKeys validateMacs op record = .ok decoded) :
    Accepted record validateMacs decoded.2 ∧ decoded.1.operation = op := by
  simp only [decodeKeyed, bind_eq_ok] at h
  obtain ⟨_, _, keys, _, h⟩ := h
  exact decodeRecord_eq_ok P h

/-- Decoding keeps the order of the mutations. -/
theorem decodeMutations_eq_ok (hrecords : ∀ m ∈ mutations, m.indexMac.isSome)
    (h : decodeMutations P getKeys validateMacs mutations = .ok decoded) :
    List.Forall₂ (Decodes validateMacs) mutations decoded := by
  induction mutations generalizing decoded with
  | nil =>
    cases h
    exact .nil
  | cons m mutations ih =>
    have hm := hrecords m List.mem_cons_self
    rw [decodeMutations] at h
    cases hrec : m.record with
    | none => simp [SyncdMutation.indexMac, hrec] at hm
    | some record =>
      simp only [hrec, bind_eq_ok] at h
      obtain ⟨op, hop, d, hd, rest, hrest, hres⟩ := h
      cases hres
      obtain ⟨hacc, hopd⟩ := decodeKeyed_eq_ok P hd
      obtain ⟨blob, hvalue, _, htail⟩ := hacc.value
      refine .cons ⟨?_, ?_, ?_, hacc.index_length⟩
        (ih (fun m' hm' => hrecords m' (List.mem_cons_of_mem m hm')) hrest)
      · rw [SyncdMutation.indexMac, hrec]
        exact hacc.index
      · rw [SyncdMutation.valueBlob, hrec, Option.bind_some, hvalue, Option.map_some, htail]
      · have hr := isRemove_iff hop
        cases op <;> simp_all

section Forall

variable {validateMacs : Bool} {mutations : List SyncdMutation} {decoded : List Decoded}
  (h : List.Forall₂ (Decodes validateMacs) mutations decoded)

include h

/-- The rows that the mutations of a patch give, in their order. -/
theorem rows_of_decodes :
    addedTails mutations = (addedOf decoded).map (·.valueMac)
      ∧ setIndices mutations = (addedOf decoded).map (·.indexMac)
      ∧ removeIndices mutations = removedOf decoded := by
  induction h with
  | nil => exact ⟨rfl, rfl, rfl⟩
  | @cons m d mutations decoded hd _ ih =>
    have hcons : addedTails (m :: mutations)
        = (if m.isRemove then [] else (m.valueBlob.map valueMacTail).toList)
          ++ addedTails mutations := rfl
    rw [hcons, setIndices_cons, removeIndices_cons, hd.value, hd.index, ih.1, ih.2.1, ih.2.2]
    cases hr : m.isRemove <;> simp [addedOf, removedOf, hd.operation, hr]

theorem exists_decodes_of_mem {d : Decoded} (hd : d ∈ decoded) :
    ∃ m ∈ mutations, Decodes validateMacs m d := by
  induction h with
  | nil => cases hd
  | @cons m _ _ _ hm _ ih =>
    rcases List.mem_cons.mp hd with rfl | hd
    · exact ⟨m, List.mem_cons_self, hm⟩
    · obtain ⟨m', hm', hdec⟩ := ih hd
      exact ⟨m', List.mem_cons_of_mem m hm', hdec⟩

/-- The share of what the table `look` holds at an index. -/
def lookShare (look : Bytes → Option Bytes) (i : Bytes) : Fin 64 → BitVec 16 :=
  ((look i).map (share P)).getD 0

/-- What the mutations of a patch take out of the hash: the value at every
index they remove, and at every other index they set. -/
theorem sum_removedValue (look : Bytes → Option Bytes) (removed : List Bytes) :
    ((mutations.flatMap (removedValue look removed)).map (share P)).sum
      = ((removedOf decoded).map (lookShare P look)).sum
        + ((addedOf decoded).map fun mac =>
            if mac.indexMac ∈ removed then 0 else lookShare P look mac.indexMac).sum := by
  induction h with
  | nil => simp [removedOf, addedOf]
  | @cons m d mutations decoded hd _ ih =>
    have hshare : ((look d.2.indexMac).toList.map (share P)).sum = lookShare P look d.2.indexMac := by
      cases hlook : look d.2.indexMac <;> simp [lookShare, hlook]
    rw [List.flatMap_cons, List.map_append, List.sum_append, ih, removedValue, hd.index]
    cases hr : m.isRemove with
    | true =>
      simp only [Bool.not_true, Bool.false_and, Bool.false_eq_true, if_false, hshare, removedOf,
        addedOf, hd.operation, hr, if_true, List.filter_cons, decide_true, List.map_cons,
        List.sum_cons, reduceCtorEq, decide_false]
      abel
    | false =>
      simp only [Bool.not_false, Bool.true_and, removedOf, addedOf, hd.operation, hr, if_false,
        List.filter_cons, reduceCtorEq, decide_false, decide_true, if_true, List.map_cons,
        List.sum_cons, List.contains_iff_mem]
      split
      · simp
      · rw [hshare]
        abel

end Forall

/-- Every mutation of the patch carries a record with an index. -/
def SyncdPatch.Indexed (patch : SyncdPatch) : Prop := ∀ m ∈ patch.mutations, m.indexMac.isSome

theorem removedInPatch_of_indexed (h : ∀ m ∈ mutations, m.indexMac.isSome) :
    removedInPatch mutations = removeIndices mutations := by
  rw [removedInPatch, if_pos (List.all_eq_true.mpr h), removeIndices]

/-- The steps of `process_patch` that an accepted patch went through. -/
theorem processPatch_eq_ok
    (h : processPatch P patch state getKeys getPrev validateMacs name = .ok result) :
    ∃ folded decoded, foldPatch P patch state getPrev = .ok folded
      ∧ macGate P patch folded getKeys validateMacs name state.isUnsynced = .ok result.state
      ∧ (validateMacs → detectDuplicateIndexInPatch patch.mutations = .ok ())
      ∧ decodeMutations P getKeys validateMacs patch.mutations = .ok decoded
      ∧ result.mutations = decoded.map Prod.fst
      ∧ result.addedMacs = addedOf decoded ∧ result.removedIndexMacs = removedOf decoded := by
  simp only [processPatch, bind_eq_ok] at h
  obtain ⟨folded, hfold, checked, hgate, _, hdup, decoded, hdec, hres⟩ := h
  cases hres
  refine ⟨folded, decoded, hfold, hgate, ?_, hdec, rfl, rfl, rfl⟩
  rintro rfl
  simpa using hdup

/-- The steps of `process_patch` make an accepted patch. -/
theorem processPatch_of_steps {folded checked : HashState}
    (hfold : foldPatch P patch state getPrev = .ok folded)
    (hgate : macGate P patch folded getKeys true name state.isUnsynced = .ok checked)
    (hdup : detectDuplicateIndexInPatch patch.mutations = .ok ())
    (hdec : decodeMutations P getKeys true patch.mutations = .ok decoded) :
    processPatch P patch state getKeys getPrev true name
      = .ok ⟨checked, decoded.map Prod.fst, addedOf decoded, removedOf decoded⟩ := by
  simp only [processPatch, hfold, ok_bind, hgate, hdup, hdec]
  rfl

theorem foldPatch_eq_ok {folded : HashState} (h : foldPatch P patch state getPrev = .ok folded) :
    (state.isUnsynced ∨ patch.version.getD 0 = saturatingSucc state.version)
      ∧ (∀ m ∈ patch.mutations, ∃ op, knownOp m.operation = .ok op)
      ∧ ({ state with version := patch.version.getD 0 }.updateHash P patch.mutations
          (inPatchLookup patch.mutations getPrev) ∅).2 = .ok folded
      ∧ ∃ hash, folded = { state with version := patch.version.getD 0, hash := hash } := by
  simp only [foldPatch, bind_eq_ok, ensure_eq_ok, Bool.or_eq_true, decide_eq_true_eq] at h
  obtain ⟨_, hversion, _, hops, hupdate⟩ := h
  rw [mapError_eq_ok] at hupdate
  refine ⟨hversion, checkOperations_eq_ok.mp hops, hupdate, ?_⟩
  rw [HashState.updateHash] at hupdate
  split at hupdate
  · cases hupdate
  · cases hupdate
    exact ⟨_, rfl⟩

theorem macGate_eq_ok {checked : HashState} {hadNoPriorState : Bool}
    (h : macGate P patch state getKeys validateMacs name hadNoPriorState = .ok checked) :
    checked.hash = state.hash ∧ checked.version = state.version
      ∧ checked.bootstrapped = state.bootstrapped := by
  unfold macGate at h
  split at h
  · simp only [bind_eq_ok] at h
    obtain ⟨_, _, diverged, _, hres⟩ := h
    cases hres
    split <;> simp
  · cases h
    simp

/-- The version that an accepted patch leaves. -/
theorem version_processPatch
    (h : processPatch P patch state getKeys getPrev validateMacs name = .ok result) :
    result.state.version = patch.version.getD 0
      ∧ (state.isUnsynced ∨ result.state.version = saturatingSucc state.version) := by
  obtain ⟨folded, decoded, hfold, hgate, -, -, -, -, -⟩ := processPatch_eq_ok P h
  obtain ⟨hversion, -, -, hash, rfl⟩ := foldPatch_eq_ok P hfold
  have hstate : result.state.version = patch.version.getD 0 := (macGate_eq_ok P hgate).2.1
  exact ⟨hstate, hstate ▸ hversion⟩

/-- What an accepted patch does to the hash, in terms of the rows that it
deletes from and adds to the MAC store. -/
theorem laneOf_processPatch {look : Bytes → Option Bytes} (hindexed : patch.Indexed)
    (h : processPatch P patch state getKeys (fun i => .ok (look i)) true name = .ok result) :
    (laneOf result.state.hash
      = laneOf state.hash
        - ((result.removedIndexMacs.map (lookShare P look)).sum
          + (result.addedMacs.map fun mac =>
              if mac.indexMac ∈ result.removedIndexMacs then 0
              else lookShare P look mac.indexMac).sum)
        + (result.addedMacs.map fun mac => share P mac.valueMac).sum)
      ∧ result.removedIndexMacs.Nodup ∧ (result.addedMacs.map (·.indexMac)).Nodup
      ∧ ∀ i ∈ result.removedIndexMacs ++ result.addedMacs.map (·.indexMac),
          i.length = 32 ∧ ∃ m ∈ patch.mutations, m.indexMac = some i := by
  obtain ⟨folded, decoded, hfold, hgate, hdup, hdec, -, hadded, hremoved⟩ := processPatch_eq_ok P h
  obtain ⟨-, hops, hupdate, -⟩ := foldPatch_eq_ok P hfold
  obtain ⟨hsets, hremoves⟩ := (detectDuplicates_eq_ok hops List.nodup_nil List.nodup_nil).mp
    (hdup rfl)
  have hforall := decodeMutations_eq_ok P hindexed hdec
  obtain ⟨htails, hsetRows, hremoveRows⟩ := rows_of_decodes hforall
  rw [updateHash_eq P (answersFrom_inPatchLookup look hsets)
    (by intro i hi; simp at hi) hops] at hupdate
  have hhash : result.state.hash = folded.hash := (macGate_eq_ok P hgate).1
  obtain rfl := Except.ok.inj hupdate
  rw [hremoveRows] at hremoves
  rw [hsetRows] at hsets
  rw [hadded, hremoved]
  refine ⟨?_, hremoves, hsets, ?_⟩
  · rw [hhash, laneOf_subtractThenAdd, removedInPatch_of_indexed hindexed,
      hremoveRows, sum_removedValue P hforall, htails, List.map_map]
    rfl
  · have hrow : ∀ d ∈ decoded, d.2.indexMac.length = 32
        ∧ ∃ m ∈ patch.mutations, m.indexMac = some d.2.indexMac := by
      intro d hd
      obtain ⟨m, hm, hdec⟩ := exists_decodes_of_mem hforall hd
      exact ⟨hdec.index_length rfl, m, hm, hdec.index⟩
    intro i hi
    rw [removedOf, addedOf, List.map_map] at hi
    rcases List.mem_append.mp hi with hi | hi
    · obtain ⟨d, hd, rfl⟩ := List.mem_map.mp hi
      exact hrow d (List.mem_of_mem_filter hd)
    · obtain ⟨d, hd, rfl⟩ := List.mem_map.mp hi
      exact hrow d (List.mem_of_mem_filter hd)

/-! ## What an accepted snapshot amounts to -/

theorem indexedTails_of_values (records : List SyncdRecord) :
    indexedTails records = (records.filter (·.value.isSome)).map fun record =>
      (record.key, ((record.value.map valueMacTail).getD [])) := by
  induction records with
  | nil => rfl
  | cons record records ih =>
    rw [indexedTails] at ih ⊢
    cases hvalue : record.value <;> simp [hvalue, ih, SyncdRecord.key]

/-- The value MACs that a snapshot folds are those of the records that it
decodes. -/
theorem perm_foldedTails_lastRecordPerIndex (records : List SyncdRecord) :
    (foldedTails (indexedTails records)).Perm
      ((lastRecordPerIndex records).map fun record => (record.value.map valueMacTail).getD []) := by
  refine (perm_foldedTails _).trans ?_
  rw [scannedTails, indexedTails_of_values, ← List.map_reverse, firstPerKey_map, List.map_map,
    ← List.filter_reverse, lastRecordPerIndex, List.map_reverse]
  exact (List.reverse_perm _).symm

theorem nodup_key_lastRecordPerIndex (records : List SyncdRecord) :
    ((lastRecordPerIndex records).map SyncdRecord.key).Nodup := by
  rw [lastRecordPerIndex, List.map_reverse, List.nodup_reverse]
  exact nodup_keys_firstPerKey _ _ _

/-- The rows that the records of a snapshot give. -/
theorem rows_of_mapM {records : List SyncdRecord}
    (h : records.mapM (decodeKeyed P getKeys validateMacs op) = .ok decoded) :
    (decoded.map fun d => d.2.indexMac) = records.map SyncdRecord.key
      ∧ (decoded.map fun d => d.2.valueMac)
        = records.map fun record => (record.value.map valueMacTail).getD [] := by
  rw [mapM_eq_ok] at h
  induction h with
  | nil => exact ⟨rfl, rfl⟩
  | cons hd _ ih =>
    have haccepted := (decodeKeyed_eq_ok P hd).1
    obtain ⟨blob, hvalue, -, htail⟩ := haccepted.value
    simp [ih.1, ih.2, SyncdRecord.key, haccepted.index, hvalue, htail]

/-- What an accepted snapshot leaves on an empty state, in terms of the rows
that it puts into the MAC store. -/
theorem laneOf_processSnapshot {snapshot : SyncdSnapshot} {result : ProcessedSnapshot}
    (h : processSnapshot P snapshot .default getKeys validateMacs name = .ok result) :
    laneOf result.state.hash = (result.mutationMacs.map fun mac => share P mac.valueMac).sum
      ∧ (result.mutationMacs.map (·.indexMac)).Nodup
      ∧ result.state.version = snapshot.version.getD 0 := by
  simp only [processSnapshot, bind_eq_ok] at h
  obtain ⟨_, -, _, -, decoded, hdec, hres⟩ := h
  cases hres
  obtain ⟨hkeys, htails⟩ := rows_of_mapM P hdec
  refine ⟨?_, ?_, rfl⟩
  · have hsum := ((perm_foldedTails_lastRecordPerIndex snapshot.records).map (share P)).sum_eq
    simp only [HashState.updateHashFromRecords, laneOf_subtractThenAdd, HashState.default,
      laneOf_emptyHash, List.map_nil, List.sum_nil, sub_zero, zero_add, List.map_map]
    rw [hsum, ← htails, List.map_map]
    rfl
  · rw [List.map_map]
    have : (decoded.map ((fun mac : AppStateMutationMAC => mac.indexMac) ∘ Prod.snd))
        = (lastRecordPerIndex snapshot.records).map SyncdRecord.key := hkeys
    rw [this]
    exact nodup_key_lastRecordPerIndex _

end WaCore.AppState
