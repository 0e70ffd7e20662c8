import WaCore.Lib.KeyedStore
import WaCore.AppState.LtHash

/-!
# Folding records into the hash of a collection

`hash.rs`: what a patch and a snapshot do to the ltHash, and the MACs over the
result.

A patch is folded by one loop over its mutations.  The loop asks a callback for
the value MAC that an index held before; the callback of the inbound path has a
state of its own, an overlay of the values the patch has set so far.
`updateHashLoop_eq` is the loop's result in closed form, for every callback that
answers from a fixed table on the indices it is asked for.

A snapshot is folded by key, and of the records that share a key only the last
one counts.  `perm_foldedTails` says that the two branches of the source, below
and above the scan limit, fold the same value MACs.
-/

namespace WaCore.AppState

variable (P : Primitives)

/-! ## Value MACs -/

/-- Where a value blob's MAC starts. -/
def valueMacStart (len : Nat) : Nat := if len ≥ 32 then len - 32 else 2 * len - 32

/-- The trailing bytes of a value blob that enter the hash and the patch MAC. -/
def valueMacTail (blob : Bytes) : Bytes := blob.drop (valueMacStart blob.length)

/-! ## Patches -/

/-- An absent operation is a SET; one that is not known is refused. -/
def knownOp : Option OperationValue → Except AppStateError SyncdOperation
  | none => .ok .set
  | some v =>
    match v.asKnown with
    | some op => .ok op
    | none => .error (.unsupportedSyncdOperation v.toI32)

/-- Whether a mutation is a REMOVE on the wire. -/
def SyncdMutation.isRemove (m : SyncdMutation) : Bool :=
  m.operation = some (.known .remove)

/-- The callback for the value MAC an index held before, with what it
captures. -/
abbrev PrevLookup (σ : Type) := Bytes → Nat → σ → Except AppStateError (Option Bytes) × σ

/-- What the loop of `update_hash` has gathered. -/
structure HashUpdate (σ : Type) where
  added : List Bytes
  removed : List Bytes
  hasMissingRemove : Bool
  captured : σ

variable {σ : Type}

/-- The operand that a mutation adds: the value MAC of a SET. -/
def addedTail (op : SyncdOperation) (m : SyncdMutation) : List Bytes :=
  if op = .set then (m.valueBlob.map valueMacTail).toList else []

/-- One mutation of `update_hash`, at its position in the patch. -/
def updateHashStep (removedInPatch : List Bytes) (getPrevSetValueMac : PrevLookup σ) (i : Nat)
    (m : SyncdMutation) (acc : HashUpdate σ) : HashUpdate σ × Option AppStateError :=
  match knownOp m.operation with
  | .error e => (acc, some e)
  | .ok op =>
    let acc := { acc with added := acc.added ++ addedTail op m }
    match m.indexMac with
    | none => (acc, none)
    | some indexMac =>
      -- the REMOVE of the same index owns the subtraction
      if op = .set && removedInPatch.contains indexMac then (acc, none)
      else
        match getPrevSetValueMac indexMac i acc.captured with
        | (.ok (some prev), captured) =>
          ({ acc with removed := acc.removed ++ [prev], captured := captured }, none)
        | (.ok none, captured) =>
          ({ acc with
              hasMissingRemove := acc.hasMissingRemove || op = .remove
              captured := captured }, none)
        | (.error e, captured) => ({ acc with captured := captured }, some e)

/-- The loop of `update_hash`; it stops at the first error, which it returns. -/
def updateHashLoop (removedInPatch : List Bytes) (getPrevSetValueMac : PrevLookup σ) :
    List SyncdMutation → Nat → HashUpdate σ → HashUpdate σ × Option AppStateError
  | [], _, acc => (acc, none)
  | m :: mutations, i, acc =>
    match updateHashStep removedInPatch getPrevSetValueMac i m acc with
    | (acc, some e) => (acc, some e)
    | (acc, none) => updateHashLoop removedInPatch getPrevSetValueMac mutations (i + 1) acc

/-- The indices that a patch removes, when all its mutations carry an index. -/
def removedInPatch (mutations : List SyncdMutation) : List Bytes :=
  if mutations.all (·.indexMac.isSome) then
    (mutations.filter (·.isRemove)).filterMap (·.indexMac)
  else []

/-- `HashState::update_hash`: whether a REMOVE had nothing to remove, and the
state with the new hash.  A failed update leaves the hash as it was. -/
def HashState.updateHash (state : HashState) (mutations : List SyncdMutation)
    (getPrevSetValueMac : PrevLookup σ) (captured : σ) : Bool × Except AppStateError HashState :=
  match updateHashLoop (removedInPatch mutations) getPrevSetValueMac mutations 0
    ⟨[], [], false, captured⟩ with
  | (acc, some e) => (acc.hasMissingRemove, .error e)
  | (acc, none) =>
    (acc.hasMissingRemove,
      .ok { state with hash := subtractThenAdd P state.hash acc.removed acc.added })

/-! ### The loop in closed form -/

theorem knownOp_eq_ok {o : Option OperationValue} {op : SyncdOperation} (h : knownOp o = .ok op) :
    op = .remove ↔ o = some (.known .remove) := by
  match o with
  | none =>
    cases h
    simp
  | some (.known op') =>
    cases h
    simp
  | some (.unknown raw) => cases h

theorem isRemove_iff {m : SyncdMutation} {op : SyncdOperation} (h : knownOp m.operation = .ok op) :
    m.isRemove ↔ op = .remove := by
  rw [SyncdMutation.isRemove, decide_eq_true_eq, knownOp_eq_ok h]

/-- The operands that a patch adds. -/
def addedTails (mutations : List SyncdMutation) : List Bytes :=
  mutations.flatMap fun m => if m.isRemove then [] else (m.valueBlob.map valueMacTail).toList

/-- The operand that a mutation subtracts, if `look` is the table of the
previous values. -/
def removedValue (look : Bytes → Option Bytes) (removed : List Bytes) (m : SyncdMutation) :
    List Bytes :=
  match m.indexMac with
  | none => []
  | some indexMac => if !m.isRemove && removed.contains indexMac then [] else (look indexMac).toList

/-- A callback that answers from the table `look` on the mutations of `all`.
`Holds done captured` is what its captured state satisfies after `done`. -/
structure AnswersFrom (look : Bytes → Option Bytes) (all : List SyncdMutation)
    (getPrev : PrevLookup σ) (Holds : List SyncdMutation → σ → Prop) : Prop where
  answers : ∀ done m rest captured indexMac, all = done ++ m :: rest → Holds done captured →
    m.indexMac = some indexMac → ∃ captured', getPrev indexMac done.length captured
      = (.ok (look indexMac), captured') ∧ Holds (done ++ [m]) captured'
  skips : ∀ done m rest captured, all = done ++ m :: rest → Holds done captured →
    Holds (done ++ [m]) captured

variable {look : Bytes → Option Bytes} {all : List SyncdMutation} {getPrev : PrevLookup σ}
  {Holds : List SyncdMutation → σ → Prop}

/-- What one mutation adds to the two lists. -/
theorem updateHashStep_eq (hfrom : AnswersFrom look all getPrev Holds) (removed : List Bytes)
    {done rest : List SyncdMutation} {m : SyncdMutation} (hall : all = done ++ m :: rest)
    {op : SyncdOperation} (hop : knownOp m.operation = .ok op) {acc : HashUpdate σ}
    (hacc : Holds done acc.captured) :
    ∃ acc', updateHashStep removed getPrev done.length m acc = (acc', none)
      ∧ acc'.added = acc.added ++ addedTails [m]
      ∧ acc'.removed = acc.removed ++ removedValue look removed m
      ∧ Holds (done ++ [m]) acc'.captured := by
  -- both readings of the operation agree on what the mutation adds
  have hadd : addedTail op m = addedTails [m] := by
    have hr := isRemove_iff hop
    cases op <;> simp_all [addedTail, addedTails]
  have hset : decide (op = .set) = !m.isRemove := by
    have hr := isRemove_iff hop
    cases op <;> simp_all
  rw [updateHashStep, hop]
  simp only [hadd, hset, removedValue]
  cases hidx : m.indexMac with
  | none => exact ⟨_, rfl, rfl, by simp, hfrom.skips done m rest _ hall hacc⟩
  | some indexMac =>
    dsimp only
    split
    · exact ⟨_, rfl, rfl, by simp, hfrom.skips done m rest _ hall hacc⟩
    · obtain ⟨captured, hprev, hacc'⟩ := hfrom.answers done m rest _ indexMac hall hacc hidx
      rw [hprev]
      cases look indexMac with
      | none => exact ⟨_, rfl, rfl, by simp, hacc'⟩
      | some prev => exact ⟨_, rfl, rfl, rfl, hacc'⟩

/-- What the loop of `update_hash` gathers over the rest of a patch. -/
theorem updateHashLoop_eq (hfrom : AnswersFrom look all getPrev Holds) (removed : List Bytes)
    {done rest : List SyncdMutation} (hall : all = done ++ rest)
    (hops : ∀ m ∈ rest, ∃ op, knownOp m.operation = .ok op) {acc : HashUpdate σ}
    (hacc : Holds done acc.captured) :
    ∃ acc', updateHashLoop removed getPrev rest done.length acc = (acc', none)
      ∧ acc'.added = acc.added ++ addedTails rest
      ∧ acc'.removed = acc.removed ++ rest.flatMap (removedValue look removed) := by
  induction rest generalizing done acc with
  | nil => exact ⟨acc, rfl, by simp [addedTails], by simp⟩
  | cons m rest ih =>
    obtain ⟨op, hop⟩ := hops m List.mem_cons_self
    obtain ⟨acc₁, hstep, hadded, hremoved, hacc₁⟩ := updateHashStep_eq hfrom removed hall hop hacc
    have hnext : all = (done ++ [m]) ++ rest := by rw [hall, List.append_assoc]; rfl
    obtain ⟨acc₂, hloop, hadded₂, hremoved₂⟩ := ih hnext
      (fun m' hm' => hops m' (List.mem_cons_of_mem m hm')) hacc₁
    rw [List.length_append] at hloop
    refine ⟨acc₂, ?_, ?_, ?_⟩
    · rw [updateHashLoop, hstep]
      exact hloop
    · simp [hadded₂, hadded, addedTails]
    · simp [hremoved₂, hremoved]

/-- The hash after a patch, when the callback answers from a table. -/
theorem updateHash_eq (hfrom : AnswersFrom look all getPrev Holds) {captured : σ}
    (hstart : Holds [] captured) (hops : ∀ m ∈ all, ∃ op, knownOp m.operation = .ok op)
    (state : HashState) :
    (state.updateHash P all getPrev captured).2
      = .ok { state with
          hash := subtractThenAdd P state.hash
            (all.flatMap (removedValue look (removedInPatch all))) (addedTails all) } := by
  have hacc : Holds [] (HashUpdate.mk [] [] false captured).captured := hstart
  obtain ⟨acc, hloop, hadded, hremoved⟩ := updateHashLoop_eq hfrom (removedInPatch all)
    (List.nil_append all).symm hops hacc
  rw [List.length_nil] at hloop
  rw [HashState.updateHash, hloop]
  simp [hadded, hremoved]

/-! ## Snapshots -/

/-- The limit up to which records are told apart by a scan. -/
def macDedupScanLimit : Nat := 64

/-- The key and the value MAC of every record that has a value blob.  A record
without an index has the empty key. -/
def indexedTails (records : List SyncdRecord) : List (Bytes × Bytes) :=
  records.filterMap fun record =>
    record.value.map fun blob => (record.index.getD [], valueMacTail blob)

/-- The order of byte slices. -/
def bytesLe (a b : Bytes) : Bool := a ≤ b

theorem bytesLe_trans (a b c : Bytes) (hab : bytesLe a b) (hbc : bytesLe b c) : bytesLe a c := by
  rw [bytesLe, decide_eq_true_eq] at *
  exact List.le_trans hab hbc

theorem bytesLe_total (a b : Bytes) : bytesLe a b || bytesLe b a := by
  rw [Bool.or_eq_true, bytesLe, bytesLe, decide_eq_true_eq, decide_eq_true_eq]
  exact List.le_total a b

theorem bytesLe_antisymm (a b : Bytes) (hab : bytesLe a b) (hba : bytesLe b a) : a = b := by
  rw [bytesLe, decide_eq_true_eq] at *
  exact List.le_antisymm hab hba

/-- The value MACs by a backward scan. -/
def scannedTails (indexed : List (Bytes × Bytes)) : List Bytes :=
  (firstPerKey Prod.fst [] indexed.reverse).map Prod.snd

/-- The value MACs by a stable sort. -/
def sortedTails (indexed : List (Bytes × Bytes)) : List Bytes :=
  (runEnds Prod.fst (indexed.mergeSort fun a b => bytesLe a.1 b.1)).map Prod.snd

/-- The value MACs of the last record for each key: by a backward scan, or by a
stable sort above the limit. -/
def foldedTails (indexed : List (Bytes × Bytes)) : List Bytes :=
  if indexed.length ≤ macDedupScanLimit then scannedTails indexed else sortedTails indexed

/-- What a fold did: the value MACs it folded, the records without an index,
and those without a value. -/
structure FoldReport where
  folded : Nat
  unkeyed : Nat
  valueless : Nat
  deriving DecidableEq, Repr

/-- `HashState::update_hash_from_records`. -/
def HashState.updateHashFromRecords (state : HashState) (records : List SyncdRecord) :
    HashState × FoldReport :=
  let indexed := indexedTails records
  let added := foldedTails indexed
  ({ state with hash := subtractThenAdd P state.hash [] added },
    { folded := added.length
      unkeyed := indexed.countP (·.1.isEmpty)
      valueless := records.countP (·.value.isNone) })

theorem perm_sortedTails (indexed : List (Bytes × Bytes)) :
    (sortedTails indexed).Perm (scannedTails indexed) :=
  (perm_runEnds_mergeSort Prod.fst bytesLe_trans bytesLe_total bytesLe_antisymm indexed).map Prod.snd

/-- Below and above the limit the same value MACs are folded. -/
theorem perm_foldedTails (indexed : List (Bytes × Bytes)) :
    (foldedTails indexed).Perm (scannedTails indexed) := by
  rw [foldedTails]
  split
  · rfl
  · exact perm_sortedTails indexed

/-! ## MACs -/

/-- A version as the MACs see it: the low 32 bits, big-endian, after four zero
bytes. -/
def versionTo64BitNetworkOrder (version : UInt64) : Bytes :=
  let v := version.toUInt32
  [0, 0, 0, 0, (v >>> 24).toUInt8, (v >>> 16).toUInt8, (v >>> 8).toUInt8, v.toUInt8]

def HashState.generateSnapshotMac (state : HashState) (name : String) (key : FixedBytes 32) :
    Bytes :=
  (P.hmacSha256 key.val (state.hash.val ++ versionTo64BitNetworkOrder state.version
    ++ name.toUTF8.data.toList)).val

/-- Every mutation's value MAC enters the patch MAC, a REMOVE's as well. -/
def generatePatchMac (patch : SyncdPatch) (name : String) (key : FixedBytes 32)
    (version : UInt64) : Bytes :=
  (P.hmacSha256 key.val (patch.snapshotMac.getD []
    ++ (patch.mutations.flatMap fun m => (m.valueBlob.map valueMacTail).getD [])
    ++ versionTo64BitNetworkOrder version ++ name.toUTF8.data.toList)).val

/-- The MAC over a record's encrypted value. -/
def generateContentMac (operation : SyncdOperation) (data keyId : Bytes) (key : FixedBytes 32) :
    FixedBytes 32 :=
  let keyDataLength : Bytes := List.replicate 7 0 ++ [UInt8.ofNat ((keyId.length + 1) % 256)]
  let out := P.hmacSha512 key.val ([operation.toUInt8 + 1] ++ keyId ++ data ++ keyDataLength)
  ⟨out.val.take 32, by rw [List.length_take, out.property]; rfl⟩

def generateIndexMac (indexJsonBytes : Bytes) (key : FixedBytes 32) : FixedBytes 32 :=
  P.hmacSha256 key.val indexJsonBytes

def validateIndexMac (indexJsonBytes expectedMac : Bytes) (key : FixedBytes 32) :
    Except AppStateError Unit :=
  if (generateIndexMac P indexJsonBytes key).val ≠ expectedMac then .error .mismatchingIndexMAC
  else .ok ()

end WaCore.AppState
