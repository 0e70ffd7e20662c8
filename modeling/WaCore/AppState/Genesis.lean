import WaCore.AppState.Processor

/-!
# The first patch of a collection

A collection that was never synced has nothing to compare a patch with, so the
MACs of its first patch are all that tells a real baseline from one that a
server has put together.  `validate_patch_macs` refuses a first patch without
either MAC.  `process_patch` only asks it when the patch names a key.

`genesis_authenticated_iff` says for which first patches acceptance implies that
both MACs were there: `Gated` is the condition under which the check is made and
reaches both.  `keylessGenesis_accepted` is a patch that names no key and
carries no MAC, and whose mutation is decoded all the same.
-/

namespace WaCore.AppState

variable (P : Primitives)

/-- The patch carries the patch MAC of the key that it names, and a snapshot
MAC. -/
def Authenticated (patch : SyncdPatch) (getKeys : KeyLookup) (name : String) : Prop :=
  ∃ keyId keys, patch.keyId = some keyId ∧ getKeys keyId = .ok keys
    ∧ patch.patchMac = some (generatePatchMac P patch name keys.patchMac (patch.version.getD 0))
    ∧ patch.snapshotMac.isSome

/-- The patch names a key, and either it carries a snapshot MAC, or the state
still compares snapshot MACs, or its patch MAC does not verify. -/
def Gated (patch : SyncdPatch) (state : HashState) (getKeys : KeyLookup) (name : String) : Prop :=
  ∃ keyId, patch.keyId = some keyId
    ∧ (patch.snapshotMac.isSome ∨ state.macMismatchFatal = false
      ∨ ¬ ∃ keys, getKeys keyId = .ok keys ∧ patch.patchMac
        = some (generatePatchMac P patch name keys.patchMac (patch.version.getD 0)))

/-- The checks of `process_patch` other than the MAC check: the fold, the scan
for duplicates and the decoding of every record. -/
def PassesOtherChecks (patch : SyncdPatch) (state : HashState) (getKeys : KeyLookup)
    (getPrev : Bytes → Except AppStateError (Option Bytes)) : Prop :=
  (∃ folded, foldPatch P patch state getPrev = .ok folded)
    ∧ detectDuplicateIndexInPatch patch.mutations = .ok ()
    ∧ ∃ decoded, decodeMutations P getKeys true patch.mutations = .ok decoded

section

variable {P} {patch : SyncdPatch} {state folded checked : HashState} {getKeys : KeyLookup}
  {getPrev : Bytes → Except AppStateError (Option Bytes)} {name : String}

theorem macMismatchFatal_foldPatch (h : foldPatch P patch state getPrev = .ok folded) :
    folded.macMismatchFatal = state.macMismatchFatal := by
  obtain ⟨-, -, -, hash, rfl⟩ := foldPatch_eq_ok P h
  rfl

/-- The three parts of `process_patch` make an accepted patch. -/
theorem processPatch_of_checks (name : String)
    (hother : PassesOtherChecks P patch state getKeys getPrev)
    (hgate : ∀ folded, foldPatch P patch state getPrev = .ok folded →
      ∃ checked, macGate P patch folded getKeys true name state.isUnsynced = .ok checked) :
    ∃ result, processPatch P patch state getKeys getPrev true name = .ok result := by
  obtain ⟨⟨folded, hfold⟩, hdup, decoded, hdec⟩ := hother
  obtain ⟨checked, hchecked⟩ := hgate folded hfold
  exact ⟨_, processPatch_of_steps P hfold hchecked hdup hdec⟩

/-- A first patch that passes the MAC check carries a valid patch MAC, and a
snapshot MAC unless the state has stopped comparing it. -/
theorem validatePatchMacs_genesis {keys : ExpandedAppStateKeys} {diverged : Bool}
    (h : validatePatchMacs P patch state keys name true = .ok diverged) :
    patch.patchMac = some (generatePatchMac P patch name keys.patchMac (patch.version.getD 0))
      ∧ (patch.snapshotMac.isSome ∨ state.macMismatchFatal = true) := by
  rw [validatePatchMacs, bind_eq_ok] at h
  obtain ⟨_, hmac, hsnap⟩ := h
  constructor
  · cases hpatch : patch.patchMac with
    | none => simp [hpatch] at hmac
    | some mac =>
      have : generatePatchMac P patch name keys.patchMac (patch.version.getD 0) = mac := by
        simpa [hpatch, ensure_eq_ok] using hmac
      rw [this]
  · cases hfatal : state.macMismatchFatal with
    | true => exact .inr rfl
    | false =>
      cases hmac' : patch.snapshotMac with
      | some mac => exact .inl rfl
      | none => simp [hfatal, hmac'] at hsnap

end

/-- Which first patches are authenticated when they are accepted: those that
the MAC check reaches in full, and those that another check refuses. -/
theorem genesis_authenticated_iff (patch : SyncdPatch) (state : HashState)
    (hunsynced : state.isUnsynced) (getKeys : KeyLookup)
    (getPrev : Bytes → Except AppStateError (Option Bytes)) (name : String) :
    (∀ result, processPatch P patch state getKeys getPrev true name = .ok result →
        Authenticated P patch getKeys name)
      ↔ Gated P patch state getKeys name ∨ ¬ PassesOtherChecks P patch state getKeys getPrev := by
  constructor
  · intro hall
    by_cases hother : PassesOtherChecks P patch state getKeys getPrev
    · left
      cases hkey : patch.keyId with
      | none =>
        -- without a key id the MAC check is skipped, so the patch is accepted
        obtain ⟨result, hresult⟩ := processPatch_of_checks name hother
          fun folded _ => ⟨folded, by simp [macGate, hkey, pure, Except.pure]⟩
        obtain ⟨keyId, _, hsome, -⟩ := hall result hresult
        rw [hkey] at hsome
        cases hsome
      | some keyId =>
        refine ⟨keyId, hkey, ?_⟩
        by_contra hnot
        simp only [not_or, Bool.not_eq_true, Bool.not_eq_false, not_not] at hnot
        obtain ⟨hsnap, hfatal, keys, hkeys, hmac⟩ := hnot
        obtain ⟨result, hresult⟩ := processPatch_of_checks name hother
          fun folded hfold => ⟨folded, by
            have hf : folded.macMismatchFatal = true := by
              rw [macMismatchFatal_foldPatch hfold, hfatal]
            simp [macGate, hkey, hkeys, validatePatchMacs, hf, hmac]⟩
        obtain ⟨_, _, _, _, _, hsome⟩ := hall result hresult
        rw [hsnap] at hsome
        cases hsome
    · exact .inr hother
  · rintro (⟨keyId, hkey, hgate⟩ | hother) result hresult
    · obtain ⟨folded, -, hfold, hchecked, -⟩ := processPatch_eq_ok P hresult
      simp only [macGate, hkey, bind_eq_ok, hunsynced] at hchecked
      obtain ⟨keys, hkeys, diverged, hvalid, -⟩ := hchecked
      obtain ⟨hmac, hsnap⟩ := validatePatchMacs_genesis hvalid
      rw [macMismatchFatal_foldPatch hfold] at hsnap
      refine ⟨keyId, keys, hkey, hkeys, hmac, ?_⟩
      rcases hgate with hgate | hgate | hgate
      · exact hgate
      · rcases hsnap with hsnap | hsnap
        · exact hsnap
        · rw [hgate] at hsnap
          cases hsnap
      · exact (hgate ⟨keys, hkeys, hmac⟩).elim
    · obtain ⟨folded, decoded, hfold, -, hdup, hdec, -⟩ := processPatch_eq_ok P hresult
      exact (hother ⟨⟨folded, hfold⟩, hdup rfl, decoded, hdec⟩).elim

/-- A first patch with one record, which names no key and carries no MAC. -/
def keylessGenesis : SyncdPatch :=
  ⟨some 1, [sampleEntry.encode samplePrimitives], none, none, none⟩

/-- The same patch under a key, with a snapshot MAC and the patch MAC of the
key. -/
def signedGenesis : SyncdPatch :=
  let named := { keylessGenesis with keyId := some [1], snapshotMac := some [0] }
  { named with
    patchMac := some (generatePatchMac samplePrimitives named "regular" sampleKeys.patchMac 1) }

/-- The signed patch is accepted, and it is authenticated. -/
theorem signedGenesis_authenticated :
    ∃ result, processPatch samplePrimitives signedGenesis .default (fun _ => .ok sampleKeys)
        (fun _ => .ok none) true "regular" = .ok result
      ∧ Authenticated samplePrimitives signedGenesis (fun _ => .ok sampleKeys) "regular" :=
  ⟨_, rfl, (genesis_authenticated_iff samplePrimitives signedGenesis .default (by decide)
    (fun _ => .ok sampleKeys) (fun _ => .ok none) "regular").mpr
      (.inl ⟨[1], rfl, .inl rfl⟩) _ rfl⟩

/-- A never synced collection takes an unauthenticated first patch and decodes
its record. -/
theorem keylessGenesis_accepted :
    ∃ result, processPatch samplePrimitives keylessGenesis .default (fun _ => .ok sampleKeys)
        (fun _ => .ok none) true "regular" = .ok result
      ∧ result.mutations = [sampleEntry.mutation samplePrimitives]
      ∧ keylessGenesis.keyId = none ∧ keylessGenesis.patchMac = none
      ∧ keylessGenesis.snapshotMac = none
      ∧ ¬ Authenticated samplePrimitives keylessGenesis (fun _ => .ok sampleKeys) "regular" := by
  refine ⟨_, rfl, by decide +kernel, rfl, rfl, rfl, ?_⟩
  rintro ⟨_, _, hkey, -⟩
  cases hkey

end WaCore.AppState
