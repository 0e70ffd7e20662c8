import WaCore.AppState.SyncRuns

/-!
# A receiver accepts what a sender builds

`build_patch` folds outgoing mutations with a plain look at the store, and signs
the patch for a version that is not in the message.  `process_patch` folds them
with an overlay, takes the version that the server stamped on, and checks both
MACs.  From the same state both fold to the same state (`foldPatch_eq_outgoing`),
so that the MACs of the sender are those that the receiver computes, and every
record decodes to the entry that it was encoded from.
-/

namespace WaCore.AppState

/-- The keys of a key id, from the cache or from the store. -/
def World.keyFor (env : Env) (w : World) (keyId : Bytes) : Option ExpandedAppStateKeys :=
  match KeyCache.get w.keyCache keyId with
  | some keys => some keys
  | none => (w.store.syncKeys.lookup keyId).map (expandAppStateKeys env.primitives)

/-! ## What `build_patch` returns -/

section Built

variable {env : Env} {w w' : World}

theorem readBackend_eq_ok {α : Type} {call : BackendCall} {f : Store → α} {a : α}
    (h : Eff.exec (readBackend env call f) w = (.ok a, w')) :
    a = f w.store ∧ w'.store = w.store ∧ w'.keyCache = w.keyCache := by
  rw [readBackend, exec_backend] at h
  split at h
  · cases h
  · cases h
    exact ⟨rfl, rfl, rfl⟩

theorem liftResult_eq_ok {ε α : Type} {f : ε → SyncError} {r : Except ε α} {a : α}
    (h : Eff.exec (liftResult f r) w = (.ok a, w')) : r = .ok a ∧ w' = w := by
  cases r with
  | error e => cases h
  | ok b =>
    cases h
    exact ⟨rfl, rfl⟩

theorem getAppStateKey_eq_ok {keyId : Bytes} {keys : ExpandedAppStateKeys}
    (h : Eff.exec (getAppStateKey env keyId) w = (.ok keys, w')) :
    w.keyFor env keyId = some keys ∧ w'.store = w.store := by
  obtain ⟨cached, w₁, hcached, h⟩ := Eff.exec_bind_eq_ok.mp h
  cases hcached
  rw [World.keyFor]
  dsimp only at h
  cases hget : KeyCache.get w.keyCache keyId with
  | some hit =>
    rw [hget] at h
    cases h
    exact ⟨rfl, rfl⟩
  | none =>
    rw [hget] at h
    obtain ⟨key, w₂, hread, h⟩ := Eff.exec_bind_eq_ok.mp h
    obtain ⟨rfl, hstore, -⟩ := readBackend_eq_ok hread
    cases hlook : w.store.syncKeys.lookup keyId with
    | none =>
      rw [hlook] at h
      cases h
    | some keyData =>
      rw [hlook] at h
      cases h
      exact ⟨rfl, hstore⟩

/-- A patch that was built is signed with a key of the sender, for the state
that its mutations lead to. -/
theorem buildPatch_eq_ok {name : String} {mutations : List SyncdMutation} {bytes : Bytes}
    {base : UInt64} (h : Eff.exec (buildPatch env name mutations) w = (.ok (bytes, base), w')) :
    ∃ keyId keys next, w.keyFor env keyId = some keys
      ∧ outgoingState env.primitives (w.store.collections.held name) mutations
          (w.store.collections.getMutationMacs name (collectUniqueIndexMacs mutations)) = .ok next
      ∧ bytes = env.primitives.syncdPatchToVec
          (signPatch env.primitives name keyId keys next mutations)
      ∧ base = (w.store.collections.held name).version := by
  obtain ⟨latest, w₁, hlatest, h₁⟩ := Eff.exec_bind_eq_ok.mp h
  obtain ⟨-, hstore₁, hcache₁⟩ := readBackend_eq_ok hlatest
  obtain ⟨keyId, w₂, hkeyId, h₂⟩ := Eff.exec_bind_eq_ok.mp h₁
  obtain ⟨-, rfl⟩ := liftResult_eq_ok hkeyId
  obtain ⟨keys, w₃, hkeys, h₃⟩ := Eff.exec_bind_eq_ok.mp h₂
  obtain ⟨hkeyFor, hstore₃⟩ := getAppStateKey_eq_ok hkeys
  obtain ⟨state, w₄, hstate, h₄⟩ := Eff.exec_bind_eq_ok.mp h₃
  obtain ⟨rfl, hstore₄, -⟩ := readBackend_eq_ok hstate
  obtain ⟨dbPrev, w₅, hprev, h₅⟩ := Eff.exec_bind_eq_ok.mp h₄
  obtain ⟨rfl, -, -⟩ := readBackend_eq_ok hprev
  obtain ⟨next, w₆, hnext, h₆⟩ := Eff.exec_bind_eq_ok.mp h₅
  have houtgoing := (liftResult_eq_ok hnext).1
  cases h₆
  rw [hstore₄, hstore₃, hstore₁] at houtgoing
  refine ⟨keyId, keys, next, ?_, houtgoing, rfl, by rw [hstore₃, hstore₁]⟩
  rw [World.keyFor, hcache₁, hstore₁] at hkeyFor
  exact hkeyFor

end Built

/-! ## What the receiver computes -/

variable {P : Primitives}

/-- The state that mutations lead to, in closed form. -/
def foldedState (P : Primitives) (look : Bytes → Option Bytes) (state : HashState)
    (mutations : List SyncdMutation) : HashState :=
  { state with
    version := state.version + 1
    hash := subtractThenAdd P state.hash
      (mutations.flatMap (removedValue look (removedInPatch mutations))) (addedTails mutations) }

theorem outgoingState_eq {state : HashState} {mutations : List SyncdMutation}
    {dbPrev : Keyed Bytes Bytes} (hops : ∀ m ∈ mutations, ∃ op, knownOp m.operation = .ok op) :
    outgoingState P state mutations dbPrev
      = .ok (foldedState P (prevValueMac dbPrev) state mutations) := by
  have hanswers : AnswersFrom (prevValueMac dbPrev) mutations
      (fun indexMac _ (captured : Unit) => (.ok (prevValueMac dbPrev indexMac), captured))
      fun _ _ => True :=
    ⟨fun _ _ _ captured _ _ _ _ => ⟨captured, rfl, trivial⟩, fun _ _ _ _ _ _ => trivial⟩
  rw [outgoingState, updateHash_eq P hanswers trivial hops]
  rfl

/-- The overlay of the receiver and the plain look of the sender fold to the
same state. -/
theorem foldPatch_eq_outgoing {patch : SyncdPatch} {state : HashState}
    {look : Bytes → Option Bytes} (hversion : patch.version = some (state.version + 1))
    (hmax : state.version.toNat + 1 < 2 ^ 64)
    (hops : ∀ m ∈ patch.mutations, ∃ op, knownOp m.operation = .ok op)
    (hsets : (setIndices patch.mutations).Nodup) :
    foldPatch P patch state (fun i => .ok (look i))
      = .ok (foldedState P look state patch.mutations) := by
  have hsucc : state.version + 1 = saturatingSucc state.version := by
    apply UInt64.toNat_inj.mp
    rw [toNat_saturatingSucc hmax, UInt64.toNat_add, UInt64.toNat_one]
    omega
  simp only [foldPatch, hversion, Option.getD_some, hsucc, decide_true, Bool.or_true, ok_bind,
    checkOperations_eq_ok.mpr hops]
  rw [updateHash_eq P (answersFrom_inPatchLookup look hsets) (by intro i hi; simp at hi) hops, ← hsucc]
  rfl

/-- The MACs of the sender are those of the receiver, so that no divergence is
reported. -/
theorem macGate_signPatch {name : String} {keyId : Bytes} {keys : ExpandedAppStateKeys}
    {next : HashState} {mutations : List SyncdMutation} {getKeys : KeyLookup}
    (hkeys : getKeys keyId = .ok keys) (hadNoPriorState : Bool) :
    macGate P { signPatch P name keyId keys next mutations with version := some next.version }
      next getKeys true name hadNoPriorState = .ok next := by
  have hmacs : validatePatchMacs P
      { signPatch P name keyId keys next mutations with version := some next.version } next keys
      name hadNoPriorState = .ok false := by
    simp only [validatePatchMacs, signPatch, Option.getD_some, generatePatchMac, decide_true]
    split
    · rfl
    · simp [pure, Except.pure]
  simp only [macGate, signPatch] at hmacs ⊢
  rw [hkeys, ok_bind, hmacs]
  rfl

/-- Encoded entries decode to what went in, in order. -/
theorem decodeMutations_encode {entries : List Entry} {getKeys : KeyLookup}
    (hround : ∀ entry ∈ entries, entry.RoundTrips P)
    (hkeys : ∀ entry ∈ entries, getKeys entry.keyId = .ok entry.keys) :
    ∃ decoded, decodeMutations P getKeys true (entries.map (Entry.encode P)) = .ok decoded
      ∧ decoded.map Prod.fst = entries.map (Entry.mutation P) := by
  induction entries with
  | nil => exact ⟨[], rfl, rfl⟩
  | cons entry entries ih =>
    obtain ⟨hentry, hround⟩ := List.forall_mem_cons.mp hround
    obtain ⟨hkey, hkeys⟩ := List.forall_mem_cons.mp hkeys
    obtain ⟨rest, hrest, hmutations⟩ := ih hround hkeys
    obtain ⟨macs, hdecode⟩ := decodeRecord_encode P hentry rfl
    refine ⟨(entry.mutation P, macs) :: rest, ?_, by rw [List.map_cons, hmutations]; rfl⟩
    have hop : knownOp (entry.encode P).operation = .ok entry.operation := rfl
    have hkeyed : ∀ record, (entry.encode P).record = some record →
        decodeKeyed P getKeys true entry.operation record = .ok (entry.mutation P, macs) := by
      rintro record hrecord
      obtain rfl := Option.some.inj hrecord
      rw [decodeKeyed, okOr_some, ok_bind, hkey]
      exact hdecode
    rw [List.map_cons, decodeMutations]
    cases hrecord : (entry.encode P).record with
    | none => cases hrecord
    | some record =>
      simp only [hop, ok_bind, hkeyed record hrecord, hrest]
      rfl

theorem knownOp_encode {entries : List Entry} :
    ∀ m ∈ entries.map (Entry.encode P), ∃ op, knownOp m.operation = .ok op := by
  intro m hm
  obtain ⟨entry, -, rfl⟩ := List.mem_map.mp hm
  exact ⟨entry.operation, rfl⟩

/-! ## Agreement -/

/-- What a sender builds from encoded entries, a receiver with the same state,
rows and keys accepts under the next version: it gets the entries in order, sees
no divergence, and reaches the state that the sender signed. -/
theorem processPatch_buildPatch (env : Env) (w w' : World) (name : String) (entries : List Entry)
    (bytes : Bytes) (base : UInt64) (getKeys : KeyLookup)
    (hround : ∀ entry ∈ entries, entry.RoundTrips env.primitives)
    (hsets : (setIndices (entries.map (Entry.encode env.primitives))).Nodup)
    (hremoves : (removeIndices (entries.map (Entry.encode env.primitives))).Nodup)
    (hkeys : ∀ entry ∈ entries, w.keyFor env entry.keyId = some entry.keys)
    (hsame : ∀ keyId keys, w.keyFor env keyId = some keys → getKeys keyId = .ok keys)
    (hbuild : Eff.exec (buildPatch env name (entries.map (Entry.encode env.primitives))) w
      = (.ok (bytes, base), w'))
    (hmax : base.toNat + 1 < 2 ^ 64) :
    ∃ patch next result, bytes = env.primitives.syncdPatchToVec patch
      ∧ outgoingState env.primitives (w.store.collections.held name) patch.mutations
          (w.store.collections.getMutationMacs name (collectUniqueIndexMacs patch.mutations))
        = .ok next
      ∧ processPatch env.primitives { patch with version := some (base + 1) }
          (w.store.collections.held name) getKeys
          (fun indexMac => .ok (prevValueMac (w.store.collections.getMutationMacs name
            (collectUniqueIndexMacs patch.mutations)) indexMac)) true name = .ok result
      ∧ result.mutations = entries.map (Entry.mutation env.primitives)
      ∧ result.state = next
      ∧ result.state.macMismatchFatal = (w.store.collections.held name).macMismatchFatal := by
  obtain ⟨keyId, keys, next, hkey, hnext, rfl, rfl⟩ := buildPatch_eq_ok hbuild
  have hops : ∀ m ∈ entries.map (Entry.encode env.primitives),
      ∃ op, knownOp m.operation = .ok op := knownOp_encode
  have hfolded : foldedState env.primitives _ _ _ = next :=
    Except.ok.inj ((outgoingState_eq hops).symm.trans hnext)
  have hversion : next.version = (w.store.collections.held name).version + 1 := hfolded ▸ rfl
  have hfatal : next.macMismatchFatal = (w.store.collections.held name).macMismatchFatal :=
    hfolded ▸ rfl
  obtain ⟨decoded, hdecoded, hdecodedMutations⟩ := decodeMutations_encode hround
    fun entry hentry => hsame _ _ (hkeys entry hentry)
  have hduplicates : detectDuplicateIndexInPatch (entries.map (Entry.encode env.primitives))
      = .ok () :=
    (detectDuplicates_eq_ok hops List.nodup_nil List.nodup_nil).mpr ⟨hsets, hremoves⟩
  refine ⟨signPatch env.primitives name keyId keys next _, next,
    ⟨next, decoded.map Prod.fst, addedOf decoded, removedOf decoded⟩, rfl, hnext, ?_,
    hdecodedMutations, rfl, hfatal⟩
  refine processPatch_of_steps _ ((foldPatch_eq_outgoing rfl hmax hops hsets).trans
    (congrArg Except.ok hfolded)) ?_ hduplicates hdecoded
  rw [← hversion]
  exact macGate_signPatch (hsame _ _ hkey) _

/-- A SET of one index is built on an empty collection and accepted. -/
theorem processPatch_buildPatch_sampleEntry :
    ∃ (patch : SyncdPatch) (result : PatchProcessingResult),
      processPatch samplePrimitives { patch with version := some 1 } .default
        (fun _ => .ok sampleKeys)
        (fun indexMac => .ok (prevValueMac (emptyWorld.store.collections.getMutationMacs "regular"
          (collectUniqueIndexMacs patch.mutations)) indexMac)) true "regular" = .ok result
      ∧ result.mutations = [sampleEntry.mutation samplePrimitives] := by
  have hkeyFor : ∀ keyId keys, emptyWorld.keyFor reliableEnv keyId = some keys →
      (fun _ => .ok sampleKeys : KeyLookup) keyId = .ok keys := by
    intro keyId keys h
    by_cases hone : [1] = keyId
    · subst hone
      exact congrArg Except.ok (Option.some.inj h)
    · simp [World.keyFor, emptyWorld, KeyCache.get, hone] at h
  obtain ⟨patch, next, result, -, -, hresult, hmutations, -, -⟩ :=
    processPatch_buildPatch reliableEnv emptyWorld
      (Eff.exec (buildPatch reliableEnv "regular" [sampleEntry.encode samplePrimitives]) emptyWorld).2
      "regular" [sampleEntry] [] 0 (fun _ => .ok sampleKeys)
      (by rintro entry hentry; cases List.mem_singleton.mp hentry; exact ⟨rfl, rfl⟩)
      (by decide +kernel) (by decide +kernel)
      (by rintro entry hentry; cases List.mem_singleton.mp hentry; rfl) hkeyFor rfl (by decide)
  exact ⟨patch, result, hresult, hmutations⟩

end WaCore.AppState
