import WaCore.AppState.Sync

/-!
# What a run of the processor does to the collections

The programs of `Sync` mix reads, pure work and writes, and any call may fail.
This module says once how each of their parts can leave the collections and the
log.  A snapshot or a patch is either applied in full, or it is refused and
changes nothing, or a failing call interrupts it part-way (`SnapshotFailed`,
`PatchFailed`).

`SyncInvariant` is what a property has to satisfy to hold along a whole run of
`process_patch_list`, whatever fails: closure conditions on collections and logs
that mention no program.  `SyncInvariant.runs_processPatchList` is the
conclusion.
-/

namespace WaCore.AppState

/-! ## Reads -/

section Reads

variable {env : Env}

theorem readsOnly_get {α : Type} (f : World → α) : ReadsOnly (f <$> get : SyncM α) := by
  rintro s l w ⟨rfl, rfl⟩
  exact ⟨rfl, rfl⟩

theorem readsOnly_modify {f : World → World} (hstore : ∀ w, (f w).store = w.store)
    (hlog : ∀ w, (f w).log = w.log) : ReadsOnly (modify f : SyncM PUnit) := by
  rintro s l w ⟨rfl, rfl⟩
  exact ⟨congrArg Store.collections (hstore w), hlog w⟩

theorem readsOnly_liftResult {ε α : Type} (f : ε → SyncError) (r : Except ε α) :
    ReadsOnly (liftResult f r) := by
  cases r with
  | error e => exact readsOnly_throw (f e)
  | ok a => exact readsOnly_pure a

theorem readsOnly_getAppStateKey (keyId : Bytes) : ReadsOnly (getAppStateKey env keyId) := by
  refine (readsOnly_get _).bind fun cached => ?_
  cases cached with
  | some keys => exact readsOnly_pure keys
  | none =>
    refine (readsOnly_readBackend _).bind fun key => ?_
    cases key with
    | none => exact readsOnly_throw _
    | some keyData =>
      exact ReadsOnly.bind (readsOnly_modify (fun _ => rfl) fun _ => rfl) fun _ => readsOnly_pure _

theorem readsOnly_fetchKeys (keyIds : List Bytes) (keys : Keyed Bytes ExpandedAppStateKeys) :
    ReadsOnly (fetchKeys env keyIds keys) := by
  induction keyIds generalizing keys with
  | nil => exact readsOnly_pure keys
  | cons keyId keyIds ih =>
    refine (readsOnly_attempt (readsOnly_getAppStateKey keyId)).bind fun fetched => ?_
    match fetched with
    | .ok expanded => exact ih _
    | .error (.keyNotFound _) => exact ih _
    | .error (.store e) => exact readsOnly_throw _
    | .error (.appState e) => exact readsOnly_throw _
    | .error (.text message) => exact readsOnly_throw _
    | .error (.committed ..) => exact readsOnly_throw _

theorem readsOnly_fetchRecoveryKeys (name : String) (records : List (SyncdPlainTextRecord × Nat))
    (keys : Keyed Bytes ExpandedAppStateKeys) :
    ReadsOnly (fetchRecoveryKeys env name records keys) := by
  induction records generalizing keys with
  | nil => exact readsOnly_pure keys
  | cons record records ih =>
    rw [fetchRecoveryKeys]
    split
    · exact readsOnly_throw _
    · split
      · exact ih keys
      · exact (readsOnly_getAppStateKey _).bind fun _ => ih _

end Reads

/-! ## The parts of a run -/

section Parts

variable {α : Type} {env : Env} {s : Collections} {l : List Event} {m : SyncM α}
  {Q : α → Collections → List Event → Prop} {E : SyncError → Collections → List Event → Prop}

theorem runs_guard {cursor : Cursor} {collection : WAPatchName}
    (h : Runs m s l Q fun e => E (committedMutationsError e cursor.mutations cursor.committed
      collection)) : Runs (cursor.guard collection m) s l Q E := by
  refine (runs_attempt h).bind fun r s' l' hr => ?_
  cases r with
  | ok a => exact runs_pure hr
  | error e => exact runs_throw hr

theorem runs_liftResult {ε : Type} {f : ε → SyncError} {r : Except ε α}
    (hok : ∀ a, r = .ok a → Q a s l) (herr : ∀ e, r = .error e → E (f e) s l) :
    Runs (liftResult f r) s l Q E := by
  cases r with
  | error e => exact runs_throw (herr e rfl)
  | ok a => exact runs_pure (hok a rfl)

theorem runs_persistStatusPrivacy {mutations : List Mutation}
    {Q : Unit → Collections → List Event → Prop} (hok : Q () s l)
    (herr : env.Faulty .persistStatusPrivacy → ∀ e, E (.store e) s l) :
    Runs (persistStatusPrivacy env mutations) s l Q E := by
  rw [persistStatusPrivacy]
  split
  · exact runs_pure hok
  · exact Runs.ite (fun _ => runs_backend (by rintro store rfl; exact hok) herr)
      fun _ => runs_pure hok

/-- The rows of a collection, wiped and written anew. -/
def Collections.rebuild (s : Collections) (name : String) (macs : List AppStateMutationMAC) :
    Collections := (s.clearMutationMacs name).putMutationMacs name macs

theorem mutationMacs_rebuild_of_ne (s : Collections) (name other : String)
    (macs : List AppStateMutationMAC) (h : other ≠ name) :
    (s.rebuild name macs).mutationMacs other = s.mutationMacs other := by
  rw [Collections.rebuild, Collections.mutationMacs_putMutationMacs_of_ne _ _ _ _ h,
    Collections.mutationMacs_clearMutationMacs_of_ne _ _ _ h]

/-- Wipe the rows of a collection, write new ones, run the hook and write the
version last.  A failure on the way leaves the version as it was. -/
theorem runs_rebuild {name : String} {macs : List AppStateMutationMAC} {mutations : List Mutation}
    {state : HashState} {β : Type} {b : β} {Q : β → Collections → List Event → Prop}
    (hok : Q b ((s.rebuild name macs).setVersion name state)
      (l ++ [.wrote name (s.held name) state false]))
    (herr : ∀ e s', (∃ call, call.writes = true ∧ env.Faulty call) → s'.versions = s.versions →
      (∀ other, other ≠ name → s'.mutationMacs other = s.mutationMacs other) →
      E (.store e) s' l) :
    Runs (do
      writeBackend env .clearMutationMacs (Collections.clearMutationMacs name)
      (if macs.isEmpty then pure ()
        else writeBackend env .putMutationMacs (Collections.putMutationMacs name macs))
      persistStatusPrivacy env mutations
      setVersion env name state
      pure b) s l Q E := by
  have hcleared := fun other => Collections.mutationMacs_clearMutationMacs_of_ne s name other
  have hrebuilt := fun other => mutationMacs_rebuild_of_ne s name other macs
  have hrest : Runs (do
      persistStatusPrivacy env mutations
      setVersion env name state
      pure b) (s.rebuild name macs) l Q E :=
    .seq (runs_persistStatusPrivacy
      (.seq (runs_writeVersion (runs_pure hok) fun h e => herr e _ ⟨_, rfl, h⟩ rfl hrebuilt))
      fun h e => herr e _ ⟨_, rfl, h⟩ rfl hrebuilt)
  refine .seq (runs_writeBackend (.seq (Runs.ite (fun hempty => runs_pure ?_) fun _ => ?_)) fun h e =>
    herr e s ⟨_, rfl, h⟩ rfl fun _ _ => rfl)
  · rwa [Collections.rebuild, List.isEmpty_iff.mp hempty, Collections.putMutationMacs_nil] at hrest
  · exact runs_writeBackend hrest fun h e => herr e _ ⟨_, rfl, h⟩ rfl hcleared

end Parts

/-! ## A snapshot and a patch -/

/-- The state as it is written for a list: the last list of a bootstrap ends
it. -/
def PatchList.settle (pl : PatchList) (state : HashState) : HashState :=
  { state with bootstrapped := state.bootstrapped || !pl.hasMorePatches }

@[simp] theorem version_settle (pl : PatchList) (state : HashState) :
    (pl.settle state).version = state.version := rfl

@[simp] theorem hash_settle (pl : PatchList) (state : HashState) :
    (pl.settle state).hash = state.hash := rfl

/-- How a snapshot that is not applied leaves the collections and the log. -/
inductive SnapshotFailed (env : Env) (name : String) (base : UInt64) (s : Collections)
    (l : List Event) : Collections → List Event → Prop where
  | refused : SnapshotFailed env name base s l s l
  | interrupted (s' : Collections) (version : UInt64) (mutations : List Mutation)
      (hfault : ∃ call, call.writes = true ∧ env.Faulty call) (hversions : s'.versions = s.versions)
      (hothers : ∀ other, other ≠ name → s'.mutationMacs other = s.mutationMacs other) :
      SnapshotFailed env name base s l s' (l ++ [.decoded name base version mutations])

/-- How a patch that is not applied in full leaves the collections and the log.
`Accepts` says what `process_patch` may have returned for it. -/
inductive PatchFailed (env : Env) (pl : PatchList) (Accepts : PatchProcessingResult → Prop)
    (base : UInt64) (s : Collections) (l : List Event) : Collections → List Event → Prop where
  | refused : PatchFailed env pl Accepts base s l s l
  | interrupted (version : UInt64) (mutations : List Mutation) (hfault : ∃ call, env.Faulty call) :
      PatchFailed env pl Accepts base s l s
        (l ++ [.decoded pl.name.asStr base version mutations])
  | torn (result : PatchProcessingResult) (s' : Collections) (haccepts : Accepts result)
      (hdefault : env.transactional = false)
      (hfault : env.Faulty .commitDeleteMutationMacs ∨ env.Faulty .commitPutMutationMacs)
      (hversions : s'.versions =
        (s.setVersion pl.name.asStr (pl.settle result.state)).versions)
      (hothers : ∀ other, other ≠ pl.name.asStr → s'.mutationMacs other = s.mutationMacs other) :
      PatchFailed env pl Accepts base s l s'
        (l ++ [.decoded pl.name.asStr base result.state.version result.mutations,
          .wrote pl.name.asStr (s.held pl.name.asStr) (pl.settle result.state) true])

section Applied

variable {env : Env} {pl : PatchList} {validateMacs : Bool} {cursor : Cursor} {s : Collections}
  {l : List Event} {keys : Keyed Bytes ExpandedAppStateKeys}
  {Q : Cursor → Collections → List Event → Prop} {E : SyncError → Collections → List Event → Prop}

theorem runs_applyPatch {patch : SyncdPatch} {Accepts : PatchProcessingResult → Prop}
    (haccepts : ∀ result, processPatch env.primitives patch cursor.state (lookupAppStateKey keys)
      (fun indexMac => .ok (prevValueMac
        (s.getMutationMacs pl.name.asStr (collectUniqueIndexMacs patch.mutations)) indexMac))
      validateMacs pl.name.asStr = .ok result → Accepts result)
    (hok : ∀ result, Accepts result →
      Q ⟨pl.settle result.state, pl.settle result.state, cursor.mutations ++ result.mutations⟩
        (s.commitPatch pl.name.asStr (pl.settle result.state) result.removedIndexMacs
          result.addedMacs)
        (l ++ [.decoded pl.name.asStr cursor.state.version result.state.version result.mutations,
          .wrote pl.name.asStr (s.held pl.name.asStr) (pl.settle result.state) true]))
    (herr : ∀ e s' l', PatchFailed env pl Accepts cursor.state.version s l s' l' →
      E (committedMutationsError e cursor.mutations cursor.committed pl.name) s' l') :
    Runs (applyPatch env keys pl validateMacs cursor patch) s l Q E := by
  refine .seq (runs_guard (runs_readBackend ?_ fun _ e => herr _ _ _ .refused))
  rintro store rfl
  refine .seq (runs_guard (runs_liftResult (fun result hresult => ?_) fun e _ =>
    herr _ _ _ .refused))
  refine .seq (runs_record (.seq (runs_guard (runs_persistStatusPrivacy ?_ fun hfault e =>
    herr _ _ _ (.interrupted _ _ ⟨_, hfault⟩)))))
  refine .seq (runs_guard (runs_commitPatch ?_ fun e s' l' hfailed => ?_))
  · rw [List.append_assoc]
    exact runs_pure (hok result (haccepts result hresult))
  · -- the default commit may have written the version already
    cases hfailed with
    | untouched hfault => exact herr _ _ _ (.interrupted _ _ hfault)
    | torn s' hdefault hfault hversions hothers =>
      rw [List.append_assoc]
      exact herr _ _ _ (.torn result s' (haccepts result hresult) hdefault hfault hversions hothers)

end Applied

/-! ## Patch lists -/

/-- What is to be shown of a property of the cursor, the collections and the
log, and of one that errors leave behind, for them to hold along every run of
`process_patch_list`. -/
structure SyncInvariant (env : Env) (pl : PatchList) (validateMacs : Bool)
    (Inv : Cursor → Collections → List Event → Prop)
    (Fail : SyncError → Collections → List Event → Prop) : Prop where
  /-- An error that leaves everything as it is. -/
  stop {c s l} (e : SyncError) (h : Inv c s l) :
    Fail (committedMutationsError e c.mutations c.committed pl.name) s l
  /-- A snapshot that is applied. -/
  snapshot {keys snapshot c s l result} (h : Inv c s l)
    (hfresh : snapshotIsStale c.state.version (snapshot.version.getD 0) = false)
    (hresult : processSnapshot env.primitives snapshot .default (lookupAppStateKey keys)
      validateMacs pl.name.asStr = .ok result) :
    Inv ⟨pl.settle result.state, pl.settle result.state, c.mutations ++ result.mutations⟩
      ((s.rebuild pl.name.asStr result.mutationMacs).setVersion pl.name.asStr
        (pl.settle result.state))
      (l ++ [.decoded pl.name.asStr c.state.version result.state.version result.mutations,
        .wrote pl.name.asStr (s.held pl.name.asStr) (pl.settle result.state) false])
  /-- A snapshot that is not applied.  Nothing was committed before it. -/
  snapshotFails {c s l s' l'} (e : SyncError) (h : Inv c s l) (hfirst : c.mutations = [])
    (hfailed : SnapshotFailed env pl.name.asStr c.state.version s l s' l') : Fail e s' l'
  /-- The rows of a collection without a baseline are dropped. -/
  clear {c s l} (h : Inv c s l) (hunsynced : c.state.isUnsynced = true) :
    Inv c (s.clearMutationMacs pl.name.asStr) l
  /-- A patch that is applied. -/
  patch {keys patch c s l result} (hpatch : patch ∈ pl.patches) (h : Inv c s l)
    (hresult : processPatch env.primitives patch c.state (lookupAppStateKey keys)
      (fun indexMac => .ok (prevValueMac
        (s.getMutationMacs pl.name.asStr (collectUniqueIndexMacs patch.mutations)) indexMac))
      validateMacs pl.name.asStr = .ok result) :
    Inv ⟨pl.settle result.state, pl.settle result.state, c.mutations ++ result.mutations⟩
      (s.commitPatch pl.name.asStr (pl.settle result.state) result.removedIndexMacs
        result.addedMacs)
      (l ++ [.decoded pl.name.asStr c.state.version result.state.version result.mutations,
        .wrote pl.name.asStr (s.held pl.name.asStr) (pl.settle result.state) true])
  /-- A patch that is not applied in full. -/
  patchFails {keys patch c s l s' l'} (e : SyncError) (h : Inv c s l)
    (hfailed : PatchFailed env pl
      (fun result => processPatch env.primitives patch c.state (lookupAppStateKey keys)
        (fun indexMac => .ok (prevValueMac
          (s.getMutationMacs pl.name.asStr (collectUniqueIndexMacs patch.mutations)) indexMac))
        validateMacs pl.name.asStr = .ok result) c.state.version s l s' l') :
    Fail (committedMutationsError e c.mutations c.committed pl.name) s' l'
  /-- The last write, which only ends a bootstrap. -/
  finish {c s l} (bootstrapped : Bool) (h : Inv c s l) :
    Inv { c with state := { c.state with bootstrapped := bootstrapped } }
      (s.setVersion pl.name.asStr { c.state with bootstrapped := bootstrapped })
      (l ++ [.wrote pl.name.asStr (s.held pl.name.asStr)
        { c.state with bootstrapped := bootstrapped } false])

namespace SyncInvariant

variable {env : Env} {pl : PatchList} {validateMacs : Bool}
  {Inv : Cursor → Collections → List Event → Prop}
  {Fail : SyncError → Collections → List Event → Prop} {s : Collections} {l : List Event}
  {c : Cursor} {keys : Keyed Bytes ExpandedAppStateKeys}

/-- An invariant of the cursor after the snapshot.  Without a snapshot nothing
is there to hand back yet. -/
private abbrev Opened (pl : PatchList) (Inv : Cursor → Collections → List Event → Prop)
    (c : Cursor) (s : Collections) (l : List Event) : Prop :=
  Inv c s l ∧ (pl.snapshot = none → c.mutations = [])

variable (inv : SyncInvariant env pl validateMacs Inv Fail)
include inv

theorem stop_first (e : SyncError) (h : Inv c s l) (hfirst : c.mutations = []) : Fail e s l := by
  have hstop := inv.stop e h
  rwa [hfirst] at hstop

theorem runs_openCursor
    (hstart : Inv ⟨s.held pl.name.asStr, s.held pl.name.asStr, []⟩ s l) :
    Runs (openCursor env pl validateMacs) s l (fun r => Opened pl Inv r.2) Fail := by
  have hstop : ∀ e, Fail e s l := fun e => inv.stop_first e hstart rfl
  refine (readsOnly_fetchKeys _ _).runs_bind hstop fun keys => ?_
  refine .seq (runs_readBackend ?_ fun _ e => hstop _)
  rintro store rfl
  split
  · exact runs_pure ⟨hstart, fun _ => rfl⟩
  rename_i snapshot hsnapshot
  refine Runs.ite (fun _ => runs_pure ⟨hstart, fun _ => rfl⟩) fun hfresh => ?_
  refine .seq (.seq (runs_liftResult (fun result hresult => ?_) fun e _ =>
    inv.snapshotFails _ hstart rfl .refused))
  refine .seq (runs_record (runs_rebuild ?_ fun e s' hfault hversions hothers =>
    inv.snapshotFails _ hstart rfl (.interrupted s' _ _ hfault hversions hothers)))
  have h := inv.snapshot hstart hfresh hresult
  rw [List.append_cons] at h
  exact runs_pure ⟨h, by simp [hsnapshot]⟩

theorem runs_dropStaleMacs (h : Inv c s l) :
    Runs (dropStaleMacs env pl c) s l (fun _ => Inv c) Fail :=
  Runs.ite
    (fun hunsynced => runs_guard (runs_writeBackend (inv.clear h hunsynced)
      fun _ _ => inv.stop _ h))
    fun _ => runs_pure h

theorem runs_applyPatches {patches : List SyncdPatch}
    (hpatches : ∀ patch ∈ patches, patch ∈ pl.patches) (h : Inv c s l) :
    Runs (applyPatches env keys pl validateMacs patches c) s l Inv Fail := by
  induction patches generalizing c s l with
  | nil => exact runs_pure h
  | cons patch patches ih =>
    obtain ⟨hpatch, hpatches⟩ := List.forall_mem_cons.mp hpatches
    exact .seq (runs_applyPatch (fun _ hresult => hresult)
      (fun result hresult => ih hpatches (inv.patch hpatch h hresult))
      fun e _ _ hfailed => inv.patchFails e h hfailed)

theorem runs_finish (h : Inv c s l)
    (hfirst : pl.snapshot = none → pl.patches = [] → c.mutations = []) :
    Runs (AppState.finish env pl c) s l Inv Fail := by
  refine Runs.ite (fun _ => ?_) fun hfalse => Runs.ite (fun htrue => ?_) fun _ => runs_pure h
  · exact .seq (runs_guard (runs_writeVersion (runs_pure (inv.finish _ h)) fun _ _ => inv.stop _ h))
  · -- this write is not guarded, but then there is nothing to hand back
    have hnothing : c.mutations = [] := by
      simp only [Bool.and_eq_true, List.isEmpty_iff] at htrue
      have hpatches : pl.patches = [] := htrue.1.1.1.1
      exact hfirst (by simpa [hpatches] using hfalse) hpatches
    exact .seq (runs_writeVersion (runs_pure (inv.finish _ h)) fun _ _ =>
      inv.stop_first _ h hnothing)

/-- An invariant holds of whatever `process_patch_list` leaves behind. -/
theorem runs_processPatchList
    (hstart : Inv ⟨s.held pl.name.asStr, s.held pl.name.asStr, []⟩ s l) :
    Runs (processPatchList env pl validateMacs) s l
      (fun r s' l' => ∃ c, c.mutations = r.1 ∧ c.state = r.2.1 ∧ Inv c s' l') Fail := by
  refine (inv.runs_openCursor hstart).bind ?_
  rintro ⟨keys, c⟩ s l ⟨h, hfirst⟩
  refine Runs.ite (fun _ => runs_pure ⟨c, rfl, rfl, h⟩) fun _ => ?_
  refine (inv.runs_dropStaleMacs h).bind fun _ s l h => ?_
  refine Runs.bind (Q := fun c' s' l' => Inv c' s' l' ∧ (pl.patches = [] → c' = c)) ?_ ?_
  · cases hpatches : pl.patches with
    | nil => exact runs_pure ⟨h, fun _ => rfl⟩
    | cons patch patches =>
      exact (inv.runs_applyPatches (by simp [hpatches]) h).mono (fun _ _ _ h' => ⟨h', nofun⟩)
        fun _ _ _ h' => h'
  rintro c' s l ⟨h, hsame⟩
  refine (inv.runs_finish h fun hsnapshot hpatches => ?_).bind fun c'' _ _ h' =>
    runs_pure ⟨c'', rfl, rfl, h'⟩
  rw [hsame hpatches]
  exact hfirst hsnapshot

end SyncInvariant

/-! ## Recovery -/

/-- A recovery changes nothing, or replaces the collection it was asked for by
a newer one, or stops in the middle of that with the version as it was. -/
theorem runs_applySnapshotRecovery {env : Env} {recovery : SyncdSnapshotRecovery}
    {expectedCollection : String} {stillCurrent : Bool} {s : Collections} {l : List Event}
    {Q : RecoveryOutcome → Collections → List Event → Prop}
    {E : SyncError → Collections → List Event → Prop}
    (hsame : ∀ outcome, Q outcome s l)
    (hok : ∀ state macs mutations,
      snapshotIsStale (s.held expectedCollection).version state.version = false →
      Q (.applied mutations) ((s.rebuild expectedCollection macs).setVersion expectedCollection state)
        (l ++ [.wrote expectedCollection (s.held expectedCollection) state false]))
    (herr : ∀ e s', s'.versions = s.versions →
      (∀ other, other ≠ expectedCollection → s'.mutationMacs other = s.mutationMacs other) →
      E e s' l) :
    Runs (applySnapshotRecovery env recovery expectedCollection stillCurrent) s l Q E := by
  have hstop : ∀ e, E e s l := fun e => herr e s rfl fun _ _ => rfl
  refine (readsOnly_liftResult _ _).runs_bind hstop fun name => ?_
  refine .seq (runs_liftResult (fun _ hname => ?_) fun _ _ => hstop _)
  obtain rfl : name = expectedCollection := by simpa using ensure_eq_ok.mp hname
  refine (readsOnly_liftResult _ _).runs_bind hstop fun version => ?_
  refine .seq (runs_readBackend ?_ fun _ e => hstop _)
  rintro store rfl
  refine Runs.ite (fun _ => runs_pure (hsame _)) fun hfresh => ?_
  refine (readsOnly_liftResult _ _).runs_bind hstop fun hash => ?_
  refine (readsOnly_fetchRecoveryKeys _ _ _).runs_bind hstop fun keys => ?_
  refine (readsOnly_liftResult _ _).runs_bind hstop fun decoded => ?_
  refine Runs.ite (fun _ => ?_) fun _ => runs_pure (hsame _)
  exact runs_rebuild (hok ⟨version, hash, false, true⟩ _ _ hfresh) fun e s' _ hversions hothers =>
    herr _ s' hversions hothers

/-! ## Sequences of calls -/

/-- What a client can ask of the processor. -/
inductive Call where
  | processPatchList (pl : PatchList) (validateMacs : Bool)
  | applySnapshotRecovery (recovery : SyncdSnapshotRecovery) (expectedCollection : String)
      (stillCurrent : Bool)

/-- The world that a call leaves, whether it returns a value or an error. -/
def Call.run (env : Env) (w : World) : Call → World
  | .processPatchList pl validateMacs => (Eff.exec (AppState.processPatchList env pl validateMacs) w).2
  | .applySnapshotRecovery recovery expectedCollection stillCurrent =>
    (Eff.exec (AppState.applySnapshotRecovery env recovery expectedCollection stillCurrent) w).2

/-- One call after the other. -/
def runCalls (env : Env) (calls : List Call) (w : World) : World := calls.foldl (Call.run env) w

theorem Runs.exec {α : Type} {m : SyncM α} {w : World} {P : Collections → List Event → Prop}
    (h : Runs m w.store.collections w.log (fun _ => P) fun _ => P) :
    P (Eff.exec m w).2.store.collections (Eff.exec m w).2.log :=
  Eff.Meets.exec_snd h ⟨rfl, rfl⟩

/-- A property of the collections and the log that an invariant ends in holds after the
call. -/
theorem SyncInvariant.exec {env : Env} {pl : PatchList} {validateMacs : Bool}
    {Inv : Cursor → Collections → List Event → Prop} {P : Collections → List Event → Prop}
    (inv : SyncInvariant env pl validateMacs Inv fun _ => P) (hP : ∀ c s l, Inv c s l → P s l)
    {w : World} (hstart : let s := w.store.collections
      Inv ⟨s.held pl.name.asStr, s.held pl.name.asStr, []⟩ s w.log) :
    P ((Call.processPatchList pl validateMacs).run env w).store.collections
      ((Call.processPatchList pl validateMacs).run env w).log := by
  refine Runs.exec ((inv.runs_processPatchList hstart).mono ?_ fun _ _ _ h => h)
  rintro _ s l ⟨c, -, -, h⟩
  exact hP c s l h

end WaCore.AppState
