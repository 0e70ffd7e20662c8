import WaCore.AppState.SyncRuns

/-!
# The hash and the MAC store agree

`process_patch` folds a patch into the hash, and `commit_patch` writes its rows
into the MAC store.  They are different functions over different data, and the
next patch is folded with the rows that the last one left.  The invariant that
ties them is `Collections.Agrees`: the hash of a collection is the lane-wise
sum of what the value MACs of its rows expand to.

The hash takes out a value for every index that a patch removes and for every
other one that it sets.  `prevValueMac_eq_lookup` says that the values it takes
out are those of the rows, and `Keyed.total_putAll_deleteAll` that the rows
change by as much.
-/

namespace WaCore.AppState

/-- The hash of a collection is the sum of the shares of its rows. -/
def Collections.Agrees (P : Primitives) (s : Collections) (name : String) : Prop :=
  laneOf (s.held name).hash = (s.mutationMacs name).total (share P)

/-! ## The rows that a patch is folded with -/

theorem mem_collectUniqueIndexMacs {mutations : List SyncdMutation} {i : FixedBytes 32} :
    i ∈ collectUniqueIndexMacs mutations ↔ ∃ m ∈ mutations, m.indexMac = some i.val := by
  have hmacs : i ∈ mutations.filterMap mutationIndexMacArray
      ↔ ∃ m ∈ mutations, m.indexMac = some i.val := by
    simp only [List.mem_filterMap, mutationIndexMacArray, Option.bind_eq_some_iff]
    constructor
    · rintro ⟨m, hm, bytes, hbytes, hi⟩
      refine ⟨m, hm, ?_⟩
      rw [FixedBytes.ofBytes, Option.dite_none_right_eq_some] at hi
      obtain ⟨_, hi⟩ := hi
      rw [hbytes, ← Option.some.inj hi]
    · rintro ⟨m, hm, hi⟩
      exact ⟨m, hm, i.val, hi, FixedBytes.ofBytes_val i⟩
  rw [← hmacs, collectUniqueIndexMacs]
  split
  · exact mem_firstPerKey_of_injective Subtype.val_injective _ i
  · -- the sorted list drops the same repetitions as a scan from the back
    have hperm := perm_runEnds_mergeSort Subtype.val bytesLe_trans bytesLe_total bytesLe_antisymm
      (mutations.filterMap mutationIndexMacArray)
    rw [hperm.mem_iff, mem_firstPerKey_of_injective Subtype.val_injective, List.mem_reverse]

/-- What the callback answers for an index of the patch is the row in the
store. -/
theorem prevValueMac_eq_lookup (s : Collections) (name : String) {mutations : List SyncdMutation}
    {i : Bytes} (hlength : i.length = 32) (hmem : ∃ m ∈ mutations, m.indexMac = some i) :
    prevValueMac (s.getMutationMacs name (collectUniqueIndexMacs mutations)) i
      = (s.mutationMacs name).lookup i := by
  have hkey : (⟨i, hlength⟩ : FixedBytes 32) ∈ collectUniqueIndexMacs mutations :=
    mem_collectUniqueIndexMacs.mpr hmem
  have hofBytes : FixedBytes.ofBytes 32 i = some ⟨i, hlength⟩ := by
    rw [FixedBytes.ofBytes, dif_pos hlength]
  rw [prevValueMac, hofBytes, Option.bind_some]
  exact Keyed.lookup_restrict_of_mem _ (List.mem_map_of_mem hkey)

/-! ## The writers -/

section Writers

variable {P : Primitives} {s : Collections} {name : String} {pl : PatchList}

theorem agrees_rebuild {snapshot : SyncdSnapshot} {getKeys : KeyLookup} {validateMacs : Bool}
    {result : ProcessedSnapshot}
    (h : processSnapshot P snapshot .default getKeys validateMacs name = .ok result) :
    ((s.rebuild name result.mutationMacs).setVersion name (pl.settle result.state)).Agrees P
      name := by
  obtain ⟨hlanes, hnodup, -⟩ := laneOf_processSnapshot P h
  have hrows : (result.mutationMacs.map fun mac => (mac.indexMac, mac.valueMac)).map Prod.fst
      = result.mutationMacs.map (·.indexMac) := by
    rw [List.map_map]
    rfl
  rw [Collections.Agrees, Collections.held_setVersion, hash_settle, hlanes,
    Collections.mutationMacs_setVersion, Collections.rebuild,
    Collections.mutationMacs_putMutationMacs_self, Keyed.total_putAll _ (hrows ▸ hnodup)]
  simp [Keyed.valueAt, Function.comp_def]

theorem agrees_commitPatch {patch : SyncdPatch} {getKeys : KeyLookup} {look : Bytes → Option Bytes}
    {result : PatchProcessingResult} (hs : s.Agrees P name) (hindexed : patch.Indexed)
    (hlook : ∀ i, i.length = 32 → (∃ m ∈ patch.mutations, m.indexMac = some i) →
      look i = (s.mutationMacs name).lookup i)
    (h : processPatch P patch (s.held name) getKeys (fun i => .ok (look i)) true name
      = .ok result) :
    (s.commitPatch name (pl.settle result.state) result.removedIndexMacs result.addedMacs).Agrees P
      name := by
  obtain ⟨hlanes, hremoved, hadded, hindices⟩ := laneOf_processPatch P hindexed h
  have hshare : ∀ i ∈ result.removedIndexMacs ++ result.addedMacs.map (·.indexMac),
      lookShare P look i = Keyed.valueAt (share P) (s.mutationMacs name) i := by
    intro i hi
    obtain ⟨hlength, hmem⟩ := hindices i hi
    rw [lookShare, hlook i hlength hmem, Keyed.valueAt]
  have hremovedShare : result.removedIndexMacs.map (lookShare P look)
      = result.removedIndexMacs.map (Keyed.valueAt (share P) (s.mutationMacs name)) :=
    List.map_congr_left fun i hi => hshare i (List.mem_append_left _ hi)
  have haddedShare : (result.addedMacs.map fun mac =>
        if mac.indexMac ∈ result.removedIndexMacs then 0 else lookShare P look mac.indexMac)
      = (result.addedMacs.map fun mac => (mac.indexMac, mac.valueMac)).map fun row =>
        if row.1 ∈ result.removedIndexMacs then 0
        else Keyed.valueAt (share P) (s.mutationMacs name) row.1 := by
    rw [List.map_map]
    refine List.map_congr_left fun mac hmac => ?_
    rw [hshare mac.indexMac (List.mem_append_right _ (List.mem_map_of_mem hmac))]
    rfl
  have hvalues : (result.addedMacs.map fun mac => share P mac.valueMac)
      = (result.addedMacs.map fun mac => (mac.indexMac, mac.valueMac)).map fun row =>
        share P row.2 := by
    rw [List.map_map]
    rfl
  have hkeys : (result.addedMacs.map fun mac => (mac.indexMac, mac.valueMac)).map Prod.fst
      = result.addedMacs.map (·.indexMac) := by
    rw [List.map_map]
    rfl
  rw [Collections.Agrees, Collections.held_congr (Collections.versions_commitPatch ..),
    Collections.held_setVersion, hash_settle, hlanes, hs, haddedShare, Collections.commitPatch,
    Collections.mutationMacs_putMutationMacs_self,
    Collections.mutationMacs_deleteMutationMacs_self, Collections.mutationMacs_setVersion,
    Keyed.total_putAll_deleteAll _ hremoved (hkeys ▸ hadded)]
  congr!

end Writers

/-! ## Runs -/

/-- A collection is as it was. -/
def Collections.SameAt (s₀ : Collections) (name : String) (s : Collections) : Prop :=
  s.held name = s₀.held name ∧ s.mutationMacs name = s₀.mutationMacs name

section SameAt

variable {s₀ s s' : Collections} {name other : String} {state : HashState}

theorem Collections.SameAt.step (h : s₀.SameAt other s) (hheld : s'.held other = s.held other)
    (hmacs : s'.mutationMacs other = s.mutationMacs other) : s₀.SameAt other s' :=
  ⟨hheld.trans h.1, hmacs.trans h.2⟩

theorem Collections.held_of_ne (h : other ≠ name)
    (hversions : s'.versions = (s.setVersion name state).versions) :
    s'.held other = s.held other := by
  rw [held_congr hversions, held_setVersion_eq, Function.update_of_ne h]

/-- A run of `process_patch_list` leaves the other collections alone, whatever
fails. -/
theorem sameAt_syncInvariant (env : Env) (pl : PatchList) (validateMacs : Bool)
    (s₀ : Collections) (h : other ≠ pl.name.asStr) :
    SyncInvariant env pl validateMacs (fun _ s _ => s₀.SameAt other s)
      fun _ s _ => s₀.SameAt other s where
  stop _ hs := hs
  snapshot hs _ _ :=
    hs.step (Collections.held_of_ne h rfl) (mutationMacs_rebuild_of_ne _ _ _ _ h)
  snapshotFails _ hs _ hfailed := by
    cases hfailed with
    | refused => exact hs
    | interrupted s' _ _ _ hversions hothers =>
      exact hs.step (congrFun (Collections.held_congr hversions) other) (hothers other h)
  clear hs _ := hs.step rfl (Collections.mutationMacs_clearMutationMacs_of_ne _ _ _ h)
  patch _ hs _ :=
    hs.step (Collections.held_of_ne h rfl)
      (Collections.mutationMacs_commitPatch_of_ne _ _ _ _ _ _ h)
  patchFails _ hs hfailed := by
    cases hfailed with
    | refused => exact hs
    | interrupted => exact hs
    | torn _ s' _ _ _ hversions hothers =>
      exact hs.step (Collections.held_of_ne h hversions) (hothers other h)
  finish _ hs := hs.step (Collections.held_of_ne h rfl) rfl

end SameAt

theorem agrees_syncInvariant {env : Env} (hwrites : env.WritesSucceed) {pl : PatchList}
    (hindexed : ∀ patch ∈ pl.patches, patch.Indexed) :
    SyncInvariant env pl true
      (fun c s _ => s.held pl.name.asStr = c.state ∧ s.Agrees env.primitives pl.name.asStr)
      fun _ s _ => s.Agrees env.primitives pl.name.asStr where
  stop _ h := h.2
  snapshot _ _ hresult := ⟨by simp, agrees_rebuild hresult⟩
  snapshotFails _ h _ hfailed := by
    cases hfailed with
    | refused => exact h.2
    | interrupted _ _ _ hfault =>
      obtain ⟨call, hcall, hfault⟩ := hfault
      simp [hwrites call hfault] at hcall
  clear {c s _} h hunsynced := by
    refine ⟨h.1, ?_⟩
    have hempty : c.state.hash = emptyHash := by
      simp only [HashState.isUnsynced, Bool.and_eq_true, decide_eq_true_eq] at hunsynced
      exact hunsynced.2
    rw [Collections.Agrees, Collections.held_congr (Collections.versions_clearMutationMacs ..),
      h.1, hempty, laneOf_emptyHash, Collections.mutationMacs_clearMutationMacs_self,
      Keyed.total_empty]
  patch {_ patch c s _ _} hpatch h hresult := by
    rw [← h.1] at hresult
    refine ⟨Collections.held_setVersion _ _ _, agrees_commitPatch h.2 (hindexed patch hpatch)
      (fun i hlength hmem => ?_) hresult⟩
    exact prevValueMac_eq_lookup s _ hlength hmem
  patchFails _ h hfailed := by
    cases hfailed with
    | refused => exact h.2
    | interrupted => exact h.2
    | torn _ _ _ _ hfault =>
      rcases hfault with hfault | hfault
      · cases hwrites _ hfault
      · cases hwrites _ hfault
  finish {c s _} bootstrapped h := by
    refine ⟨by simp, ?_⟩
    have hagrees := h.2
    rw [Collections.Agrees, h.1] at hagrees
    rw [Collections.Agrees, Collections.held_setVersion]
    exact hagrees

theorem agrees_processPatchList {env : Env} (hwrites : env.WritesSucceed) {name : String}
    {pl : PatchList} (hindexed : ∀ patch ∈ pl.patches, patch.Indexed) {w : World}
    (h : w.store.collections.Agrees env.primitives name) :
    ((Call.processPatchList pl true).run env w).store.collections.Agrees env.primitives name := by
  by_cases hname : name = pl.name.asStr
  · subst hname
    exact (agrees_syncInvariant hwrites hindexed).exec (fun _ _ _ h => h.2) ⟨rfl, h⟩
  · have hsame := (sameAt_syncInvariant env pl true w.store.collections hname).exec
      (fun _ _ _ h => h) ⟨rfl, rfl⟩
    rw [Collections.Agrees, hsame.1, hsame.2]
    exact h

/-- From an empty collection, after any sequence of validated patch lists in
which every mutation carries an index, the hash is the sum of what the rows of
the MAC store expand to.  Reads may fail, so that a run may end after any
patch. -/
theorem hash_agrees_with_mac_store (env : Env) (hwrites : env.WritesSucceed) (name : String)
    (lists : List PatchList) (hindexed : ∀ pl ∈ lists, ∀ patch ∈ pl.patches, patch.Indexed)
    (w : World) (hunsynced : (w.store.collections.held name).isUnsynced = true)
    (hempty : w.store.collections.mutationMacs name = ∅) :
    laneOf ((runCalls env (lists.map (.processPatchList · true)) w).store.collections.held name).hash
      = ((runCalls env (lists.map (.processPatchList · true)) w).store.collections.mutationMacs
          name).total (share env.primitives) := by
  have hstart : w.store.collections.Agrees env.primitives name := by
    simp only [HashState.isUnsynced, Bool.and_eq_true, decide_eq_true_eq] at hunsynced
    rw [Collections.Agrees, hunsynced.2, laneOf_emptyHash, hempty, Keyed.total_empty]
  clear hunsynced hempty
  induction lists generalizing w with
  | nil => exact hstart
  | cons pl lists ih =>
    obtain ⟨hpl, hlists⟩ := List.forall_mem_cons.mp hindexed
    exact ih hlists _ (agrees_processPatchList hwrites hpl hstart)

/-- A first patch puts one row, and the hash is its share. -/
theorem hash_agrees_after_firstPatch :
    let s := (runCalls reliableEnv ([firstPatchList .set].map (.processPatchList · true))
      emptyWorld).store.collections
    (s.mutationMacs "regular").entries.length = 1
      ∧ laneOf (s.held "regular").hash
        = (s.mutationMacs "regular").total (share samplePrimitives) :=
  ⟨by decide +kernel, hash_agrees_with_mac_store reliableEnv (fun _ ⟨_, h⟩ => (h rfl).elim)
    "regular" [firstPatchList .set] (by unfold SyncdPatch.Indexed; decide +kernel) emptyWorld
    (by decide) rfl⟩

/-! ## Other collections -/

/-- The collection that a call is about. -/
def Call.collection : Call → String
  | .processPatchList pl _ => pl.name.asStr
  | .applySnapshotRecovery _ expectedCollection _ => expectedCollection

theorem sameAt_call (env : Env) (w : World) {name : String} {call : Call}
    (h : name ≠ call.collection) :
    w.store.collections.SameAt name (call.run env w).store.collections := by
  cases call with
  | processPatchList pl validateMacs =>
    exact (sameAt_syncInvariant env pl validateMacs _ h).exec (fun _ _ _ hs => hs) ⟨rfl, rfl⟩
  | applySnapshotRecovery recovery expectedCollection stillCurrent =>
    refine Runs.exec (P := fun s _ => w.store.collections.SameAt name s)
      (runs_applySnapshotRecovery (fun _ => ⟨rfl, rfl⟩) (fun _ _ _ _ => ?_) fun _ s' hs hothers => ?_)
    · exact ⟨Collections.held_of_ne h rfl, mutationMacs_rebuild_of_ne _ _ _ _ h⟩
    · exact ⟨congrFun (Collections.held_congr hs) name, hothers name h⟩

/-- Whatever the calls carry and whichever backend calls fail, the state and the rows of a
collection that none of them is about stay as they are. -/
theorem calls_keep_other_collections (env : Env) (calls : List Call) (w : World) {name : String}
    (h : ∀ call ∈ calls, name ≠ call.collection) :
    (runCalls env calls w).store.collections.held name = w.store.collections.held name
      ∧ (runCalls env calls w).store.collections.mutationMacs name
        = w.store.collections.mutationMacs name := by
  induction calls generalizing w with
  | nil => exact ⟨rfl, rfl⟩
  | cons call calls ih =>
    obtain ⟨hcall, hcalls⟩ := List.forall_mem_cons.mp h
    have hsame := sameAt_call env w hcall
    obtain ⟨hheld, hmacs⟩ := ih (call.run env w) hcalls
    exact ⟨hheld.trans hsame.1, hmacs.trans hsame.2⟩

/-- A first patch of one collection, and another one. -/
theorem calls_keep_critical_block :
    let s := (runCalls reliableEnv [.processPatchList (firstPatchList .set) true]
      emptyWorld).store.collections
    (s.held "regular").version = 1 ∧ (s.held "critical_block").version = 0 := by
  refine ⟨by decide +kernel, ?_⟩
  rw [(calls_keep_other_collections reliableEnv _ emptyWorld (by decide)).1]
  rfl

end WaCore.AppState
