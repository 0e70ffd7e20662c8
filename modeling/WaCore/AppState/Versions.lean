import WaCore.AppState.SyncRuns

/-!
# Versions never go back

Four writers set the version of a collection: a snapshot, a patch over nothing,
a patch over a baseline and a recovery.  `Event.Advances` is what each write
owes.  `History` ties the log to the store: each write in it replaced the state
that was persisted right then.  Both hold for every sequence of calls, whatever
is sent and whichever backend calls fail.
-/

namespace WaCore.AppState

/-- The log leads from the persisted states before it to those after it. -/
inductive History : (String → HashState) → List Event → (String → HashState) → Prop where
  | nil (held : String → HashState) : History held [] held
  | decoded {before after : String → HashState} {log : List Event} (h : History before log after)
      (collection : String) (base version : UInt64) (mutations : List Mutation) :
      History before (log ++ [.decoded collection base version mutations]) after
  | wrote {before after : String → HashState} {log : List Event} (h : History before log after)
      (collection : String) (state : HashState) (byPatch : Bool) :
      History before (log ++ [.wrote collection (after collection) state byPatch])
        (Function.update after collection state)

/-- A write does not lower the version.  A patch over a baseline raises it by
one, unless it is the last one there is. -/
def Event.Advances : Event → Prop
  | .decoded .. => True
  | .wrote _ held state byPatch =>
    held.version ≤ state.version
      ∧ (byPatch = true → held.isUnsynced = false → held.version.toNat + 1 < 2 ^ 64 →
          state.version.toNat = held.version.toNat + 1)

theorem History.trans {a b c : String → HashState} {l l' : List Event} (h : History a l b)
    (h' : History b l' c) : History a (l ++ l') c := by
  induction h' with
  | nil => simpa using h
  | decoded _ name base version mutations ih =>
    rw [← List.append_assoc]
    exact ih.decoded name base version mutations
  | wrote _ name state byPatch ih =>
    rw [← List.append_assoc]
    exact ih.wrote name state byPatch

theorem History.version_le {before after : String → HashState} {l : List Event}
    (h : History before l after) (hadvances : ∀ event ∈ l, event.Advances) (name : String) :
    (before name).version ≤ (after name).version := by
  induction h with
  | nil => exact UInt64.le_refl _
  | decoded _ _ _ _ _ ih => exact ih fun event hevent => hadvances event (by simp [hevent])
  | @wrote after log _ collection state byPatch ih =>
    have hle := ih fun event hevent => hadvances event (by simp [hevent])
    by_cases hname : name = collection
    · subst hname
      have hwrite : Event.Advances (.wrote name (after name) state byPatch) :=
        hadvances _ (by simp)
      rw [Function.update_self]
      exact UInt64.le_trans hle hwrite.1
    · rwa [Function.update_of_ne hname]

/-- What is new since `s₀` and `l₀` is a history of writes that advance. -/
def Progress (s₀ : Collections) (l₀ : List Event) (s : Collections) (l : List Event) : Prop :=
  ∃ new, l = l₀ ++ new ∧ History s₀.held new s.held ∧ ∀ event ∈ new, event.Advances

variable {name : String} {state : HashState}

namespace Progress

variable {s₀ s s' : Collections} {l₀ l l' : List Event}

theorem refl (s : Collections) (l : List Event) : Progress s l s l :=
  ⟨[], by simp, .nil _, by simp⟩

theorem trans (h : Progress s₀ l₀ s l) (h' : Progress s l s' l') : Progress s₀ l₀ s' l' := by
  obtain ⟨new, rfl, hhistory, hadvances⟩ := h
  obtain ⟨new', rfl, hhistory', hadvances'⟩ := h'
  exact ⟨new ++ new', List.append_assoc .., hhistory.trans hhistory',
    List.forall_mem_append.mpr ⟨hadvances, hadvances'⟩⟩

theorem keep (h : Progress s₀ l₀ s l) (hversions : s'.versions = s.versions) :
    Progress s₀ l₀ s' l := by
  rw [Progress, Collections.held_congr hversions]
  exact h

theorem decoded (h : Progress s₀ l₀ s l) (name : String) (base version : UInt64)
    (mutations : List Mutation) :
    Progress s₀ l₀ s (l ++ [.decoded name base version mutations]) :=
  h.trans ⟨_, rfl, (History.nil _).decoded name base version mutations, by simp [Event.Advances]⟩

theorem wrote (h : Progress s₀ l₀ s l) {byPatch : Bool}
    (hversions : s'.versions = (s.setVersion name state).versions)
    (hadvances : (Event.wrote name (s.held name) state byPatch).Advances) :
    Progress s₀ l₀ s' (l ++ [.wrote name (s.held name) state byPatch]) := by
  refine h.trans ⟨_, rfl, ?_, by simpa using hadvances⟩
  rw [Collections.held_congr hversions, Collections.held_setVersion_eq]
  exact (History.nil _).wrote name state byPatch

/-- What was decoded, and then written. -/
theorem applied (h : Progress s₀ l₀ s l) {base version : UInt64} {mutations : List Mutation}
    {byPatch : Bool} (hversions : s'.versions = (s.setVersion name state).versions)
    (hadvances : (Event.wrote name (s.held name) state byPatch).Advances) :
    Progress s₀ l₀ s' (l ++ [.decoded name base version mutations,
      .wrote name (s.held name) state byPatch]) := by
  rw [List.append_cons]
  exact (h.decoded name base version mutations).wrote hversions hadvances

end Progress

/-! ## The writers -/

/-- What is not stale is not older. -/
theorem le_of_snapshotIsStale_eq_false {held offered : UInt64}
    (h : snapshotIsStale held offered = false) : held ≤ offered := by
  simp only [snapshotIsStale, Bool.and_eq_false_iff, decide_eq_false_iff_not] at h
  rw [UInt64.le_iff_toNat_le]
  rcases h with h | h
  · have : held.toNat = 0 := by
      have := mt UInt64.lt_iff_toNat_lt.mpr h
      simpa using this
    omega
  · have := mt UInt64.le_iff_toNat_le.mpr h
    omega

theorem advances_of_processPatch {P : Primitives} {patch : SyncdPatch} {getKeys : KeyLookup}
    {getPrev : Bytes → Except AppStateError (Option Bytes)} {validateMacs : Bool}
    {result : PatchProcessingResult} (pl : PatchList)
    (h : processPatch P patch state getKeys getPrev validateMacs name = .ok result) :
    (Event.wrote name state (pl.settle result.state) true).Advances := by
  obtain ⟨-, hunsynced | hnext⟩ := version_processPatch P h
  · have hzero : state.version = 0 := by
      simp only [HashState.isUnsynced, Bool.and_eq_true, decide_eq_true_eq] at hunsynced
      exact hunsynced.1
    refine ⟨?_, by simp [hunsynced]⟩
    rw [hzero]
    exact Nat.zero_le _
  · refine ⟨?_, fun _ _ hmax => ?_⟩
    · rw [version_settle, hnext]
      exact le_saturatingSucc _
    · rw [version_settle, hnext]
      exact toNat_saturatingSucc hmax

theorem progress_syncInvariant (env : Env) (pl : PatchList) (validateMacs : Bool)
    (s₀ : Collections) (l₀ : List Event) :
    SyncInvariant env pl validateMacs
      (fun c s l => s.held pl.name.asStr = c.state ∧ Progress s₀ l₀ s l)
      fun _ => Progress s₀ l₀ where
  stop _ h := h.2
  snapshot {_ _ _ _ _ result} h hfresh hresult := by
    refine ⟨by simp, h.2.applied rfl ⟨?_, nofun⟩⟩
    rw [h.1, version_settle, (laneOf_processSnapshot env.primitives hresult).2.2]
    exact le_of_snapshotIsStale_eq_false hfresh
  snapshotFails _ h _ hfailed := by
    cases hfailed with
    | refused => exact h.2
    | interrupted s' version mutations _ hversions _ => exact (h.2.decoded _ _ _ _).keep hversions
  clear h _ := ⟨h.1, h.2.keep rfl⟩
  patch _ h hresult := by
    refine ⟨Collections.held_setVersion _ _ _, h.2.applied rfl ?_⟩
    rw [h.1]
    exact advances_of_processPatch pl hresult
  patchFails _ h hfailed := by
    cases hfailed with
    | refused => exact h.2
    | interrupted version mutations => exact h.2.decoded _ _ _ _
    | torn result s' hresult _ _ hversions _ =>
      refine h.2.applied hversions ?_
      rw [h.1]
      exact advances_of_processPatch pl hresult
  finish bootstrapped h := by
    refine ⟨by simp, h.2.wrote rfl ⟨?_, nofun⟩⟩
    rw [h.1]
    exact UInt64.le_refl _

theorem progress_call (env : Env) (call : Call) (w : World) :
    Progress w.store.collections w.log (call.run env w).store.collections (call.run env w).log := by
  cases call with
  | processPatchList pl validateMacs =>
    exact (progress_syncInvariant env pl validateMacs w.store.collections w.log).exec
      (fun _ _ _ h => h.2) ⟨rfl, .refl _ _⟩
  | applySnapshotRecovery recovery expectedCollection stillCurrent =>
    refine Runs.exec (runs_applySnapshotRecovery
      (fun _ => .refl _ _) (fun state macs mutations hfresh => ?_) fun e s' h _ => ?_)
    · exact (Progress.refl _ _).wrote rfl ⟨le_of_snapshotIsStale_eq_false hfresh, nofun⟩
    · exact (Progress.refl _ _).keep h

theorem progress_runCalls (env : Env) (calls : List Call) (w : World) :
    Progress w.store.collections w.log (runCalls env calls w).store.collections
      (runCalls env calls w).log := by
  induction calls generalizing w with
  | nil => exact .refl _ _
  | cons call calls ih => exact (progress_call env call w).trans (ih (call.run env w))

/-- For every sequence of calls the log is a history of the persisted states in
which no write lowers a version and every patch over a baseline raises it by
one. -/
theorem versions_never_go_back (env : Env) (calls : List Call) (w : World) :
    (∀ name, (w.store.collections.held name).version
        ≤ ((runCalls env calls w).store.collections.held name).version)
      ∧ ∃ new, (runCalls env calls w).log = w.log ++ new
        ∧ History w.store.collections.held new (runCalls env calls w).store.collections.held
        ∧ ∀ event ∈ new, event.Advances := by
  obtain ⟨new, hlog, hhistory, hadvances⟩ := progress_runCalls env calls w
  exact ⟨hhistory.version_le hadvances, new, hlog, hhistory, hadvances⟩

end WaCore.AppState
