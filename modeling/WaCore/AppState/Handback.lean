import WaCore.AppState.Genesis
import WaCore.AppState.SyncRuns

/-!
# Nothing is lost behind the cursor

Once the persisted version of a collection covers a snapshot or a patch, the
server does not send it again.  Its mutations must then have reached the
caller, in the result of `process_patch_list` or in the error that carries what
was committed.

That holds for every failure of the backend as long as the commit of a patch is
atomic.  The default `commit_patch` is not: it writes the version first, so a
later write that fails leaves a version whose mutations nobody has seen.
-/

namespace WaCore.AppState

/-- The mutations that a call hands back to its caller. -/
def handedBack : Except SyncError (List Mutation × HashState × PatchList) → List Mutation
  | .ok result => result.1
  | .error (.committed mutations _ _ _) => mutations
  | .error _ => []

/-- The persisted version is past the one that something was decoded over, and
reaches its version. -/
def Covers (persisted base version : UInt64) : Prop := base < persisted ∧ version ≤ persisted

instance (persisted base version : UInt64) : Decidable (Covers persisted base version) :=
  inferInstanceAs (Decidable (_ ∧ _))

/-- Everything of a collection that was decoded since `l₀` is as `P` says. -/
def NewDecodes (name : String) (l₀ l : List Event) (P : UInt64 → UInt64 → List Mutation → Prop) :
    Prop :=
  ∃ new, l = l₀ ++ new ∧
    ∀ base version mutations, .decoded name base version mutations ∈ new →
      P base version mutations

/-- Whatever a run of `process_patch_list` decoded and the version it leaves
covers was handed back. -/
def NothingLost (env : Env) (pl : PatchList) (validateMacs : Bool) (w : World) : Prop :=
  let run := Eff.exec (processPatchList env pl validateMacs) w
  NewDecodes pl.name.asStr w.log run.2.log fun base version mutations =>
    Covers (run.2.store.collections.held pl.name.asStr).version base version →
      mutations <:+: handedBack run.1

/-! ## What is new in the log -/

namespace NewDecodes

variable {name : String} {l₀ l : List Event} {P P' : UInt64 → UInt64 → List Mutation → Prop}

theorem refl (name : String) (l : List Event) (P : UInt64 → UInt64 → List Mutation → Prop) :
    NewDecodes name l l P := ⟨[], by simp, by simp⟩

theorem mono (h : NewDecodes name l₀ l P)
    (himp : ∀ base version mutations, P base version mutations → P' base version mutations) :
    NewDecodes name l₀ l P' := by
  obtain ⟨new, hlog, hnew⟩ := h
  exact ⟨new, hlog, fun base version mutations hmem =>
    himp base version mutations (hnew base version mutations hmem)⟩

theorem decoded (h : NewDecodes name l₀ l P) {base version : UInt64} {mutations : List Mutation}
    (hP : P base version mutations) :
    NewDecodes name l₀ (l ++ [.decoded name base version mutations]) P := by
  obtain ⟨new, rfl, hnew⟩ := h
  refine ⟨new ++ [.decoded name base version mutations], by simp, fun b v m hmem => ?_⟩
  rcases List.mem_append.mp hmem with hmem | hmem
  · exact hnew b v m hmem
  · cases List.mem_singleton.mp hmem
    exact hP

theorem wrote (h : NewDecodes name l₀ l P) (collection : String) (held state : HashState)
    (byPatch : Bool) : NewDecodes name l₀ (l ++ [.wrote collection held state byPatch]) P := by
  obtain ⟨new, rfl, hnew⟩ := h
  refine ⟨new ++ [.wrote collection held state byPatch], by simp, fun b v m hmem => ?_⟩
  exact hnew b v m (by simpa using hmem)

/-- What was decoded is handed back, and so is what came before it. -/
theorem applied {handed mutations : List Mutation}
    (h : NewDecodes name l₀ l fun _ _ m => m <:+: handed) (base version : UInt64)
    (collection : String) (held state : HashState) (byPatch : Bool) :
    NewDecodes name l₀
      (l ++ [.decoded name base version mutations, .wrote collection held state byPatch])
      fun _ _ m => m <:+: handed ++ mutations := by
  rw [List.append_cons]
  have hbefore : NewDecodes name l₀ l fun _ _ m => m <:+: handed ++ mutations :=
    h.mono fun _ _ _ hm => hm.trans (List.infix_append' [] handed mutations)
  exact (hbefore.decoded (List.suffix_append handed mutations).isInfix).wrote _ _ _ _

end NewDecodes

/-! ## The invariant -/

/-- An error carries what was committed before it. -/
theorem infix_handedBack_committedMutationsError {m mutations : List Mutation}
    (h : m <:+: mutations) (e : SyncError) (state : HashState) (collection : WAPatchName) :
    m <:+: handedBack (.error (committedMutationsError e mutations state collection)) := by
  rw [committedMutationsError]
  split
  · rename_i hempty
    rw [List.isEmpty_iff.mp hempty, List.infix_nil] at h
    exact h ▸ List.nil_infix
  · exact h

/-- The cursor stands at the persisted version, and holds everything that was
decoded on the way there. -/
def AtCursor (name : String) (l₀ : List Event) (c : Cursor) (s : Collections) (l : List Event) :
    Prop :=
  s.held name = c.state ∧ NewDecodes name l₀ l fun _ _ mutations => mutations <:+: c.mutations

/-- The error hands back everything that the persisted version covers. -/
def ErrorHandsBack (name : String) (l₀ : List Event) (e : SyncError) (s : Collections)
    (l : List Event) : Prop :=
  NewDecodes name l₀ l fun base version mutations =>
    Covers (s.held name).version base version → mutations <:+: handedBack (.error e)

section Invariant

variable {env : Env} {pl : PatchList} {name : String} {l₀ l : List Event} {c : Cursor}
  {s s' : Collections}

theorem AtCursor.stop (h : AtCursor name l₀ c s l) (e : SyncError) (collection : WAPatchName) :
    ErrorHandsBack name l₀ (committedMutationsError e c.mutations c.committed collection) s l :=
  h.2.mono fun _ _ _ hm _ => infix_handedBack_committedMutationsError hm e _ _

/-- What was decoded and not written is not covered by the version. -/
theorem ErrorHandsBack.interrupted {e : SyncError} (h : ErrorHandsBack name l₀ e s l)
    (hversions : s'.versions = s.versions) (version : UInt64) (mutations : List Mutation) :
    ErrorHandsBack name l₀ e s'
      (l ++ [.decoded name (s.held name).version version mutations]) := by
  rw [ErrorHandsBack, Collections.held_congr hversions]
  exact h.decoded fun hcovers => absurd hcovers.1 (UInt64.lt_irrefl _)

theorem atCursor_syncInvariant (pl : PatchList) (validateMacs : Bool) (l₀ : List Event)
    (hcommit : env.transactional = true
      ∨ ¬ env.Faulty .commitDeleteMutationMacs ∧ ¬ env.Faulty .commitPutMutationMacs) :
    SyncInvariant env pl validateMacs (AtCursor pl.name.asStr l₀)
      (ErrorHandsBack pl.name.asStr l₀) where
  stop e h := h.stop e pl.name
  snapshot h _ _ := ⟨by simp, h.2.applied _ _ _ _ _ _⟩
  snapshotFails {c _ _ _ _} e h hfirst hfailed := by
    have hstop := h.stop e pl.name
    rw [hfirst] at hstop
    cases hfailed with
    | refused => exact hstop
    | interrupted s' version mutations _ hversions _ =>
      rw [← h.1]
      exact hstop.interrupted hversions version mutations
  clear h _ := h
  patch _ h _ := ⟨Collections.held_setVersion _ _ _, h.2.applied _ _ _ _ _ _⟩
  patchFails e h hfailed := by
    cases hfailed with
    | refused => exact h.stop e pl.name
    | interrupted version mutations =>
      rw [← h.1]
      exact (h.stop e pl.name).interrupted rfl version mutations
    | torn result s' _ hdefault hfault _ _ =>
      -- the version is written and the rows are not
      rcases hcommit with htx | ⟨hdelete, hput⟩
      · simp [htx] at hdefault
      · exact (hfault.elim hdelete hput).elim
  finish _ h := ⟨by simp, h.2.wrote _ _ _ _⟩

end Invariant

/-- With an atomic commit of patches nothing is lost, wherever else the backend
fails. -/
theorem nothingLost_of_commit (pl : PatchList) (validateMacs : Bool) (w : World) {env : Env}
    (hcommit : env.transactional = true
      ∨ ¬ env.Faulty .commitDeleteMutationMacs ∧ ¬ env.Faulty .commitPutMutationMacs) :
    NothingLost env pl validateMacs w := by
  have hruns := (atCursor_syncInvariant pl validateMacs w.log hcommit).runs_processPatchList
    ⟨rfl, .refl _ _ _⟩ w ⟨rfl, rfl⟩
  rw [NothingLost]
  match hexec : Eff.exec (processPatchList env pl validateMacs) w with
  | (.ok result, w') =>
    rw [hexec] at hruns
    obtain ⟨c, hmutations, -, -, hnew⟩ := hruns
    exact hnew.mono fun _ _ _ h _ => by rwa [hmutations] at h
  | (.error e, w') =>
    rw [hexec] at hruns
    exact hruns

/-! ## A torn commit -/

/-- The default commit, and a backend that fails at one kind of call. -/
def failingAt (call : BackendCall) : Env :=
  { primitives := samplePrimitives, transactional := false, mutationPersistence := false,
    faults := fun _ other => if other = call then some ⟨"disk full"⟩ else none }

/-- A SET whose row cannot be put, or a REMOVE whose row cannot be deleted: the
version is written, and the mutation is not handed back. -/
theorem firstPatch_stranded : ∀ torn ∈ [(SyncdOperation.set, BackendCall.commitPutMutationMacs),
      (SyncdOperation.remove, BackendCall.commitDeleteMutationMacs)],
    let run := Eff.exec (processPatchList (failingAt torn.2) (firstPatchList torn.1) true) emptyWorld
    run.2.log.head? = some (.decoded "regular" 0 1
        [{ sampleEntry with operation := torn.1 }.mutation samplePrimitives])
      ∧ (run.2.store.collections.held "regular").version = 1 ∧ handedBack run.1 = [] := by
  decide +kernel

theorem faulty_failingAt {call other : BackendCall} {n : Nat}
    (h : (failingAt call).faults n other ≠ none) : other = call := by
  by_contra hne
  exact h (if_neg hne)

theorem not_nothingLost_of_stranded {operation : SyncdOperation} {call : BackendCall}
    (h : (operation, call) ∈ [(SyncdOperation.set, BackendCall.commitPutMutationMacs),
      (SyncdOperation.remove, BackendCall.commitDeleteMutationMacs)]) :
    ¬ NothingLost (failingAt call) (firstPatchList operation) true emptyWorld := by
  intro hnothing
  obtain ⟨new, hlog, hnew⟩ : NewDecodes _ _ _ _ := hnothing
  obtain ⟨hdecoded, hversion, hhanded⟩ := firstPatch_stranded _ h
  rw [hlog] at hdecoded
  have hmem := List.mem_of_mem_head? hdecoded
  have hcovers : Covers 1 0 1 := by decide
  have hinfix := hnew _ _ _ hmem (hversion ▸ hcovers)
  rw [hhanded] at hinfix
  exact List.cons_ne_nil _ _ (List.infix_nil.mp hinfix)

/-- Over all runs in which only the calls of `mayFail` fail, nothing is lost
exactly when the commit is a transaction or the writes after its first one do
not fail. -/
theorem nothingLost_iff (transactional : Bool) (mayFail : BackendCall → Prop) :
    (∀ (env : Env) (pl : PatchList) (validateMacs : Bool) (w : World),
        env.transactional = transactional → (∀ call, env.Faulty call → mayFail call) →
          NothingLost env pl validateMacs w)
      ↔ transactional = true
        ∨ ¬ mayFail .commitDeleteMutationMacs ∧ ¬ mayFail .commitPutMutationMacs := by
  constructor
  · intro h
    by_contra hcondition
    obtain ⟨hdefault, hfail⟩ := not_or.mp hcondition
    have hfalse : transactional = false := by simpa using hdefault
    have hrun : ∀ operation call, (operation, call) ∈
        [(SyncdOperation.set, BackendCall.commitPutMutationMacs),
          (SyncdOperation.remove, BackendCall.commitDeleteMutationMacs)] → ¬ mayFail call := by
      intro operation call htorn hmay
      refine not_nothingLost_of_stranded htorn (h _ _ _ _ hfalse.symm ?_)
      rintro other ⟨n, hn⟩
      exact faulty_failingAt hn ▸ hmay
    exact hfail ⟨hrun .remove _ (by decide), hrun .set _ (by decide)⟩
  · rintro hcondition env pl validateMacs w rfl hfaults
    refine nothingLost_of_commit pl validateMacs w (hcondition.imp id fun ⟨hdelete, hput⟩ => ?_)
    exact ⟨mt (hfaults _) hdelete, mt (hfaults _) hput⟩

/-- The version of a signed first patch is persisted and its SET is not handed
back, when the write of its MAC row fails. -/
theorem failedPut_loses_set :
    ¬ NothingLost (failingAt .commitPutMutationMacs) (firstPatchList .set) true emptyWorld :=
  not_nothingLost_of_stranded (by decide)

end WaCore.AppState
