import WaCore.AppState.Processor

/-!
# The store behind app-state sync

`AppSyncStore` (`store/traits.rs`) keeps the sync keys, one `HashState` for a
collection and its mutation MACs.  The store of this model is the one of the
in-memory backend: maps, where the later write wins.

Any call of a backend may fail.  Which calls do is part of the environment:
`faults` is asked with the number of the call and its name.  A single-purpose
write is atomic, so a call that fails changes nothing.  `commit_patch` is
either one write (`transactional`) or, by default, three of them.

The world also has a log of what was decoded and what version was written.
Nothing reads it; the theorems are about it.

`Runs m s l Q E` is the pre- and postcondition of a program here: from the
collections `s` and the log `l` it ends in a value with `Q` or in an error with
`E`.
-/

namespace WaCore.AppState

/-! ## Stores -/

structure StoreError where
  text : String
  deriving DecidableEq, Repr

/-- The part of a store that holds the collections: a state and the mutation
MACs for each name. -/
structure Collections where
  versions : String → Option HashState
  mutationMacs : String → Keyed Bytes Bytes

structure Store where
  syncKeys : Keyed Bytes Bytes
  latestSyncKeyId : Option Bytes
  statusPrivacy : Option StatusPrivacyAction
  collections : Collections

namespace Collections

/-- The state of a collection, the default one if it never synced. -/
def held (s : Collections) (name : String) : HashState := (s.versions name).getD .default

def setVersion (name : String) (state : HashState) (s : Collections) : Collections :=
  { s with versions := Function.update s.versions name (some state) }

def putMutationMacs (name : String) (macs : List AppStateMutationMAC) (s : Collections) : Collections :=
  { s with
    mutationMacs := Function.update s.mutationMacs name
      ((s.mutationMacs name).putAll (macs.map fun mac => (mac.indexMac, mac.valueMac))) }

def deleteMutationMacs (name : String) (indexMacs : List Bytes) (s : Collections) : Collections :=
  { s with
    mutationMacs := Function.update s.mutationMacs name
      ((s.mutationMacs name).deleteAll indexMacs) }

def clearMutationMacs (name : String) (s : Collections) : Collections :=
  { s with mutationMacs := Function.update s.mutationMacs name ∅ }

/-- The rows of some indices. -/
def getMutationMacs (name : String) (indexMacs : List (FixedBytes 32)) (s : Collections) :
    Keyed Bytes Bytes := (s.mutationMacs name).restrict (indexMacs.map (·.val))

/-- What `commit_patch` writes in the end. -/
def commitPatch (name : String) (state : HashState) (removed : List Bytes)
    (added : List AppStateMutationMAC) (s : Collections) : Collections :=
  putMutationMacs name added (deleteMutationMacs name removed (setVersion name state s))

section

variable (s : Collections) (name other : String) (state : HashState) (macs : List AppStateMutationMAC)
  (removed : List Bytes)

@[simp] theorem versions_clearMutationMacs : (s.clearMutationMacs name).versions = s.versions := rfl

@[simp] theorem mutationMacs_setVersion :
    (s.setVersion name state).mutationMacs = s.mutationMacs := rfl

@[simp] theorem mutationMacs_putMutationMacs_self :
    (s.putMutationMacs name macs).mutationMacs name
      = (s.mutationMacs name).putAll (macs.map fun mac => (mac.indexMac, mac.valueMac)) :=
  Function.update_self ..

@[simp] theorem mutationMacs_deleteMutationMacs_self :
    (s.deleteMutationMacs name removed).mutationMacs name
      = (s.mutationMacs name).deleteAll removed :=
  Function.update_self ..

@[simp] theorem mutationMacs_clearMutationMacs_self :
    (s.clearMutationMacs name).mutationMacs name = ∅ :=
  Function.update_self ..

theorem mutationMacs_putMutationMacs_of_ne (h : other ≠ name) :
    (s.putMutationMacs name macs).mutationMacs other = s.mutationMacs other :=
  Function.update_of_ne h _ _

theorem mutationMacs_deleteMutationMacs_of_ne (h : other ≠ name) :
    (s.deleteMutationMacs name removed).mutationMacs other = s.mutationMacs other :=
  Function.update_of_ne h _ _

theorem mutationMacs_clearMutationMacs_of_ne (h : other ≠ name) :
    (s.clearMutationMacs name).mutationMacs other = s.mutationMacs other :=
  Function.update_of_ne h _ _

theorem mutationMacs_commitPatch_of_ne (h : other ≠ name) :
    (s.commitPatch name state removed macs).mutationMacs other = s.mutationMacs other := by
  rw [commitPatch, mutationMacs_putMutationMacs_of_ne _ _ _ _ h,
    mutationMacs_deleteMutationMacs_of_ne _ _ _ _ h, mutationMacs_setVersion]

@[simp] theorem held_setVersion : (s.setVersion name state).held name = state := by
  simp [held, setVersion]

theorem held_setVersion_eq :
    (s.setVersion name state).held = Function.update s.held name state := by
  funext other
  by_cases h : other = name
  · subst h
    simp
  · simp [held, setVersion, Function.update_of_ne h]

@[simp] theorem versions_commitPatch :
    (s.commitPatch name state removed macs).versions = (s.setVersion name state).versions := rfl

theorem held_congr {s s' : Collections} (h : s'.versions = s.versions) : s'.held = s.held := by
  funext name
  rw [held, held, h]

@[simp] theorem deleteMutationMacs_nil : s.deleteMutationMacs name [] = s := by
  simp [deleteMutationMacs]

@[simp] theorem putMutationMacs_nil : s.putMutationMacs name [] = s := by
  simp [putMutationMacs]

end

end Collections

/-! ## Backend calls -/

/-- The calls of a backend.  The three writes of the default `commit_patch` are
told apart from the same writes made on their own. -/
inductive BackendCall where
  | getSyncKey
  | getLatestSyncKeyId
  | getVersion
  | setVersion
  | putMutationMacs
  | getMutationMacs
  | clearMutationMacs
  | commitPatch
  | commitSetVersion
  | commitDeleteMutationMacs
  | commitPutMutationMacs
  | persistStatusPrivacy
  deriving DecidableEq, Repr

/-- What sync runs in: the primitives, whether `commit_patch` is one
transaction, whether a persistence hook is installed, and which calls fail. -/
structure Env where
  primitives : Primitives
  transactional : Bool
  mutationPersistence : Bool
  faults : Nat → BackendCall → Option StoreError

/-- Some call of this name fails. -/
def Env.Faulty (env : Env) (call : BackendCall) : Prop := ∃ n, env.faults n call ≠ none

/-- The calls that change the store. -/
def BackendCall.writes : BackendCall → Bool
  | .getSyncKey | .getLatestSyncKeyId | .getVersion | .getMutationMacs => false
  | _ => true

/-- Every write succeeds. -/
def Env.WritesSucceed (env : Env) : Prop := ∀ call, env.Faulty call → call.writes = false

/-- What a run did: it decoded a snapshot or a patch that it was about to apply
over the version `base`, or it wrote a collection's state over `held`. -/
inductive Event where
  | decoded (collection : String) (base version : UInt64) (mutations : List Mutation)
  | wrote (collection : String) (held state : HashState) (byPatch : Bool)
  deriving DecidableEq, Repr

/-- Expanded keys in memory, oldest first. -/
abbrev KeyCache := List (Bytes × ExpandedAppStateKeys)

structure World where
  store : Store
  keyCache : KeyCache
  calls : Nat
  log : List Event

/-- The errors of sync.  `committed` carries the mutations that were committed
before the error. -/
inductive SyncError where
  | store (error : StoreError)
  | keyNotFound (keyId : Bytes)
  | appState (error : AppStateError)
  | text (message : String)
  | committed (mutations : List Mutation) (state : HashState) (collection : WAPatchName)
      (source : SyncError)

abbrev SyncM := Eff World SyncError

/-- One call of the backend. -/
def backend (env : Env) {α : Type} (call : BackendCall) (f : Store → α × Store) : SyncM α :=
  ExceptT.mk fun w =>
    match env.faults w.calls call with
    | some e => (.error (.store e), { w with calls := w.calls + 1 })
    | none => (.ok (f w.store).1, { w with calls := w.calls + 1, store := (f w.store).2 })

theorem exec_backend (env : Env) {α : Type} (call : BackendCall) (f : Store → α × Store)
    (w : World) :
    Eff.exec (backend env call f) w = match env.faults w.calls call with
      | some e => (.error (.store e), { w with calls := w.calls + 1 })
      | none => (.ok (f w.store).1, { w with calls := w.calls + 1, store := (f w.store).2 }) := rfl

/-- A call that reads. -/
def readBackend (env : Env) {α : Type} (call : BackendCall) (f : Store → α) : SyncM α :=
  backend env call fun s => (f s, s)

/-- A call that writes to the collections. -/
def writeBackend (env : Env) (call : BackendCall) (f : Collections → Collections) : SyncM Unit :=
  backend env call fun s => ((), { s with collections := f s.collections })

/-- Log an event. -/
def record (event : Event) : SyncM Unit := modify fun w => { w with log := w.log ++ [event] }

/-- Write a collection's state, and log it. -/
def writeVersion (env : Env) (call : BackendCall) (byPatch : Bool) (name : String)
    (state : HashState) (f : Collections → Collections) : SyncM Unit := do
  let held ← (·.store.collections.held name) <$> get
  writeBackend env call f
  record (.wrote name held state byPatch)

def setVersion (env : Env) (name : String) (state : HashState) : SyncM Unit :=
  writeVersion env .setVersion false name state (Collections.setVersion name state)

/-- `AppSyncStore::commit_patch`: one transaction, or the three writes of the
default implementation, the version first. -/
def commitPatch (env : Env) (name : String) (state : HashState) (removedIndexMacs : List Bytes)
    (added : List AppStateMutationMAC) : SyncM Unit :=
  if env.transactional then
    writeVersion env .commitPatch true name state
      (Collections.commitPatch name state removedIndexMacs added)
  else do
    writeVersion env .commitSetVersion true name state (Collections.setVersion name state)
    (if removedIndexMacs.isEmpty then pure ()
      else writeBackend env .commitDeleteMutationMacs
        (Collections.deleteMutationMacs name removedIndexMacs))
    (if added.isEmpty then pure ()
      else writeBackend env .commitPutMutationMacs (Collections.putMutationMacs name added))

/-! ## Pre- and postconditions -/

/-- From the collections `s` and the log `l` the program ends in a value with `Q` or
in an error with `E`. -/
def Runs {α : Type} (m : SyncM α) (s : Collections) (l : List Event)
    (Q : α → Collections → List Event → Prop) (E : SyncError → Collections → List Event → Prop) : Prop :=
  Eff.Meets m (fun w => w.store.collections = s ∧ w.log = l)
    (fun a w => Q a w.store.collections w.log) (fun e w => E e w.store.collections w.log)

section Rules

variable {α β : Type} {m : SyncM α} {k : α → SyncM β} {s : Collections} {l : List Event}
  {Q Q' : α → Collections → List Event → Prop} {R : β → Collections → List Event → Prop}
  {E E' : SyncError → Collections → List Event → Prop} {env : Env} {call : BackendCall}

theorem runs_pure {a : α} (h : Q a s l) : Runs (pure a) s l Q E := by
  rintro w ⟨rfl, rfl⟩
  exact h

theorem runs_throw {e : SyncError} (h : E e s l) : Runs (throw e) s l Q E := by
  rintro w ⟨rfl, rfl⟩
  exact h

theorem Runs.bind (hm : Runs m s l Q E) (hk : ∀ a s' l', Q a s' l' → Runs (k a) s' l' R E) :
    Runs (m >>= k) s l R E :=
  Eff.Meets.bind hm fun a w hQ => hk a w.store.collections w.log hQ w ⟨rfl, rfl⟩

/-- The rest of a program runs from what its first part leaves. -/
theorem Runs.seq (hm : Runs m s l (fun a s' l' => Runs (k a) s' l' R E) E) : Runs (m >>= k) s l R E :=
  hm.bind fun _ _ _ h => h

theorem Runs.mono (hm : Runs m s l Q E) (hQ : ∀ a s' l', Q a s' l' → Q' a s' l')
    (hE : ∀ e s' l', E e s' l' → E' e s' l') : Runs m s l Q' E' :=
  Eff.Meets.mono hm (fun _ h => h) (fun a w h => hQ a w.store.collections w.log h)
    fun e w h => hE e w.store.collections w.log h

theorem Runs.ite {c : Bool} {m' : SyncM α} (ht : c = true → Runs m s l Q E)
    (hf : c = false → Runs m' s l Q E) : Runs (if c then m else m') s l Q E := by
  cases c with
  | true => exact ht rfl
  | false => exact hf rfl

theorem runs_attempt (h : Runs m s l Q E') :
    Runs (Eff.attempt m) s l
      (fun r s' l' => match r with | .ok a => Q a s' l' | .error e => E' e s' l') E :=
  Eff.Meets.mono (Eff.meets_attempt h fun e w => E e w.store.collections w.log) (fun _ h => h)
    (fun r _ h => by cases r <;> exact h) fun _ _ h => h

theorem runs_backend {f : Store → α × Store}
    (hok : ∀ store, store.collections = s → Q (f store).1 (f store).2.collections l)
    (herr : env.Faulty call → ∀ e, E (.store e) s l) : Runs (backend env call f) s l Q E := by
  rintro w ⟨rfl, rfl⟩
  rw [exec_backend]
  cases hfault : env.faults w.calls call with
  | none => exact hok w.store rfl
  | some e => exact herr ⟨w.calls, by simp [hfault]⟩ e

theorem runs_readBackend {f : Store → α}
    (hok : ∀ store, store.collections = s → Q (f store) s l)
    (herr : env.Faulty call → ∀ e, E (.store e) s l) : Runs (readBackend env call f) s l Q E :=
  runs_backend (by rintro store rfl; exact hok store rfl) herr

variable {Q : Unit → Collections → List Event → Prop}

theorem runs_writeBackend {f : Collections → Collections} (hok : Q () (f s) l)
    (herr : env.Faulty call → ∀ e, E (.store e) s l) :
    Runs (writeBackend env call f) s l Q E :=
  runs_backend (by rintro store rfl; exact hok) herr

theorem runs_record {event : Event} (h : Q () s (l ++ [event])) : Runs (record event) s l Q E := by
  rintro w ⟨rfl, rfl⟩
  exact h

theorem runs_writeVersion {byPatch : Bool} {name : String} {state : HashState}
    {f : Collections → Collections}
    (hok : Q () (f s) (l ++ [.wrote name (s.held name) state byPatch]))
    (herr : env.Faulty call → ∀ e, E (.store e) s l) :
    Runs (writeVersion env call byPatch name state f) s l Q E := by
  refine .seq ?_
  rintro w ⟨rfl, rfl⟩
  exact Runs.seq (runs_writeBackend (runs_record hok) herr)

/-- How a commit can leave the store and the log when it fails.  `torn` is what
the default implementation leaves when a write after the first one fails. -/
inductive CommitFailed (env : Env) (name : String) (state : HashState) (removed : List Bytes)
    (s : Collections) (l : List Event) : Collections → List Event → Prop where
  | untouched (h : ∃ call, env.Faulty call) : CommitFailed env name state removed s l s l
  | torn (s' : Collections) (hdefault : env.transactional = false)
      (hfault : env.Faulty .commitDeleteMutationMacs ∨ env.Faulty .commitPutMutationMacs)
      (hversions : s'.versions = (s.setVersion name state).versions)
      (hothers : ∀ other, other ≠ name → s'.mutationMacs other = s.mutationMacs other) :
      CommitFailed env name state removed s l s' (l ++ [.wrote name (s.held name) state true])

theorem runs_commitPatch {name : String} {state : HashState} {removed : List Bytes}
    {added : List AppStateMutationMAC} (hok : Q () (s.commitPatch name state removed added)
      (l ++ [.wrote name (s.held name) state true]))
    (herr : ∀ e s' l', CommitFailed env name state removed s l s' l' → E (.store e) s' l') :
    Runs (commitPatch env name state removed added) s l Q E := by
  refine Runs.ite (fun _ => ?_) (fun htx => ?_)
  · exact runs_writeVersion hok fun h e => herr e s l (.untouched ⟨_, h⟩)
  -- the default implementation: each later write may fail on top of the earlier ones
  have hput : Runs (if added.isEmpty then pure ()
      else writeBackend env .commitPutMutationMacs (Collections.putMutationMacs name added))
      ((s.setVersion name state).deleteMutationMacs name removed)
      (l ++ [.wrote name (s.held name) state true]) Q E := by
    refine Runs.ite (fun hempty => ?_) fun _ => ?_
    · rw [List.isEmpty_iff.mp hempty, Collections.commitPatch, Collections.putMutationMacs_nil] at hok
      exact runs_pure hok
    · refine runs_writeBackend hok fun h e =>
        herr e _ _ (.torn _ htx (.inr h) rfl fun other hother => ?_)
      rw [Collections.mutationMacs_deleteMutationMacs_of_ne _ _ _ _ hother,
        Collections.mutationMacs_setVersion]
  refine .seq (runs_writeVersion (.seq (Runs.ite (fun hempty => ?_) fun _ => ?_)) fun h e =>
    herr e s l (.untouched ⟨_, h⟩))
  · rw [List.isEmpty_iff.mp hempty] at hput
    exact runs_pure (by simpa using hput)
  · exact runs_writeBackend hput fun h e => herr e _ _ (.torn _ htx (.inl h) rfl (by simp))

/-- The program changes neither the collections nor the log. -/
def ReadsOnly (m : SyncM α) : Prop :=
  ∀ s l, Runs m s l (fun _ s' l' => s' = s ∧ l' = l) fun _ s' l' => s' = s ∧ l' = l

theorem readsOnly_pure (a : α) : ReadsOnly (pure a) := fun _ _ => runs_pure ⟨rfl, rfl⟩

theorem readsOnly_throw (e : SyncError) : ReadsOnly (throw e : SyncM α) :=
  fun _ _ => runs_throw ⟨rfl, rfl⟩

theorem readsOnly_readBackend (f : Store → α) : ReadsOnly (readBackend env call f) :=
  fun _ _ => runs_readBackend (fun _ _ => ⟨rfl, rfl⟩) fun _ _ => ⟨rfl, rfl⟩

theorem ReadsOnly.bind (hm : ReadsOnly m) (hk : ∀ a, ReadsOnly (k a)) : ReadsOnly (m >>= k) :=
  fun s l => (hm s l).bind (by rintro a _ _ ⟨rfl, rfl⟩; exact hk a _ _)

/-- A program that starts with one that only reads. -/
theorem ReadsOnly.runs_bind (hm : ReadsOnly m) (hstop : ∀ e, E e s l)
    (hk : ∀ a, Runs (k a) s l R E) : Runs (m >>= k) s l R E := by
  refine ((hm s l).mono (fun _ _ _ h => h) ?_).bind ?_
  · rintro e _ _ ⟨rfl, rfl⟩
    exact hstop e
  · rintro a _ _ ⟨rfl, rfl⟩
    exact hk a

theorem readsOnly_attempt (hm : ReadsOnly m) : ReadsOnly (Eff.attempt m) := fun s l =>
  (runs_attempt (hm s l)).mono (fun r _ _ h => by cases r <;> exact h) fun _ _ _ h => h

end Rules

end WaCore.AppState
