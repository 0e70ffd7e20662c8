import Mathlib.Data.List.Infix
import Mathlib.Logic.Relation

/-!
# The device row

`persistence_manager.rs` changes the device in memory and saves copies of it.  Three
things tell what is still to be saved: the dirty flag, the copy that readers get, and
the save that has been started, which stays with the manager when the call that drives
it is dropped.

A step is one access to a lock or to the flag, or one thing the backend does.  Any
number of calls of `modify_device` and `save_to_disk` run at once; a flush and a tick of
the background saver are calls of `save_to_disk`.
-/

namespace WaCore.Store.PersistenceManager

variable {D : Type} {loaded : D}

/-- A copy of the device, with the modifications that have led to it from the loaded
one, the latest first. -/
structure Snapshot (loaded : D) where
  device : D
  modifications : List (D → D)
  device_eq : device = modifications.foldr (fun f d => f d) loaded

namespace Snapshot

def load (loaded : D) : Snapshot loaded := ⟨loaded, [], rfl⟩

def modify (f : D → D) (s : Snapshot loaded) : Snapshot loaded :=
  ⟨f s.device, f :: s.modifications, congrArg f s.device_eq⟩

end Snapshot

/-- How far the holder of the device's write guard is. -/
inductive Writer where
  | modified
  | marked
  | published
  deriving DecidableEq, Repr

/-- How far the call of `save_to_disk` is that holds `pending_save`. -/
inductive Stage (loaded : D) where
  /-- It drives a save that was left behind. -/
  | finishing
  | checking
  /-- It waits for the device's read guard. -/
  | locking
  | reading
  | swapped
  | copied (snapshot : Snapshot loaded)
  /-- It drives the save it has started. -/
  | saving
  /-- A save has failed, and the flag is still to be set. -/
  | failed

/-- The stages that hold the device's read guard. -/
def Stage.reads : Stage loaded → Bool
  | .reading | .swapped | .copied _ => true
  | _ => false

/-- The stages in which the flag is clear although a save is owed. -/
def Stage.owes : Stage loaded → Bool
  | .swapped | .copied _ | .failed => true
  | _ => false

/-- A `DeviceSave` that was started. -/
structure Save (loaded : D) where
  snapshot : Snapshot loaded
  written : Bool

structure System (loaded : D) where
  device : Snapshot loaded
  writer : Option Writer
  deviceSnapshot : Snapshot loaded
  dirty : Bool
  pendingSave : Option (Save loaded)
  /-- What the backend has stored. -/
  row : Snapshot loaded
  /-- The modifications whose calls have given the guard back. -/
  returned : List (D → D)
  /-- The calls that wait for `pending_save`, each with what had returned when it began. -/
  waiting : List (List (D → D))
  holder : Option (Stage loaded × List (D → D))
  /-- The calls that returned `Ok`, each with the row at that time. -/
  flushed : List (List (D → D) × Snapshot loaded)

namespace System

/-- `PersistenceManager::new` on a backend with a row. -/
def new (loaded : D) : System loaded :=
  ⟨.load loaded, none, .load loaded, false, none, .load loaded, [], [], none, []⟩

variable (s : System loaded)

def reading : Bool := s.holder.any (·.1.reads)

/-- No call has cleared the flag without having started its save. -/
def settled : Bool := !s.holder.any (·.1.owes)

/-- The holder of `pending_save` returns `Ok`. -/
def returnOk (since : List (D → D)) : System loaded :=
  { s with holder := none, flushed := (since, s.row) :: s.flushed }

end System

inductive Step (s : System loaded) : System loaded → Prop where
  | modify (f : D → D) (hfree : s.writer = none) (hread : s.reading = false) :
    Step s { s with device := s.device.modify f, writer := some .modified }
  | mark (hwriter : s.writer = some .modified) :
    Step s { s with dirty := true, writer := some .marked }
  | publish (hwriter : s.writer = some .marked) :
    Step s { s with deviceSnapshot := s.device, writer := some .published }
  | release (hwriter : s.writer = some .published) :
    Step s { s with writer := none, returned := s.device.modifications }
  | call : Step s { s with waiting := s.returned :: s.waiting }
  /-- A call is dropped while it waits for `pending_save`. -/
  | abandon {before since after}
    (hwaiting : s.waiting = before ++ since :: after) : Step s { s with waiting := before ++ after }
  | lock (before) {since after} (hfree : s.holder = none)
    (hwaiting : s.waiting = before ++ since :: after) :
    Step s { s with waiting := before ++ after, holder := some (.finishing, since) }
  | noneRetained {since} (hholder : s.holder = some (.finishing, since))
    (hsave : s.pendingSave = none) : Step s { s with holder := some (.checking, since) }
  /-- The backend may go on with a save while no call drives it. -/
  | write {snapshot} (hsave : s.pendingSave = some ⟨snapshot, false⟩) :
    Step s { s with row := snapshot, pendingSave := some ⟨snapshot, true⟩ }
  | finish {since snapshot}
    (hholder : s.holder = some (.finishing, since))
    (hsave : s.pendingSave = some ⟨snapshot, true⟩) :
    Step s { s with pendingSave := none, holder := some (.checking, since) }
  | fail {stage since snapshot}
    (hholder : s.holder = some (stage, since)) (hstage : stage = .finishing ∨ stage = .saving)
    (hsave : s.pendingSave = some ⟨snapshot, false⟩) :
    Step s { s with pendingSave := none, holder := some (.failed, since) }
  | markFailed {since} (hholder : s.holder = some (.failed, since)) :
    Step s { s with dirty := true, holder := none }
  /-- The flag is clear, at the load or at the swap. -/
  | clean {stage since} (hholder : s.holder = some (stage, since))
    (hstage : stage = .checking ∨ stage = .reading) (hdirty : s.dirty = false) :
    Step s (s.returnOk since)
  | needed {since} (hholder : s.holder = some (.checking, since))
    (hdirty : s.dirty = true) : Step s { s with holder := some (.locking, since) }
  | read {since} (hholder : s.holder = some (.locking, since))
    (hfree : s.writer = none) : Step s { s with holder := some (.reading, since) }
  | swap {since} (hholder : s.holder = some (.reading, since))
    (hdirty : s.dirty = true) : Step s { s with dirty := false, holder := some (.swapped, since) }
  | copy {since} (hholder : s.holder = some (.swapped, since)) :
    Step s { s with holder := some (.copied s.deviceSnapshot, since) }
  | start {since snapshot}
    (hholder : s.holder = some (.copied snapshot, since)) :
    Step s { s with pendingSave := some ⟨snapshot, false⟩, holder := some (.saving, since) }
  | saved {since snapshot}
    (hholder : s.holder = some (.saving, since)) (hsave : s.pendingSave = some ⟨snapshot, true⟩) :
    Step s (System.returnOk { s with pendingSave := none } since)
  /-- A call is dropped where it waits; the save stays. -/
  | cancel {stage since} (hholder : s.holder = some (stage, since))
    (hstage : stage = .finishing ∨ stage = .locking ∨ stage = .saving) :
    Step s { s with holder := none }

/-- The manager gets there from a loaded device. -/
def Reachable (s : System loaded) : Prop := Relation.ReflTransGen Step (.new loaded) s

/-! ## The invariant -/

/-- What the backend has been given: the save under way, or else the row. -/
def System.given (s : System loaded) : Snapshot loaded := s.pendingSave.elim s.row (·.snapshot)

/-- What a stage says about the rest. -/
def Stage.Ok (s : System loaded) (since : List (D → D)) : Stage loaded → Prop
  | .finishing => True
  | .checking | .locking | .failed => s.pendingSave = none
  | .reading | .swapped => s.pendingSave = none ∧ s.writer = none
  | .copied snapshot => s.pendingSave = none ∧ s.writer = none ∧ snapshot = s.deviceSnapshot
  | .saving => ∃ save, s.pendingSave = some save ∧ since <:+ save.snapshot.modifications

structure Inv (s : System loaded) : Prop where
  snapshot_le : s.deviceSnapshot.modifications <:+ s.device.modifications
  returned_le : s.returned <:+ s.deviceSnapshot.modifications
  published : s.writer = none ∨ s.writer = some .published → s.deviceSnapshot = s.device
  marked : s.writer = some .marked ∨ s.writer = some .published → s.dirty = true
  row_le : s.row.modifications <:+ s.given.modifications
  given_le : s.given.modifications <:+ s.deviceSnapshot.modifications
  written : ∀ snapshot, s.pendingSave = some ⟨snapshot, true⟩ → s.row = snapshot
  waiting : ∀ since ∈ s.waiting, since <:+ s.returned
  holder : ∀ stage since, s.holder = some (stage, since) → since <:+ s.returned ∧ stage.Ok s since
  flushed : ∀ flush ∈ s.flushed, flush.1 <:+ flush.2.modifications
  clean : s.dirty = false → s.settled = true → s.deviceSnapshot = s.given

variable {s s' : System loaded} {since : List (D → D)}

theorem inv_new (loaded : D) : Inv (.new loaded) := by
  constructor <;> simp [System.new, System.given]

namespace Inv

variable (h : Inv s)
include h

theorem setHolder (stage : Stage loaded) (hsince : since <:+ s.returned)
    (hok : stage.Ok s since)
    (hclean : s.dirty = false → stage.owes = false → s.deviceSnapshot = s.given) :
    Inv { s with holder := some (stage, since) } where
  __ := h
  holder := by
    rintro _ _ ⟨⟩
    exact ⟨hsince, hok⟩
  clean hdirty hsettled := hclean hdirty (by simpa [System.settled] using hsettled)

/-- The holder is gone, with nothing owed. -/
theorem free (hclean : s.dirty = false → s.deviceSnapshot = s.given) :
    Inv { s with holder := none } where
  __ := h
  holder _ _ hnone := by cases hnone
  clean hdirty _ := hclean hdirty

theorem returnOk (hsince : since <:+ s.row.modifications)
    (hclean : s.dirty = false → s.deviceSnapshot = s.given) : Inv (s.returnOk since) where
  __ := h.free hclean
  flushed := List.forall_mem_cons.mpr ⟨hsince, h.flushed⟩

/-- A save is taken from the manager. -/
theorem dropSave (holder : Option (Stage loaded × List (D → D)))
    (hholder : ∀ stage since, holder = some (stage, since) →
      since <:+ s.returned ∧ stage.Ok { s with pendingSave := none } since)
    (hclean : s.dirty = false → holder.any (·.1.owes) = false → s.deviceSnapshot = s.row) :
    Inv { s with pendingSave := none, holder := holder } where
  __ := h
  row_le := List.suffix_rfl
  given_le := h.row_le.trans h.given_le
  written _ hnone := by cases hnone
  holder := hholder
  clean hdirty hsettled := hclean hdirty (by simpa [System.settled] using hsettled)

/-- While the write guard is taken, or could be, no call reads the device. -/
theorem keepHolder (hreads : s.reading = false ∨ s.writer ≠ none)
    (hsave : s'.pendingSave = s.pendingSave) (hsame : s'.holder = s.holder)
    (hreturned : s.returned <:+ s'.returned) :
    ∀ stage since, s'.holder = some (stage, since) → since <:+ s'.returned ∧ stage.Ok s' since := by
  intro stage since hholder
  rw [hsame] at hholder
  obtain ⟨hsince, hok⟩ := h.holder stage since hholder
  refine ⟨hsince.trans hreturned, ?_⟩
  cases stage <;> simp_all [Stage.Ok, Stage.reads, System.reading]

/-- With the flag clear and nothing owed the row is up to date, once no save is under
way. -/
theorem row_eq (hdirty : s.dirty = false) (hsettled : s.settled = true)
    (hsave : s.pendingSave = none) : s.row = s.deviceSnapshot := by
  rw [h.clean hdirty hsettled, System.given, hsave]
  rfl

theorem step (hstep : Step s s') : Inv s' := by
  have settled {stage : Stage loaded} {since : List (D → D)}
      (hholder : s.holder = some (stage, since)) (howes : stage.owes = false) :
      s.settled = true := by
    simp [System.settled, hholder, howes]
  cases hstep with
  | modify f hfree hread =>
    exact {
      __ := h
      snapshot_le := h.snapshot_le.trans (List.suffix_cons _ _)
      published := by rintro (hw | hw) <;> cases hw
      marked := by rintro (hw | hw) <;> cases hw
      holder := h.keepHolder (.inl hread) rfl rfl List.suffix_rfl }
  | mark hwriter =>
    exact {
      __ := h
      published := by rintro (hw | hw) <;> cases hw
      marked := fun _ => rfl
      holder := h.keepHolder (.inr (by simp [hwriter])) rfl rfl List.suffix_rfl
      clean := by rintro ⟨⟩ }
  | publish hwriter =>
    have hdirty := h.marked (.inl hwriter)
    exact {
      __ := h
      snapshot_le := List.suffix_rfl
      returned_le := h.returned_le.trans h.snapshot_le
      published := fun _ => rfl
      marked := fun _ => hdirty
      given_le := h.given_le.trans h.snapshot_le
      holder := h.keepHolder (.inr (by simp [hwriter])) rfl rfl List.suffix_rfl
      clean := fun hclean => by cases hdirty.symm.trans hclean }
  | release hwriter =>
    have hsame := h.published (.inr hwriter)
    have hreturned := h.returned_le.trans h.snapshot_le
    exact {
      __ := h
      returned_le := hsame ▸ List.suffix_rfl
      published := fun _ => hsame
      marked := by rintro (hw | hw) <;> cases hw
      waiting := fun since hsince => (h.waiting since hsince).trans hreturned
      holder := h.keepHolder (.inr (by simp [hwriter])) rfl rfl hreturned }
  | call => exact { __ := h, waiting := List.forall_mem_cons.mpr ⟨List.suffix_rfl, h.waiting⟩ }
  | abandon hwaiting =>
    refine { __ := h, waiting := fun since hsince => h.waiting since ?_ }
    rw [hwaiting]
    exact List.mem_append.mpr ((List.mem_append.mp hsince).imp_right (List.mem_cons_of_mem _))
  | @lock before since after hfree hwaiting =>
    have hwaits := h.waiting
    rw [hwaiting, List.forall_mem_append, List.forall_mem_cons] at hwaits
    have hclean : s.dirty = false → s.deviceSnapshot = s.given :=
      fun hdirty => h.clean hdirty (by simp [System.settled, hfree])
    exact {
      __ := h.setHolder .finishing hwaits.2.1 trivial fun hdirty _ => hclean hdirty
      waiting := List.forall_mem_append.mpr ⟨hwaits.1, hwaits.2.2⟩ }
  | noneRetained hholder hsave =>
    exact h.setHolder _ (h.holder _ _ hholder).1 hsave fun hdirty _ =>
      h.clean hdirty (settled hholder rfl)
  | @write snapshot hsave =>
    have hgiven : s.given = snapshot := by rw [System.given, hsave]; rfl
    exact {
      __ := h
      row_le := List.suffix_rfl
      given_le := hgiven ▸ h.given_le
      written := by rintro _ ⟨⟩; rfl
      holder := fun stage since hholder => by
        obtain ⟨hsince, hok⟩ := h.holder stage since hholder
        cases stage <;> simp_all [Stage.Ok]
      clean := fun hdirty hsettled => (h.clean hdirty hsettled).trans hgiven }
  | @finish since snapshot hholder hsave =>
    have hgiven : s.given = s.row := by rw [h.written _ hsave, System.given, hsave]; rfl
    refine h.dropSave _ ?_ fun hdirty _ => (h.clean hdirty (settled hholder rfl)).trans hgiven
    rintro _ _ ⟨⟩
    exact ⟨(h.holder _ _ hholder).1, rfl⟩
  | fail hholder hstage hsave =>
    refine h.dropSave _ ?_ fun _ => by rintro ⟨⟩
    rintro _ _ ⟨⟩
    exact ⟨(h.holder _ _ hholder).1, rfl⟩
  | markFailed hholder =>
    exact { __ := h, marked := fun _ => rfl, holder := fun _ _ hnone => by cases hnone
            clean := by rintro ⟨⟩ }
  | @clean stage since hholder hstage hdirty =>
    obtain ⟨hsince, hok⟩ := h.holder _ _ hholder
    have howes : stage.owes = false := by rcases hstage with rfl | rfl <;> rfl
    have hsave : s.pendingSave = none := by
      rcases hstage with rfl | rfl
      · exact hok
      · exact hok.1
    have hclean := h.clean hdirty (settled hholder howes)
    refine h.returnOk ?_ fun _ => hclean
    rw [h.row_eq hdirty (settled hholder howes) hsave]
    exact hsince.trans h.returned_le
  | needed hholder hdirty =>
    obtain ⟨hsince, hok⟩ := h.holder _ _ hholder
    exact h.setHolder _ hsince hok fun hclean _ => h.clean hclean (settled hholder rfl)
  | read hholder hfree =>
    obtain ⟨hsince, hok⟩ := h.holder _ _ hholder
    exact h.setHolder _ hsince ⟨hok, hfree⟩ fun hclean _ => h.clean hclean (settled hholder rfl)
  | swap hholder hdirty =>
    obtain ⟨hsince, hok⟩ := h.holder _ _ hholder
    exact {
      __ := h.setHolder .swapped hsince hok fun hclean _ =>
        h.clean hclean (settled hholder rfl)
      marked := by rintro (hw | hw) <;> cases hok.2.symm.trans hw
      clean := fun _ => by rintro ⟨⟩ }
  | copy hholder =>
    obtain ⟨hsince, hsave, hfree⟩ := h.holder _ _ hholder
    exact h.setHolder _ hsince ⟨hsave, hfree, rfl⟩ fun _ => by rintro ⟨⟩
  | start hholder =>
    obtain ⟨hsince, hsave, hfree, rfl⟩ := h.holder _ _ hholder
    exact {
      __ := h
      row_le := h.row_le.trans h.given_le
      given_le := List.suffix_rfl
      written := by rintro _ ⟨⟩
      holder := by
        rintro _ _ ⟨⟩
        exact ⟨hsince, _, rfl, hsince.trans h.returned_le⟩
      clean := fun _ _ => rfl }
  | @saved since snapshot hholder hsave =>
    obtain ⟨-, save, hsave', hsince⟩ := h.holder _ _ hholder
    obtain rfl := Option.some.inj (hsave.symm.trans hsave')
    have hgiven : s.given = s.row := by rw [h.written _ hsave, System.given, hsave]; rfl
    have hclean : s.dirty = false → s.deviceSnapshot = s.row :=
      fun hdirty => (h.clean hdirty (settled hholder rfl)).trans hgiven
    refine (h.dropSave none (fun _ _ hnone => by cases hnone) fun hdirty _ =>
      hclean hdirty).returnOk ?_ hclean
    exact h.written _ hsave ▸ hsince
  | cancel hholder hstage =>
    refine h.free fun hdirty => h.clean hdirty (settled hholder ?_)
    rcases hstage with rfl | rfl | rfl <;> rfl

/-- The row only goes forward. -/
theorem row_step (hstep : Step s s') : s.row.modifications <:+ s'.row.modifications := by
  cases hstep with
  | @write snapshot hsave =>
    have hle := h.row_le
    rwa [System.given, hsave] at hle
  | _ => exact List.suffix_rfl

theorem run (hrun : Relation.ReflTransGen Step s s') :
    Inv s' ∧ s.row.modifications <:+ s'.row.modifications := by
  induction hrun with
  | refl => exact ⟨h, List.suffix_rfl⟩
  | tail _ hstep ih => exact ⟨ih.1.step hstep, ih.2.trans (ih.1.row_step hstep)⟩

end Inv

/-- A flush that returns `Ok` finds in the row every modification that had returned when
it began.  The row only goes forward.  When nothing is under way and the flag is clear
it is the current device. -/
theorem flush_is_barrier {loaded : D} {s : System loaded} (h : Reachable s) :
    (∀ flush ∈ s.flushed, flush.1 <:+ flush.2.modifications)
      ∧ (∀ s', Relation.ReflTransGen Step s s' → s.row.modifications <:+ s'.row.modifications)
      ∧ (s.writer = none → s.pendingSave = none → s.settled = true → s.dirty = false →
        s.row = s.deviceSnapshot ∧ s.deviceSnapshot = s.device) := by
  obtain ⟨hinv, -⟩ := (inv_new loaded).run h
  refine ⟨hinv.flushed, fun s' hrun => (hinv.run hrun).2, fun hfree hsave hsettled hdirty => ?_⟩
  exact ⟨hinv.row_eq hdirty hsettled hsave, hinv.published (.inl hfree)⟩

/-- One modification and one flush. -/
theorem flush_is_barrier_once :
    ∃ s : System 0, Reachable s ∧ s.flushed = [([Nat.succ], s.row)] ∧ s.row.device = 1
      ∧ s.row = s.device := by
  have modified : Reachable (_ : System 0) := (((Relation.ReflTransGen.refl.tail
    (.modify Nat.succ rfl rfl)).tail (.mark rfl)).tail (.publish rfl)).tail (.release rfl)
  have locked := ((modified.tail .call).tail (.lock [] rfl rfl)).tail (.noneRetained rfl rfl)
  have started := ((((locked.tail (.needed rfl rfl)).tail (.read rfl rfl)).tail
    (.swap rfl rfl)).tail (.copy rfl)).tail (.start rfl)
  have saved := (started.tail (.write rfl)).tail (.saved rfl rfl)
  obtain ⟨-, -, hclean⟩ := flush_is_barrier saved
  obtain ⟨hrow, hdevice⟩ := hclean rfl rfl rfl rfl
  exact ⟨_, saved, rfl, rfl, hrow.trans hdevice⟩

end WaCore.Store.PersistenceManager
