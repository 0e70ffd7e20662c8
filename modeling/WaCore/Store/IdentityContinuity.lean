import Mathlib.Algebra.Group.Nat.Defs
import Mathlib.Data.List.Basic
import Mathlib.Logic.Relation
import Mathlib.Tactic.Common
import WaCore.Lib.History

/-!
# Accounts that changed while a message was on its way

`IdentityContinuity` (`store/signal_cache.rs`) is a journal of the mutations of
account identities.  A send takes a snapshot of it, and later asks whether the
users it wrote to are unchanged since then.  A mutation declares the users it
touches and is in progress until its guard is dropped; one that declares none may
touch any user.  The journal has room for 1024 entries, so older ones are given
up behind a floor.

`unchanged_for` errs on one side only: when it returns true, no mutation that
touches one of the users was in progress at the snapshot or has started since.

The counters are `u64` and saturate.  The lock of the source is poisoned when the
iterator of `changing` panics under it.
-/

namespace WaCore.Store

def U64_MAX : Nat := 2 ^ 64 - 1

/-- `u64::saturating_add` of one. -/
def saturatingSuccU64 (n : Nat) : Nat := min (n + 1) U64_MAX

def IDENTITY_CHANGE_CAPACITY : Nat := 1024

structure IdentityChanges where
  generation : Nat
  floor : Nat
  active : Nat
  activeSince : Nat
  users : List (Nat × UInt64)
  deriving DecidableEq, Repr

structure IdentityContinuity where
  state : IdentityChanges
  poisoned : Bool
  deriving DecidableEq, Repr

namespace IdentityContinuity

def default : IdentityContinuity := ⟨⟨0, 0, 0, 0, []⟩, false⟩

def unavailable : IdentityContinuity := ⟨⟨U64_MAX, 0, 0, 0, []⟩, false⟩

/-- A snapshot during a mutation is one from before the first that overlaps it. -/
def snapshot (c : IdentityContinuity) : Option Nat :=
  if c.poisoned then none
  else if c.state.generation = U64_MAX then none
  else some (if c.state.active = 0 then c.state.generation else c.state.activeSince)

variable (userFingerprint : String → UInt64)

def unchangedFor (c : IdentityContinuity) (snapshot : Option Nat) (users : List String) : Bool :=
  match snapshot with
  | none => false
  | some since =>
    if c.poisoned then false
    else if since < c.state.floor ∨ c.state.generation < since ∨ c.state.generation = U64_MAX then
      false
    else
      users.all fun user =>
        (c.state.users.reverse.takeWhile fun entry => since < entry.1).all fun entry =>
          entry.2 ≠ userFingerprint user

/-- A full journal gives up its oldest entry, and every snapshot up to that one. -/
def evictOldest (state : IdentityChanges) : IdentityChanges :=
  if state.users.length = IDENTITY_CHANGE_CAPACITY then
    match state.users with
    | [] => state
    | (evicted, _) :: rest => { state with users := rest, floor := saturatingSuccU64 evicted }
  else state

/-- One round of the loop over the users of a mutation. -/
def recordUser (generation : Nat) (state : IdentityChanges) (user : String) : IdentityChanges :=
  let state := evictOldest state
  { state with users := state.users ++ [(generation, userFingerprint user)] }

/-- The counters at the start of a mutation. -/
def beginChange (state : IdentityChanges) : IdentityChanges :=
  { state with activeSince := if state.active = 0 then state.generation else state.activeSince
               generation := saturatingSuccU64 state.generation
               active := state.active + 1 }

/-- The start of a mutation; its guard is dropped by `endChange`. -/
def changing (c : IdentityContinuity) (users : List String) : IdentityContinuity :=
  let state := beginChange c.state
  if state.generation = U64_MAX then { c with state }
  else if users = [] then
    { c with state := { state with floor := state.generation, users := [] } }
  else { c with state := users.foldl (recordUser userFingerprint state.generation) state }

/-- The iterator panics after some users: the lock is poisoned and there is no
guard. -/
def changingPanics (c : IdentityContinuity) (users : List String) : IdentityContinuity :=
  let state := beginChange c.state
  ⟨users.foldl (recordUser userFingerprint state.generation) state, true⟩

/-- `IdentityContinuityChange::drop`. -/
def endChange (c : IdentityContinuity) : IdentityContinuity :=
  { c with state := { c.state with active := c.state.active - 1 } }

end IdentityContinuity

/-! ## What the journal accounts for -/

namespace IdentityChanges

/-- An entry is in the journal, or every snapshot up to it is refused. -/
def Accounts (state : IdentityChanges) (entry : Nat × UInt64) : Prop :=
  entry.1 < state.floor ∨ entry ∈ state.users

/-- The entries are in the order of their generations, and the floor is below them. -/
structure Ordered (state : IdentityChanges) : Prop where
  sorted : state.users.Pairwise fun a b => a.1 ≤ b.1
  floor_le : ∀ entry ∈ state.users, state.floor ≤ entry.1 + 1
  le_generation : ∀ entry ∈ state.users, entry.1 ≤ state.generation
  floor_le_generation : state.floor ≤ state.generation + 1

/-- A state that has the counters of an earlier one, and lost nothing that one
accounted for. -/
structure Extends (before state : IdentityChanges) : Prop where
  ordered : state.Ordered
  floor_le : before.floor ≤ state.floor
  accounts : ∀ entry, before.Accounts entry → state.Accounts entry
  generation_eq : state.generation = before.generation
  active_eq : state.active = before.active
  activeSince_eq : state.activeSince = before.activeSince

theorem Extends.refl {state : IdentityChanges} (h : state.Ordered) : state.Extends state :=
  ⟨h, Nat.le_refl _, fun _ h => h, rfl, rfl, rfl⟩

theorem Extends.trans {a b c : IdentityChanges} (hab : a.Extends b) (hbc : b.Extends c) :
    a.Extends c where
  ordered := hbc.ordered
  floor_le := Nat.le_trans hab.floor_le hbc.floor_le
  accounts entry h := hbc.accounts entry (hab.accounts entry h)
  generation_eq := hbc.generation_eq.trans hab.generation_eq
  active_eq := hbc.active_eq.trans hab.active_eq
  activeSince_eq := hbc.activeSince_eq.trans hab.activeSince_eq

end IdentityChanges

namespace IdentityContinuity

variable (userFingerprint : String → UInt64) {state : IdentityChanges}

/-- An entry that is given up is below the new floor. -/
theorem extends_evictOldest (h : state.Ordered) (hlt : state.generation < U64_MAX) :
    state.Extends (evictOldest state) := by
  rw [evictOldest]
  split
  · split
    · exact .refl h
    · rename_i evicted fingerprint rest husers
      have hsorted := h.sorted
      rw [husers, List.pairwise_cons] at hsorted
      have hmem : ∀ entry ∈ rest, entry ∈ state.users :=
        fun entry hentry => husers ▸ List.mem_cons_of_mem _ hentry
      have hfirst : (evicted, fingerprint) ∈ state.users := husers ▸ List.mem_cons_self
      have hlast := h.le_generation _ hfirst
      have hfloor : saturatingSuccU64 evicted = evicted + 1 := Nat.min_eq_left (by omega)
      rw [hfloor]
      refine ⟨⟨hsorted.2, ?_, fun entry he => h.le_generation entry (hmem entry he), ?_⟩,
        h.floor_le _ hfirst, ?_, rfl, rfl, rfl⟩
      · exact fun entry hentry => Nat.succ_le_succ (hsorted.1 entry hentry)
      · exact Nat.succ_le_succ hlast
      · rintro entry (hbelow | hentry)
        · exact .inl (Nat.lt_of_lt_of_le hbelow (h.floor_le _ hfirst))
        · rw [husers] at hentry
          rcases List.mem_cons.mp hentry with rfl | hrest
          · exact .inl (Nat.lt_succ_self _)
          · exact .inr hrest
  · exact .refl h

theorem extends_recordUser (h : state.Ordered) (hlt : state.generation < U64_MAX) (user : String) :
    state.Extends (recordUser userFingerprint state.generation state user)
      ∧ (recordUser userFingerprint state.generation state user).Accounts
          (state.generation, userFingerprint user) := by
  obtain ⟨⟨hsorted, hfloor, hle, hgeneration⟩, hfloor_le, haccounts, heq, hactive, hsince⟩ :=
    extends_evictOldest h hlt
  refine ⟨⟨⟨?_, ?_, ?_, hgeneration⟩, hfloor_le, ?_, heq, hactive, hsince⟩,
    .inr (List.mem_append_right _ List.mem_cons_self)⟩
  · refine List.pairwise_append.mpr ⟨hsorted, List.pairwise_singleton _ _, ?_⟩
    rintro entry hentry _ (_ | ⟨_, ⟨⟩⟩)
    exact heq ▸ hle entry hentry
  · refine List.forall_mem_append.mpr ⟨hfloor, List.forall_mem_singleton.mpr ?_⟩
    exact heq ▸ hgeneration
  · refine List.forall_mem_append.mpr ⟨hle, List.forall_mem_singleton.mpr ?_⟩
    exact Nat.le_of_eq heq.symm
  · intro entry hentry
    exact (haccounts entry hentry).imp_right (List.mem_append_left _)

/-- The loop over the users of a mutation accounts for all of them. -/
theorem extends_recordUsers (h : state.Ordered) (hlt : state.generation < U64_MAX)
    (users : List String) :
    state.Extends (users.foldl (recordUser userFingerprint state.generation) state)
      ∧ ∀ user ∈ users, (users.foldl (recordUser userFingerprint state.generation) state).Accounts
          (state.generation, userFingerprint user) := by
  generalize hg : state.generation = generation
  induction users generalizing state with
  | nil => exact ⟨.refl h, nofun⟩
  | cons user users ih =>
    subst hg
    obtain ⟨hext, haccounts⟩ := extends_recordUser userFingerprint h hlt user
    obtain ⟨hrest, hall⟩ := ih hext.ordered (hext.generation_eq ▸ hlt) hext.generation_eq
    refine ⟨hext.trans hrest, fun u hu => ?_⟩
    rcases List.mem_cons.mp hu with rfl | hu
    · exact hrest.accounts _ haccounts
    · exact hall u hu

end IdentityContinuity

/-! ## Mutations over time -/

/-- The journal with the mutations it is about: the users each declared, in the
order they started, and those in progress.  A mutation is named by its place. -/
structure MutationHistory where
  continuity : IdentityContinuity
  scopes : List (List String)
  inProgress : List Nat

namespace MutationHistory

open IdentityContinuity

variable (userFingerprint : String → UInt64)

/-- What can happen to a journal.  Snapshots and questions leave it as it is, and
the iterator of a mutation is not asked once the generations are used up. -/
inductive Step : MutationHistory → MutationHistory → Prop where
  | changing (h : MutationHistory) (users : List String) :
      Step h ⟨h.continuity.changing userFingerprint users, h.scopes ++ [users],
        h.scopes.length :: h.inProgress⟩
  | changingPanics (h : MutationHistory) (users : List String)
      (hgeneration : (IdentityContinuity.beginChange h.continuity.state).generation ≠ U64_MAX) :
      Step h { h with continuity := h.continuity.changingPanics userFingerprint users }
  | endChange (h : MutationHistory) (id : Nat) (hid : id ∈ h.inProgress) :
      Step h { h with continuity := h.continuity.endChange
                      inProgress := h.inProgress.erase id }

/-- A journal with no mutation yet. -/
def start (continuity : IdentityContinuity) : MutationHistory := ⟨continuity, [], []⟩

/-- The histories of a journal that was available or unavailable at the start. -/
def Reachable (h : MutationHistory) : Prop :=
  Relation.ReflTransGen (Step userFingerprint) (start .default) h
    ∨ Relation.ReflTransGen (Step userFingerprint) (start .unavailable) h

/-! ### What every history keeps -/

variable {userFingerprint}

/-- Answers other than no are still possible. -/
def Usable (h : MutationHistory) : Prop :=
  h.continuity.poisoned = false ∧ h.continuity.state.generation ≠ U64_MAX

/-- The journal accounts for every mutation, and the snapshot of a moment is from
before those in progress. -/
structure Accounted (userFingerprint : String → UInt64) (h : MutationHistory) : Prop where
  ordered : h.continuity.state.Ordered
  generation_eq : h.continuity.state.generation = h.scopes.length
  unknown : ∀ id, h.scopes[id]? = some [] → id + 1 ≤ h.continuity.state.floor
  declared : ∀ id scope, h.scopes[id]? = some scope → ∀ user ∈ scope,
    h.continuity.state.Accounts (id + 1, userFingerprint user)
  active_eq : h.continuity.state.active = h.inProgress.length
  since_le_generation : h.continuity.state.activeSince ≤ h.continuity.state.generation
  since_le : ∀ id ∈ h.inProgress, h.continuity.state.activeSince ≤ id

theorem accounted_start : Accounted userFingerprint (start .default) where
  ordered := ⟨List.Pairwise.nil, nofun, nofun, Nat.zero_le _⟩
  generation_eq := rfl
  unknown id h := absurd h (by simp [start])
  declared id scope h := absurd h (by simp [start])
  active_eq := rfl
  since_le_generation := Nat.le_refl _
  since_le := nofun

variable {h : MutationHistory} {users : List String} {since : Nat}

/-- The counters of a mutation that starts. -/
theorem Accounted.beginChange (hacc : Accounted userFingerprint h)
    (hlt : (beginChange h.continuity.state).generation < U64_MAX) :
    (beginChange h.continuity.state).Ordered
      ∧ (beginChange h.continuity.state).generation = h.scopes.length + 1
      ∧ (beginChange h.continuity.state).activeSince ≤ h.scopes.length
      ∧ ∀ id ∈ h.inProgress, (beginChange h.continuity.state).activeSince ≤ id := by
  have hgeneration : (IdentityContinuity.beginChange h.continuity.state).generation
      = h.continuity.state.generation + 1 := by
    rw [IdentityContinuity.beginChange, saturatingSuccU64] at hlt ⊢
    dsimp only at hlt ⊢
    omega
  have heq := hacc.generation_eq
  refine ⟨⟨hacc.ordered.sorted, hacc.ordered.floor_le, fun entry hentry => ?_, ?_⟩, ?_, ?_, ?_⟩
  · rw [hgeneration]
    exact Nat.le_succ_of_le (hacc.ordered.le_generation entry hentry)
  · rw [hgeneration]
    exact Nat.le_succ_of_le hacc.ordered.floor_le_generation
  · exact hgeneration.trans (congrArg (· + 1) heq)
  · have := hacc.since_le_generation
    rw [IdentityContinuity.beginChange]
    dsimp only
    split <;> omega
  · intro id hid
    have hactive : h.continuity.state.active ≠ 0 := by
      rw [hacc.active_eq]
      exact Nat.ne_of_gt (List.length_pos_of_mem hid)
    rw [IdentityContinuity.beginChange, if_neg hactive]
    exact hacc.since_le id hid

/-- A mutation starts. -/
theorem Accounted.changing (hacc : Accounted userFingerprint h)
    (hlt : (IdentityContinuity.beginChange h.continuity.state).generation < U64_MAX) :
    Accounted userFingerprint ⟨h.continuity.changing userFingerprint users, h.scopes ++ [users],
      h.scopes.length :: h.inProgress⟩ := by
  obtain ⟨hordered, hgeneration, hsince, hearlier⟩ := hacc.beginChange hlt
  have hactive : (IdentityContinuity.beginChange h.continuity.state).active
      = (h.scopes.length :: h.inProgress).length := congrArg (· + 1) hacc.active_eq
  have hprogress : ∀ id ∈ h.scopes.length :: h.inProgress,
      (IdentityContinuity.beginChange h.continuity.state).activeSince ≤ id := by
    intro id hid
    rcases List.mem_cons.mp hid with rfl | hid
    · exact hsince
    · exact hearlier id hid
  have hlength : (h.scopes ++ [users]).length = h.scopes.length + 1 := List.length_append
  rw [IdentityContinuity.changing, if_neg (Nat.ne_of_lt hlt)]
  by_cases husers : users = []
  · subst husers
    rw [if_pos rfl]
    refine ⟨⟨List.Pairwise.nil, nofun, nofun, Nat.le_succ _⟩, hgeneration.trans hlength.symm, ?_, ?_,
      hactive, by dsimp only; omega, hprogress⟩
    · intro id hid
      have := lt_of_getElem? hid
      dsimp only at this ⊢
      omega
    · intro id scope hid user huser
      rcases getElem?_concat_cases hid with hid | ⟨-, rfl⟩
      · have := lt_of_getElem? hid
        exact .inl (by dsimp only; omega)
      · cases huser
  · rw [if_neg husers]
    obtain ⟨hext, hall⟩ := extends_recordUsers userFingerprint hordered hlt users
    refine ⟨hext.ordered, hext.generation_eq.trans (hgeneration.trans hlength.symm), ?_, ?_,
      hext.active_eq.trans hactive, ?_, ?_⟩
    · intro id hid
      rcases getElem?_concat_cases hid with hid | ⟨-, heq⟩
      · exact Nat.le_trans (hacc.unknown id hid) hext.floor_le
      · exact absurd heq.symm husers
    · intro id scope hid user huser
      rcases getElem?_concat_cases hid with hid | ⟨rfl, rfl⟩
      · exact hext.accounts _ (hacc.declared id scope hid user huser)
      · exact hgeneration ▸ hall user huser
    · rw [hext.activeSince_eq, hext.generation_eq]
      omega
    · rw [hext.activeSince_eq]
      exact hprogress

theorem Accounted.endChange {id : Nat} (hacc : Accounted userFingerprint h)
    (hid : id ∈ h.inProgress) :
    Accounted userFingerprint { h with continuity := h.continuity.endChange
                                       inProgress := h.inProgress.erase id } where
  ordered := ⟨hacc.ordered.sorted, hacc.ordered.floor_le, hacc.ordered.le_generation,
    hacc.ordered.floor_le_generation⟩
  generation_eq := hacc.generation_eq
  unknown := hacc.unknown
  declared := hacc.declared
  active_eq := by
    have hactive := hacc.active_eq
    rw [List.length_erase_of_mem hid, IdentityContinuity.endChange, hactive]
  since_le_generation := hacc.since_le_generation
  since_le i hi := hacc.since_le i (List.mem_of_mem_erase hi)

/-! ### Every step -/

theorem generation_foldl_recordUser (generation : Nat) (users : List String)
    (state : IdentityChanges) :
    (users.foldl (recordUser userFingerprint generation) state).generation = state.generation := by
  induction users generalizing state with
  | nil => rfl
  | cons user users ih =>
    rw [List.foldl_cons, ih, recordUser, evictOldest]
    split
    · split <;> rfl
    · rfl

theorem generation_changing (c : IdentityContinuity) (users : List String) :
    (c.changing userFingerprint users).state.generation = (beginChange c.state).generation := by
  rw [changing]
  split
  · rfl
  · split
    · rfl
    · exact generation_foldl_recordUser _ _ _

theorem poisoned_changing (c : IdentityContinuity) (users : List String) :
    (c.changing userFingerprint users).poisoned = c.poisoned := by
  rw [changing]
  split
  · rfl
  · split <;> rfl

/-- The generations are used up for good. -/
theorem generation_lt_of_beginChange {state : IdentityChanges}
    (h : (beginChange state).generation ≠ U64_MAX) :
    state.generation ≠ U64_MAX ∧ (beginChange state).generation < U64_MAX := by
  rw [IdentityContinuity.beginChange, saturatingSuccU64] at h ⊢
  dsimp only at h ⊢
  omega

theorem accounted_step {h' : MutationHistory} (hstep : Step userFingerprint h h')
    (hacc : h.Usable → Accounted userFingerprint h) (husable : h'.Usable) :
    Accounted userFingerprint h' := by
  obtain ⟨hpoisoned, hgeneration⟩ := husable
  cases hstep with
  | changing users =>
    rw [poisoned_changing] at hpoisoned
    rw [generation_changing] at hgeneration
    obtain ⟨hne, hlt⟩ := generation_lt_of_beginChange hgeneration
    exact (hacc ⟨hpoisoned, hne⟩).changing hlt
  | changingPanics users hne => cases hpoisoned
  | endChange id hid => exact (hacc ⟨hpoisoned, hgeneration⟩).endChange hid

/-- Every history is accounted for, as long as answers other than no are
possible. -/
theorem Reachable.accounted (hreach : Reachable userFingerprint h) (husable : h.Usable) :
    Accounted userFingerprint h := by
  rcases hreach with hsteps | hsteps
  · induction hsteps with
    | refl => exact accounted_start
    | tail _ hstep ih => exact accounted_step hstep ih husable
  · induction hsteps with
    | refl => exact absurd rfl husable.2
    | tail _ hstep ih => exact accounted_step hstep ih husable

theorem Reachable.steps {h' : MutationHistory} (hreach : Reachable userFingerprint h)
    (hsteps : Relation.ReflTransGen (Step userFingerprint) h h') : Reachable userFingerprint h' :=
  hreach.imp (fun hstart => hstart.trans hsteps) fun hstart => hstart.trans hsteps

/-! ## What a snapshot and a question say -/

/-- A snapshot is from before every mutation in progress, and no later than the
moment it is taken at. -/
theorem Reachable.snapshot_le (hreach : Reachable userFingerprint h)
    (hsnapshot : h.continuity.snapshot = some since) :
    since ≤ h.scopes.length ∧ ∀ id ∈ h.inProgress, since ≤ id := by
  rw [snapshot] at hsnapshot
  split at hsnapshot
  · cases hsnapshot
  · rename_i hpoisoned
    split at hsnapshot
    · cases hsnapshot
    · rename_i hgeneration
      have hacc := hreach.accounted ⟨by simpa using hpoisoned, hgeneration⟩
      have heq := hacc.generation_eq
      cases hsnapshot
      split
      · rename_i hactive
        rw [hacc.active_eq, List.length_eq_zero_iff] at hactive
        exact ⟨Nat.le_of_eq heq, by simp [hactive]⟩
      · exact ⟨heq ▸ hacc.since_le_generation, hacc.since_le⟩

/-- A question that is answered yes excludes every mutation after the snapshot
that touches one of the users. -/
theorem Reachable.scope_of_unchangedFor {id : Nat} {scope : List String}
    (hreach : Reachable userFingerprint h)
    (hyes : h.continuity.unchangedFor userFingerprint (some since) users = true)
    (hscope : h.scopes[id]? = some scope) (hid : since ≤ id) :
    scope ≠ [] ∧ ∀ user ∈ users, user ∉ scope := by
  rw [unchangedFor] at hyes
  split at hyes
  · cases hyes
  · rename_i hpoisoned
    split at hyes
    · cases hyes
    · rename_i hrange
      obtain ⟨hfloor, -, hgeneration⟩ : ¬ since < h.continuity.state.floor
          ∧ ¬ h.continuity.state.generation < since ∧ h.continuity.state.generation ≠ U64_MAX :=
        not_or.mp hrange |>.imp_right not_or.mp
      have hacc := hreach.accounted ⟨by simpa using hpoisoned, hgeneration⟩
      refine ⟨fun hempty => ?_, fun user huser hmem => ?_⟩
      · have := hacc.unknown id (hempty ▸ hscope)
        omega
      · rcases hacc.declared id scope hscope user hmem with hbelow | hentry
        · omega
        · have hsorted := List.pairwise_reverse.mpr hacc.ordered.sorted
          have htaken := (mem_takeWhile_of_descending Prod.fst hsorted).mpr
            ⟨List.mem_reverse.mpr hentry, Nat.lt_succ_of_le hid⟩
          have hdiffers := List.all_eq_true.mp (List.all_eq_true.mp hyes user huser) _ htaken
          exact of_decide_eq_true hdiffers rfl

/-- A snapshot is from before every mutation that is in progress when it is taken or
starts later. -/
theorem Reachable.since_le {id : Nat} (hreach : Reachable userFingerprint h)
    (hsnapshot : h.continuity.snapshot = some since)
    (hid : id ∈ h.inProgress ∨ h.scopes.length ≤ id) : since ≤ id := by
  obtain ⟨hle, hprogress⟩ := hreach.snapshot_le hsnapshot
  rcases hid with hid | hid
  · exact hprogress id hid
  · exact Nat.le_trans hle hid

theorem exists_snapshot_of_unchangedFor {c : IdentityContinuity} {snapshot : Option Nat}
    (hyes : c.unchangedFor userFingerprint snapshot users = true) :
    ∃ since, snapshot = some since := by
  cases snapshot with
  | none => cases hyes
  | some since => exact ⟨since, rfl⟩

/-- If a snapshot was taken at one moment and `unchanged_for` returns true at a
later one, then each mutation that was in progress at the first or has started
since declared its users, and none of those asked about is among them. -/
theorem unchangedFor_sound {h₁ h₂ : MutationHistory} {users : List String}
    (hreach : Reachable userFingerprint h₁)
    (hsteps : Relation.ReflTransGen (Step userFingerprint) h₁ h₂)
    (hyes : h₂.continuity.unchangedFor userFingerprint h₁.continuity.snapshot users = true) :
    ∀ id scope, h₂.scopes[id]? = some scope → (id ∈ h₁.inProgress ∨ h₁.scopes.length ≤ id) →
      scope ≠ [] ∧ ∀ user ∈ users, user ∉ scope := by
  intro id scope hscope hid
  obtain ⟨since, hsnapshot⟩ := exists_snapshot_of_unchangedFor hyes
  rw [hsnapshot] at hyes
  exact (hreach.steps hsteps).scope_of_unchangedFor hyes hscope (hreach.since_le hsnapshot hid)

/-- A fingerprint that tells one user from the others. -/
def aliceOnly (user : String) : UInt64 := if user = "alice" then 1 else 0

/-- A mutation of another user is in progress. -/
def bobChanges : MutationHistory :=
  ⟨IdentityContinuity.default.changing aliceOnly ["bob"], [["bob"]], [0]⟩

/-- A second one has started, and the first is over. -/
def carolChanges : MutationHistory :=
  ⟨(bobChanges.continuity.changing aliceOnly ["carol"]).endChange, [["bob"], ["carol"]], [1]⟩

theorem unchangedFor_of_carolChanges :
    carolChanges.continuity.unchangedFor aliceOnly bobChanges.continuity.snapshot ["alice"] = true
      ∧ "alice" ∉ ["bob"] ∧ "alice" ∉ ["carol"] := by
  have hyes : carolChanges.continuity.unchangedFor aliceOnly bobChanges.continuity.snapshot ["alice"]
      = true := by decide
  have hbob : Step aliceOnly (start .default) bobChanges := .changing _ ["bob"]
  have hcarol : Relation.ReflTransGen (Step aliceOnly) bobChanges carolChanges :=
    .tail (.single (.changing _ ["carol"])) (.endChange _ 0 (by decide))
  have hsound := unchangedFor_sound (.inl (.single hbob)) hcarol hyes
  exact ⟨hyes, (hsound 0 _ rfl (.inl List.mem_cons_self)).2 _ List.mem_cons_self,
    (hsound 1 _ rfl (.inr (Nat.le_refl 1))).2 _ List.mem_cons_self⟩

end MutationHistory

end WaCore.Store
