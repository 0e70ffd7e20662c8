import Mathlib.Data.List.ReduceOption
import WaCore.Store.IdentityContinuity

/-!
# Two names for one account

`LidPnCache` (`lid_pn_cache.rs`) maps the LID of an account to its phone number
and back.  A send asks it under which other name an account may be known, and the
two directions can disagree for a while: a new mapping is written to one map after
the other, with an await in between.

Each write that changes an answer is declared in a journal of its own before the
first map is touched, and stays in progress until the last one is.  So a name
whose mapping differs between two moments is in the scope of a change that was in
progress at the first or has started since.

The lock keeps other writers out while one of them is at work; a writer that is
dropped at an await leaves what it has written.  The maps from contact hashes and
of what is persisted are not modelled: no lookup here reads them.
-/

namespace WaCore.Store

namespace MutationHistory

variable (userFingerprint : String → UInt64)

/-- The history after the start of a mutation, which is the last one in it. -/
def changing (h : MutationHistory) (users : List String) : MutationHistory :=
  ⟨h.continuity.changing userFingerprint users, h.scopes ++ [users],
    h.scopes.length :: h.inProgress⟩

def endChange (h : MutationHistory) (id : Nat) : MutationHistory :=
  { h with continuity := h.continuity.endChange
           inProgress := h.inProgress.erase id }

/-- A user in the scope of a mutation that was in progress at the earlier moment or
has started since. -/
def Touched (h₀ h : MutationHistory) (user : String) : Prop :=
  ∃ id scope, h.scopes[id]? = some scope ∧ (id ∈ h₀.inProgress ∨ h₀.scopes.length ≤ id)
    ∧ (scope = [] ∨ user ∈ scope)

end MutationHistory

/-! ## The cache -/

structure LidPnEntry where
  lid : String
  phoneNumber : String
  createdAt : Int
  deriving DecidableEq

/-- A task that holds the lock, by what it writes next; it has declared the change
with that number. -/
inductive Writer where
  | addingLid (entry : LidPnEntry) (shouldUpdatePn : Bool) (change : Option Nat)
  | addingPn (entry : LidPnEntry) (shouldUpdatePn : Bool) (change : Option Nat)
  | added (change : Option Nat)
  | clearingLids (change : Nat)
  | clearingPns (change : Nat)
  | cleared (change : Nat)

/-- The guard that a writer drops in the end. -/
def Writer.change : Writer → Option Nat
  | addingLid _ _ change | addingPn _ _ change | added change => change
  | clearingLids change | clearingPns change | cleared change => some change

structure CacheEntryConfig where
  hasStore : Bool
  timeout : Option Nat
  capacity : Nat

/-- Nothing but the writers changes the maps: no other process, and no eviction. -/
def CacheEntryConfig.keepsAll (config : CacheEntryConfig) : Bool :=
  !config.hasStore && config.timeout.isNone && config.capacity = U64_MAX

structure LidPnCache where
  config : CacheEntryConfig
  lidToEntry : String → Option LidPnEntry
  pnToEntry : String → Option LidPnEntry
  /-- `identity_continuity`, with the changes it is about. -/
  changes : MutationHistory
  writer : Option Writer

namespace LidPnCache

def withConfig (config : CacheEntryConfig) : LidPnCache where
  config := config
  lidToEntry _ := none
  pnToEntry _ := none
  changes := .start (if config.keepsAll then .default else .unavailable)
  writer := none

def getPhoneNumber (c : LidPnCache) (lid : String) : Option String :=
  (c.lidToEntry lid).map (·.phoneNumber)

def getCurrentLid (c : LidPnCache) (phone : String) : Option String :=
  (c.pnToEntry phone).map (·.lid)

variable (userFingerprint : String → UInt64)

def shouldUpdatePn (c : LidPnCache) (entry : LidPnEntry) : Bool :=
  match c.pnToEntry entry.phoneNumber with
  | some existing => existing.createdAt ≤ entry.createdAt
  | none => true

def mappingChanged (c : LidPnCache) (entry : LidPnEntry) : Bool :=
  c.getPhoneNumber entry.lid ≠ some entry.phoneNumber
    || (c.shouldUpdatePn entry && c.getCurrentLid entry.phoneNumber ≠ some entry.lid)

/-- The users that a new entry touches: its own two names, and those they were
mapped to. -/
def touchedUsers (c : LidPnCache) (entry : LidPnEntry) : List String :=
  [some entry.lid, some entry.phoneNumber, c.getCurrentLid entry.phoneNumber,
    c.getPhoneNumber entry.lid].reduceOption

/-- `add_guarded_impl` up to its first write. -/
def beginAdd (c : LidPnCache) (entry : LidPnEntry) : LidPnCache :=
  if c.mappingChanged entry then
    { c with changes := c.changes.changing userFingerprint (c.touchedUsers entry)
             writer := some (.addingLid entry (c.shouldUpdatePn entry) (some c.changes.scopes.length)) }
  else { c with writer := some (.addingLid entry (c.shouldUpdatePn entry) none) }

/-- `clear` up to its first write. -/
def beginClear (c : LidPnCache) : LidPnCache :=
  { c with changes := c.changes.changing userFingerprint []
           writer := some (.clearingLids c.changes.scopes.length) }

def insertLid (c : LidPnCache) (entry : LidPnEntry) : LidPnCache :=
  { c with lidToEntry := Function.update c.lidToEntry entry.lid (some entry) }

def insertPn (c : LidPnCache) (entry : LidPnEntry) : LidPnCache :=
  { c with pnToEntry := Function.update c.pnToEntry entry.phoneNumber (some entry) }

/-- The writer is over, or dropped, and its guards with it. -/
def dropWriter (c : LidPnCache) (writer : Writer) : LidPnCache :=
  match writer.change with
  | some change => { c with changes := c.changes.endChange change, writer := none }
  | none => { c with writer := none }

/-- What happens to a cache between two awaits. -/
inductive Step : LidPnCache → LidPnCache → Prop where
  | beginAdd (c : LidPnCache) (hidle : c.writer = none) (entry : LidPnEntry) :
      Step c (c.beginAdd userFingerprint entry)
  | insertLid (c : LidPnCache) {entry : LidPnEntry} {updatePn : Bool} {change : Option Nat}
      (hwriter : c.writer = some (.addingLid entry updatePn change)) :
      Step c { c.insertLid entry with writer := some (.addingPn entry updatePn change) }
  | insertPn (c : LidPnCache) {entry : LidPnEntry} {updatePn : Bool} {change : Option Nat}
      (hwriter : c.writer = some (.addingPn entry updatePn change)) :
      Step c { (if updatePn then c.insertPn entry else c) with writer := some (.added change) }
  | beginClear (c : LidPnCache) (hidle : c.writer = none) :
      Step c (c.beginClear userFingerprint)
  | clearLids (c : LidPnCache) {change : Nat} (hwriter : c.writer = some (.clearingLids change)) :
      Step c { c with lidToEntry := fun _ => none, writer := some (.clearingPns change) }
  | clearPns (c : LidPnCache) {change : Nat} (hwriter : c.writer = some (.clearingPns change)) :
      Step c { c with pnToEntry := fun _ => none, writer := some (.cleared change) }
  | dropWriter (c : LidPnCache) {writer : Writer} (hwriter : c.writer = some writer) :
      Step c (c.dropWriter writer)
  | elsewhere (c : LidPnCache) (hconfig : c.config.keepsAll = false)
      (lids pns : String → Option LidPnEntry) :
      Step c { c with lidToEntry := lids, pnToEntry := pns }

abbrev Steps : LidPnCache → LidPnCache → Prop := Relation.ReflTransGen (Step userFingerprint)

end LidPnCache

/-! ## Which mutations touch a user -/

namespace MutationHistory

variable {userFingerprint : String → UInt64} {h₀ h h' : MutationHistory} {user : String}

/-- A later moment keeps the scopes of the mutations there are, and those in progress
were so before or are new. -/
structure Follows (h h' : MutationHistory) : Prop where
  scopes : ∀ (id : Nat) (scope : List String), h.scopes[id]? = some scope →
    h'.scopes[id]? = some scope
  length_le : h.scopes.length ≤ h'.scopes.length
  inProgress : ∀ id ∈ h'.inProgress, id ∈ h.inProgress ∨ h.scopes.length ≤ id

theorem Step.follows (hstep : Step userFingerprint h h') : Follows h h' := by
  cases hstep with
  | changing users =>
    refine ⟨fun id scope hscope => ?_, by simp, fun id hid => ?_⟩
    · exact getElem?_append_of hscope _
    · rcases List.mem_cons.mp hid with rfl | hid
      · exact .inr (Nat.le_refl _)
      · exact .inl hid
  | changingPanics users => exact ⟨fun _ _ hscope => hscope, Nat.le_refl _, fun _ hid => .inl hid⟩
  | endChange id =>
    exact ⟨fun _ _ hscope => hscope, Nat.le_refl _, fun _ hid => .inl (List.mem_of_mem_erase hid)⟩

theorem follows_of_steps (hsteps : Relation.ReflTransGen (Step userFingerprint) h h') :
    Follows h h' := by
  induction hsteps with
  | refl => exact ⟨fun _ _ hscope => hscope, Nat.le_refl _, fun _ hid => .inl hid⟩
  | tail _ hstep ih =>
    have hnext := hstep.follows
    refine ⟨fun id scope hscope => hnext.scopes id scope (ih.scopes id scope hscope),
      Nat.le_trans ih.length_le hnext.length_le, fun id hid => ?_⟩
    rcases hnext.inProgress id hid with hid | hid
    · exact ih.inProgress id hid
    · exact .inr (Nat.le_trans ih.length_le hid)

theorem Touched.later (htouched : Touched h₀ h user)
    (hsteps : Relation.ReflTransGen (Step userFingerprint) h h') : Touched h₀ h' user := by
  obtain ⟨id, scope, hscope, hid, huser⟩ := htouched
  exact ⟨id, scope, (follows_of_steps hsteps).scopes id scope hscope, hid, huser⟩

/-- The users that `unchanged_for` is sure of are not touched since the snapshot. -/
theorem Reachable.not_touched (hreach : Reachable userFingerprint h₀)
    (hsteps : Relation.ReflTransGen (Step userFingerprint) h₀ h) {users : List String}
    (hyes : h.continuity.unchangedFor userFingerprint h₀.continuity.snapshot users = true) :
    ∀ user ∈ users, ¬ Touched h₀ h user := by
  rintro user huser ⟨id, scope, hscope, hid, htouched⟩
  obtain ⟨since, hsnapshot⟩ := exists_snapshot_of_unchangedFor hyes
  rw [hsnapshot] at hyes
  obtain ⟨hne, hnot⟩ := (hreach.steps hsteps).scope_of_unchangedFor hyes hscope
    (hreach.since_le hsnapshot hid)
  rcases htouched with hempty | hmem
  · exact hne hempty
  · exact hnot user huser hmem

/-- A journal that is unavailable at the start stays so. -/
theorem generation_of_unavailable
    (hsteps : Relation.ReflTransGen (Step userFingerprint) (start .unavailable) h) :
    h.continuity.state.generation = U64_MAX := by
  induction hsteps with
  | refl => rfl
  | tail _ hstep ih =>
    cases hstep with
    | changing users =>
      rw [generation_changing, IdentityContinuity.beginChange]
      rw [ih]
      rfl
    | changingPanics users hgeneration =>
      refine absurd ?_ hgeneration
      rw [IdentityContinuity.beginChange]
      rw [ih]
      rfl
    | endChange id => exact ih

end MutationHistory

/-! ## What a change of names leaves behind -/

namespace LidPnCache

variable {userFingerprint : String → UInt64} {c c' : LidPnCache}

/-- The change is in progress and has the user in its scope. -/
def Covers (c : LidPnCache) (change : Option Nat) (user : String) : Prop :=
  ∃ id scope, change = some id ∧ id ∈ c.changes.inProgress ∧ c.changes.scopes[id]? = some scope
    ∧ (scope = [] ∨ user ∈ scope)

/-- What a writer still has to write is covered by its change, or is there already. -/
def Declared (c : LidPnCache) : Writer → Prop
  | .addingLid entry updatePn change =>
    (c.Covers change entry.lid ∨ c.getPhoneNumber entry.lid = some entry.phoneNumber)
      ∧ (updatePn = true →
        c.Covers change entry.phoneNumber ∨ c.getCurrentLid entry.phoneNumber = some entry.lid)
  | .addingPn entry updatePn change =>
    updatePn = true →
      c.Covers change entry.phoneNumber ∨ c.getCurrentLid entry.phoneNumber = some entry.lid
  | .clearingLids change | .clearingPns change => ∀ user, c.Covers (some change) user
  | .added _ | .cleared _ => True

structure Ok (c : LidPnCache) : Prop where
  inProgress : ∀ writer id, c.writer = some writer → writer.change = some id →
    id ∈ c.changes.inProgress
  declared : c.config.keepsAll = true → ∀ writer, c.writer = some writer → c.Declared writer

theorem ok_withConfig (config : CacheEntryConfig) : (withConfig config).Ok :=
  ⟨nofun, fun _ => nofun⟩

/-- The change that has just started covers the users it declares. -/
theorem covers_changing {users : List String} {user : String} {writer : Option Writer}
    (huser : users = [] ∨ user ∈ users) :
    Covers { c with changes := c.changes.changing userFingerprint users, writer := writer }
      (some c.changes.scopes.length) user :=
  ⟨_, users, rfl, List.mem_cons_self, List.getElem?_concat_length, huser⟩

theorem mem_touchedUsers (c : LidPnCache) (entry : LidPnEntry) :
    entry.lid ∈ c.touchedUsers entry ∧ entry.phoneNumber ∈ c.touchedUsers entry := by
  simp [touchedUsers]

theorem ok_beginAdd (c : LidPnCache) (entry : LidPnEntry) :
    (c.beginAdd userFingerprint entry).Ok := by
  rw [beginAdd]
  split
  · refine ⟨?_, ?_⟩
    · rintro _ id ⟨⟩ ⟨⟩
      exact List.mem_cons_self
    · rintro _ _ ⟨⟩
      have hmem := mem_touchedUsers c entry
      exact ⟨.inl (covers_changing (.inr hmem.1)), fun _ => .inl (covers_changing (.inr hmem.2))⟩
  · rename_i hsame
    refine ⟨?_, ?_⟩
    · rintro _ id ⟨⟩ ⟨⟩
    · rintro _ _ ⟨⟩
      obtain ⟨hlid, hpn⟩ : c.getPhoneNumber entry.lid = some entry.phoneNumber
          ∧ (c.shouldUpdatePn entry = true →
            c.getCurrentLid entry.phoneNumber = some entry.lid) := by
        simpa [mappingChanged] using hsame
      exact ⟨.inr hlid, fun hupdate => .inr (hpn hupdate)⟩

/-- A step keeps the configuration, and its changes are those of the journal. -/
theorem Step.ok (hstep : Step userFingerprint c c') (hok : c.Ok) :
    c'.Ok ∧ c'.config = c.config
      ∧ Relation.ReflTransGen (MutationHistory.Step userFingerprint) c.changes c'.changes := by
  cases hstep with
  | beginAdd hidle entry =>
    refine ⟨ok_beginAdd c entry, ?_⟩
    rw [LidPnCache.beginAdd]
    split
    · exact ⟨rfl, .single (.changing _ _)⟩
    · exact ⟨rfl, .refl⟩
  | insertLid hwriter =>
    refine ⟨⟨?_, ?_⟩, rfl, .refl⟩
    · rintro _ id ⟨⟩ hid
      exact hok.inProgress _ id hwriter hid
    · rintro hkeeps _ ⟨⟩
      exact (hok.declared hkeeps _ hwriter).2
  | @insertPn entry updatePn change hwriter =>
    refine ⟨⟨?_, fun _ => ?_⟩, ?_, ?_⟩
    · rintro _ id ⟨⟩ hid
      have hmem := hok.inProgress _ id hwriter hid
      split <;> exact hmem
    · rintro _ ⟨⟩
      trivial
    · split <;> rfl
    · split <;> exact .refl
  | beginClear hidle =>
    refine ⟨⟨?_, ?_⟩, rfl, .single (.changing _ _)⟩
    · rintro _ id ⟨⟩ ⟨⟩
      exact List.mem_cons_self
    · rintro _ _ ⟨⟩
      exact fun user => covers_changing (.inl rfl)
  | clearLids hwriter =>
    refine ⟨⟨?_, ?_⟩, rfl, .refl⟩
    · rintro _ id ⟨⟩ hid
      exact hok.inProgress _ id hwriter hid
    · rintro hkeeps _ ⟨⟩
      exact hok.declared hkeeps _ hwriter
  | clearPns hwriter =>
    refine ⟨⟨?_, fun _ => ?_⟩, rfl, .refl⟩
    · rintro _ id ⟨⟩ hid
      exact hok.inProgress _ id hwriter hid
    · rintro _ ⟨⟩
      trivial
  | @dropWriter writer hwriter =>
    rw [LidPnCache.dropWriter]
    split
    · rename_i change hchange
      exact ⟨⟨nofun, fun _ => nofun⟩, rfl,
        .single (.endChange _ change (hok.inProgress _ change hwriter hchange))⟩
    · exact ⟨⟨nofun, fun _ => nofun⟩, rfl, .refl⟩
  | elsewhere hconfig lids pns =>
    refine ⟨⟨hok.inProgress, fun hkeeps => ?_⟩, rfl, .refl⟩
    exact absurd (hconfig.symm.trans hkeeps) (by decide)

/-- The two lookups of a user give the same at both moments. -/
def SameNames (c c' : LidPnCache) (user : String) : Prop :=
  c'.getPhoneNumber user = c.getPhoneNumber user ∧ c'.getCurrentLid user = c.getCurrentLid user

theorem sameNames_insertLid {entry : LidPnEntry} {user : String}
    (h : user = entry.lid → c.getPhoneNumber entry.lid = some entry.phoneNumber)
    (writer : Option Writer) : SameNames c { c.insertLid entry with writer := writer } user := by
  refine ⟨?_, rfl⟩
  rw [getPhoneNumber, insertLid]
  dsimp only
  by_cases huser : user = entry.lid
  · rw [huser, Function.update_self]
    exact (h huser).symm
  · rw [Function.update_of_ne huser]
    rfl

theorem sameNames_insertPn {entry : LidPnEntry} {user : String}
    (h : user = entry.phoneNumber → c.getCurrentLid entry.phoneNumber = some entry.lid)
    (writer : Option Writer) : SameNames c { c.insertPn entry with writer := writer } user := by
  refine ⟨rfl, ?_⟩
  rw [getCurrentLid, insertPn]
  dsimp only
  by_cases huser : user = entry.phoneNumber
  · rw [huser, Function.update_self]
    exact (h huser).symm
  · rw [Function.update_of_ne huser]
    rfl

/-- A step changes the names of those users only that its change in progress
covers. -/
theorem Step.sameNames (hstep : Step userFingerprint c c') (hok : c.Ok)
    (hkeeps : c.config.keepsAll = true) (user : String) :
    SameNames c c' user ∨ ∃ change, c.Covers change user := by
  cases hstep with
  | beginAdd hidle entry =>
    rw [LidPnCache.beginAdd]
    split <;> exact .inl ⟨rfl, rfl⟩
  | @insertLid entry updatePn change hwriter =>
    rcases (hok.declared hkeeps _ hwriter).1 with hcovers | hsame
    · by_cases huser : user = entry.lid
      · exact .inr ⟨change, huser ▸ hcovers⟩
      · exact .inl (sameNames_insertLid (fun h => absurd h huser) _)
    · exact .inl (sameNames_insertLid (fun _ => hsame) _)
  | @insertPn entry updatePn change hwriter =>
    cases hupdate : updatePn with
    | false => exact .inl ⟨rfl, rfl⟩
    | true =>
      rcases hok.declared hkeeps _ hwriter hupdate with hcovers | hsame
      · by_cases huser : user = entry.phoneNumber
        · exact .inr ⟨change, huser ▸ hcovers⟩
        · exact .inl (sameNames_insertPn (fun h => absurd h huser) _)
      · exact .inl (sameNames_insertPn (fun _ => hsame) _)
  | beginClear hidle => exact .inl ⟨rfl, rfl⟩
  | clearLids hwriter => exact .inr ⟨_, hok.declared hkeeps _ hwriter user⟩
  | clearPns hwriter => exact .inr ⟨_, hok.declared hkeeps _ hwriter user⟩
  | dropWriter hwriter =>
    rw [LidPnCache.dropWriter]
    split <;> exact .inl ⟨rfl, rfl⟩
  | elsewhere hconfig lids pns => exact absurd (hconfig.symm.trans hkeeps) (by decide)

/-- What a run keeps, with the changes it is made of. -/
theorem Steps.ok (hsteps : Steps userFingerprint c c') (hok : c.Ok) :
    c'.Ok ∧ c'.config = c.config
      ∧ Relation.ReflTransGen (MutationHistory.Step userFingerprint) c.changes c'.changes := by
  induction hsteps with
  | refl => exact ⟨hok, rfl, .refl⟩
  | tail _ hstep ih =>
    obtain ⟨hok, hconfig, hchanges⟩ := ih
    obtain ⟨hok', hconfig', hchanges'⟩ := hstep.ok hok
    exact ⟨hok', hconfig'.trans hconfig, hchanges.trans hchanges'⟩

/-- Over a run, the names of a user are the same, or it has been touched. -/
theorem Steps.sameNames (hsteps : Steps userFingerprint c c') (hok : c.Ok)
    (hkeeps : c.config.keepsAll = true) (user : String) :
    SameNames c c' user ∨ c.changes.Touched c'.changes user := by
  induction hsteps with
  | refl => exact .inl ⟨rfl, rfl⟩
  | tail hsteps hstep ih =>
    obtain ⟨hok, hconfig, hchanges⟩ := Steps.ok hsteps hok
    have hnext := (hstep.ok hok).2.2
    rcases ih with hsame | htouched
    · rcases hstep.sameNames hok (hconfig ▸ hkeeps) user with hsame' | ⟨change, hcovers⟩
      · exact .inl ⟨hsame'.1.trans hsame.1, hsame'.2.trans hsame.2⟩
      · obtain ⟨id, scope, -, hid, hscope, huser⟩ := hcovers
        have hopen := (MutationHistory.follows_of_steps hchanges).inProgress id hid
        exact .inr (MutationHistory.Touched.later ⟨id, scope, hscope, hopen, huser⟩ hnext)
    · exact .inr (htouched.later hnext)

end LidPnCache

end WaCore.Store
