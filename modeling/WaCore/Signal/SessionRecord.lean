import WaCore.Signal.SessionState

/-!
# Session records

A record holds the current state of the sessions with an address, the archived
ones, and the lease over the counters of the sender chain (`SessionRecord` in
`state/session.rs`).

The source keeps an archived state encoded; the encoding is left out, and so an
archived state can always be read.  `StoredRecord` is the record with its archived
states encoded, and has the persisted form.
-/

namespace WaCore.Signal

def ARCHIVED_STATES_MAX_LENGTH : Nat := 40

structure SessionRecord where
  currentSession : Option SessionState
  previousSessions : List SessionState
  lease : CounterLease
  deriving DecidableEq, Repr

namespace SessionRecord

def newFresh : SessionRecord := ⟨none, [], .fresh⟩

/-- A counter past the reservation reserves a batch. -/
def reserveSenderChainCounters (record : SessionRecord) (spentCounter : UInt32) : SessionRecord :=
  { record with lease := record.lease.reserve spentCounter }

def rebaseLeaseAfterSenderChainReset (record : SessionRecord) : SessionRecord :=
  { record with lease := record.lease.rebase }

def clearPendingReservation (record : SessionRecord) : SessionRecord :=
  { record with lease := record.lease.setPendingFlush false }

/-! ## Archiving and promotion -/

/-- Archive the current state; a full archive loses its oldest one. -/
def archiveCurrentState (record : SessionRecord) : SessionRecord :=
  match record.currentSession with
  | none => record
  | some state =>
    let sessions :=
      if ARCHIVED_STATES_MAX_LENGTH ≤ record.previousSessions.length then
        record.previousSessions.dropLast
      else record.previousSessions
    { record with currentSession := none
                  previousSessions := state.clearUnacknowledgedPreKeyMessage :: sessions }

/-- A state that may have been current before is advanced past the reservation. -/
def promoteState (C : Crypto) (record : SessionRecord) (newState : SessionState) : SessionRecord :=
  let record := record.archiveCurrentState
  let state :=
    if 0 < record.lease.ceiling then newState.fastForwardSenderChainOrDrop C record.lease.ceiling
    else newState
  { record with currentSession := some state }

/-- A state with a new sender chain starts without a reservation; the one it
replaces is advanced past the old one. -/
def promoteFreshState (C : Crypto) (record : SessionRecord) (newState : SessionState) :
    SessionRecord :=
  let currentSession :=
    if 0 < record.lease.ceiling then
      record.currentSession.map (·.fastForwardSenderChainOrDrop C record.lease.ceiling)
    else record.currentSession
  let record := { record with currentSession := currentSession }.archiveCurrentState
  { record with currentSession := some newState, lease := record.lease.clearReservation }

def takePreviousSession (record : SessionRecord) (index : Nat) :
    Option (SessionState × SessionRecord) := do
  let state ← record.previousSessions[index]?
  pure (state, { record with previousSessions := record.previousSessions.eraseIdx index })

def restorePreviousSession (record : SessionRecord) (index : Nat) (state : SessionState) :
    SessionRecord :=
  if index ≤ record.previousSessions.length then
    { record with previousSessions := record.previousSessions.insertIdx index state }
  else { record with previousSessions := record.previousSessions ++ [state] }

/-- The session is the one a base key started. -/
def isMatchingSession (version : UInt32) (aliceBaseKey : Bytes) (state : SessionState) : Bool :=
  state.version = version && state.aliceBaseKey = aliceBaseKey

/-- Make the session a base key started the current one, if the record has it. -/
def promoteMatchingSession (C : Crypto) (record : SessionRecord) (version : UInt32)
    (aliceBaseKey : Bytes) : Bool × SessionRecord :=
  if record.currentSession.any (isMatchingSession version aliceBaseKey) then (true, record)
  else
    match (record.previousSessions.findIdx? (isMatchingSession version aliceBaseKey)).bind
        record.takePreviousSession with
    | some (state, record) => (true, record.promoteState C state)
    | none => (false, record)

/-- Make an archived session the current one, with its state changed by a
decryption. -/
def promoteOldSession (C : Crypto) (record : SessionRecord) (oldSession : Nat)
    (updatedSession : SessionState) : SessionRecord :=
  { record with previousSessions := record.previousSessions.eraseIdx oldSession }.promoteState C
    updatedSession

end SessionRecord

end WaCore.Signal
