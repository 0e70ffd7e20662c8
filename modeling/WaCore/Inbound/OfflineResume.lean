import Mathlib.Algebra.Group.Nat.Defs
import Mathlib.Data.List.Basic
import Mathlib.Tactic.Common

/-!
# The pull loop for the offline backlog

`client/offline_resume.rs`: the server announces a backlog, delivers a primer and then
waits for requests, each for a batch of stanzas.  The first stanza that arrives after a
request schedules the next one.  Who is first is settled by a flag, which the scheduled
task sets again once its request is sent.

The tasks are cut at every atomic operation and every `await`, and `PullSystem.step` runs
one piece of one of them, or a piece of the server or the read loop.  The drain has one
connection and one preview, every send succeeds, and the watchdog that completes a drain
without stanzas is left out.  Handlers of different stanzas may overlap.
-/

namespace WaCore.Inbound

def BATCH_SIZE : Nat := 200

structure OfflineBatchCoordinator where
  armed : Bool
  generation : Nat
  prevBatchInflight : Bool
  stanzaActivity : Nat
  deriving DecidableEq, Repr

/-- The fields of the client that the pull loop works on. -/
structure PullClient where
  offlineBatch : OfflineBatchCoordinator
  connectionGeneration : Nat
  offlineSyncCompleted : Bool
  /-- `offline_sync_metrics`. -/
  active : Bool
  totalMessages : Nat
  processedMessages : Nat
  deriving DecidableEq, Repr

namespace PullClient

def setArmed (c : PullClient) (armed : Bool) : PullClient :=
  { c with offlineBatch := { c.offlineBatch with armed } }

def setGeneration (c : PullClient) (generation : Nat) : PullClient :=
  { c with offlineBatch := { c.offlineBatch with generation } }

def setInflight (c : PullClient) (prevBatchInflight : Bool) : PullClient :=
  { c with offlineBatch := { c.offlineBatch with prevBatchInflight } }

def setActivity (c : PullClient) (stanzaActivity : Nat) : PullClient :=
  { c with offlineBatch := { c.offlineBatch with stanzaActivity } }

end PullClient

/-! ## The tasks -/

/-- Where `send_first_batch` stands, with the stores of `arm` one by one. -/
inductive FirstBatchTask where
  | loadConnection
  | storeGeneration (generation : Nat)
  | storeActivity
  | storeInflight
  | storeArmed
  | send
  | sending
  | returned
  deriving DecidableEq, Repr

/-- One piece of the task, and whether it puts a request on the wire. -/
def FirstBatchTask.run (c : PullClient) : FirstBatchTask → PullClient × FirstBatchTask × Bool
  | loadConnection => (c, storeGeneration c.connectionGeneration, false)
  | storeGeneration generation => (c.setGeneration generation, storeActivity, false)
  | storeActivity => (c.setActivity 0, storeInflight, false)
  | storeInflight => (c.setInflight true, storeArmed, false)
  | storeArmed => (c.setArmed true, send, false)
  | send => (c, sending, true)
  | sending => (c, returned, false)
  | returned => (c, returned, false)

/-- Where a task of `schedule_continuation` stands. -/
inductive ContinuationTask where
  | sleeping (generation : Nat)
  | loadArmed (generation : Nat)
  | loadGeneration (generation : Nat)
  | loadConnection (generation : Nat)
  | loadCompleted (generation : Nat)
  | send (generation : Nat)
  | sending (generation : Nat)
  | reloadArmed (generation : Nat)
  | reloadGeneration (generation : Nat)
  /-- `mark_batch_inflight`. -/
  | republish (generation : Nat)
  deriving DecidableEq, Repr

/-- One piece of the task, where it goes on, and whether it puts a request on the wire. -/
def ContinuationTask.run (c : PullClient) :
    ContinuationTask → PullClient × Option ContinuationTask × Bool
  | sleeping generation => (c, some (loadArmed generation), false)
  | loadArmed generation =>
    (c, if c.offlineBatch.armed then some (loadGeneration generation) else none, false)
  | loadGeneration generation =>
    (c, if c.offlineBatch.generation = generation then some (loadConnection generation) else none,
      false)
  | loadConnection generation =>
    (c, if c.connectionGeneration ≠ generation then none else some (loadCompleted generation),
      false)
  | loadCompleted generation =>
    (c, if c.offlineSyncCompleted then none else some (send generation), false)
  | send generation => (c, some (sending generation), true)
  | sending generation => (c, some (reloadArmed generation), false)
  | reloadArmed generation =>
    (c, if c.offlineBatch.armed then some (reloadGeneration generation) else none, false)
  | reloadGeneration generation =>
    (c, if c.offlineBatch.generation = generation then some (republish generation) else none,
      false)
  | republish _ => (c.setInflight true, none, false)

/-- Where `process_node` stands with a stanza of the backlog, `on_offline_stanza_arrived`
included. -/
inductive StanzaTask where
  | loadActive
  | countProcessed
  | loadTotal (processed : Nat)
  | loadConnection (processed total : Nat)
  | loadArmed (processed total generation : Nat)
  | loadGeneration (processed total generation : Nat)
  | noteActivity (processed total generation : Nat)
  /-- `try_claim_first_arrival`, unless nothing is pending. -/
  | claim (processed total generation : Nat)
  | schedule (processed total generation : Nat)
  | finish (processed total : Nat)
  deriving DecidableEq, Repr

/-- One piece of the handler, where it goes on, and the task it schedules. -/
def StanzaTask.run (c : PullClient) :
    StanzaTask → PullClient × Option StanzaTask × Option ContinuationTask
  | loadActive => (c, if c.active then some countProcessed else none, none)
  | countProcessed =>
    let processed := c.processedMessages + 1
    ({ c with processedMessages := processed }, some (loadTotal processed), none)
  | loadTotal processed => (c, some (loadConnection processed c.totalMessages), none)
  | loadConnection processed total =>
    (c, some (loadArmed processed total c.connectionGeneration), none)
  | loadArmed processed total generation =>
    (c, some (if c.offlineBatch.armed then loadGeneration processed total generation
      else finish processed total), none)
  | loadGeneration processed total generation =>
    (c, some (if c.offlineBatch.generation = generation then
      noteActivity processed total generation else finish processed total), none)
  | noteActivity processed total generation =>
    (c.setActivity ((c.offlineBatch.stanzaActivity + 1) % 2 ^ 64),
      some (claim processed total generation), none)
  | claim processed total generation =>
    let pending := total - processed
    if pending = 0 then (c, some (finish processed total), none)
    else if c.offlineBatch.prevBatchInflight then
      (c.setInflight false, some (schedule processed total generation), none)
    else (c, some (finish processed total), none)
  | schedule processed total generation =>
    (c, some (finish processed total), some (.sleeping generation))
  | finish processed total =>
    (if total ≤ processed then { c with active := false } else c, none, none)

/-! ## The drain -/

structure PullSystem where
  client : PullClient
  first : FirstBatchTask
  stanzas : List StanzaTask
  continuations : List ContinuationTask
  /-- Requests that the server has not received. -/
  requests : Nat
  /-- Stanzas that the server has released and the read loop has not taken. -/
  inFlight : Nat
  released : Nat
  deriving DecidableEq, Repr

inductive PullEvent where
  | first
  | stanza (i : Nat)
  | continuation (i : Nat)
  /-- The server receives a request and releases that many stanzas. -/
  | serve (count : Nat)
  | arrive
  deriving DecidableEq, Repr

namespace PullSystem

/-- The preview is processed, and the primer is on its way. -/
def start (connectionGeneration primer rest : Nat) : PullSystem where
  client :=
    { offlineBatch := ⟨false, 0, false, 0⟩
      connectionGeneration
      offlineSyncCompleted := false
      active := true
      totalMessages := primer + rest
      processedMessages := 0 }
  first := .loadConnection
  stanzas := []
  continuations := []
  requests := 0
  inFlight := primer
  released := primer

/-- The task of place `i` goes on as `next`, or is over. -/
def replaceAt {α : Type} (tasks : List α) (i : Nat) (next : Option α) : List α :=
  tasks.take i ++ next.toList ++ tasks.drop (i + 1)

/-- What the server may release for a request: something while there is something left. -/
def MayRelease (s : PullSystem) (count : Nat) : Prop :=
  count ≤ BATCH_SIZE ∧ s.released + count ≤ s.client.totalMessages ∧
    (s.released < s.client.totalMessages → 0 < count)

instance decidableMayRelease (s : PullSystem) (count : Nat) : Decidable (s.MayRelease count) :=
  inferInstanceAs (Decidable (_ ∧ _))

def step (s : PullSystem) : PullEvent → Option PullSystem
  | .first =>
    let (client, first, sent) := s.first.run s.client
    some { s with client, first, requests := s.requests + sent.toNat }
  | .stanza i => do
    let task ← s.stanzas[i]?
    let (client, next, scheduled) := task.run s.client
    some { s with
      client
      stanzas := replaceAt s.stanzas i next
      continuations := s.continuations ++ scheduled.toList }
  | .continuation i => do
    let task ← s.continuations[i]?
    let (client, next, sent) := task.run s.client
    some { s with
      client
      continuations := replaceAt s.continuations i next
      requests := s.requests + sent.toNat }
  | .serve count =>
    if 0 < s.requests ∧ s.MayRelease count then
      some { s with
        requests := s.requests - 1
        inFlight := s.inFlight + count
        released := s.released + count }
    else none
  | .arrive =>
    if 0 < s.inFlight then
      some { s with inFlight := s.inFlight - 1, stanzas := s.stanzas ++ [.loadActive] }
    else none

def run : PullSystem → List PullEvent → Option PullSystem
  | s, [] => some s
  | s, event :: events => do (← s.step event).run events

/-- Nothing is sent or scheduled, and every released stanza is processed. -/
def Quiescent (s : PullSystem) : Prop :=
  s.first = .returned ∧ s.requests = 0 ∧ s.continuations = [] ∧ s.inFlight = 0 ∧ s.stanzas = []

end PullSystem

end WaCore.Inbound
