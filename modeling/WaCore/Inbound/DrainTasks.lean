import WaCore.Inbound.CommitBatch

/-!
# The tasks around the batcher

What runs at the same time during and after the drain: stanza workers, the flushes
(a timer's, the finisher's at the end of the drain, the retries of a deferred
transition, those of callers without a permit), and the settling of a connection
that is torn down.  All of them take a permit of message processing first; there is
one during the drain, and there are 64 once the batcher is in live mode.

A task runs from one `await` to the next, and `System.Step` has one rule for each
such piece; a task can be dropped at every `await`.  Who asks for a flush, and when,
is left open, and so is what else goes through the gate: recoveries from the phone, and
probes before a message is dispatched.  There is no rule for a reset of the batcher
and none for `force_live_dropping_entries`.
-/

namespace WaCore.Inbound

/-- Neither an admission nor the end of a publication that has not begun. -/
def GateEvent.beside (publications : Nat) : GateEvent → Bool
  | admission .. => false
  | complete guard | interrupt guard => guard < publications
  | _ => true

/-- The callers of `flush_inbound_commits_under_permit`. -/
inductive FlushCall where
  | timer (epoch : Nat)
  /-- `finish_inbound_commit_drain`, from `finish_offline_sync`. -/
  | finisher (generation : Nat)
  /-- `arm_deferred_transition_retry`. -/
  | retry (generation : Nat)
  /-- `flush_inbound_commits_bounded` and `flush_signal_cache_batch_safe`. -/
  | plain
  deriving DecidableEq, Repr

namespace FlushCall

def deactivate : FlushCall → Bool
  | finisher _ => true
  | _ => false

def expectedEpoch : FlushCall → Option Nat
  | timer epoch => some epoch
  | _ => none

def expectedGeneration : FlushCall → Option Nat
  | finisher generation | retry generation => some generation
  | _ => none

end FlushCall

/-- Where a task waits.  A permit is the generation of its semaphore. -/
inductive Task where
  | idle
  /-- A stanza worker that decrypts. -/
  | stanza (permit : Nat)
  /-- A stanza worker that commits: a live message or the batch before an identity
  change, or at its end the batch that is over its size. -/
  | stanzaCommit (permit : Nat) (commit : Commit) (last : Bool)
  | flush (call : FlushCall)
  | flushCommit (permit : Nat) (call : FlushCall) (wasDraining : Bool) (commit : Commit)
  /-- A flush without messages, of the Signal cache only. -/
  | flushSignal (permit : Nat) (call : FlushCall) (wasDraining : Bool)
  /-- `finish_offline_sync` after its flush. -/
  | publishing (generation : Nat) (durable : Bool)
  | teardown
  | teardownCommit (permit : Nat) (commit : Commit)
  /-- The Signal cache is flushed or cleared. -/
  | settling (permit : Nat)

namespace Task

def permit : Task → Option Nat
  | stanza permit | stanzaCommit permit _ _ | flushCommit permit _ _ _ | flushSignal permit _ _
  | teardownCommit permit _ | settling permit => some permit
  | _ => none

def commit : Task → Option Commit
  | stanzaCommit _ commit _ | flushCommit _ _ _ commit | teardownCommit _ commit => some commit
  | _ => none

end Task

structure System where
  client : Client
  tasks : Nat → Task

namespace System

def start : System := ⟨.new, fun _ => .idle⟩

def setTask (s : System) (t : Nat) (task : Task) : System :=
  { s with tasks := Function.update s.tasks t task }

/-- A permit of the current semaphore is taken. -/
def acquire (s : System) : System :=
  { s with client := { s.client with semaphore := { s.client.semaphore with
      available := s.client.semaphore.available - 1 } } }

/-- A permit is given back to its semaphore, and the task goes on without it. -/
def release (s : System) (permit t : Nat) (task : Task) : System :=
  let semaphore := s.client.semaphore
  { s with client := { s.client with semaphore := if permit = semaphore.generation then
      { semaphore with available := semaphore.available + 1 } else semaphore } }.setTask t task

variable (setup : Setup)

/-! ## Stanza workers -/

/-- After a commit of a stanza worker. -/
def stanzaProgress (s : System) (t permit : Nat) (last : Bool) : Client × Progress → System
  | (client, .waiting commit) => { s with client }.setTask t (.stanzaCommit permit commit last)
  | (client, .done durable) =>
    if last then
      let client := if durable && client.batcher.pendingLive then
        client.completeDeferredLiveTransition else client
      { s with client }.release permit t .idle
    else { s with client }.setTask t (.stanza permit)

/-- `commit_or_batch_inbound`. -/
def commitOrBatchInbound (s : System) (t permit : Nat) (item : InboundMessage)
    (trackCommit : Bool) : System :=
  if !s.client.batcher.active then
    s.stanzaProgress t permit false (s.client.commitInboundBatch setup [item] .live none)
  else { s with client := (s.client.enqueueInboundCommit setup item trackCommit).1 }

/-- `commit_inbound_batch_holding_permit`, if the batcher is active. -/
def commitHoldingPermit (s : System) (t permit : Nat) : System :=
  if s.client.batcher.active then
    s.stanzaProgress t permit false (s.client.takeAndCommit setup)
  else s

/-- The end of a stanza, with `maybe_flush_inbound_commits`. -/
def endStanza (s : System) (t permit : Nat) : System :=
  if s.client.batcher.active && s.client.batcher.isOver then
    s.stanzaProgress t permit true (s.client.takeAndCommit setup)
  else s.release permit t .idle

/-! ## Flushes -/

/-- The flush returns; the finisher goes on. -/
def flushReturn (s : System) (t permit : Nat) (call : FlushCall) (durable : Bool) : System :=
  s.release permit t <|
    match call with
    | .finisher generation => .publishing generation durable
    | _ => .idle

/-- What a flush does after its commit: the transition to live mode. -/
def flushDone (s : System) (t permit : Nat) (call : FlushCall) (wasDraining durable : Bool) :
    System :=
  let c := s.client
  if call.expectedGeneration.any (· ≠ c.connectionGeneration) then
    s.flushReturn t permit call durable
  else
    let client :=
      if call.deactivate then
        if durable then { c with batcher := c.batcher.deactivate }
        else if wasDraining then { c with batcher := c.batcher.deferLiveTransition }
        else c
      else if durable && wasDraining && c.batcher.pendingLive then
        c.completeDeferredLiveTransition
      else c
    { s with client }.flushReturn t permit call durable

def flushProgress (s : System) (t permit : Nat) (call : FlushCall) (wasDraining : Bool) :
    Client × Progress → System
  | (client, .waiting commit) =>
    { s with client }.setTask t (.flushCommit permit call wasDraining commit)
  | (client, .done durable) => { s with client }.flushDone t permit call wasDraining durable

/-- `flush_inbound_commits_under_permit`, once it has its permit. -/
def flushUnderPermit (s : System) (t permit : Nat) (call : FlushCall) : System :=
  let c := s.client
  if call.expectedGeneration.any (· ≠ c.connectionGeneration) then
    s.flushReturn t permit call true
  else if call.expectedEpoch.any (· ≠ c.batcher.epoch) then s.flushReturn t permit call true
  else if c.batcher.entries = [] then
    { s with client := { c with batcher := c.batcher.take.2 } }.setTask t
      (.flushSignal permit call c.batcher.active)
  else s.flushProgress t permit call c.batcher.active (c.takeAndCommit setup)

/-- `publish_offline_sync_live_state`. -/
def publishLive (s : System) (t generation : Nat) (durable claimed : Bool) : System :=
  if s.client.connectionGeneration = generation && claimed && durable then
    { s with client := s.client.swapMessageSemaphore 64 }.setTask t .idle
  else s.setTask t .idle

/-! ## Teardown -/

def teardownProgress (s : System) (t permit : Nat) : Client × Progress → System
  | (client, .waiting commit) => { s with client }.setTask t (.teardownCommit permit commit)
  | (client, .done _) => { s with client }.setTask t (.settling permit)

/-! ## Cancellation -/

/-- A task is dropped: first the commit it waits for, then its permit. -/
def cancel (s : System) (t : Nat) : System :=
  let s := match (s.tasks t).commit with
    | some commit => { s with client := s.client.cancelCommit setup commit }
    | none => s
  match (s.tasks t).permit with
  | some permit => s.release permit t .idle
  | none => s.setTask t .idle

/-! ## Steps -/

/-- One task runs to its next `await`.  `ok` is what the call returned that it waited
for. -/
inductive Step : System → System → Prop where
  | startStanza (s : System) (t : Nat) (hidle : s.tasks t = .idle)
    (havailable : 0 < s.client.semaphore.available) :
    Step s (s.acquire.setTask t (.stanza s.client.semaphore.generation))
  | message (s : System) {t permit : Nat} (htask : s.tasks t = .stanza permit)
    (item : InboundMessage) (trackCommit : Bool) :
    Step s (s.commitOrBatchInbound setup t permit item trackCommit)
  | identityChange (s : System) {t permit : Nat} (htask : s.tasks t = .stanza permit) :
    Step s (s.commitHoldingPermit setup t permit)
  | stanzaCommit (s : System) {t permit : Nat} {commit : Commit} {last : Bool}
    (htask : s.tasks t = .stanzaCommit permit commit last) (ok : Bool) :
    Step s (s.stanzaProgress t permit last (s.client.resume setup commit ok))
  | endStanza (s : System) {t permit : Nat} (htask : s.tasks t = .stanza permit) :
    Step s (s.endStanza setup t permit)
  | callFlush (s : System) (t : Nat) (hidle : s.tasks t = .idle) (call : FlushCall)
    (hgeneration : call.expectedGeneration.all (· = s.client.connectionGeneration)) :
    Step s (s.setTask t (.flush call))
  | startFlush (s : System) {t : Nat} {call : FlushCall} (htask : s.tasks t = .flush call)
    (havailable : 0 < s.client.semaphore.available) :
    Step s (s.acquire.flushUnderPermit setup t s.client.semaphore.generation call)
  | flushCommit (s : System) {t permit : Nat} {call : FlushCall} {wasDraining : Bool}
    {commit : Commit} (htask : s.tasks t = .flushCommit permit call wasDraining commit)
    (ok : Bool) :
    Step s (s.flushProgress t permit call wasDraining (s.client.resume setup commit ok))
  | flushSignal (s : System) {t permit : Nat} {call : FlushCall} {wasDraining : Bool}
    (htask : s.tasks t = .flushSignal permit call wasDraining) (ok : Bool) :
    Step s (s.flushDone t permit call wasDraining ok)
  | publishLive (s : System) {t generation : Nat} {durable : Bool}
    (htask : s.tasks t = .publishing generation durable) (claimed : Bool) :
    Step s (s.publishLive t generation durable claimed)
  | callTeardown (s : System) (t : Nat) (hidle : s.tasks t = .idle) :
    Step s (s.setTask t .teardown)
  | startTeardown (s : System) {t : Nat} (htask : s.tasks t = .teardown)
    (havailable : 0 < s.client.semaphore.available) :
    Step s (s.acquire.teardownProgress t s.client.semaphore.generation
      (s.acquire.client.takeAndCommit setup))
  | teardownCommit (s : System) {t permit : Nat} {commit : Commit}
    (htask : s.tasks t = .teardownCommit permit commit) (ok : Bool) :
    Step s (s.teardownProgress t permit (s.client.resume setup commit ok))
  | settled (s : System) {t permit : Nat} (htask : s.tasks t = .settling permit) :
    Step s (s.release permit t .idle)
  | newGeneration (s : System) :
    Step s { s with client := { s.client with
      connectionGeneration := s.client.connectionGeneration + 1 } }
  | cancel (s : System) (t : Nat) : Step s (s.cancel setup t)
  | recover (s : System) (m : InboundMessage) : Step s { s with client := s.client.recover setup m }
  /-- A stanza is probed, the publication of a recovery ends, or a claim expires. -/
  | access (s : System) (event : GateEvent) (hevent : event.beside s.client.publications = true) :
    Step s { s with client := s.client.access event }

/-- The systems that a run from the start of a drain can get to. -/
inductive Reachable : System → Prop where
  | start : Reachable start
  | step {s s' : System} (h : Reachable s) (hstep : Step setup s s') : Reachable s'

end System

end WaCore.Inbound
