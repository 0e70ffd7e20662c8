import WaCore.Inbound.DispatchGate

/-!
# The inbound commit batcher

Decrypted messages are committed in batches while the backlog of an offline
client is drained, and one by one afterwards (`message/commit_batch.rs`).  A batch
is taken from the batcher, repeats of one message in it are collapsed, its rows
are stored, the Signal cache is flushed, and only then is it handed to the
durability hook, acknowledged and dispatched.  A guard puts the batch back when
the commit fails or its future is dropped before the last of these points.

A commit stops at each `await`: `CommitStage` says where, `Client.resume` is what
it does next when the call it waits for returns, and `Client.cancelCommit` when
the future is dropped there.

An `Arc` is its address.  What it points to does not change, so `Setup` has the
contents; the `info` of a message stands for the stanza it came with.  The rows
that the backend stores are not modelled, only whether storing them succeeds, and
neither are receipts, metrics, timers and logs.  The gate that a batch has to pass
before it is dispatched is kept as the accesses to it so far: `DispatchGate.after`
is what they have made of it.
-/

namespace WaCore.Inbound

/-! ## Messages -/

structure InboundMessage where
  message : Nat
  info : Nat
  deriving DecidableEq, Repr

inductive BatchOrigin where
  | offlineDrain
  | live
  deriving DecidableEq, Repr

/-- What the client is set up with: the contents of messages (their encoded form, and
whether they carry a secret envelope) and of infos, the hasher of the process, the
truncated digest of an encoded message, and the two features that are optional. -/
structure Setup where
  wire : Nat → Bytes
  carriesSecretEncrypted : Nat → Bool
  info : Nat → MessageInfo
  hashOne : DispatchIdentity → UInt64
  digest : Bytes → DispatchFingerprint
  hook : Bool
  dispatchGate : Bool

namespace Setup

variable (setup : Setup)

def messageEncodedLen (m : InboundMessage) : Nat := (setup.wire m.message).length

def identity (m : InboundMessage) : DispatchIdentity := dispatchIdentity (setup.info m.info)

def dispatchKey (m : InboundMessage) : UInt64 :=
  Inbound.dispatchKey setup.hashOne (setup.info m.info)

/-! ## Collapsing repeats -/

def MAX_COMPARED_PER_ID : Nat := 8

/-- The payloads kept under each key, in order.  Their encoded forms are cached in
the source. -/
abbrev Seen := UInt64 → List InboundMessage

/-- A message of another stanza with the same content. -/
def repeats (k item : InboundMessage) : Bool :=
  k.info ≠ item.info && (k.message = item.message || setup.wire k.message = setup.wire item.message)

def keep (seen : Seen) (item : InboundMessage) : Bool × Seen :=
  let key := setup.dispatchKey item
  if MAX_COMPARED_PER_ID ≤ (seen key).length then (true, seen)
  else if (seen key).any (setup.repeats · item) then (false, seen)
  else (true, Function.update seen key (seen key ++ [item]))

/-- `items.iter().all(..)`. -/
def keepsAll (seen : Seen) : List InboundMessage → Bool
  | [] => true
  | item :: items => (setup.keep seen item).1 && keepsAll (setup.keep seen item).2 items

/-- `items.iter().filter(..)`. -/
def keepFilter (seen : Seen) : List InboundMessage → List InboundMessage
  | [] => []
  | item :: items =>
    let (kept, seen) := setup.keep seen item
    if kept then item :: keepFilter seen items else keepFilter seen items

/-- What the filter leaves out. -/
def keepRest (seen : Seen) : List InboundMessage → List InboundMessage
  | [] => []
  | item :: items =>
    let (kept, seen) := setup.keep seen item
    if kept then keepRest seen items else item :: keepRest seen items

def noneSeen : Seen := fun _ => []

def dedupBatchByMessage (items : List InboundMessage) : List InboundMessage :=
  if items.length < 2 then items
  else if setup.keepsAll noneSeen items then items
  else setup.keepFilter noneSeen items

/-- The messages that a commit of `items` goes on with. -/
def kept (items : List InboundMessage) : List InboundMessage :=
  if setup.dispatchGate then setup.dedupBatchByMessage items else items

/-- Those it leaves out. -/
def collapsed (items : List InboundMessage) : List InboundMessage :=
  if setup.dispatchGate then setup.keepRest noneSeen items else []

/-! ## Passing the gate -/

/-- The digest that a message passes the gate with. -/
def fingerprint (m : InboundMessage) : Option DispatchFingerprint :=
  if setup.dispatchGate && !setup.carriesSecretEncrypted m.message then
    some (setup.digest (setup.wire m.message))
  else none

/-- `admit_message_dispatch` for a message of a batch. -/
def admission (m : InboundMessage) (guard : Nat) : GateEvent :=
  .admission (setup.info m.info) false (setup.fingerprint m) setup.hook guard

/-- The messages of a batch pass the gate in turn.  Those that it lets through, and those
that it suppresses. -/
def admitBatch (guard : Nat) (accesses : List GateEvent) :
    List InboundMessage → List InboundMessage × List InboundMessage
  | [] => ([], [])
  | item :: items =>
    let event := setup.admission item guard
    let suppress := ((DispatchGate.after setup.hashOne accesses).step setup.hashOne event).2
    let (retained, suppressed) := admitBatch guard (accesses ++ [event]) items
    if suppress then (retained, item :: suppressed) else (item :: retained, suppressed)

end Setup

/-! ## The batcher -/

def MAX_BATCH_MESSAGES : Nat := 400

def MAX_BATCH_BYTES : Nat := 4 * 1024 * 1024

/-- `InboundCommitBatcher`, with its `BatchState`.  A ticket is a number. -/
structure InboundCommitBatcher where
  entries : List InboundMessage
  commitTicket : Option Nat
  bytes : Nat
  timerArmed : Bool
  active : Bool
  pendingLive : Bool
  epoch : Nat
  deriving DecidableEq, Repr

structure PendingInboundBatch where
  entries : List InboundMessage
  commitTicket : Option Nat

namespace InboundCommitBatcher

def default : InboundCommitBatcher := ⟨[], none, 0, false, true, false, 0⟩

def take (b : InboundCommitBatcher) : PendingInboundBatch × InboundCommitBatcher :=
  (⟨b.entries, b.commitTicket⟩,
    { b with entries := [], commitTicket := none, bytes := 0, timerArmed := false
             epoch := b.epoch + 1 })

def deactivate (b : InboundCommitBatcher) : InboundCommitBatcher :=
  { b with pendingLive := false, active := false }

def deferLiveTransition (b : InboundCommitBatcher) : InboundCommitBatcher :=
  { b with pendingLive := true }

/-- The size trigger. -/
def isOver (b : InboundCommitBatcher) : Bool :=
  MAX_BATCH_MESSAGES ≤ b.entries.length || MAX_BATCH_BYTES ≤ b.bytes

end InboundCommitBatcher

inductive InboundCommitTicketState where
  | pending
  | durable
  | dropped
  deriving DecidableEq, Repr

/-! ## Commits -/

/-- The `await`s of `commit_inbound_batch`. -/
inductive CommitStage where
  /-- The lock of the shared encode arena. -/
  | arena
  /-- `store_pending_inbound_batch`. -/
  | storing
  /-- `drain_signal_flush_reporting`. -/
  | flushing
  /-- `on_messages` of the hook. -/
  | hook
  /-- `delete_pending_inbound_batch`. -/
  | deleting
  deriving DecidableEq, Repr

/-- The guard is still armed: the batch is not durable. -/
def CommitStage.armed : CommitStage → Bool
  | .arena | .storing | .flushing => true
  | .hook | .deleting => false

structure Commit where
  items : List InboundMessage
  arrived : List InboundMessage
  origin : BatchOrigin
  commitTicket : Option Nat
  stage : CommitStage
  deriving DecidableEq, Repr

/-- Where a commit has got to. -/
inductive Progress where
  | done (durable : Bool)
  | waiting (commit : Commit)

/-- What has become of the messages so far.  `arrived`, `collapsed`, `settled`,
`recovered` and `abandoned` are about those that were batched: that arrived, that a
commit left out, whose batch became durable, that the gate suppressed, and whose batch
was not dispatched after it became durable.  `accesses` are those to the gate. -/
structure History where
  arrived : List InboundMessage
  collapsed : List InboundMessage
  settled : List InboundMessage
  recovered : List InboundMessage
  abandoned : List InboundMessage
  hookCalls : List (BatchOrigin × List InboundMessage)
  events : List (BatchOrigin × List InboundMessage)
  acked : List Nat
  accesses : List GateEvent

/-- The semaphore of message processing: how often it was replaced, and the permits
that are left in the current one. -/
structure MessageSemaphore where
  generation : Nat
  available : Nat
  deriving DecidableEq, Repr

structure Client where
  batcher : InboundCommitBatcher
  tickets : List InboundCommitTicketState
  connectionGeneration : Nat
  semaphore : MessageSemaphore
  /-- How many publications have begun; the next guard of one. -/
  publications : Nat
  history : History

namespace Client

/-- A client at the start of the drain. -/
def new : Client :=
  ⟨.default, [], 0, ⟨0, 1⟩, 0, ⟨[], [], [], [], [], [], [], [], []⟩⟩

/-- `InboundCommitTicket::resolve`: only a pending ticket changes. -/
def resolveTicket (c : Client) (state : InboundCommitTicketState) : Option Nat → Client
  | none => c
  | some ticket =>
    { c with tickets := c.tickets.modify ticket fun s => if s = .pending then state else s }

def swapMessageSemaphore (c : Client) (permits : Nat) : Client :=
  { c with semaphore := ⟨c.semaphore.generation + 1, permits⟩ }

/-- `complete_deferred_live_transition`. -/
def completeDeferredLiveTransition (c : Client) : Client :=
  { c with batcher := c.batcher.deactivate }.swapMessageSemaphore 64

variable (setup : Setup)

/-- A message joins the batch.  The epoch for a timer is returned if one has to be
armed, and the ticket of the batch if the caller tracks it. -/
def enqueueInboundCommit (c : Client) (item : InboundMessage) (trackCommit : Bool) :
    Client × Option Nat × Option Nat :=
  let ticket := c.batcher.commitTicket.getD c.tickets.length
  let c := { c with history := { c.history with arrived := c.history.arrived ++ [item] } }
  let epoch := if c.batcher.timerArmed then none else some c.batcher.epoch
  let batcher := { c.batcher with
    entries := c.batcher.entries ++ [item]
    bytes := c.batcher.bytes + setup.messageEncodedLen item
    timerArmed := true }
  if trackCommit then
    ({ c with batcher := { batcher with commitTicket := some ticket }
              tickets := if c.batcher.commitTicket.isNone then c.tickets ++ [.pending]
                else c.tickets }, epoch, some ticket)
  else ({ c with batcher }, epoch, none)

/-- `ReinsertGuard::drop`, with the batch still in the guard. -/
def reinsert (c : Client) (items : List InboundMessage) (commitTicket : Option Nat) : Client :=
  let entries := items ++ c.batcher.entries
  let batcher := { c.batcher with
    entries
    bytes := (entries.map setup.messageEncodedLen).sum
    timerArmed := false }
  if c.batcher.commitTicket.isSome then
    { c with batcher }.resolveTicket .dropped commitTicket
  else { c with batcher := { batcher with commitTicket } }

/-- The guard of a commit is dropped: only a drain batch is put back. -/
def dropGuard (c : Client) (commit : Commit) : Client :=
  if commit.origin = .offlineDrain then c.reinsert setup commit.items commit.commitTicket else c

/-- The guard lets go of the batch. -/
def markDurable (c : Client) (commit : Commit) : Client :=
  let c := c.resolveTicket .durable commit.commitTicket
  if commit.origin = .offlineDrain then
    { c with history := { c.history with settled := c.history.settled ++ commit.items } }
  else c

/-- The batch is handed to the hook. -/
def callHook (c : Client) (commit : Commit) : Client × Progress :=
  let c := c.markDurable commit
  ({ c with history := { c.history with
      hookCalls := c.history.hookCalls ++ [(commit.origin, commit.items)] } },
    .waiting { commit with stage := .hook })

/-- The batch is not dispatched: the hook failed, or nobody polls the commit any more. -/
def abandon (c : Client) (commit : Commit) : Client :=
  if commit.origin = .offlineDrain then
    { c with history := { c.history with abandoned := c.history.abandoned ++ commit.items } }
  else c

/-- Admission at the gate, acknowledgements and the event, with nothing to wait for in
between. -/
def publish (c : Client) (commit : Commit) : Client :=
  let h := c.history
  let guard := c.publications
  let (items, suppressed) := setup.admitBatch guard h.accesses commit.items
  { c with
    publications := guard + 1
    history := { h with
      acked := h.acked ++ commit.arrived.map (·.info)
      events := if items = [] then h.events else h.events ++ [(commit.origin, items)]
      recovered := if commit.origin = .offlineDrain then h.recovered ++ suppressed
        else h.recovered
      accesses := h.accesses ++ commit.items.map (setup.admission · guard) ++ [.complete guard] } }

/-- An access to the gate from outside the batcher. -/
def access (c : Client) (event : GateEvent) : Client :=
  { c with history := { c.history with accesses := c.history.accesses ++ [event] } }

/-- A message recovered from the phone passes the gate.  Its event goes around the
batcher. -/
def recover (c : Client) (m : InboundMessage) : Client :=
  { c with publications := c.publications + 1 }.access
    (.admission (setup.info m.info) true (setup.fingerprint m) false c.publications)

/-- `commit_inbound_batch` up to its first `await`. -/
def commitInboundBatch (c : Client) (items : List InboundMessage) (origin : BatchOrigin)
    (commitTicket : Option Nat) : Client × Progress :=
  if items = [] then (c, .done true)
  else
    let commit : Commit := ⟨setup.kept items, items, origin, commitTicket, .arena⟩
    match origin, setup.hook with
    | .offlineDrain, hook =>
      let c := { c with history := { c.history with
        collapsed := c.history.collapsed ++ setup.collapsed items } }
      (c, .waiting { commit with stage := if hook then .arena else .flushing })
    | .live, true => (c, .waiting { commit with stage := .storing })
    | .live, false => ((c.markDurable commit).publish setup commit, .done true)

/-- The batch is taken and its commit begins. -/
def takeAndCommit (c : Client) : Client × Progress :=
  let (batch, batcher) := c.batcher.take
  { c with batcher }.commitInboundBatch setup batch.entries .offlineDrain batch.commitTicket

/-- The call that a commit waits for returns. -/
def resume (c : Client) (commit : Commit) (ok : Bool) : Client × Progress :=
  match commit.stage with
  | .arena => (c, .waiting { commit with stage := .storing })
  | .storing =>
    if !ok then (c.dropGuard setup commit, .done false)
    else if commit.origin = .offlineDrain then (c, .waiting { commit with stage := .flushing })
    else c.callHook commit
  | .flushing =>
    if !ok then (c.dropGuard setup commit, .done false)
    else if setup.hook then c.callHook commit
    else ((c.markDurable commit).publish setup commit, .done true)
  | .hook => if ok then (c, .waiting { commit with stage := .deleting })
    else (c.abandon commit, .done true)
  | .deleting => (c.publish setup commit, .done true)

/-- The future of a commit is dropped. -/
def cancelCommit (c : Client) (commit : Commit) : Client :=
  if commit.stage.armed then c.dropGuard setup commit else c.abandon commit

end Client

end WaCore.Inbound
