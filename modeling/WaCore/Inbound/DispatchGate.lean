import WaCore.Binary.Jid
import WaCore.Lib.KeyedStore

/-!
# The gate in front of the event bus

`DispatchClaim` (`message.rs`) and `with_message_dispatch` (`message/dispatch.rs`): what
was published of each message, by the digests of its payloads.  A payload is claimed with
the token of the publication it is part of, and the token of a publication that is
interrupted makes the claim void.

A stanza may spell the phone number and the LID of its author.  A claim remembers the other
spelling of its identity, so that a message recovered from the phone, which carries only
one of them, finds the claim.

Each access holds the lock of the table and is one step.  Entries may expire or be evicted
at any time.  The name `admit` is taken in Lean; it is `admitPayload` here.
-/

namespace WaCore.Binary.Jid

def STATUS_BROADCAST_USER : String := "status"

def isGroup (j : Jid) : Bool := j.server = .group

def isBroadcastList (j : Jid) : Bool := j.server = .broadcast && j.user ≠ STATUS_BROADCAST_USER

def isStatusBroadcast (j : Jid) : Bool := j.server = .broadcast && j.user = STATUS_BROADCAST_USER

end WaCore.Binary.Jid

namespace WaCore.Inbound

open Binary (Jid)

/-! ## Identities -/

structure MessageSource where
  chat : Jid
  sender : Jid
  isFromMe : Bool
  senderAlt : Option Jid
  recipientAlt : Option Jid
  deriving DecidableEq, Repr

structure MessageInfo where
  id : String
  source : MessageSource
  deriving DecidableEq, Repr

/-- What makes two deliveries one message: chat, id, author and direction. -/
structure DispatchIdentity where
  chat : Jid
  id : String
  participant : Option Jid
  isFromMe : Bool
  deriving DecidableEq, Repr

/-- Equality of identities, with `PartialEq` of their JIDs. -/
def DispatchIdentity.same (a b : DispatchIdentity) : Bool :=
  a.chat.same b.chat && a.id = b.id && a.isFromMe = b.isFromMe
    && a.participant.elim b.participant.isNone fun p => b.participant.any p.same

def dispatchParticipant (info : MessageInfo) : Option Jid :=
  let chat := info.source.chat
  if chat.isGroup || chat.isBroadcastList || chat.isStatusBroadcast then
    some info.source.sender.toNonAd
  else none

def dispatchIdentity (info : MessageInfo) : DispatchIdentity :=
  ⟨info.source.chat, info.id, dispatchParticipant info, info.source.isFromMe⟩

def dispatchIdentityAlias (info : MessageInfo) : Option DispatchIdentity := do
  let source := info.source
  let participant := dispatchParticipant info
  let (primary, alternate) ←
    match participant with
    | some participant => do
      let alternate ← source.senderAlt
      some (participant, alternate)
    | none =>
      if source.isFromMe then do
        let alternate ← source.recipientAlt
        some (source.chat, alternate)
      else do
        let alternate ← source.senderAlt
        if source.sender.toNonAd.same source.chat then some (source.chat, alternate) else none
  if primary.server.isPnFamily && alternate.server.isLidFamily
      || primary.server.isLidFamily && alternate.server.isPnFamily then
    let alternate := alternate.toNonAd
    if participant.isSome then some ⟨source.chat, info.id, some alternate, source.isFromMe⟩
    else some ⟨alternate, info.id, none, source.isFromMe⟩
  else none

section Keys

variable (hashOne : DispatchIdentity → UInt64)

/-- `DispatchKey::new`: a digest that is not zero. -/
def DispatchIdentity.key (identity : DispatchIdentity) : UInt64 :=
  let digest := hashOne identity
  if digest = 0 then 1 else digest

def dispatchKey (info : MessageInfo) : UInt64 := (dispatchIdentity info).key hashOne

def dispatchAlias (info : MessageInfo) : Option UInt64 :=
  (dispatchIdentityAlias info).map (·.key hashOne)

end Keys

/-! ## Claims -/

inductive MessageDispatch where
  | decrypted
  | recovered
  | recoveredCommitted
  deriving DecidableEq, Repr

inductive Publication where
  | pending
  | complete
  | interrupted
  deriving DecidableEq, Repr

def MAX_DISPATCH_PAYLOADS : Nat := 8

abbrev DispatchFingerprint := Vector UInt8 16

structure DispatchPayload where
  fingerprint : DispatchFingerprint
  state : MessageDispatch
  /-- The token of the publication, shared with its guard. -/
  publication : Nat
  deriving DecidableEq

structure DispatchClaim where
  payloads : List DispatchPayload
  aliasKey : Option UInt64
  deriving DecidableEq

section Claims

variable (tokens : Nat → Publication)

/-- The publication of the payload is complete or under way. -/
def DispatchPayload.live (payload : DispatchPayload) : Bool :=
  tokens payload.publication ≠ .interrupted

namespace DispatchClaim

def prune (claim : DispatchClaim) : DispatchClaim :=
  { claim with payloads := claim.payloads.filter (·.live tokens) }

def hasDeliveries (claim : DispatchClaim) : Bool := claim.payloads.any (·.live tokens)

def hasRecovery (claim : DispatchClaim) : Bool :=
  claim.payloads.any fun payload => payload.state ≠ .decrypted && payload.live tokens

def state (claim : DispatchClaim) (fingerprint : DispatchFingerprint) : Option MessageDispatch :=
  (claim.payloads.find? fun payload =>
    payload.fingerprint = fingerprint && payload.live tokens).map (·.state)

/-- What a payload that is claimed already does with a repeat, and whether the repeat is
suppressed. -/
def meetPayload (payload : DispatchPayload) (pdo hookCommitted : Bool) (guard : Nat) :
    DispatchPayload × Bool :=
  if pdo then (payload, true)
  else if payload.state ≠ .decrypted then
    (if hookCommitted then { payload with state := .recoveredCommitted } else payload, true)
  else if tokens payload.publication ≠ .complete then
    ({ payload with publication := guard }, false)
  else (payload, false)

/-- The first live payload with the fingerprint meets the repeat. -/
def meetFirst (fingerprint : DispatchFingerprint) (pdo hookCommitted : Bool) (guard : Nat) :
    List DispatchPayload → Option (List DispatchPayload × Bool)
  | [] => none
  | payload :: payloads =>
    if payload.fingerprint = fingerprint && payload.live tokens then
      let met := meetPayload tokens payload pdo hookCommitted guard
      some (met.1 :: payloads, met.2)
    else (meetFirst fingerprint pdo hookCommitted guard payloads).map fun met =>
      (payload :: met.1, met.2)

def admitPayload (fingerprint : DispatchFingerprint) (pdo hookCommitted : Bool) (guard : Nat)
    (claim : DispatchClaim) : DispatchClaim × Bool :=
  match meetFirst tokens fingerprint pdo hookCommitted guard claim.payloads with
  | some met => ({ claim with payloads := met.1 }, met.2)
  | none =>
    if claim.payloads.length < MAX_DISPATCH_PAYLOADS then
      ({ claim with payloads := claim.payloads ++
        [⟨fingerprint, if pdo then .recovered else .decrypted, guard⟩] }, false)
    else (claim, false)

end DispatchClaim

/-! ## The table of claims -/

abbrev DispatchTable := Keyed UInt64 DispatchClaim

/-- The only key whose claim passes the test. -/
def DispatchTable.findUniqueKey (table : DispatchTable) (test : DispatchClaim → Bool) :
    Option UInt64 :=
  match table.entries.filter fun entry => test entry.2 with
  | [entry] => some entry.1
  | _ => none

/-- The claim of the other spelling, for an ordinary message without one of its own. -/
def recoveryKey (table : DispatchTable) (key alternate : UInt64) :
    DispatchTable × Option UInt64 :=
  match table.lookup alternate with
  | none => (table, none)
  | some claim =>
    let claim := claim.prune tokens
    if !claim.hasRecovery tokens || claim.aliasKey.any (· ≠ key) then
      (table.insert alternate claim, none)
    else (table.insert alternate { claim with aliasKey := some (claim.aliasKey.getD key) },
      some alternate)

/-- A claim of the key that has no live payload is dropped. -/
def dropStale (table : DispatchTable) (key : UInt64) : DispatchTable :=
  match table.lookup key with
  | none => table
  | some claim =>
    let claim := claim.prune tokens
    if claim.payloads.isEmpty then table.erase key else table.insert key claim

variable {R : Type} (hashOne : DispatchIdentity → UInt64)

def withMessageDispatch (table : DispatchTable) (info : MessageInfo) (pdo : Bool)
    (update : DispatchClaim → DispatchClaim × R) : DispatchTable × R :=
  let key := dispatchKey hashOne info
  let table := dropStale tokens table key
  match table.lookup key with
  | some claim =>
    let claim := claim.prune tokens
    let claim := if !pdo && claim.aliasKey.isNone then
      { claim with aliasKey := dispatchAlias hashOne info } else claim
    let updated := update claim
    (table.insert key updated.1, updated.2)
  | none =>
    let aliasKey := if pdo then none else dispatchAlias hashOne info
    let found := if pdo then
        (table, table.findUniqueKey fun claim =>
          claim.hasDeliveries tokens && claim.aliasKey = some key)
      else aliasKey.elim (table, none) (recoveryKey tokens table key)
    let table := found.1
    match found.2.bind fun key => (table.lookup key).map (key, ·) with
    | some (key, claim) =>
      let updated := update (claim.prune tokens)
      (table.insert key updated.1, updated.2)
    | none =>
      let updated := update ⟨[], aliasKey.or (dispatchAlias hashOne info)⟩
      (if updated.1.payloads.isEmpty then table else table.insert key updated.1, updated.2)

end Claims

/-! ## The gate -/

structure DispatchGate where
  table : DispatchTable
  tokens : Nat → Publication

inductive GateEvent where
  /-- `admit_message_dispatch`; without a digest the message passes. -/
  | admission (info : MessageInfo) (pdo : Bool) (fingerprint : Option DispatchFingerprint)
    (hookCommitted : Bool) (guard : Nat)
  /-- The first look of `probe_message_dispatch`. -/
  | look (info : MessageInfo)
  /-- Its second, with the digest of the message. -/
  | probe (info : MessageInfo) (fingerprint : DispatchFingerprint) (hook : Bool)
  /-- `PublicationGuard::complete`. -/
  | complete (guard : Nat)
  /-- A guard is dropped before it is complete. -/
  | interrupt (guard : Nat)
  | expire (key : UInt64)

namespace DispatchGate

def new : DispatchGate := ⟨∅, fun _ => .pending⟩

/-- A guard ends once. -/
def settle (gate : DispatchGate) (guard : Nat) (outcome : Publication) : DispatchGate :=
  if gate.tokens guard = .pending then
    { gate with tokens := Function.update gate.tokens guard outcome }
  else gate

variable (hashOne : DispatchIdentity → UInt64)

/-- One event, and whether it suppresses its message. -/
def step (gate : DispatchGate) : GateEvent → DispatchGate × Bool
  | .admission _ _ none _ _ => (gate, false)
  | .admission info pdo (some fingerprint) hookCommitted guard =>
    let result := withMessageDispatch gate.tokens hashOne gate.table info pdo
      (DispatchClaim.admitPayload gate.tokens fingerprint pdo hookCommitted guard)
    ({ gate with table := result.1 }, result.2)
  | .look info =>
    let result := withMessageDispatch gate.tokens hashOne gate.table info false fun claim =>
      (claim, claim.hasDeliveries gate.tokens)
    ({ gate with table := result.1 }, false)
  | .probe info fingerprint hook =>
    let result := withMessageDispatch gate.tokens hashOne gate.table info false fun claim =>
      (claim, (claim.state gate.tokens fingerprint).any fun state =>
        state ≠ .recovered || !hook)
    ({ gate with table := result.1 }, result.2)
  | .complete guard => (gate.settle guard .complete, false)
  | .interrupt guard => (gate.settle guard .interrupted, false)
  | .expire key => ({ gate with table := gate.table.erase key }, false)

def after (events : List GateEvent) : DispatchGate :=
  events.foldl (fun gate event => (gate.step hashOne event).1) new

/-- The event suppresses its message, after these events. -/
def Suppresses (events : List GateEvent) (event : GateEvent) : Prop :=
  ((after hashOne events).step hashOne event).2 = true

end DispatchGate

end WaCore.Inbound
