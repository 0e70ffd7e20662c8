import WaCore.Binary.JidText
import WaCore.Send.Dm
import WaCore.Store.LidPnCache

/-!
# Repair of a group message

When the server has addressed other devices of a group than a send did, the send is
repaired (`group_repair.rs`): group and devices are queried again, and the message
is encrypted once more for the devices that were missed, of the members it was
addressed to.  A member whose account has changed since the send gets nothing.

The repair awaits many times, and anything may change meanwhile.  `Stage` says which
await it is at, with what it has in hand, and the functions below are the pieces of
code between two awaits; what an await returns is up to the environment.  A repair
can be dropped at each of them.

The refresh that repairs of one group share, its cooldown and the bookkeeping of
revoked messages are not modelled: to a repair, they are an answer of the
environment or the end.
-/

namespace WaCore.Binary

namespace Jid

def isPn (j : Jid) : Bool := j.server = .pn

def isLid (j : Jid) : Bool := j.server = .lid

def lidDevice (user : String) (device : UInt16) : Jid := ⟨user, .lid, 0, device, 0⟩

end Jid

/-- `attrs().optional_jid`. -/
def Node.optionalJid (node : Node) (key : String) : Option Jid :=
  match node.attrs.lookup key with
  | some (.jid j) => some j
  | some (.string s) => (Jid.fromStr s).toOption
  | none => none

end WaCore.Binary

namespace WaCore.Send

open Binary (Jid Node NodeValue NodeContent)
open Store (MutationHistory LidPnCache)

/-! ## Members of a group -/

inductive AddressingMode where
  | pn
  | lid
  deriving DecidableEq, Repr

def AddressingMode.asStr : AddressingMode → String
  | pn => "pn"
  | lid => "lid"

/-- The pairs are in the order of their LIDs, and no LID has two. -/
structure GroupRoutingInfo where
  participants : List Jid
  addressingMode : AddressingMode
  lidPn : List (String × Jid)

namespace GroupRoutingInfo

def phoneJidForLidUser (info : GroupRoutingInfo) (lidUser : String) : Option Jid :=
  (info.lidPn.find? fun pair => pair.1 = lidUser).map (·.2)

/-- Of several LIDs with one phone number, the last. -/
def lidUserForPhoneUser (info : GroupRoutingInfo) (phoneUser : String) : Option String :=
  (info.lidPn.reverse.find? fun pair => pair.2.user = phoneUser).map (·.1)

def removeParticipants (info : GroupRoutingInfo) (usersToRemove : List String) :
    GroupRoutingInfo :=
  let doomedLids := usersToRemove.filterMap info.lidUserForPhoneUser
  { info with
    participants := info.participants.filter fun p => !usersToRemove.contains p.user
    lidPn :=
      if !doomedLids.isEmpty
          || usersToRemove.any (fun user => (info.phoneJidForLidUser user).isSome) then
        info.lidPn.filter fun pair =>
          !usersToRemove.contains pair.1 && !doomedLids.contains pair.1
      else info.lidPn }

def phoneDeviceJidIntoLid (info : GroupRoutingInfo) (device : Jid) : Jid :=
  if device.isPn then
    match info.lidUserForPhoneUser device.user with
    | some lidUser => .lidDevice lidUser device.device
    | none => device
  else device

/-- The JID under which the devices of a member are looked up. -/
def lookupJid (info : GroupRoutingInfo) (jid : Jid) : Jid :=
  if info.addressingMode = .lid && jid.isLid then
    match info.phoneJidForLidUser jid.user with
    | some pn => pn.toNonAd
    | none => jid.toNonAd
  else jid.toNonAd

/-- What `resolve_group_devices_uncached` looks up: the members, and ourselves. -/
def jidsToResolve (info : GroupRoutingInfo) (ownSendingJid : Jid) : List Jid :=
  info.participants.map info.lookupJid
    ++ (if info.participants.any (·.isSameUserAs ownSendingJid) then []
      else [info.lookupJid ownSendingJid])

/-- What `resolve_group_devices_uncached` makes of the answer. -/
def resolvedDevices (info : GroupRoutingInfo) (devices : List Jid) : List Jid :=
  if info.addressingMode = .lid then devices.map info.phoneDeviceJidIntoLid else devices

end GroupRoutingInfo

/-- The group as it is, without the members that were not addressed. -/
def oldGroup (freshInfo : GroupRoutingInfo) (addressed : List Jid) : GroupRoutingInfo :=
  freshInfo.removeParticipants <| (freshInfo.participants.filter fun participant =>
    !addressed.any fun user => user.toNonAd.user = participant.user).map (·.user)

/-- The account of two devices is the same. -/
def sameAccount (a b : Jid) : Bool :=
  a.user = b.user && a.server = b.server && a.integrator = b.integrator

def groupDelta (old fresh : List Jid) : List Jid :=
  fresh.filter fun jid => old.any (sameAccount · jid) && !old.any (·.same jid)

/-! ## Identities -/

/-- What the repair reads of the client. -/
structure Client where
  /-- The journal of `signal_cache`. -/
  signal : MutationHistory
  lidPn : LidPnCache
  connectionGeneration : Nat

structure GroupIdentitySnapshot where
  signal : Option Nat
  aliases : Option Nat
  deriving DecidableEq

namespace GroupIdentitySnapshot

def capture (client : Client) : GroupIdentitySnapshot :=
  ⟨client.signal.continuity.snapshot, client.lidPn.changes.continuity.snapshot⟩

variable (userFingerprint : String → UInt64)

/-- Both journals know nothing against these users. -/
def journalsUnchanged (s : GroupIdentitySnapshot) (client : Client) (users : List String) : Bool :=
  client.signal.continuity.unchangedFor userFingerprint s.signal users
    && client.lidPn.changes.continuity.unchangedFor userFingerprint s.aliases users

def hasHistory (s : GroupIdentitySnapshot) (client : Client) : Bool :=
  s.journalsUnchanged userFingerprint client []

end GroupIdentitySnapshot

/-- A call of `GroupIdentitySnapshot::unchanged_for` at one of its awaits, by the
lookup it waits for. -/
inductive UnchangedFor where
  | phoneNumber (user : String)
  | currentLid (user : String) (pn : Option String)
  | reverseLid (user pn : String) (lid : Option String)
  | reversePn (user : String) (pn : Option String) (lid : String)
  deriving DecidableEq

inductive Poll where
  | pending (call : UnchangedFor)
  | ready (answer : Bool)
  deriving DecidableEq

namespace UnchangedFor

variable (userFingerprint : String → UInt64) (snapshot : GroupIdentitySnapshot) (client : Client)

/-- The last question, with all names of the account. -/
def answer (user : String) (pn lid : Option String) : Bool :=
  snapshot.journalsUnchanged userFingerprint client [some user, pn, lid].reduceOption

def afterPn (user : String) (pn lid : Option String) : Poll :=
  match lid with
  | some lid => .pending (.reversePn user pn lid)
  | none => .ready (answer userFingerprint snapshot client user pn none)

def poll : UnchangedFor → Poll
  | phoneNumber user => .pending (.currentLid user (client.lidPn.getPhoneNumber user))
  | currentLid user pn =>
    let lid := client.lidPn.getCurrentLid user
    match pn with
    | some pn => .pending (.reverseLid user pn lid)
    | none => afterPn userFingerprint snapshot client user none lid
  | reverseLid user pn lid =>
    if client.lidPn.getCurrentLid pn ≠ some user then .ready false
    else afterPn userFingerprint snapshot client user (some pn) lid
  | reversePn user pn lid =>
    if client.lidPn.getPhoneNumber lid ≠ some user then .ready false
    else .ready (answer userFingerprint snapshot client user pn (some lid))

end UnchangedFor

/-! ## Where a repair is -/

structure GroupSendSnapshot where
  connectionGeneration : Nat
  identity : GroupIdentitySnapshot
  devices : List Jid
  messageSecret : Option (FixedBytes 32)
  addressingMode : AddressingMode

/-- What the repair reads of the device. -/
structure DeviceSnapshot where
  pn : Option Jid
  lid : Option Jid
  account : Option Bytes

/-- The message, with the devices that were missed. -/
structure Draft (codec : MessageCodec) where
  own : DeviceSnapshot
  bytes : Bytes
  message : codec.Message
  devices : ResolvedDmDevices

/-- What the loop over the two halves has added up to. -/
structure Encrypted where
  participants : List Node
  prekey : Bool
  attemptedDevices : Nat

/-- A half of the devices, each with the address to encrypt for. -/
structure Half where
  plaintext : Bytes
  targets : List (Jid × Jid)

/-- In the loop over the devices of a half: the one that is asked about, and whether
it is its address that is. -/
structure Selecting where
  plaintext : Bytes
  target : Jid
  address : Jid
  onAddress : Bool
  call : UnchangedFor
  pending : List (Jid × Jid)
  eligible : List (Jid × Jid)
  later : List Half
  encrypted : Encrypted

/-- Before the fan-out to the eligible devices of a half. -/
structure Encrypting where
  plaintext : Bytes
  eligible : List (Jid × Jid)
  later : List Half
  encrypted : Encrypted

/-- In the loop over the nodes there are. -/
structure Filtering where
  prekey : Bool
  participant : Node
  call : UnchangedFor
  pending : List Node
  permitted : List Node

inductive Stage (codec : MessageCodec) where
  /-- `refresh_group_for_repair`. -/
  | refreshing
  /-- `routing_info`. -/
  | routing (own : DeviceSnapshot) (ownPn ownSending : Jid)
  /-- `resolve_group_devices_uncached`. -/
  | resolving (own : DeviceSnapshot) (ownPn ownSending : Jid) (group : GroupRoutingInfo)
  /-- `recent_message_bytes`. -/
  | recalling (own : DeviceSnapshot) (ownPn : Jid) (delta : List Jid)
  /-- `resolve_encryption_jids`. -/
  | addressing (draft : Draft codec)
  /-- `ensure_e2e_sessions_resolved`. -/
  | ensuring (draft : Draft codec) (addresses : List Jid)
  /-- `session_guards_for`. -/
  | locking (draft : Draft codec) (addresses : List Jid)
  | selecting (draft : Draft codec) (s : Selecting)
  /-- `encrypt_for_devices_into`. -/
  | encrypting (draft : Draft codec) (e : Encrypting)
  /-- `persist_signal_state_pre_wire`. -/
  | persisting (draft : Draft codec) (encrypted : Encrypted)
  | filtering (draft : Draft codec) (f : Filtering)
  /-- The stanza is handed to the socket. -/
  | sent (stanza : Node)
  | over

/-! ## From one await to the next -/

/-- What the repair computes with other parts of the library. -/
structure RepairFacts (codec : MessageCodec) extends MessageFacts codec where
  messageDecode : Bytes → Except AnyError codec.Message
  /-- The context with the secret and the version of the reporting token. -/
  secretContext : FixedBytes 32 → codec.ContextInfo
  inferEdit : codec.Message → Option EditAttribute
  marshalNodeForSend : Node → Except AnyError Bytes

/-- One repair. -/
structure RepairCall where
  group : Jid
  messageId : String
  sent : GroupSendSnapshot

namespace RepairCall

variable (userFingerprint : String → UInt64) {codec : MessageCodec} (facts : RepairFacts codec)
  (r : RepairCall) (client : Client)

def afterRefresh (success : Bool) (own : DeviceSnapshot) : Stage codec :=
  if !success then .over
  else if !r.sent.identity.hasHistory userFingerprint client then .over
  else
    match own.pn with
    | none => .over
    | some ownPn =>
      match r.sent.addressingMode with
      | .pn => .routing own ownPn ownPn
      | .lid =>
        match own.lid with
        | some ownLid => .routing own ownPn ownLid
        | none => .over

def afterRouting (own : DeviceSnapshot) (ownPn ownSending : Jid) :
    Except AnyError GroupRoutingInfo → Stage codec
  | .ok freshInfo => .resolving own ownPn ownSending (oldGroup freshInfo r.sent.devices)
  | .error _ => .over

def afterResolve (own : DeviceSnapshot) (ownPn : Jid) (group : GroupRoutingInfo) :
    Except AnyError (List Jid) → Stage codec
  | .ok devices =>
    let delta := groupDelta r.sent.devices (group.resolvedDevices devices)
    if delta.isEmpty then .over else .recalling own ownPn delta
  | .error _ => .over

def afterRecall (own : DeviceSnapshot) (ownPn : Jid) (delta : List Jid) :
    Option Bytes → Stage codec
  | none => .over
  | some bytes =>
    match facts.messageDecode bytes with
    | .ok message => .addressing ⟨own, bytes, message, .new delta ownPn own.lid⟩
    | .error _ => .over

def afterEnsure (draft : Draft codec) (addresses : List Jid) : Except AnyError Unit → Stage codec
  | .ok _ => .locking draft addresses
  | .error _ => .over

def plaintexts (draft : Draft codec) (pads : Pads) : DmPlaintexts :=
  let context := r.sent.messageSecret.map facts.secretContext
  if draft.message.messageContextInfo.isNone then
    codec.dmPlaintextsFromEncoded draft.bytes context r.group pads
  else codec.encodeDmPlaintexts draft.message context r.group pads

/-- After the loop over the halves. -/
def afterHalves (draft : Draft codec) (encrypted : Encrypted) : Stage codec :=
  if encrypted.attemptedDevices = 0 then .over
  else if encrypted.participants.isEmpty then .over
  else .persisting draft encrypted

/-- The next half that has devices, from its first one. -/
def nextHalf (draft : Draft codec) : List Half → Encrypted → Stage codec
  | [], encrypted => afterHalves draft encrypted
  | half :: later, encrypted =>
    match half.targets with
    | [] => nextHalf draft later encrypted
    | (target, address) :: pending =>
      .selecting draft ⟨half.plaintext, target, address, false, .phoneNumber target.user, pending,
        [], later, encrypted⟩

/-- The next device of a half, or the end of it. -/
def nextTarget (draft : Draft codec) (s : Selecting) (eligible : List (Jid × Jid)) : Stage codec :=
  match s.pending with
  | (target, address) :: pending =>
    .selecting draft { s with
      target, address, pending, eligible
      onAddress := false
      call := .phoneNumber target.user }
  | [] =>
    if eligible.isEmpty then nextHalf draft s.later s.encrypted
    else .encrypting draft ⟨s.plaintext, eligible, s.later, s.encrypted⟩

def afterLock (draft : Draft codec) (addresses : List Jid) (pads : Pads) : Stage codec :=
  if !r.sent.identity.hasHistory userFingerprint client then .over
  else
    let plaintexts := plaintexts facts r draft pads
    let recipients := draft.devices.partitioned.recipientDevices
    let split := recipients.length
    nextHalf draft
      [⟨plaintexts.recipient, recipients.zip (addresses.take split)⟩,
        ⟨plaintexts.ownDevices,
          draft.devices.partitioned.ownOtherDevices.zip (addresses.drop split)⟩]
      ⟨[], false, 0⟩

def pollSelecting (draft : Draft codec) (s : Selecting) : Stage codec :=
  match s.call.poll userFingerprint r.sent.identity client with
  | .pending call => .selecting draft { s with call }
  | .ready false => nextTarget draft s s.eligible
  | .ready true =>
    if s.onAddress || s.target.user = s.address.user then
      nextTarget draft s (s.eligible ++ [(s.target, s.address)])
    else .selecting draft { s with onAddress := true, call := .phoneNumber s.address.user }

/-- The fan-out to the eligible devices of a half. -/
def encryptHalf (env : FanoutEnv) (draft : Draft codec) (e : Encrypting) :
    Sending (EncryptFanoutSummary × List Node) :=
  encryptForDevicesInto env (e.eligible.map (·.1)) e.plaintext
    (shouldHideDecryptFailForSend facts.toMessageFacts (facts.inferEdit draft.message) draft.message)
    (facts.mediaTypeFromMessage draft.message) e.encrypted.participants
    (some (e.eligible.map (·.2)))

def afterEncrypt (draft : Draft codec) (e : Encrypting) :
    Except SendError (EncryptFanoutSummary × List Node) → Stage codec
  | .ok (summary, participants) =>
    nextHalf draft e.later
      ⟨participants, e.encrypted.prekey || summary.includesPrekeyMessage,
        e.encrypted.attemptedDevices + e.eligible.length⟩
  | .error _ => .over

def needsDeviceIdentity (includesPrekey : Bool) (account : Option Bytes) :
    Except AnyError (Option Bytes) :=
  if !includesPrekey then .ok none
  else
    match account with
    | some bytes => .ok (some bytes)
    | none => .error "pkmsg requires <device-identity> but no ADV account is present"

def stanza (draft : Draft codec) (identity : Option Bytes) (permitted : List Node) : Node :=
  let marker : Node := ⟨"enc", [("v", NodeValue.string "2"), ("type", .string "skmsg")]
    ++ ((facts.mediaTypeFromMessage draft.message).map fun media =>
      ("mediatype", NodeValue.string media)).toList, none⟩
  let children := [⟨"participants", [], some (.nodes permitted)⟩, marker]
    ++ (identity.map fun bytes => ⟨"device-identity", [], some (.bytes bytes)⟩).toList
  let attrs := [("id", NodeValue.string r.messageId), ("to", .jid r.group),
      ("type", .string (facts.stanzaTypeFromMessage draft.message)),
      ("addressing_mode", .string r.sent.addressingMode.asStr), ("device_fanout", .string "false")]
    ++ ((facts.inferEdit draft.message).map fun e => ("edit", NodeValue.string e.toStringVal)).toList
  ⟨"message", attrs, some (.nodes children)⟩

/-- After the last filter. -/
def publish (draft : Draft codec) (prekey : Bool) (permitted : List Node) : Stage codec :=
  if permitted.isEmpty then .over
  else
    match needsDeviceIdentity prekey draft.own.account with
    | .error _ => .over
    | .ok identity =>
      if client.connectionGeneration ≠ r.sent.connectionGeneration then .over
      else
        match facts.marshalNodeForSend (stanza facts r draft identity permitted) with
        | .ok _ => .sent (stanza facts r draft identity permitted)
        | .error _ => .over

/-- The next node that names a device. -/
def nextParticipant (draft : Draft codec) (prekey : Bool) :
    List Node → List Node → Stage codec
  | [], permitted => publish facts r client draft prekey permitted
  | participant :: pending, permitted =>
    match participant.optionalJid "jid" with
    | some jid => .filtering draft ⟨prekey, participant, .phoneNumber jid.user, pending, permitted⟩
    | none => nextParticipant draft prekey pending permitted

def afterPersist (draft : Draft codec) (encrypted : Encrypted) : Except AnyError Unit → Stage codec
  | .ok _ => nextParticipant facts r client draft encrypted.prekey encrypted.participants []
  | .error _ => .over

/-- The next stage, and the nodes that have just been permitted. -/
def pollFiltering (draft : Draft codec) (f : Filtering) : Stage codec × List Node :=
  match f.call.poll userFingerprint r.sent.identity client with
  | .pending call => (.filtering draft { f with call }, [])
  | .ready false => (nextParticipant facts r client draft f.prekey f.pending f.permitted, [])
  | .ready true =>
    (nextParticipant facts r client draft f.prekey f.pending (f.permitted ++ [f.participant]),
      [f.participant])

/-- The repair goes on, with any answer of what it waits for.  The list has the
nodes that the last filter permits here. -/
inductive Resume : Stage codec → Stage codec → List Node → Prop where
  | refreshing (success : Bool) (own : DeviceSnapshot) :
      Resume .refreshing (r.afterRefresh userFingerprint client success own) []
  | routing (own : DeviceSnapshot) (ownPn ownSending : Jid)
      (answer : Except AnyError GroupRoutingInfo) :
      Resume (.routing own ownPn ownSending) (r.afterRouting own ownPn ownSending answer) []
  | resolving (own : DeviceSnapshot) (ownPn ownSending : Jid) (group : GroupRoutingInfo)
      (registry : List Jid → Except AnyError (List Jid)) :
      Resume (.resolving own ownPn ownSending group)
        (r.afterResolve own ownPn group (registry (group.jidsToResolve ownSending))) []
  | recalling (own : DeviceSnapshot) (ownPn : Jid) (delta : List Jid) (answer : Option Bytes) :
      Resume (.recalling own ownPn delta) (afterRecall facts own ownPn delta answer) []
  | addressing (draft : Draft codec) (upgrade : Jid → Jid) :
      Resume (.addressing draft)
        (.ensuring draft (draft.devices.partitioned.devices.map upgrade)) []
  | ensuring (draft : Draft codec) (addresses : List Jid) (answer : Except AnyError Unit) :
      Resume (.ensuring draft addresses) (afterEnsure draft addresses answer) []
  | locking (draft : Draft codec) (addresses : List Jid) (pads : Pads) :
      Resume (.locking draft addresses)
        (r.afterLock userFingerprint facts client draft addresses pads) []
  | selecting (draft : Draft codec) (s : Selecting) :
      Resume (.selecting draft s) (r.pollSelecting userFingerprint client draft s) []
  | encrypting (draft : Draft codec) (e : Encrypting) (env : FanoutEnv) (calls : List EncryptCall) :
      Resume (.encrypting draft e)
        (afterEncrypt draft e (Eff.exec (encryptHalf facts env draft e) calls).1) []
  | persisting (draft : Draft codec) (encrypted : Encrypted) (answer : Except AnyError Unit) :
      Resume (.persisting draft encrypted) (r.afterPersist facts client draft encrypted answer) []
  | filtering (draft : Draft codec) (f : Filtering) :
      Resume (.filtering draft f) (r.pollFiltering userFingerprint facts client draft f).1
        (r.pollFiltering userFingerprint facts client draft f).2

end RepairCall

/-! ## The send and its repair -/

inductive Task (codec : MessageCodec) where
  | idle
  /-- `send_message_impl`, with what it has captured. -/
  | sending (generation : Nat) (identity : GroupIdentitySnapshot)
  /-- The stanza is out, and its ack is awaited. -/
  | waiting (expected : String) (r : RepairCall)
  | repairing (r : RepairCall) (stage : Stage codec)
  | over

/-- The client with one send.  `captured` is the client as it was when the send took
its snapshot, and `filtered` has each node that the last filter permitted, with the
client as it was then. -/
structure System (codec : MessageCodec) where
  client : Client
  task : Task codec
  captured : Option Client
  filtered : List (Node × Client)

namespace System

variable {codec : MessageCodec}

def start (config : Store.CacheEntryConfig) : System codec where
  client := ⟨.start .default, .withConfig config, 0⟩
  task := .idle
  captured := none
  filtered := []

/-- `check_phash_against_ack`. -/
def checkPhashAgainstAck (client : Client) (expected : String) (r : RepairCall) :
    Option String → Task codec
  | none => .over
  | some server =>
    if server = expected then .over
    else if client.connectionGeneration ≠ r.sent.connectionGeneration then .over
    else .repairing r .refreshing

variable (userFingerprint : String → UInt64) (facts : RepairFacts codec)

inductive Step : System codec → System codec → Prop where
  /-- A mutation of identities starts or ends. -/
  | signal (s : System codec) (h : MutationHistory)
      (hstep : MutationHistory.Step userFingerprint s.client.signal h) :
      Step s { s with client := { s.client with signal := h } }
  /-- Another task is at work on the names of accounts. -/
  | lidPn (s : System codec) (c : LidPnCache)
      (hstep : LidPnCache.Step userFingerprint s.client.lidPn c) :
      Step s { s with client := { s.client with lidPn := c } }
  | reconnect (s : System codec) (generation : Nat) :
      Step s { s with client := { s.client with connectionGeneration := generation } }
  | capture (s : System codec) (hidle : s.task = .idle) :
      Step s { s with task := .sending s.client.connectionGeneration (.capture s.client)
                      captured := some s.client }
  | register (s : System codec) {generation : Nat} {identity : GroupIdentitySnapshot}
      (htask : s.task = .sending generation identity)
      (hgeneration : s.client.connectionGeneration = generation)
      (expected : String) (group : Jid) (messageId : String) (devices : List Jid)
      (messageSecret : Option (FixedBytes 32)) (addressingMode : AddressingMode) :
      Step s { s with task := .waiting expected ⟨group, messageId,
        ⟨generation, identity, devices, messageSecret, addressingMode⟩⟩ }
  | ack (s : System codec) {expected : String} {r : RepairCall}
      (htask : s.task = .waiting expected r) (server : Option String) :
      Step s { s with task := checkPhashAgainstAck s.client expected r server }
  | resume (s : System codec) {r : RepairCall} {stage stage' : Stage codec} {permitted : List Node}
      (htask : s.task = .repairing r stage)
      (hresume : r.Resume userFingerprint facts s.client stage stage' permitted) :
      Step s { s with task := .repairing r stage'
                      filtered := s.filtered ++ permitted.map (·, s.client) }
  /-- The send fails, or the repair is dropped. -/
  | drop (s : System codec) : Step s { s with task := .over }

def Reachable (s : System codec) : Prop :=
  ∃ config, Relation.ReflTransGen (Step userFingerprint facts) (start config) s

end System

end WaCore.Send
