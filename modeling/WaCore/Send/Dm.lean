import WaCore.Lib.InPlace
import WaCore.Send.Fanout

/-!
# Direct messages

How a message to one chat is put together (`dm.rs`): the devices are parted into
those of the recipient and our own companions, the first get the message and the
second the message inside a device-sent wrapper, and the nodes of both make up one
stanza.

The protobuf codec and what is computed from the message alone are parameters.
-/

namespace WaCore.Send

open Binary (Jid Node NodeValue NodeContent)

/-! ## Devices -/

def isExactDmSenderDevice (deviceJid ownJid : Jid) (ownLid : Option Jid) : Bool :=
  (deviceJid.isSameUserAs ownJid && deviceJid.device = ownJid.device)
    || ownLid.any fun lid => deviceJid.isSameUserAs lid && deviceJid.device = lid.device

structure PartitionedDmDevices where
  devices : List Jid
  recipientCount : Nat

namespace PartitionedDmDevices

def recipientDevices (p : PartitionedDmDevices) : List Jid := p.devices.take p.recipientCount

def ownOtherDevices (p : PartitionedDmDevices) : List Jid := p.devices.drop p.recipientCount

end PartitionedDmDevices

def partitionDmDevices (allDevices : List Jid) (ownJid : Jid) (ownLid : Option Jid) :
    PartitionedDmDevices :=
  let (devices, recipientCount) := InPlace.partition
    (isExactDmSenderDevice · ownJid ownLid) (fun jid => !jid.matchesUserOrLid ownJid ownLid) allDevices
  ⟨devices, recipientCount⟩

/-- The parted devices, and the addresses to encrypt for if a send has resolved them. -/
structure ResolvedDmDevices where
  partitioned : PartitionedDmDevices
  signalAddressing : Option (List Jid)

namespace ResolvedDmDevices

def new (allDevices : List Jid) (ownJid : Jid) (ownLid : Option Jid) : ResolvedDmDevices :=
  ⟨partitionDmDevices allDevices ownJid ownLid, none⟩

end ResolvedDmDevices

/-! ## Plaintexts -/

/-- `push_varint`; a varint of 64 bits has at most ten bytes. -/
def pushVarintBytes : Nat → Nat → Bytes
  | 0, _ => []
  | rounds + 1, v =>
    if 0x80 ≤ v then (UInt8.ofNat v ||| 0x80) :: pushVarintBytes rounds (v >>> 7) else [.ofNat v]

def varint (v : Nat) : Bytes := pushVarintBytes 10 v

def varintRounds : Nat → Nat → Nat
  | 0, _ => 0
  | rounds + 1, v => if 0x80 ≤ v then varintRounds rounds (v >>> 7) + 1 else 1

def varintLen (v : Nat) : Nat := varintRounds 10 v

/-- `wire_tag_value` of a field with a length. -/
def wireTagValue (field : Nat) : Nat := field <<< 3 ||| 2

def lenDelimitedLen (field payloadLen : Nat) : Nat :=
  varintLen (wireTagValue field) + varintLen payloadLen + payloadLen

/-- A field with a length, `push_len_delimited`. -/
def lenDelimited (field : Nat) (bytes : Bytes) : Bytes :=
  varint (wireTagValue field) ++ varint bytes.length ++ bytes

def TAG_DEVICE_SENT_MESSAGE : Nat := 31

def TAG_MESSAGE_CONTEXT_INFO : Nat := 35

def TAG_DSM_DESTINATION_JID : Nat := 1

def TAG_DSM_MESSAGE : Nat := 2

/-- A `wa::Message`: its context, and everything else. -/
structure MessageParts (Content ContextInfo : Type) where
  content : Content
  messageContextInfo : Option ContextInfo

/-- `waproto::codec` as far as the plaintexts are framed with it. -/
structure MessageCodec where
  Content : Type
  ContextInfo : Type
  messageComputeSize : MessageParts Content ContextInfo → Nat
  messageToVec : MessageParts Content ContextInfo → Bytes
  contextInfoComputeSize : ContextInfo → Nat
  contextInfoToVec : ContextInfo → Bytes
  /-- `message_context_info_merge`. -/
  mergeContextInfo : ContextInfo → ContextInfo → ContextInfo

/-- `resize(len + pad, pad)`. -/
def padMessageV2 (plaintext : Bytes) (pad : UInt8) : Bytes :=
  plaintext ++ List.replicate pad.toNat pad

structure DmPlaintexts where
  recipient : Bytes
  ownDevices : Bytes

/-- The random lengths of the paddings, of both plaintexts. -/
structure Pads where
  recipient : UInt8
  ownDevices : UInt8

namespace MessageCodec

variable (codec : MessageCodec)

abbrev Message : Type := MessageParts codec.Content codec.ContextInfo

/-- `push_message_field`, if there is a context. -/
def messageField (context : Option codec.ContextInfo) : Bytes :=
  context.elim [] fun c => varint (wireTagValue TAG_MESSAGE_CONTEXT_INFO)
    ++ varint (codec.contextInfoComputeSize c) ++ codec.contextInfoToVec c

/-- `encoded_len` of a JID as a `DsmDestination`. -/
def encodedLen (destinationJid : Jid) : Nat := (Binary.jidRefToCompact destinationJid).utf8ByteSize

/-- What the functions below have in common.  `contentLen` is the length that they
have for the content. -/
def splice (contentLen : Nat) (content : Bytes) (context : Option codec.ContextInfo)
    (destinationJid : Jid) (pads : Pads) : DmPlaintexts :=
  let destLen := encodedLen destinationJid
  let dsmLen := lenDelimitedLen TAG_DSM_DESTINATION_JID destLen
    + lenDelimitedLen TAG_DSM_MESSAGE contentLen
  let ownDevices := varint (wireTagValue TAG_DEVICE_SENT_MESSAGE) ++ varint dsmLen
    ++ varint (wireTagValue TAG_DSM_DESTINATION_JID) ++ varint destLen
    ++ Utf8.ofString (Binary.jidRefToCompact destinationJid)
    ++ lenDelimited TAG_DSM_MESSAGE (content.take contentLen) ++ codec.messageField context
  { recipient := padMessageV2 (content ++ codec.messageField context) pads.recipient
    ownDevices := padMessageV2 ownDevices pads.ownDevices }

def padWithContextFromEncoded (content : Bytes) (extraContext : Option codec.ContextInfo)
    (pad : UInt8) : Bytes :=
  padMessageV2 (content ++ codec.messageField extraContext) pad

def dmPlaintextsFromEncoded (content : Bytes) (extraContext : Option codec.ContextInfo)
    (destinationJid : Jid) (pads : Pads) : DmPlaintexts :=
  codec.splice content.length content extraContext destinationJid pads

def encodeDmPlaintextsOwned (message : codec.Message) (destinationJid : Jid) (pads : Pads) :
    DmPlaintexts :=
  let content := { message with messageContextInfo := none }
  codec.splice (codec.messageComputeSize content) (codec.messageToVec content)
    message.messageContextInfo destinationJid pads

/-- A context of the message itself is merged and goes to the outer message. -/
def encodeDmPlaintexts (message : codec.Message) (extraContext : Option codec.ContextInfo)
    (destinationJid : Jid) (pads : Pads) : DmPlaintexts :=
  match message.messageContextInfo with
  | some context =>
    let context := extraContext.elim context (codec.mergeContextInfo context)
    codec.encodeDmPlaintextsOwned ⟨message.content, some context⟩ destinationJid pads
  | none => codec.splice (codec.messageComputeSize message) (codec.messageToVec message) extraContext
      destinationJid pads

end MessageCodec

/-! ## The stanza -/

inductive EditAttribute where
  | empty
  | messageEdit
  | pinInChat
  | adminEdit
  | senderRevoke
  | adminRevoke
  | unknown (s : String)
  deriving DecidableEq

def EditAttribute.toStringVal : EditAttribute → String
  | empty => ""
  | messageEdit => "1"
  | pinInChat => "2"
  | adminEdit => "3"
  | senderRevoke => "7"
  | adminRevoke => "8"
  | unknown s => s

structure ReportingTokenResult where
  reportingToken : FixedBytes 16
  messageSecret : FixedBytes 32
  version : Int

def buildReportingNode (result : ReportingTokenResult) : Node :=
  ⟨"reporting", [], some (.nodes [⟨"reporting_token", [("v", .string (toString result.version))],
    some (.bytes result.reportingToken.val)⟩])⟩

/-- What the send path computes from a message with other parts of the library. -/
structure MessageFacts (codec : MessageCodec) where
  /-- The reporting token, if the message gets one. -/
  generateReportingToken : codec.Message → Bytes → String → Jid → Jid → Option ReportingTokenResult
  reportingContextInfo : ReportingTokenResult → codec.ContextInfo
  shouldHideDecryptFail : codec.Message → Bool
  mediaTypeFromMessage : codec.Message → Option String
  stanzaTypeFromMessage : codec.Message → String
  /-- `participant_list_hash`. -/
  phash : List Jid → Option String

structure RecipientFanout where
  addressed : Nat
  encrypted : Nat
  skippedPrimary : Bool
  hadUnregisteredDevice : Bool
  deriving DecidableEq

structure PreparedDmStanza where
  node : Node
  recipientFanout : RecipientFanout
  unreachedDevices : List Jid
  phash : Option String
  messageSecret : Option (FixedBytes 32)

structure DmStanzaRequest (codec : MessageCodec) where
  ownJid : Jid
  ownLid : Option Jid
  /-- The encoded identity of the account. -/
  account : Option Bytes
  toJid : Jid
  message : codec.Message
  messageId : String
  edit : Option EditAttribute
  extraNodes : List Node
  devices : ResolvedDmDevices
  preEncoded : Option Bytes

section Prepare

variable {codec : MessageCodec} (facts : MessageFacts codec)

def shouldHideDecryptFailForSend (edit : Option EditAttribute) (message : codec.Message) : Bool :=
  (edit.any fun e => e ≠ .empty && e ≠ .adminRevoke && e ≠ .senderRevoke)
    || facts.shouldHideDecryptFail message

/-- The encoding that the token and the plaintexts share; there is none for a
message with a context of its own. -/
def sharedContent (request : DmStanzaRequest codec) : Option Bytes :=
  if request.message.messageContextInfo.isNone then
    some (request.preEncoded.getD (codec.messageToVec request.message))
  else none

def reportingResult (request : DmStanzaRequest codec) : Option ReportingTokenResult :=
  facts.generateReportingToken request.message
    ((sharedContent request).getD (codec.messageToVec request.message)) request.messageId
    request.ownJid request.toJid

def dmPlaintexts (request : DmStanzaRequest codec) (pads : Pads) : DmPlaintexts :=
  let extraContext := (reportingResult facts request).map facts.reportingContextInfo
  match sharedContent request with
  | some content =>
    if request.devices.partitioned.ownOtherDevices.isEmpty then
      ⟨codec.padWithContextFromEncoded content extraContext pads.recipient, []⟩
    else codec.dmPlaintextsFromEncoded content extraContext request.toJid pads
  | none => codec.encodeDmPlaintexts request.message extraContext request.toJid pads

/-- The addresses of the two halves, if there is one for each device. -/
def splitAddresses (devices : ResolvedDmDevices) : Option (List Jid) × Option (List Jid) :=
  match devices.signalAddressing with
  | some encryption =>
    if encryption.length = devices.partitioned.devices.length then
      let n := devices.partitioned.recipientDevices.length
      (some (encryption.take n), some (encryption.drop n))
    else (none, none)
  | none => (none, none)

/-- What the fan-out to a half has added up to. -/
structure DmFanout where
  participantNodes : List Node
  includesPrekeyMessage : Bool
  recipientFanout : RecipientFanout
  unreachedDevices : List Jid

def noCiphertext : AnyError := "no recipient device produced a ciphertext"

/-- The half of the recipient. -/
def recipientHalf (env : FanoutEnv) (request : DmStanzaRequest codec) (plaintexts : DmPlaintexts) :
    Sending DmFanout :=
  let recipients := request.devices.partitioned.recipientDevices
  if !recipients.isEmpty then do
    let (summary, nodes) ← encryptForDevicesInto env recipients plaintexts.recipient
      (shouldHideDecryptFailForSend facts request.edit request.message)
      (facts.mediaTypeFromMessage request.message) [] (splitAddresses request.devices).1
    if nodes.isEmpty then
      throw (.encryptionFailed recipients.length (summary.firstError.getD noCiphertext))
    else
      pure ⟨nodes, summary.includesPrekeyMessage,
        ⟨recipients.length, summary.encryptedDevices, summary.skippedPrimary,
          summary.hadUnregisteredDevice⟩, summary.droppedDevices⟩
  else if !request.toJid.matchesUserOrLid request.ownJid request.ownLid then throw .unresolved
  else pure ⟨[], false, ⟨0, 0, false, false⟩, []⟩

/-- The half of our own companions, behind the first one. -/
def ownHalf (env : FanoutEnv) (request : DmStanzaRequest codec) (plaintexts : DmPlaintexts)
    (fanout : DmFanout) : Sending DmFanout :=
  let companions := request.devices.partitioned.ownOtherDevices
  if !companions.isEmpty then do
    let (summary, nodes) ← encryptForDevicesInto env companions plaintexts.ownDevices
      (shouldHideDecryptFailForSend facts request.edit request.message)
      (facts.mediaTypeFromMessage request.message) fanout.participantNodes
      (splitAddresses request.devices).2
    pure { fanout with
      participantNodes := nodes
      includesPrekeyMessage := fanout.includesPrekeyMessage || summary.includesPrekeyMessage
      unreachedDevices := fanout.unreachedDevices ++ summary.droppedDevices }
  else pure fanout

def dmStanza (request : DmStanzaRequest codec) (fanout : DmFanout) : Node :=
  let identity := if fanout.includesPrekeyMessage then request.account else none
  let content := [⟨"participants", [], some (.nodes fanout.participantNodes)⟩]
    ++ (identity.map fun bytes => ⟨"device-identity", [], some (.bytes bytes)⟩).toList
    ++ ((reportingResult facts request).map buildReportingNode).toList
    ++ request.extraNodes
  let attrs := [("to", NodeValue.jid request.toJid), ("id", .string request.messageId),
      ("type", .string (facts.stanzaTypeFromMessage request.message))]
    ++ ((request.edit.filter (· ≠ .empty)).map fun e => ("edit", NodeValue.string e.toStringVal)).toList
  ⟨"message", attrs, some (.nodes content)⟩

/-- `prepare_dm_stanza`; each half has an environment of its own. -/
def prepareDmStanza (recipients companions : FanoutEnv) (request : DmStanzaRequest codec)
    (pads : Pads) : Sending PreparedDmStanza := do
  let plaintexts := dmPlaintexts facts request pads
  let fanout ← recipientHalf facts recipients request plaintexts
  let fanout ← ownHalf facts companions request plaintexts fanout
  let total := request.devices.partitioned.devices.length
  if fanout.participantNodes.isEmpty && 0 < total then
    throw (.other s!"encryption failed for all {total} own device(s)")
  else
    pure ⟨dmStanza facts request fanout, fanout.recipientFanout, fanout.unreachedDevices,
      facts.phash request.devices.partitioned.devices,
      (reportingResult facts request).map (·.messageSecret)⟩

end Prepare

end WaCore.Send
