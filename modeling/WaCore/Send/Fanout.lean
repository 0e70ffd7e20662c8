import WaCore.Binary.Node
import WaCore.Lib.Effect

/-!
# Encryption for a list of devices

The fan-out of one plaintext to the sessions of some devices (`encrypt.rs`): in
place for a few devices, and in chunks on tasks of their own for more.  A device
that fails is left out; a task that is lost takes its chunk with it.

What a session does with a plaintext, how sessions are set up and in which order
tasks end is up to the environment.  The state is the list of all calls of
`message_encrypt`, each with its arguments.
-/

/-! ## Devices -/

namespace WaCore.Binary.Jid

def isSameUserAs (a b : Jid) : Bool := a.user = b.user

def matchesUserOrLid (j user : Jid) (lid : Option Jid) : Bool :=
  j.isSameUserAs user || lid.any j.isSameUserAs

end WaCore.Binary.Jid

namespace WaCore.Send

open Binary (Jid Node NodeValue NodeContent)

/-! ## One device -/

/-- The text of an error. -/
abbrev AnyError := String

structure ProtocolAddress where
  name : String
  deviceId : Nat
  deriving DecidableEq

inductive CiphertextMessage where
  | signalMessage (serialized : Bytes)
  | preKeySignalMessage (serialized : Bytes)
  | other

structure EncryptOneResult where
  encType : String
  isPrekey : Bool
  ciphertext : Bytes

def ENC_TYPE_MSG : String := "msg"

def ENC_TYPE_PKMSG : String := "pkmsg"

def extractCiphertext : CiphertextMessage → Option EncryptOneResult
  | .signalMessage serialized => some ⟨ENC_TYPE_MSG, false, serialized⟩
  | .preKeySignalMessage serialized => some ⟨ENC_TYPE_PKMSG, true, serialized⟩
  | .other => none

structure EncryptedDevice where
  deviceJid : Jid
  encType : String
  isPrekey : Bool
  ciphertext : Bytes

structure SessionPlan where
  encryptionOverrides : List (Option Jid)
  effectiveAddresses : List ProtocolAddress
  hadUnregisteredDevice : Bool
  rejectedDevices : List Jid
  firstError : Option AnyError
  unkeyedDevices : List Jid

/-- How a chunk ends: with its results, or without, after so many of its devices. -/
inductive TaskEnd where
  | delivered
  | lost (encrypted : Nat) (error : AnyError)

/-- What one fan-out depends on. -/
structure FanoutEnv where
  /-- `ensure_sessions_for_devices_resolved`. -/
  plan : List Jid → Option (List Jid) → Except AnyError SessionPlan
  toProtocolAddress : Jid → ProtocolAddress
  /-- `message_encrypt`, with the session of the device as it is then. -/
  messageEncrypt : Bytes → ProtocolAddress → Jid → Except AnyError CiphertextMessage
  taskEnd : Nat → TaskEnd
  /-- The chunks in the order in which their tasks end. -/
  order : Nat → List Nat
  order_perm : ∀ n, (order n).Perm (List.range n)

/-- A call of `message_encrypt`. -/
structure EncryptCall where
  address : ProtocolAddress
  deviceJid : Jid
  plaintext : Bytes

/-- Why a direct message is not sent.  The first two are `NoRecipientDeviceError`. -/
inductive SendError where
  | encryptionFailed (attempted : Nat) (source : AnyError)
  | unresolved
  | other (e : AnyError)
  deriving DecidableEq

/-- An operation of a send. -/
abbrev Sending := Eff (List EncryptCall) SendError

section Fanout

variable (env : FanoutEnv)

def encryptAddressAt (plan : SessionPlan) (device : Jid) (index : Nat) : ProtocolAddress :=
  match plan.effectiveAddresses[index]? with
  | some addr => addr
  | none => env.toProtocolAddress ((plan.encryptionOverrides[index]?.join).getD device)

/-- The result for one device; the call is noted. -/
def encryptOneDevice (plaintext : Bytes) (addr : ProtocolAddress) (deviceJid : Jid) :
    Sending (Jid × Except AnyError (Option EncryptOneResult)) := do
  modify (· ++ [⟨addr, deviceJid, plaintext⟩])
  pure (deviceJid, (env.messageEncrypt plaintext addr deviceJid).map extractCiphertext)

/-- What a fan-out collects. -/
structure RawEncrypt where
  devices : List EncryptedDevice
  includesPrekeyMessage : Bool
  firstError : Option AnyError
  unkeyedAtEncrypt : Nat

def pushRawResult (alreadyCounted : List Jid) (raw : RawEncrypt)
    (result : Jid × Except AnyError (Option EncryptOneResult)) : RawEncrypt :=
  match result with
  | (deviceJid, .ok (some one)) =>
    { raw with
      includesPrekeyMessage := raw.includesPrekeyMessage || one.isPrekey
      devices := raw.devices ++ [⟨deviceJid, one.encType, one.isPrekey, one.ciphertext⟩] }
  | (_, .ok none) => raw
  | (deviceJid, .error e) =>
    { raw with
      unkeyedAtEncrypt :=
        if alreadyCounted.any deviceJid.same then raw.unkeyedAtEncrypt else raw.unkeyedAtEncrypt + 1
      firstError := some (raw.firstError.getD e) }

/-! ## All devices -/

def INLINE_ENCRYPT_DEVICES : Nat := 5

def ENCRYPT_FANOUT_CONCURRENCY : Nat := 16

/-- A device with the address to encrypt for. -/
abbrev Job := ProtocolAddress × Jid

def jobs (plan : SessionPlan) (devices : List Jid) : List Job :=
  devices.mapIdx fun index device => (encryptAddressAt env plan device index, device)

/-- The results for some devices in a row. -/
def encryptJobs (plaintext : Bytes) (jobs : List Job) :
    Sending (List (Jid × Except AnyError (Option EncryptOneResult))) :=
  jobs.mapM fun job => encryptOneDevice env plaintext job.1 job.2

def encryptInline (plaintext : Bytes) (plan : SessionPlan) (jobs : List Job) (raw : RawEncrypt) :
    Sending RawEncrypt := do
  let results ← encryptJobs env plaintext jobs
  pure (results.foldl (pushRawResult plan.unkeyedDevices) raw)

/-- The jobs of a chunk. -/
def chunk (jobs : List Job) (numChunks index : Nat) : List Job :=
  let start := index * jobs.length / numChunks
  let stop := (index + 1) * jobs.length / numChunks
  (jobs.drop start).take (stop - start)

/-- The results of one task. -/
def receiveChunk (plaintext : Bytes) (plan : SessionPlan) (chunkJobs : List Job) (taskEnd : TaskEnd)
    (raw : RawEncrypt) : Sending RawEncrypt :=
  match taskEnd with
  | .delivered => encryptInline env plaintext plan chunkJobs raw
  | .lost encrypted error => do
    let _ ← encryptJobs env plaintext (chunkJobs.take encrypted)
    let countable := (chunkJobs.filter fun job => !plan.unkeyedDevices.any job.2.same).length
    pure { raw with
      unkeyedAtEncrypt := raw.unkeyedAtEncrypt + countable
      firstError := some (raw.firstError.getD error) }

/-- The chunks, in the order in which they end. -/
def encryptChunks (plaintext : Bytes) (plan : SessionPlan) (jobs : List Job) (numChunks : Nat) :
    List Nat → RawEncrypt → Sending RawEncrypt
  | [], raw => pure raw
  | index :: order, raw => do
    let raw ← receiveChunk env plaintext plan (chunk jobs numChunks index) (env.taskEnd index) raw
    encryptChunks plaintext plan jobs numChunks order raw

/-- `encrypt_for_devices_with_sessions_raw_detailed`. -/
def encryptForDevicesRaw (devices : List Jid) (plaintext : Bytes) (plan : SessionPlan) :
    Sending RawEncrypt :=
  let jobs := jobs env plan devices
  let raw : RawEncrypt := ⟨[], false, plan.firstError, 0⟩
  if devices.length ≤ INLINE_ENCRYPT_DEVICES then encryptInline env plaintext plan jobs raw
  else
    let numChunks := min ENCRYPT_FANOUT_CONCURRENCY devices.length
    encryptChunks env plaintext plan jobs numChunks (env.order numChunks) raw

/-! ## Nodes -/

def ENC_VERSION : String := "2"

def encryptedDeviceToParticipantNode (one : EncryptedDevice) (mediatype : Option String)
    (hideDecryptFail : Bool) : Node :=
  let encAttrs := [("v", NodeValue.string ENC_VERSION), ("type", .string one.encType)]
    ++ (mediatype.map fun mt => ("mediatype", NodeValue.string mt)).toList
    ++ (if hideDecryptFail then [("decrypt-fail", NodeValue.string "hide")] else [])
  ⟨"to", [("jid", .jid one.deviceJid)],
    some (.nodes [⟨"enc", encAttrs, some (.bytes one.ciphertext)⟩])⟩

structure EncryptFanoutSummary where
  includesPrekeyMessage : Bool
  hadUnregisteredDevice : Bool
  encryptedDevices : Nat
  skippedPrimary : Bool
  droppedDevices : List Jid
  firstError : Option AnyError

/-- The devices that were addressed and have no ciphertext. -/
def droppedDevices (devices : List Jid) (encrypted : List EncryptedDevice) : List Jid :=
  if encrypted.length < devices.length then
    devices.filter fun jid => !encrypted.any fun one => one.deviceJid.same jid
  else []

/-- The summary, and the nodes behind those that are there already. -/
def encryptForDevicesInto (devices : List Jid) (plaintext : Bytes) (hideDecryptFail : Bool)
    (mediatype : Option String) (participantNodes : List Node)
    (signalAddresses : Option (List Jid)) : Sending (EncryptFanoutSummary × List Node) := do
  let plan ← Eff.ofExcept ((env.plan devices signalAddresses).mapError .other)
  let raw ← encryptForDevicesRaw env devices plaintext plan
  let dropped := droppedDevices devices raw.devices
  let nodes := raw.devices.map (encryptedDeviceToParticipantNode · mediatype hideDecryptFail)
  pure (⟨raw.includesPrekeyMessage, plan.hadUnregisteredDevice, raw.devices.length,
      dropped.any (·.device = 0), dropped, raw.firstError⟩,
    participantNodes ++ nodes)

end Fanout

end WaCore.Send
