import Mathlib.Data.List.Pairwise
import Mathlib.Data.List.Perm.Subperm
import WaCore.Send.DmPlaintexts

/-!
# Where a direct message goes

Each device that is addressed ends up with a node in the stanza or on the list of
those not reached.  A node has the ciphertext of a call of `message_encrypt` for its
device, and what that call encrypts depends on whose device it is.
-/

namespace WaCore.Send

open Eff
open Binary (Jid Node NodeValue NodeContent)

/-! ## A fan-out -/

/-- The call that a job makes. -/
def callFor (plaintext : Bytes) (job : Job) : EncryptCall := ⟨job.1, job.2, plaintext⟩

/-- What a job gives for its device, if it can be encrypted. -/
def encryptedFor (env : FanoutEnv) (plaintext : Bytes) (job : Job) : Option EncryptedDevice :=
  match env.messageEncrypt plaintext job.1 job.2 with
  | .ok message => (extractCiphertext message).map fun one =>
    ⟨job.2, one.encType, one.isPrekey, one.ciphertext⟩
  | .error _ => none

/-- From `raw` on, the program makes the calls of some of the jobs, and collects what some
of these give. -/
def Fans (env : FanoutEnv) (plaintext : Bytes) (m : Sending RawEncrypt) (raw : RawEncrypt)
    (jobs : List Job) : Prop :=
  ∀ s, ∃ (raw' : RawEncrypt) (called sent : List Job), exec m s = (.ok raw', s ++ called.map (callFor plaintext))
    ∧ called.Sublist jobs ∧ sent.Sublist called
    ∧ raw'.devices = raw.devices ++ sent.filterMap (encryptedFor env plaintext)

section Fanout

variable (env : FanoutEnv) (plaintext : Bytes) (plan : SessionPlan)

theorem exec_encryptJobs (jobs : List Job) (s : List EncryptCall) :
    exec (encryptJobs env plaintext jobs) s
      = (.ok (jobs.map fun job =>
            (job.2, (env.messageEncrypt plaintext job.1 job.2).map extractCiphertext)),
          s ++ jobs.map (callFor plaintext)) := by
  induction jobs generalizing s with
  | nil => simp [encryptJobs]
  | cons job jobs ih =>
    have hone : exec (encryptOneDevice env plaintext job.1 job.2) s
        = (.ok (job.2, (env.messageEncrypt plaintext job.1 job.2).map extractCiphertext),
            s ++ [callFor plaintext job]) := rfl
    rw [encryptJobs] at ih ⊢
    rw [List.mapM_cons, exec_bind_ok hone, exec_bind_ok (ih _)]
    simp

theorem devices_pushRawResult (counted : List Jid) (raw : RawEncrypt) (job : Job) :
    (pushRawResult counted raw
        (job.2, (env.messageEncrypt plaintext job.1 job.2).map extractCiphertext)).devices
      = raw.devices ++ (encryptedFor env plaintext job).toList := by
  rw [encryptedFor]
  cases env.messageEncrypt plaintext job.1 job.2 with
  | error e => simp [pushRawResult, Except.map]
  | ok message => cases h : extractCiphertext message <;> simp [pushRawResult, Except.map, h]

theorem fans_encryptInline (jobs : List Job) (raw : RawEncrypt) :
    Fans env plaintext (encryptInline env plaintext plan jobs raw) raw jobs := by
  intro s
  refine ⟨_, jobs, jobs, exec_bind_ok (exec_encryptJobs env plaintext jobs s), .refl _, .refl _, ?_⟩
  rw [List.foldl_map, List.filterMap_eq_flatMap_toList]
  induction jobs generalizing raw with
  | nil => simp
  | cons job jobs ih =>
    rw [List.foldl_cons, ih, devices_pushRawResult, List.flatMap_cons, List.append_assoc]

theorem fans_receiveChunk (chunkJobs : List Job) (taskEnd : TaskEnd) (raw : RawEncrypt) :
    Fans env plaintext (receiveChunk env plaintext plan chunkJobs taskEnd raw) raw chunkJobs := by
  cases taskEnd with
  | delivered => exact fans_encryptInline env plaintext plan chunkJobs raw
  | lost encrypted error =>
    -- the calls were made, and their results are lost
    intro s
    exact ⟨_, _, [], exec_bind_ok (exec_encryptJobs env plaintext (chunkJobs.take encrypted) s),
      List.take_sublist _ _, List.nil_sublist _, (List.append_nil _).symm⟩

theorem fans_encryptChunks (jobs : List Job) (numChunks : Nat) (order : List Nat)
    (raw : RawEncrypt) :
    Fans env plaintext (encryptChunks env plaintext plan jobs numChunks order raw) raw
      (order.flatMap (chunk jobs numChunks)) := by
  induction order generalizing raw with
  | nil => exact fun s => ⟨raw, [], [], by simp [encryptChunks], .slnil, .slnil, by simp⟩
  | cons index order ih =>
    intro s
    obtain ⟨raw₁, called₁, sent₁, hexec₁, hcalled₁, hsent₁, hdevices₁⟩ :=
      fans_receiveChunk env plaintext plan (chunk jobs numChunks index) (env.taskEnd index) raw s
    obtain ⟨raw₂, called₂, sent₂, hexec₂, hcalled₂, hsent₂, hdevices₂⟩ :=
      ih raw₁ (s ++ called₁.map (callFor plaintext))
    refine ⟨raw₂, called₁ ++ called₂, sent₁ ++ sent₂, ?_, ?_, hsent₁.append hsent₂, ?_⟩
    · rw [encryptChunks, exec_bind_ok hexec₁, hexec₂, List.map_append, List.append_assoc]
    · rw [List.flatMap_cons]
      exact hcalled₁.append hcalled₂
    · rw [hdevices₂, hdevices₁, List.filterMap_append, List.append_assoc]

variable {env plaintext} {job : Job} {one : EncryptedDevice}

theorem encryptedFor_eq_some (h : encryptedFor env plaintext job = some one) :
    ∃ message result, env.messageEncrypt plaintext job.1 job.2 = .ok message
      ∧ extractCiphertext message = some result
      ∧ one = ⟨job.2, result.encType, result.isPrekey, result.ciphertext⟩ := by
  rw [encryptedFor] at h
  split at h
  · rename_i message hmessage
    obtain ⟨result, hresult, rfl⟩ := Option.map_eq_some_iff.mp h
    exact ⟨message, result, hmessage, hresult, rfl⟩
  · cases h

/-- A device is collected at most once for each of its jobs. -/
theorem sublist_encryptedFor (sent : List Job) :
    ((sent.filterMap (encryptedFor env plaintext)).map (·.deviceJid)).Sublist
      (sent.map Prod.snd) := by
  induction sent with
  | nil => exact .slnil
  | cons job sent ih =>
    rw [List.filterMap_cons]
    split
    · exact ih.cons _
    · rename_i one hone
      obtain ⟨_, _, -, -, rfl⟩ := encryptedFor_eq_some hone
      exact ih.cons_cons _

end Fanout

/-! ## Chunks -/

/-- The first chunks are the first jobs. -/
theorem flatMap_chunk_range (jobs : List Job) {n : Nat} (m : Nat) :
    (List.range m).flatMap (chunk jobs n) = jobs.take (m * jobs.length / n) := by
  induction m with
  | zero => simp
  | succ m ih =>
    have hle : m * jobs.length / n ≤ (m + 1) * jobs.length / n :=
      Nat.div_le_div_right (Nat.mul_le_mul_right _ (Nat.le_succ m))
    rw [List.range_succ, List.flatMap_append, ih, List.flatMap_singleton, chunk, ← List.take_add,
      Nat.add_sub_cancel' hle]

/-- All chunks, in any order, are all jobs. -/
theorem flatMap_chunk_perm (jobs : List Job) {n : Nat} (hn : 0 < n) {order : List Nat}
    (horder : order.Perm (List.range n)) : (order.flatMap (chunk jobs n)).Perm jobs := by
  refine (horder.flatMap_right _).trans ?_
  rw [flatMap_chunk_range, Nat.mul_div_cancel_left _ hn, List.take_length]

theorem map_snd_jobs (env : FanoutEnv) (plan : SessionPlan) (devices : List Jid) :
    (jobs env plan devices).map Prod.snd = devices := by
  apply List.ext_getElem?
  intro i
  cases h : devices[i]? <;> simp [jobs, h]

/-- The whole fan-out, in place or in chunks. -/
theorem exec_encryptForDevicesRaw (env : FanoutEnv) (devices : List Jid) (plaintext : Bytes)
    (plan : SessionPlan) (s : List EncryptCall) :
    ∃ (raw : RawEncrypt) (called sent : List Job), exec (encryptForDevicesRaw env devices plaintext plan) s
        = (.ok raw, s ++ called.map (callFor plaintext))
      ∧ called.Subperm (jobs env plan devices) ∧ sent.Sublist called
      ∧ raw.devices = sent.filterMap (encryptedFor env plaintext) := by
  rw [encryptForDevicesRaw]
  split
  · obtain ⟨raw, called, sent, hexec, hcalled, hsent, hraw⟩ :=
      fans_encryptInline env plaintext plan (jobs env plan devices) ⟨[], false, plan.firstError, 0⟩ s
    exact ⟨raw, called, sent, hexec, hcalled.subperm, hsent, hraw⟩
  · rename_i hmany
    obtain ⟨raw, called, sent, hexec, hcalled, hsent, hraw⟩ :=
      fans_encryptChunks env plaintext plan (jobs env plan devices)
        (min ENCRYPT_FANOUT_CONCURRENCY devices.length) (env.order _) ⟨[], false, plan.firstError, 0⟩ s
    have hpos : 0 < min ENCRYPT_FANOUT_CONCURRENCY devices.length := by
      exact Nat.lt_min.mpr ⟨by decide, by omega⟩
    have hperm := flatMap_chunk_perm (jobs env plan devices) hpos (env.order_perm _)
    exact ⟨raw, called, sent, hexec, hcalled.subperm.trans hperm.subperm, hsent, hraw⟩

/-- The devices that are collected are some of those addressed. -/
theorem subperm_encryptedFor {env : FanoutEnv} {plan : SessionPlan} {devices : List Jid}
    {called sent : List Job} (plaintext : Bytes) (hcalled : called.Subperm (jobs env plan devices))
    (hsent : sent.Sublist called) :
    ((sent.filterMap (encryptedFor env plaintext)).map (·.deviceJid)).Subperm devices := by
  obtain ⟨l, hperm, hl⟩ := hcalled
  have hdevices := hl.map Prod.snd
  rw [map_snd_jobs] at hdevices
  exact (sublist_encryptedFor sent).subperm.trans ((hsent.map Prod.snd).subperm.trans
    ((hperm.map Prod.snd).symm.subperm.trans hdevices.subperm))

/-! ## Reached or dropped -/

/-- No device is on the list twice. -/
def Deduplicated (devices : List Jid) : Prop := devices.Pairwise fun a b => a.same b = false

variable {devices : List Jid}

theorem Deduplicated.nodup (h : Deduplicated devices) : devices.Nodup :=
  h.imp fun hab heq => by simp [heq, Jid.same_self] at hab

theorem Deduplicated.eq_of_same (h : Deduplicated devices) {a b : Jid} (ha : a ∈ devices)
    (hb : b ∈ devices) (hsame : a.same b = true) : a = b := by
  have hsymm : Std.Symm fun a b : Jid => a.same b = false :=
    ⟨fun a b hab => (Jid.same_comm b a).trans hab⟩
  by_contra hne
  have hdistinct := List.Pairwise.forall h ha hb hne
  rw [hsame] at hdistinct
  exact absurd hdistinct (by decide)

/-- The devices with a ciphertext and those without make up the list. -/
theorem perm_droppedDevices {encrypted : List EncryptedDevice} (hdevices : Deduplicated devices)
    (hsub : (encrypted.map (·.deviceJid)).Subperm devices) :
    (encrypted.map (·.deviceJid) ++ droppedDevices devices encrypted).Perm devices := by
  rw [droppedDevices]
  split
  · have hmem : ∀ jid ∈ devices, (encrypted.any fun one => one.deviceJid.same jid)
        = decide (jid ∈ encrypted.map (·.deviceJid)) := by
      intro jid hjid
      rw [Bool.eq_iff_iff, List.any_eq_true, decide_eq_true_iff, List.mem_map]
      constructor
      · rintro ⟨one, hone, hsame⟩
        exact ⟨one, hone, hdevices.eq_of_same (hsub.subset (List.mem_map_of_mem hone)) hjid hsame⟩
      · rintro ⟨one, hone, rfl⟩
        exact ⟨one, hone, Jid.same_self _⟩
    have hkeyed : (encrypted.map (·.deviceJid)).Perm
        (devices.filter fun jid => decide (jid ∈ encrypted.map (·.deviceJid))) := by
      obtain ⟨l, hperm, hl⟩ := hsub
      have hnodup := hperm.nodup_iff.mp (hl.nodup hdevices.nodup)
      rw [List.perm_ext_iff_of_nodup hnodup (hdevices.nodup.filter _)]
      intro jid
      rw [List.mem_filter, decide_eq_true_iff]
      exact ⟨fun h => ⟨hl.subset (hperm.mem_iff.mpr h), h⟩, And.right⟩
    rw [List.filter_congr fun jid hjid => congrArg Bool.not (hmem jid hjid)]
    exact (hkeyed.append_right _).trans (List.filter_append_perm _ devices)
  · rename_i hall
    rw [List.append_nil]
    exact hsub.perm_of_length_le (by simpa using hall)

/-! ## Nodes and calls -/

def children (node : Node) : List Node :=
  match node.content with
  | some (.nodes nodes) => nodes
  | _ => []

/-- What a participant node has for its device. -/
structure Carried where
  deviceJid : Jid
  encType : String
  ciphertext : Bytes
  deriving DecidableEq

/-- A node that is read as the receiver does. -/
def carried (node : Node) : Option Carried :=
  match node.tag, node.attrs.lookup "jid", children node with
  | "to", some (.jid deviceJid), [enc] =>
    match enc.tag, enc.attrs.lookup "type", enc.content with
    | "enc", some (.string encType), some (.bytes ciphertext) =>
      some ⟨deviceJid, encType, ciphertext⟩
    | _, _, _ => none
  | _, _, _ => none

/-- The nodes of a stanza under `participants`. -/
def participants (stanza : Node) : List (Option Carried) :=
  (((children stanza).find? (·.tag = "participants")).elim [] children).map carried

def EncryptedDevice.carried (one : EncryptedDevice) : Carried :=
  ⟨one.deviceJid, one.encType, one.ciphertext⟩

/-- The participant has what `message_encrypt` returns for the call. -/
def EncryptCall.Gives (env : FanoutEnv) (call : EncryptCall) (x : Carried) : Prop :=
  ∃ message one, env.messageEncrypt call.plaintext call.address call.deviceJid = .ok message
    ∧ extractCiphertext message = some one
    ∧ x = ⟨call.deviceJid, one.encType, one.ciphertext⟩

/-- One of the two fan-outs of a message. -/
structure DmHalf where
  env : FanoutEnv
  devices : List Jid
  addresses : Option (List Jid)
  plaintext : Bytes

/-- The call is for a device of the half, at the address that the session plan has for it. -/
def DmHalf.Makes (half : DmHalf) (call : EncryptCall) : Prop :=
  call.plaintext = half.plaintext
    ∧ ∃ plan index, half.env.plan half.devices half.addresses = .ok plan
      ∧ half.devices[index]? = some call.deviceJid
      ∧ call.address = encryptAddressAt half.env plan call.deviceJid index

/-- All calls are those of the half of their device, and the participants have what they
returned. -/
structure Logged (half : Jid → DmHalf) (reached : List Carried) (calls : List EncryptCall) :
    Prop where
  made : ∀ call ∈ calls, (half call.deviceJid).Makes call
  given : ∀ x ∈ reached, ∃ call ∈ calls, call.Gives (half x.deviceJid).env x

/-- What is called for the devices of a half, and how it ends. -/
theorem meets_encryptForDevicesInto {half : Jid → DmHalf} (h : DmHalf)
    (hhalf : ∀ jid ∈ h.devices, half jid = h) (hdevices : Deduplicated h.devices)
    (reached : List Carried) (hide : Bool) (mediatype : Option String) (nodes : List Node) :
    Meets (encryptForDevicesInto h.env h.devices h.plaintext hide mediatype nodes h.addresses)
      (Logged half reached)
      (fun r calls => ∃ fresh, r.2.map carried = nodes.map carried ++ fresh.map some
        ∧ (fresh.map (·.deviceJid) ++ r.1.droppedDevices).Perm h.devices
        ∧ Logged half (reached ++ fresh) calls)
      (fun _ calls => ∀ call ∈ calls, (half call.deviceJid).Makes call) := by
  have hplanned : Meets
      (Eff.ofExcept ((h.env.plan h.devices h.addresses).mapError SendError.other)) (Logged half reached)
      (fun plan calls => (h.env.plan h.devices h.addresses).mapError SendError.other = .ok plan
        ∧ Logged half reached calls)
      (fun _ calls => ∀ call ∈ calls, (half call.deviceJid).Makes call) :=
    (meets_ofExcept _ _).mono (fun _ => id) (fun _ _ => id) (fun _ _ hs => hs.made)
  refine hplanned.bind_and fun plan hplan s hs => ?_
  obtain ⟨raw, called, sent, hexec, hcalled, hsent, hraw⟩ :=
    exec_encryptForDevicesRaw h.env h.devices h.plaintext plan s
  have hsub := subperm_encryptedFor h.plaintext hcalled hsent
  rw [← hraw] at hsub
  rw [exec_bind_ok hexec]
  refine ⟨raw.devices.map EncryptedDevice.carried, ?_, ?_, ?_, ?_⟩
  · simp only [List.map_append, List.map_map]
    rfl
  · rw [List.map_map]
    exact perm_droppedDevices hdevices hsub
  · -- the new calls are for the jobs of the plan
    refine List.forall_mem_append.mpr ⟨hs.made, fun call hcall => ?_⟩
    obtain ⟨job, hjob, rfl⟩ := List.mem_map.mp hcall
    obtain ⟨index, hindex⟩ := List.mem_iff_getElem?.mp (hcalled.subset hjob)
    obtain ⟨device, hdevice, rfl⟩ : ∃ device, h.devices[index]? = some device
        ∧ (encryptAddressAt h.env plan device index, device) = job := by
      rwa [jobs, List.getElem?_mapIdx, Option.map_eq_some_iff] at hindex
    rw [callFor, hhalf device (List.mem_of_getElem? hdevice)]
    exact ⟨rfl, plan, index, mapError_eq_ok.mp hplan, hdevice, rfl⟩
  · refine List.forall_mem_append.mpr ⟨fun x hx => ?_, fun x hx => ?_⟩
    · obtain ⟨call, hcall, hgives⟩ := hs.given x hx
      exact ⟨call, List.mem_append_left _ hcall, hgives⟩
    · obtain ⟨one, hone, rfl⟩ := List.mem_map.mp hx
      have hdevice := hsub.subset (List.mem_map_of_mem hone)
      rw [hraw] at hone
      obtain ⟨job, hjob, hencrypted⟩ := List.mem_filterMap.mp hone
      obtain ⟨message, result, hmessage, hresult, rfl⟩ := encryptedFor_eq_some hencrypted
      refine ⟨callFor h.plaintext job,
        List.mem_append_right _ (List.mem_map_of_mem (hsent.subset hjob)), message, result, ?_,
        hresult, rfl⟩
      rw [EncryptedDevice.carried, hhalf _ hdevice]
      exact hmessage

/-! ## The two plaintexts -/

section Prepare

variable {codec : MessageCodec} (facts : MessageFacts codec) (request : DmStanzaRequest codec)
  (pads : Pads)

/-- The encoded message without a context. -/
def messageContent : Bytes :=
  if request.message.messageContextInfo.isSome then
    codec.messageToVec { request.message with messageContextInfo := none }
  else request.preEncoded.getD (codec.messageToVec request.message)

/-- The field of the context that goes with it. -/
def messageContext : Bytes :=
  let extra := (reportingResult facts request).map facts.reportingContextInfo
  codec.contextBytes (codec.mergeContext request.message extra).messageContextInfo

/-- The message itself. -/
def bareMessage : Bytes :=
  padMessageV2 (messageContent request ++ messageContext facts request) pads.recipient

/-- The message in a wrapper that says where it went. -/
def deviceSentMessage : Bytes :=
  padMessageV2
    (MessageCodec.deviceSentBytes (Binary.jidRefToCompact request.toJid) (messageContent request)
      ++ messageContext facts request) pads.ownDevices

theorem dmPlaintexts_eq (sized : codec.Sized) :
    (dmPlaintexts facts request pads).recipient = bareMessage facts request pads
      ∧ (request.devices.partitioned.ownOtherDevices ≠ [] →
        (dmPlaintexts facts request pads).ownDevices = deviceSentMessage facts request pads) := by
  rw [dmPlaintexts, sharedContent, bareMessage, deviceSentMessage, messageContent, messageContext]
  cases hcontext : request.message.messageContextInfo with
  | none =>
    have hmerge (extra : Option codec.ContextInfo) :
        (codec.mergeContext request.message extra).messageContextInfo = extra := by
      rw [MessageCodec.mergeContext, hcontext]
      cases extra <;> rfl
    rw [hmerge]
    cases request.devices.partitioned.ownOtherDevices with
    | nil => exact ⟨by simp [MessageCodec.padWithContextFromEncoded, sized.messageField_eq], absurd rfl⟩
    | cons jid jids => simp [MessageCodec.dmPlaintextsFromEncoded, sized.splice_eq]
  | some context =>
    simp [sized.encodeDmPlaintexts_eq, MessageCodec.dmPlaintextsFromEncoded, sized.splice_eq]

/-! ## The two halves -/

/-- The half of our own companions, or that of the recipient. -/
def dmHalf (recipients companions : FanoutEnv) : (own : Bool) → DmHalf
  | true => ⟨companions, request.devices.partitioned.ownOtherDevices,
    (splitAddresses request.devices).2, deviceSentMessage facts request pads⟩
  | false => ⟨recipients, request.devices.partitioned.recipientDevices,
    (splitAddresses request.devices).1, bareMessage facts request pads⟩

variable {facts request pads} {recipients companions : FanoutEnv} {half : Jid → DmHalf}
  (sized : codec.Sized)
include sized

theorem meets_recipientHalf
    (hhalf : ∀ jid ∈ request.devices.partitioned.recipientDevices,
      half jid = dmHalf facts request pads recipients companions false)
    (hdevices : Deduplicated request.devices.partitioned.recipientDevices) :
    Meets (recipientHalf facts recipients request (dmPlaintexts facts request pads))
      (Logged half [])
      (fun fanout calls => ∃ reached, fanout.participantNodes.map carried = reached.map some
        ∧ (reached.map (·.deviceJid) ++ fanout.unreachedDevices).Perm
          request.devices.partitioned.recipientDevices
        ∧ (request.toJid.matchesUserOrLid request.ownJid request.ownLid = false → reached ≠ [])
        ∧ Logged half reached calls)
      (fun _ calls => ∀ call ∈ calls, (half call.deviceJid).Makes call) := by
  rw [recipientHalf, (dmPlaintexts_eq facts request pads sized).1]
  split
  · refine (meets_encryptForDevicesInto (dmHalf facts request pads recipients companions false) hhalf
      hdevices [] _ _ []).bind fun r => ?_
    dsimp only
    split
    · rintro s ⟨fresh, -, -, hlogged⟩
      exact hlogged.made
    · rename_i hsome
      rintro s ⟨fresh, hnodes, hperm, hlogged⟩
      refine ⟨fresh, hnodes, hperm, fun _ hnil => hsome ?_, hlogged⟩
      rw [hnil] at hnodes
      exact List.isEmpty_iff.mpr (List.map_eq_nil_iff.mp hnodes)
  · rename_i hnone
    have hempty : request.devices.partitioned.recipientDevices = [] := by simpa using hnone
    split
    · exact fun _ hs => hs.made
    · rename_i hown
      refine fun _ hs => ⟨[], rfl, ?_, fun hother => ?_, hs⟩
      · rw [hempty]
        exact .refl _
      · rw [hother] at hown
        exact absurd rfl hown

theorem meets_ownHalf
    (hhalf : ∀ jid ∈ request.devices.partitioned.ownOtherDevices,
      half jid = dmHalf facts request pads recipients companions true)
    (hdevices : Deduplicated request.devices.partitioned.ownOtherDevices) (fanout : DmFanout)
    {reached : List Carried} (hreached : fanout.participantNodes.map carried = reached.map some) :
    Meets (ownHalf facts companions request (dmPlaintexts facts request pads) fanout)
      (Logged half reached)
      (fun fanout' calls => ∃ fresh,
        fanout'.participantNodes.map carried = (reached ++ fresh).map some
        ∧ ((reached ++ fresh).map (·.deviceJid) ++ fanout'.unreachedDevices).Perm
          (reached.map (·.deviceJid) ++ fanout.unreachedDevices
            ++ request.devices.partitioned.ownOtherDevices)
        ∧ Logged half (reached ++ fresh) calls)
      (fun _ calls => ∀ call ∈ calls, (half call.deviceJid).Makes call) := by
  rw [ownHalf]
  split
  · rename_i hsome
    rw [(dmPlaintexts_eq facts request pads sized).2 (by simpa using hsome)]
    refine (meets_encryptForDevicesInto (dmHalf facts request pads recipients companions true) hhalf
      hdevices reached _ _ _).bind fun r s hr => ?_
    obtain ⟨fresh, hnodes, hperm, hlogged⟩ := hr
    refine ⟨fresh, ?_, ?_, hlogged⟩
    · rw [List.map_append, ← hreached]
      exact hnodes
    · -- the new nodes and the new drops each go behind the old ones
      refine .trans ?_ (hperm.append_left _)
      simp only [List.map_append, List.append_assoc]
      refine .append_left _ ?_
      rw [← List.append_assoc, ← List.append_assoc]
      exact List.perm_append_comm.append_right _
  · rename_i hnone
    have hempty : request.devices.partitioned.ownOtherDevices = [] := by simpa using hnone
    refine fun _ hs => ⟨[], ?_, ?_, ?_⟩
    · rwa [List.append_nil]
    · rw [hempty, List.append_nil, List.append_nil]
    · rwa [List.append_nil]

/-! ## The stanza -/

theorem meets_prepareDmStanza
    (hdevices : Deduplicated request.devices.partitioned.devices)
    (hrecipients : ∀ jid ∈ request.devices.partitioned.recipientDevices,
      half jid = dmHalf facts request pads recipients companions false)
    (hcompanions : ∀ jid ∈ request.devices.partitioned.ownOtherDevices,
      half jid = dmHalf facts request pads recipients companions true) :
    Meets (prepareDmStanza facts recipients companions request pads) (Logged half [])
      (fun stanza calls => ∃ reached, participants stanza.node = reached.map some
        ∧ (reached.map (·.deviceJid) ++ stanza.unreachedDevices).Perm
          request.devices.partitioned.devices
        ∧ (request.toJid.matchesUserOrLid request.ownJid request.ownLid = false →
          ∃ x ∈ reached, x.deviceJid ∈ request.devices.partitioned.recipientDevices)
        ∧ Logged half reached calls)
      (fun _ calls => ∀ call ∈ calls, (half call.deviceJid).Makes call) := by
  refine (meets_recipientHalf sized hrecipients
    (hdevices.sublist (List.take_sublist _ _))).bind fun first s hs => ?_
  obtain ⟨reached, hreached, hfirst, hother, hlogged⟩ := hs
  refine ((meets_ownHalf sized hcompanions (hdevices.sublist (List.drop_sublist _ _)) first
    hreached).bind fun fanout => ?_) s hlogged
  dsimp only
  split
  · rintro s ⟨fresh, -, -, hlogged⟩
    exact hlogged.made
  · rintro s ⟨fresh, hnodes, hfanout, hlogged⟩
    refine ⟨reached ++ fresh, hnodes, ?_, fun hto => ?_, hlogged⟩
    · refine hfanout.trans ((hfirst.append_right _).trans ?_)
      rw [PartitionedDmDevices.recipientDevices, PartitionedDmDevices.ownOtherDevices,
        List.take_append_drop]
    · obtain ⟨x, hx⟩ := List.exists_mem_of_ne_nil _ (hother hto)
      exact ⟨x, List.mem_append_left _ hx,
        hfirst.subset (List.mem_append_left _ (List.mem_map_of_mem hx))⟩

end Prepare

/-! ## Routing -/

theorem partitioned_dmDevices (allDevices : List Jid) (ownJid : Jid) (ownLid : Option Jid) :
    InPlace.Partitioned (isExactDmSenderDevice · ownJid ownLid)
      (fun jid => !jid.matchesUserOrLid ownJid ownLid) allDevices
      ((partitionDmDevices allDevices ownJid ownLid).devices,
        (partitionDmDevices allDevices ownJid ownLid).recipientCount) :=
  InPlace.partitioned_partition allDevices

theorem Deduplicated.partition {allDevices : List Jid} (h : Deduplicated allDevices) (ownJid : Jid)
    (ownLid : Option Jid) : Deduplicated (partitionDmDevices allDevices ownJid ownLid).devices :=
  ((partitioned_dmDevices allDevices ownJid ownLid).perm.pairwise_iff
    fun hab => (Jid.same_comm _ _).trans hab).mpr (h.filter _)

/-- The devices are parted as they should be, whatever fails; each call encrypts for a
device what is meant for it; and a stanza has a node for each device, with the ciphertext
of a call for that device, or reports it, with at least one node for somebody else if it
is to somebody else. -/
theorem dm_fanout_routing {codec : MessageCodec} (sized : codec.Sized) (facts : MessageFacts codec)
    (recipients companions : FanoutEnv) (request : DmStanzaRequest codec) (pads : Pads)
    {allDevices : List Jid} (hdedup : Deduplicated allDevices)
    (hdevices : request.devices.partitioned
      = partitionDmDevices allDevices request.ownJid request.ownLid) :
    let parts := request.devices.partitioned
    let own := fun jid : Jid => jid.matchesUserOrLid request.ownJid request.ownLid
    let half := fun jid => dmHalf facts request pads recipients companions (own jid)
    let run := exec (prepareDmStanza facts recipients companions request pads) []
    parts.devices.Perm
        (allDevices.filter fun jid => !isExactDmSenderDevice jid request.ownJid request.ownLid)
      ∧ parts.devices = parts.recipientDevices ++ parts.ownOtherDevices
      ∧ (∀ jid ∈ parts.recipientDevices, own jid = false)
      ∧ (∀ jid ∈ parts.ownOtherDevices, own jid = true)
      ∧ (∀ call ∈ run.2, (half call.deviceJid).Makes call)
      ∧ ∀ stanza, run.1 = .ok stanza → ∃ reached : List Carried,
        participants stanza.node = reached.map some
        ∧ (reached.map (·.deviceJid) ++ stanza.unreachedDevices).Perm parts.devices
        ∧ (reached.map (·.deviceJid)).Disjoint stanza.unreachedDevices
        ∧ (own request.toJid = false → ∃ x ∈ reached, x.deviceJid ∈ parts.recipientDevices)
        ∧ ∀ x ∈ reached, ∃ call ∈ run.2, call.Gives (half x.deviceJid).env x := by
  intro parts own half run
  have hparted := partitioned_dmDevices allDevices request.ownJid request.ownLid
  have hnodup := hdedup.partition request.ownJid request.ownLid
  rw [← hdevices] at hparted hnodup
  have hother : ∀ jid ∈ parts.recipientDevices, own jid = false :=
    fun jid hjid => by simpa using hparted.front_take jid hjid
  have hown : ∀ jid ∈ parts.ownOtherDevices, own jid = true :=
    fun jid hjid => by simpa using hparted.front_drop jid hjid
  have hmeets : Meets (prepareDmStanza facts recipients companions request pads) (Logged half []) _ _ :=
    meets_prepareDmStanza sized hnodup (fun jid hjid => by simp only [half, hother jid hjid])
      (fun jid hjid => by simp only [half, hown jid hjid])
  have hnone : Logged half [] [] := ⟨nofun, nofun⟩
  refine ⟨hparted.perm, (List.take_append_drop _ _).symm, hother, hown, ?_, ?_⟩
  · refine (hmeets.mono (fun _ => id) (fun _ _ h => ?_) (fun _ _ => id)).exec_snd hnone
    obtain ⟨_, -, -, -, hlogged⟩ := h
    exact hlogged.made
  · intro stanza hstanza
    cases hexec : run with
    | mk result calls =>
      obtain rfl : result = .ok stanza := by simpa only [hexec] using hstanza
      obtain ⟨reached, hnodes, hperm, hsome, hlogged⟩ := hmeets.of_ok hexec hnone
      exact ⟨reached, hnodes, hperm,
        List.disjoint_of_nodup_append (hperm.nodup_iff.mpr hnodup.nodup), hsome, hlogged.given⟩

/-- A codec whose messages are their own encoding. -/
def MessageCodec.raw : MessageCodec where
  Content := Bytes
  ContextInfo := Unit
  messageComputeSize m := m.content.length
  messageToVec m := m.content
  contextInfoComputeSize _ := 0
  contextInfoToVec _ := []
  mergeContextInfo context _ := context

def MessageFacts.raw : MessageFacts .raw :=
  ⟨fun _ _ _ _ _ => none, fun _ => (), fun _ => false, fun _ => none, fun _ => "text", fun _ => none⟩

/-- Sessions with some devices that pass the plaintext on. -/
def FanoutEnv.passing (keyed : Jid → Bool) : FanoutEnv where
  plan _ _ := .ok ⟨[], [], false, [], none, []⟩
  toProtocolAddress jid := ⟨jid.user, jid.device.toNat⟩
  messageEncrypt plaintext _ jid :=
    if keyed jid then .ok (.signalMessage plaintext) else .error "no session"
  taskEnd _ := .delivered
  order := List.range
  order_perm _ := .refl _

/-- Us, a companion of ours under its LID, and two devices of the recipient. -/
def fourDevices : List Jid :=
  [⟨"1", .pn, 0, 3, 0⟩, ⟨"9", .lid, 0, 5, 0⟩, ⟨"2", .pn, 0, 0, 0⟩, ⟨"2", .pn, 0, 7, 0⟩]

def toRecipient : DmStanzaRequest .raw where
  ownJid := ⟨"1", .pn, 0, 3, 0⟩
  ownLid := some ⟨"9", .lid, 0, 3, 0⟩
  account := none
  toJid := ⟨"2", .pn, 0, 0, 0⟩
  message := ⟨[10, 2, 104, 105], none⟩
  messageId := "A1"
  edit := none
  extraNodes := []
  devices := .new fourDevices ⟨"1", .pn, 0, 3, 0⟩ (some ⟨"9", .lid, 0, 3, 0⟩)
  preEncoded := none

/-- One of the recipient's devices fails: it is reported, and the others have a node with
what is meant for them. -/
theorem dm_fanout_routing_fourDevices :
    ∃ stanza, (exec (prepareDmStanza .raw (.passing (·.device = 0)) (.passing fun _ => true)
        toRecipient ⟨1, 2⟩) []).1 = .ok stanza
      ∧ stanza.unreachedDevices = [⟨"2", .pn, 0, 7, 0⟩]
      ∧ participants stanza.node
        = [some ⟨⟨"2", .pn, 0, 0, 0⟩, "msg", bareMessage .raw toRecipient ⟨1, 2⟩⟩,
          some ⟨⟨"9", .lid, 0, 5, 0⟩, "msg", deviceSentMessage .raw toRecipient ⟨1, 2⟩⟩]
      ∧ ∃ reached : List Carried, participants stanza.node = reached.map some
        ∧ (reached.map (·.deviceJid) ++ stanza.unreachedDevices).Perm
          toRecipient.devices.partitioned.devices
        ∧ ∃ x ∈ reached, x.deviceJid ∈ toRecipient.devices.partitioned.recipientDevices := by
  have hdedup : Deduplicated fourDevices := by
    unfold Deduplicated fourDevices
    decide
  obtain ⟨-, -, -, -, -, hstanza⟩ := dm_fanout_routing ⟨fun _ => rfl, fun _ => rfl⟩ .raw
    (.passing (·.device = 0)) (.passing fun _ => true) toRecipient ⟨1, 2⟩ hdedup rfl
  obtain ⟨reached, hnodes, hperm, -, hsome, -⟩ := hstanza _ rfl
  exact ⟨_, rfl, by decide, by decide, reached, hnodes, hperm, hsome (by decide)⟩

end WaCore.Send
