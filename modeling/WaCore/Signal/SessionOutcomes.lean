import WaCore.Signal.FastForward
import WaCore.Signal.SessionFrames

/-!
# What the calls do to a record

For each call on a checked-out record: the record if the call returns a value, and
the record if it stops.  A decryption of a message for a session and an encryption
leave the record as it was when they stop; a prekey message may not, and its
caller puts the old record back.
-/

namespace WaCore.Signal

open Eff

/-- The record of the call has the property. -/
def Working.Has {σ : Type} (P : SessionRecord → Prop) (w : Working σ) : Prop := P w.record

section Rules

variable {σ α : Type} {P : SessionRecord → Prop}

theorem keeps_await (m : Eff σ Stop α) : Keeps (Working.Has P) (Working.await m) :=
  fun _ h => h

theorem meets_await (m : Eff σ Stop α) :
    Meets (Working.await m) (Working.Has P) (fun _ => Working.Has P) (fun _ => Working.Has P) :=
  (keeps_await m).meets fun _ _ h => h

theorem meets_sync_bind {τ β : Type} {r : Except SignalProtocolError α} {f : α → Eff τ Stop β}
    {Q : τ → Prop} {R : β → τ → Prop} (hf : ∀ a, r = .ok a → Meets (f a) Q R fun _ => Q) :
    Meets (sync r >>= f) Q R fun _ => Q :=
  meets_ofExcept_bind fun a h => hf a (mapError_eq_ok.mp h)

theorem exec_onRecord (m : Eff SessionRecord SignalProtocolError α) (w : Working σ) :
    (Working.onRecord m).exec w
      = ((m.exec w.record).1.mapError .error, { w with record := (m.exec w.record).2 }) := rfl

end Rules

/-! ## Decryption -/

variable {P : SessionRecord → Prop} {decrypt : RecordDecrypt}

section Decrypt

variable {σ : Type} {C : Crypto} {stores : ProtocolStores σ} {remoteAddress : ProtocolAddress}
  {input : SignalDecryptInput} {type : CiphertextMessageType} {csprng : Nat → KeyPair}
  {r : SessionRecord}

theorem exec_decryptRecord (w : Working σ) :
    (decryptRecord C input type csprng).exec w
      = ((decryptMessageWithRecord C input type csprng w.record).1.mapError .error,
          { w with record := (decryptMessageWithRecord C input type csprng w.record).2 }) := rfl

theorem meets_decryptRecord :
    Meets (decryptRecord C input type csprng) (Working.Has (σ := σ) (· = r))
      (fun decrypt => Working.Has (RecordDecrypt.From r decrypt))
      (fun _ => Working.Has (· = r)) := by
  intro w hw
  obtain rfl : w.record = r := hw
  rw [exec_decryptRecord]
  rcases (decryptMessageWithRecord_spec : (∃ e, decryptMessageWithRecord C input type csprng w.record
    = (.error e, w.record)) ∨ _) with ⟨e, h⟩ | ⟨decrypt, record', h, hfrom⟩
  · rw [h]
    rfl
  · rw [h]
    exact hfrom

theorem keeps_updateIdentity (decrypt : RecordDecrypt) :
    Keeps (Working.Has P) (updateIdentity stores remoteAddress decrypt) := by
  refine keeps_get_bind fun w hw => snd_ofExcept_bind hw fun their _ => ?_
  split
  · exact (keeps_await _).bind (fun _ => keeps_pure _) w hw
  · refine (keeps_await _).bind (fun trusted => ?_) w hw
    split
    · exact keeps_await _
    · exact keeps_throw _

/-- A call that stops while a decryption waits undoes it. -/
theorem meets_guarding {α : Type} {m : Eff (Working σ) Stop α}
    (hm : Keeps (Working.Has (RecordDecrypt.From r decrypt)) m) :
    Meets (guarding decrypt m) (Working.Has (RecordDecrypt.From r decrypt))
      (fun _ => Working.Has (RecordDecrypt.From r decrypt)) (fun _ => Working.Has (· = r)) :=
  (hm.meets fun _ _ h => h).onFailure fun _ _ h => h.drop

theorem meets_commit :
    Meets (Working.onRecord (decrypt.commit C))
      (Working.Has (σ := σ) (RecordDecrypt.From r decrypt))
      (fun _ => Working.Has (r.Decrypted C)) (fun _ => Working.Has (· = r)) := by
  intro w hw
  obtain ⟨plaintext, record', hcommit, hdecrypted⟩ := RecordDecrypt.From.commit hw
  rw [exec_onRecord, hcommit]
  exact hdecrypted

/-- A message for a session is decrypted, or the record is as it was. -/
theorem meets_messageDecryptSignalInner :
    Meets (messageDecryptSignalInner C stores remoteAddress input csprng) (Working.Has (· = r))
      (fun _ => Working.Has (r.Decrypted C)) (fun _ => Working.Has (· = r)) := by
  refine meets_get_bind fun w _ => ?_
  split
  · exact fun _ h => h
  · refine meets_decryptRecord.bind fun decrypt => ?_
    refine (meets_guarding (keeps_updateIdentity decrypt)).bind fun identityChange => ?_
    exact meets_commit.bind fun _ _ h => h

end Decrypt

/-! ## Encryption -/

/-- The state with its sender chain at another key. -/
def SessionState.withChainKey (s : SessionState) (chain : SessionStructure.Chain) (next : ChainKey) :
    SessionState :=
  { s with senderChain := some { chain with chainKey := some next.toStructure } }

/-- The record after a message was encrypted with it. -/
inductive SessionRecord.Encrypted (C : Crypto) (r : SessionRecord) : SessionRecord → Prop where
  | sent {s : SessionState} {chain : SessionStructure.Chain} {ck next : ChainKey}
    {keys : MessageKeyGenerator}
    (hcurrent : r.currentSession = some s) (hchain : s.senderChain = some chain)
    (hkey : chain.chainKey = some ck.toStructure)
    (hstep : ck.stepWithMessageKeys C = .ok (keys, next)) :
    Encrypted C r
      ({ r with currentSession := some (s.withChainKey chain next) }.reserveSenderChainCounters
        ck.index)

section Encrypt

variable {σ : Type} {C : Crypto} {codec : SignalMessageCodec} {stores : ProtocolStores σ}
  {remoteAddress : ProtocolAddress} {r r' : SessionRecord} {s : SessionState}

theorem advanceSender_eq_ok (hcurrent : r.currentSession = some s)
    (h : advanceSender C r s = .ok r') : r.Encrypted C r' := by
  obtain ⟨ck, hck, h⟩ := bind_eq_ok.mp h
  obtain ⟨⟨keys, next⟩, hstep, h⟩ := bind_eq_ok.mp h
  obtain ⟨t, ht, h⟩ := bind_eq_ok.mp h
  cases h
  rw [invalidSession_eq_ok] at hck ht
  obtain ⟨chain, hchain, hkey⟩ := SessionState.getSenderChainKey_eq_ok.mp hck
  rw [SessionState.setSenderChainKey, hchain] at ht
  cases ht
  exact .sent hcurrent hchain hkey hstep

theorem meets_messageEncryptInner (ptext : Bytes) :
    Meets (messageEncryptInner C codec stores remoteAddress ptext) (Working.Has (· = r))
      (fun _ => Working.Has (r.Encrypted C)) (fun _ => Working.Has (· = r)) := by
  refine meets_get_bind fun w hw => ?_
  obtain rfl : w.record = r := hw
  refine meets_sync_bind fun s hs => ?_
  refine meets_sync_bind fun their _ => ?_
  refine (meets_await _).bind fun trusted => ?_
  split
  · refine meets_sync_bind fun ciphertext _ => ?_
    refine (meets_await _).bind fun _ => meets_sync_bind fun next hnext w' _ => ?_
    exact advanceSender_eq_ok (okOr_eq_ok.mp hs) hnext
  · exact fun _ h => h

end Encrypt

/-! ## Prekey messages -/

/-- The record once a prekey message has been processed: it has a session for the
message, or has got a new one. -/
inductive SessionRecord.Processed (C : Crypto) (r : SessionRecord) : SessionRecord → Prop where
  | matched {version : UInt32} {baseKey : Bytes} {r' : SessionRecord}
    (h : r.promoteMatchingSession C version baseKey = (true, r')) : Processed C r r'
  | fresh (bob : SessionState) : Processed C r (r.promoteFreshState C bob)

section Prekey

variable {σ : Type} {C : Crypto} {stores : ProtocolStores σ} {remoteAddress : ProtocolAddress}
  {csprng : Nat → KeyPair} {r : SessionRecord}

theorem meets_oneTimePreKeyPair (preKeyId : Option UInt32) :
    Meets (oneTimePreKeyPair stores preKeyId) (Working.Has P) (fun _ => Working.Has P)
      (fun _ => Working.Has P) := by
  cases preKeyId with
  | none => exact fun _ h => h
  | some preKeyId => exact (meets_await _).bind fun _ _ h => h

theorem meets_newBobSession (message : PreKeySignalMessage) :
    Meets (newBobSession C stores message) (Working.Has P) (fun _ => Working.Has P)
      (fun _ => Working.Has P) := by
  refine (meets_await _).bind fun signed => (meets_oneTimePreKeyPair _).bind fun oneTime => ?_
  refine (meets_await _).bind fun identity => meets_sync_bind fun newSession _ => ?_
  exact (meets_await _).bind fun registrationId _ hw => hw

theorem promoteMatchingSession_false {version : UInt32} {baseKey : Bytes} {r' : SessionRecord}
    (h : r.promoteMatchingSession C version baseKey = (false, r')) : r' = r := by
  rw [SessionRecord.promoteMatchingSession] at h
  split at h
  · cases h
  · split at h
    · cases h
    · cases h
      rfl

theorem meets_processPrekeyImpl (message : PreKeySignalMessage) :
    Meets (processPrekeyImpl C stores message) (Working.Has (· = r))
      (fun _ => Working.Has (r.Processed C)) (fun _ => Working.Has (· = r)) := by
  refine meets_get_bind fun w hw => ?_
  obtain rfl : w.record = r := hw
  cases hpromote : w.record.promoteMatchingSession C message.messageVersion.toUInt32
    message.baseKey.serialize with
  | mk found r' =>
    intro w' hw'
    cases found with
    | true => exact .matched hpromote
    | false =>
      obtain rfl := promoteMatchingSession_false hpromote
      refine (meets_newBobSession message).bind (fun bob w'' hw'' => ?_)
        { w with record := w.record } (rfl)
      have hrecord : w''.record = w.record := hw''
      change w.record.Processed C (w''.record.promoteFreshState C bob)
      rw [hrecord]
      exact .fresh bob

theorem meets_processPrekey (message : PreKeySignalMessage) :
    Meets (processPrekey C stores remoteAddress message) (Working.Has (· = r))
      (fun _ => Working.Has (r.Processed C)) (fun _ => Working.Has (· = r)) := by
  refine (meets_await _).bind fun trusted => ?_
  split
  · exact meets_processPrekeyImpl message
  · exact fun _ h => h

/-- A prekey message is decrypted, or the record is as it was or has been
processed. -/
theorem meets_messageDecryptPrekeyInner (message : PreKeySignalMessage) (owned : Bool) :
    Meets (messageDecryptPrekeyInner C stores remoteAddress message owned csprng)
      (Working.Has (· = r))
      (fun _ => Working.Has fun r' => ∃ p : SessionRecord, r.Processed C p ∧ p.Decrypted C r')
      (fun _ => Working.Has fun r' => r' = r ∨ r.Processed C r') := by
  refine ((meets_processPrekey message).mono (fun _ h => h) (fun _ _ h => h)
    fun _ _ h => .inl h).bind fun _ w hw => ?_
  have hprocessed : r.Processed C w.record := hw
  refine Meets.mono (P := Working.Has (· = w.record)) (E := fun _ => Working.Has (· = w.record)) ?_
    (fun _ h => h) (fun _ _ h => ⟨w.record, hprocessed, h⟩) (fun _ w' hw' => .inr ?_) w rfl
  · refine meets_decryptRecord.bind fun decrypt => ?_
    refine (meets_guarding (keeps_await _)).bind fun saved => ?_
    exact meets_commit.bind fun _ _ h => h
  · have hrecord : w'.record = w.record := hw'
    exact hrecord ▸ hprocessed

/-! ## Prekey bundles -/

/-- A bundle gives the record a new session. -/
theorem meets_processPrekeyBundleInner (bundle : PreKeyBundle) (keys : NewSessionKeys) :
    Meets (processPrekeyBundleInner C stores remoteAddress bundle keys) (Working.Has (· = r))
      (fun _ => Working.Has fun r' => ∃ s, r' = r.promoteFreshState C s)
      (fun _ => Working.Has (· = r)) := by
  refine (meets_await _).bind fun identity => meets_sync_bind fun session _ => ?_
  refine (meets_await _).bind fun registrationId => ?_
  refine (meets_await _).bind fun identityChange w hw => ?_
  exact ⟨_, congrArg (SessionRecord.promoteFreshState C · _) hw⟩

end Prekey

end WaCore.Signal
