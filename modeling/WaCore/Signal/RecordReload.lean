import WaCore.Lib.Layout
import WaCore.Signal.RecordRoundTrip
import WaCore.Signal.SenderChainDrop

/-!
# Reloading a record

A record that was written to the store is read again by the store's own incarnation,
by a later one, or without any.  The first finds it as it was.  The others must not
use a counter below the ceiling, so that they advance the sender chain to it; a
ceiling too far ahead of the chain is refused.
-/

namespace WaCore.Signal

open Wire

/-- A record that is written under an incarnation and read under it is the same.
Under another one, or none, it is the same but for the current sender chain, which is
advanced to the ceiling, and it is refused if the ceiling is too far ahead.  A waived
record is the same, with a lease that has nothing reserved. -/
theorem records_reload {codec : SessionCodec} (hcodec : codec.RoundTrips)
    {keyCodec : SenderKeyRecordCodec} (hkeyCodec : keyCodec.RoundTrips) (C : Crypto) :
    (∀ r : StoredRecord, r.WellFormed codec →
      Reloads (fun i j => StoredRecord.deserializeInner codec C (r.serializeIntoInner codec (some i)) j)
          { r with lease := .fromPersistedCeiling r.lease.ceiling }
          (∀ s ∈ r.currentSession, s.WithinReach r.lease.ceiling)
          (fun r' => Option.Rel (fun s s' => s.Advanced C r.lease.ceiling s') r.currentSession
              r'.currentSession
            ∧ r'.previousSessions = r.previousSessions
            ∧ r'.lease = .fromPersistedCeiling r.lease.ceiling)
        ∧ (r.lease = .waived → ∀ i j,
          StoredRecord.deserializeInner codec C (r.serializeIntoInner codec i) j
            = .ok { r with lease := .fromPersistedCeiling 0 }))
    ∧ ∀ r : SenderKeyRecord, r.WellFormed keyCodec →
      Reloads (fun i j => SenderKeyRecord.deserializeBytes keyCodec C
            (r.serializeBytes keyCodec (some i)) j)
          { r with lease := .fromPersistedCeiling r.lease.ceiling }
          (∀ s ∈ r.states.head?, s.WithinReach r.lease.ceiling)
          (fun r' => SenderKeyState.FrontAdvanced C r.lease.ceiling r.states r'.states
            ∧ r'.lease = .fromPersistedCeiling r.lease.ceiling)
        ∧ (r.lease = .waived → ∀ i j,
          SenderKeyRecord.deserializeBytes keyCodec C (r.serializeBytes keyCodec i) j
            = .ok { r with lease := .fromPersistedCeiling 0 }) := by
  refine ⟨fun r h => ⟨r.reloads hcodec h C, fun hwaived i j => ?_⟩,
    fun r h => ⟨r.reloads hkeyCodec h C, fun hwaived i j => ?_⟩⟩
  · have hzero : r.lease.ceiling = 0 := by rw [hwaived]; rfl
    rw [StoredRecord.deserializeInner_serializeIntoInner hcodec h, hzero]
    exact StoredRecord.fastForwardUntrusted_of_zero rfl
  · have hzero : r.lease.ceiling = 0 := by rw [hwaived]; rfl
    rw [SenderKeyRecord.deserializeBytes_serializeBytes hkeyCodec h, hzero, ite_eq_left_iff]
    intro _
    rw [SenderKeyRecord.fastForward, if_neg (by decide)]

/-! ## A codec that writes field after field -/

namespace SessionStructure

def MessageKey.layout : Layout MessageKey :=
  (Layout.pair (.option .uint32) <| .pair (.option .bytes) <| .pair (.option .bytes) <|
    .pair (.option .bytes) (.option .bytes)).map
    (fun key => (key.index, key.cipherKey, key.macKey, key.iv, key.seed))
    (fun (index, cipherKey, macKey, iv, seed) => ⟨index, cipherKey, macKey, iv, seed⟩) fun _ => rfl

def ChainKey.layout : Layout ChainKey :=
  (Layout.pair (.option .uint32) (.option .bytes)).map (fun chainKey => (chainKey.index, chainKey.key))
    (fun (index, key) => ⟨index, key⟩) fun _ => rfl

def ChainMessage.layout : Layout ChainMessage :=
  (Layout.pair (.option .bytes) <| .pair (.option .bytes) <|
    .pair (.option ChainKey.layout) (.list MessageKey.layout)).map
    (fun chain => (chain.senderRatchetKey, chain.senderRatchetKeyPrivate, chain.chainKey,
      chain.messageKeys))
    (fun (ratchetKey, privateKey, chainKey, messageKeys) =>
      ⟨ratchetKey, privateKey, chainKey, messageKeys⟩) fun _ => rfl

def PendingPreKey.layout : Layout PendingPreKey :=
  (Layout.pair (.option .uint32) <| .pair (.option .uint32) (.option .bytes)).map
    (fun pending => (pending.preKeyId, pending.signedPreKeyId, pending.baseKey))
    (fun (preKeyId, signedPreKeyId, baseKey) => ⟨preKeyId, signedPreKeyId, baseKey⟩) fun _ => rfl

protected def layout : Layout SessionStructure :=
  (Layout.pair (.option .uint32) <| .pair (.option .bytes) <| .pair (.option .bytes) <|
    .pair (.option .bytes) <| .pair (.option .uint32) <| .pair (.option ChainMessage.layout) <|
    .pair (.list ChainMessage.layout) <| .pair (.option PendingPreKey.layout) <|
    .pair (.option .uint32) <| .pair (.option .uint32) (.option .bytes)).map
    (fun s => (s.sessionVersion, s.localIdentityPublic, s.remoteIdentityPublic, s.rootKey,
      s.previousCounter, s.senderChain, s.receiverChains, s.pendingPreKey, s.remoteRegistrationId,
      s.localRegistrationId, s.aliceBaseKey))
    (fun (version, localIdentity, remoteIdentity, rootKey, previousCounter, senderChain,
        receiverChains, pendingPreKey, remoteRegistrationId, localRegistrationId, aliceBaseKey) =>
      ⟨version, localIdentity, remoteIdentity, rootKey, previousCounter, senderChain,
        receiverChains, pendingPreKey, remoteRegistrationId, localRegistrationId, aliceBaseKey⟩)
    fun _ => rfl

end SessionStructure

def SenderChainKeyStructure.layout : Layout SenderChainKeyStructure :=
  (Layout.pair (.option .uint32) (.option .bytes)).map (fun key => (key.iteration, key.seed))
    (fun (iteration, seed) => ⟨iteration, seed⟩) fun _ => rfl

def SenderMessageKeyStructure.layout : Layout SenderMessageKeyStructure :=
  (Layout.pair (.option .uint32) (.option .bytes)).map (fun key => (key.iteration, key.seed))
    (fun (iteration, seed) => ⟨iteration, seed⟩) fun _ => rfl

def SenderSigningKey.layout : Layout SenderSigningKey :=
  (Layout.pair (.option .bytes) (.option .bytes)).map (fun key => (key.publicKey, key.privateKey))
    (fun (publicKey, privateKey) => ⟨publicKey, privateKey⟩) fun _ => rfl

def SenderKeyStateStructure.layout : Layout SenderKeyStateStructure :=
  (Layout.pair (.option .uint32) <| .pair (.option SenderChainKeyStructure.layout) <|
    .pair (.option SenderSigningKey.layout) (.list SenderMessageKeyStructure.layout)).map
    (fun s => (s.senderKeyId, s.senderChainKey, s.senderSigningKey, s.senderMessageKeys))
    (fun (id, chainKey, signingKey, messageKeys) => ⟨id, chainKey, signingKey, messageKeys⟩)
    fun _ => rfl

def decodeSessions (bytes : Bytes) : Option (Option SessionStructure × List SessionStructure) := do
  let current ← messages (fun _ _ => none) CURRENT_SESSION_FIELD SessionStructure.layout.decode bytes
  let previous ← messages (fun _ _ => none) PREVIOUS_SESSIONS_FIELD SessionStructure.layout.decode
    bytes
  pure (current.getLast?, previous)

def SessionCodec.fieldwise : SessionCodec where
  View := SessionStructure
  encodeMessage := SessionStructure.layout.put
  decodeView := SessionStructure.layout.decode
  toOwnedMessage := some
  decodeRecordView := decodeSessions
  skipGroup _ _ := none

theorem SessionCodec.roundTrips_fieldwise : SessionCodec.fieldwise.RoundTrips where
  session s := ⟨s, SessionStructure.layout.decode_put s, rfl⟩
  record current previous unknown currentView previousViews hfits hunknown hcurrent hprevious := by
    obtain ⟨hfirst, hsecond⟩ := payloads_recordFields current previous hunknown
    have hlist : current.toList.mapM SessionStructure.layout.decode = some currentView.toList := by
      cases current with
      | none =>
        cases hcurrent
        rfl
      | some bytes =>
        obtain ⟨view, hview, heq⟩ := Option.map_eq_some_iff.mp hcurrent
        cases heq
        rw [Option.toList_some, List.mapM_cons,
          show SessionStructure.layout.decode bytes = some view from hview]
        rfl
    have hsome : currentView.toList.getLast? = currentView := by cases currentView <;> rfl
    have hrest : previous.mapM SessionStructure.layout.decode = some previousViews := hprevious
    change decodeSessions _ = _
    rw [decodeSessions, messages_encode hfits, messages_encode hfits, hfirst, hsecond, hlist, hrest]
    exact congrArg (fun c => some (c, previousViews)) hsome

def stateFields (states : List SenderKeyStateStructure) : List Field :=
  (states.map SenderKeyStateStructure.layout.put).map (Field.lengthDelimited SENDER_KEY_STATES_FIELD)

def SenderKeyRecordCodec.fieldwise : SenderKeyRecordCodec where
  senderKeyRecordToVec states := (stateFields states).flatMap Field.encode
  senderKeyRecordDecode :=
    messages (fun _ _ => none) SENDER_KEY_STATES_FIELD SenderKeyStateStructure.layout.decode
  skipGroup _ _ := none

theorem fits_stateFields {states : List SenderKeyStateStructure}
    (h : ((stateFields states).flatMap Field.encode).length < 2 ^ 64) :
    ∀ f ∈ stateFields states, f.Fits := by
  intro f hf
  -- the whole is at least as long as each payload in it
  have hle : f.encode.length ≤ ((stateFields states).flatMap Field.encode).length :=
    (List.sublist_flatten_of_mem (List.mem_map_of_mem hf)).length_le
  obtain ⟨payload, -, rfl⟩ := List.mem_map.mp hf
  rw [Field.encode, Field.body, List.length_append, List.length_append] at hle
  exact ⟨by simp [Field.tag, Tag.Fits, SENDER_KEY_STATES_FIELD], by dsimp only; omega⟩

theorem SenderKeyRecordCodec.roundTrips_fieldwise : SenderKeyRecordCodec.fieldwise.RoundTrips where
  fields states hlength := by
    refine ⟨stateFields states, rfl, fits_stateFields hlength, fun f hf => ?_⟩
    obtain ⟨payload, -, rfl⟩ := List.mem_map.mp hf
    rfl
  decode states unknown hlength hunknown := by
    have hfits : ∀ f ∈ stateFields states ++ unknown, f.Fits := fun f hf =>
      (List.mem_append.mp hf).elim (fits_stateFields hlength f) fun hf => (hunknown f hf).1
    change messages (fun _ _ => none) SENDER_KEY_STATES_FIELD SenderKeyStateStructure.layout.decode
      ((stateFields states).flatMap Field.encode ++ unknown.flatMap Field.encode) = _
    rw [← List.flatMap_append, messages_encode hfits, payloads_append,
      payloads_of_ne fun f hf => (hunknown f hf).2, List.append_nil, stateFields, payloads_map,
      Layout.mapM_decode]

/-! ## A session and a group -/

/-- The new session's record. -/
def newRecord (lease : CounterLease) : StoredRecord := ⟨some newSession, [], lease⟩

theorem wellFormed_newRecord (lease : CounterLease) :
    (newRecord lease).WellFormed .fieldwise where
  length_le := Nat.zero_le _
  archived _ h := by cases h
  fits f hf := by
    rcases List.mem_append.mp hf with hf | hf
    · obtain rfl := List.mem_singleton.mp hf
      refine ⟨by simp [Field.tag, Tag.Fits, CURRENT_SESSION_FIELD], ?_⟩
      exact (by decide +kernel : (SessionStructure.layout.put newSession.toProtobuf).length < 2 ^ 64)
    · exact (mem_localFields hf).1
  canonical s hs := by
    cases hs
    exact ⟨by rintro chain ⟨⟩ key ⟨⟩, by rintro chain ⟨⟩⟩

def newGroup : SenderKeyState where
  senderKeyId := some 1
  senderSigningKey := none
  messageKeys := []
  senderChain := some ⟨0, .replicate 32 0⟩

theorem wellFormed_newGroup (lease : CounterLease) :
    SenderKeyRecord.WellFormed .fieldwise ⟨[newGroup], lease⟩ where
  length_le := (by decide : 1 ≤ MAX_SENDER_KEY_STATES)
  fits := (by decide : ((stateFields [newGroup.asProtobuf]).flatMap Field.encode).length < 2 ^ 64)

/-- A session with a batch reserved is the same under its own incarnation, and a group
is advanced without one. -/
theorem records_reload_new :
    SessionCodec.fieldwise.RoundTrips ∧ SenderKeyRecordCodec.fieldwise.RoundTrips
    ∧ (newRecord (.leased 64 true)).WellFormed .fieldwise
    ∧ StoredRecord.deserializeInner .fieldwise .transparent
        ((newRecord (.leased 64 true)).serializeIntoInner .fieldwise (some (.replicate 16 7)))
        (some (.replicate 16 7)) = .ok (newRecord (.leased 64 false))
    ∧ SenderKeyRecord.WellFormed .fieldwise ⟨[newGroup], .leased 64 true⟩
    ∧ ∃ r, SenderKeyRecord.deserializeBytes .fieldwise .transparent
        (SenderKeyRecord.serializeBytes .fieldwise ⟨[newGroup], .leased 64 true⟩
          (some (.replicate 16 7))) none = .ok r
      ∧ SenderKeyState.FrontAdvanced .transparent 64 [newGroup] r.states
      ∧ r.lease = .leased 64 false := by
  obtain ⟨hsessions, hgroups⟩ := records_reload SessionCodec.roundTrips_fieldwise
    SenderKeyRecordCodec.roundTrips_fieldwise .transparent
  refine ⟨SessionCodec.roundTrips_fieldwise, SenderKeyRecordCodec.roundTrips_fieldwise, wellFormed_newRecord _, ?_,
    wellFormed_newGroup _, ?_⟩
  · exact (hsessions _ (wellFormed_newRecord _)).1.own _
  · refine (hgroups _ (wellFormed_newGroup _)).1.other _ none (by simp) ?_
    rintro s ⟨⟩ c ⟨⟩
    exact (by decide : (64 : UInt32).toNat ≤ (0 : UInt32).toNat + MAX_RESERVATION_FAST_FORWARD.toNat)

/-- A record whose reservation is more than 2000 ahead of its chain is not read by
another incarnation. -/
theorem far_reservation_is_refused :
    SessionCodec.fieldwise.RoundTrips
    ∧ (newRecord (CounterLease.fresh.reserve 1937)).WellFormed .fieldwise
    ∧ ∃ e, StoredRecord.deserializeInner .fieldwise .transparent
        ((newRecord (CounterLease.fresh.reserve 1937)).serializeIntoInner .fieldwise
          (some (.replicate 16 7))) none = .error e := by
  have hround := SessionCodec.roundTrips_fieldwise
  have hwell := wellFormed_newRecord (CounterLease.fresh.reserve 1937)
  refine ⟨hround, hwell, (StoredRecord.reloads hround hwell .transparent).refused _ none (by simp) ?_⟩
  intro hreach
  exact absurd (hreach newSession rfl ⟨.replicate 32 0, 0⟩ rfl) (by decide)

end WaCore.Signal
