import WaCore.Signal.GroupRecords
import WaCore.Signal.RecordComponents
import WaCore.Signal.RecordReload
import WaCore.Signal.SessionOutcomes

/-!
# The steps of a session record

Everything that happens to a session record between the empty one and the store: the
calls that work on it, archiving and promotion, the end of a reservation, export and
import, and being written and read again.

The ceiling belongs to the record and the index to whichever chain is current.  Every
step keeps them together: a chain that becomes current is advanced to the ceiling, or is
a new one for which the ceiling is lowered.
-/

namespace WaCore.Signal

open Eff

/-! ## Steps -/

/-- The record in memory, with its archived sessions encoded. -/
def SessionRecord.stored (codec : SessionCodec) (record : SessionRecord) : StoredRecord where
  currentSession := record.currentSession
  previousSessions := record.previousSessions.map fun s => codec.encodeMessage s.toProtobuf
  lease := record.lease

/-- The record with its archived sessions decoded. -/
def StoredRecord.parsed (codec : SessionCodec) (record : StoredRecord) :
    Except String SessionRecord := do
  let previousSessions ← record.previousSessions.mapM (decodeArchived codec)
  pure ⟨record.currentSession, previousSessions.map SessionState.fromSessionStructure, record.lease⟩

namespace SessionRecord

/-- One step of a record.  A call that stops is a step too. -/
inductive Step (C : Crypto) (messages : SignalMessageCodec) (codec : SessionCodec) :
    SessionRecord → SessionRecord → Prop where
  | encrypt {σ : Type} {stores : ProtocolStores σ} {address : ProtocolAddress} {ptext : Bytes}
    {result : Except Stop CiphertextMessage} {st st' : σ} {r r' : SessionRecord}
    (h : (messageEncryptInner C messages stores address ptext).exec ⟨st, r⟩ = (result, ⟨st', r'⟩)) :
    Step C messages codec r r'
  | decrypt {σ : Type} {stores : ProtocolStores σ} {address : ProtocolAddress}
    {input : SignalDecryptInput} {csprng : Nat → KeyPair} {result : Except Stop DecryptionResult}
    {st st' : σ} {r r' : SessionRecord}
    (h : (messageDecryptSignalInner C stores address input csprng).exec ⟨st, r⟩
      = (result, ⟨st', r'⟩)) :
    Step C messages codec r r'
  | decryptPrekey {σ : Type} {stores : ProtocolStores σ} {address : ProtocolAddress}
    {message : PreKeySignalMessage} {owned : Bool} {csprng : Nat → KeyPair}
    {result : Except Stop DecryptionResult} {st st' : σ} {r r' : SessionRecord}
    (h : (messageDecryptPrekeyInner C stores address message owned csprng).exec ⟨st, r⟩
      = (result, ⟨st', r'⟩)) :
    Step C messages codec r r'
  | processBundle {σ : Type} {stores : ProtocolStores σ} {address : ProtocolAddress}
    {bundle : PreKeyBundle} {keys : NewSessionKeys} {result : Except Stop IdentityChange}
    {st st' : σ} {r r' : SessionRecord}
    (h : (processPrekeyBundleInner C stores address bundle keys).exec ⟨st, r⟩
      = (result, ⟨st', r'⟩)) :
    Step C messages codec r r'
  | archive (r : SessionRecord) : Step C messages codec r r.archiveCurrentState
  | promote (r : SessionRecord) (state : SessionState) :
    Step C messages codec r (r.promoteState C state)
  | promoteFresh (r : SessionRecord) (state : SessionState) :
    Step C messages codec r (r.promoteFreshState C state)
  | promoteMatching (r : SessionRecord) (version : UInt32) (baseKey : Bytes) :
    Step C messages codec r (r.promoteMatchingSession C version baseKey).2
  | promoteOld (r : SessionRecord) (i : Nat) (state : SessionState) :
    Step C messages codec r (r.promoteOldSession C i state)
  | clearPending (r : SessionRecord) : Step C messages codec r r.clearPendingReservation
  | waive (r : SessionRecord) : Step C messages codec r (r.waiveCounterLease C)
  | reimport {r r' : SessionRecord} {components : SessionRecordComponents}
    (hinto : r.intoComponents C = .ok components) (hfrom : fromComponents components = .ok r') :
    Step C messages codec r r'
  /-- Written under one incarnation and read under another; no encoding is longer than
  memory. -/
  | reload {r r' : SessionRecord} {written current : Option (FixedBytes 16)} {read : StoredRecord}
    (hfits : ∀ f ∈ (r.stored codec).fields codec none, f.Fits)
    (hread : StoredRecord.deserializeInner codec C ((r.stored codec).serializeIntoInner codec written)
      current = .ok read)
    (hparsed : read.parsed codec = .ok r') :
    Step C messages codec r r'

/-- The record comes from the empty one by steps. -/
def Reachable (C : Crypto) (messages : SignalMessageCodec) (codec : SessionCodec)
    (r : SessionRecord) : Prop :=
  Relation.ReflTransGen (Step C messages codec) newFresh r

end SessionRecord

/-! ## The sender chain under the ceiling -/

namespace SessionState

variable {C : Crypto} {s t : SessionState} {target : UInt32}

/-- Whether a reservation is within reach depends on the key of the sender chain alone. -/
theorem withinReach_congr (h : t.senderChain.map (·.chainKey) = s.senderChain.map (·.chainKey)) :
    t.WithinReach target ↔ s.WithinReach target := by
  have hkeys : ∀ ck, t.getSenderChainKey = .ok ck ↔ s.getSenderChainKey = .ok ck := by
    intro ck
    have hiff : ∀ u : SessionState, u.getSenderChainKey = .ok ck
        ↔ u.senderChain.map (·.chainKey) = some (some ck.toStructure) := by
      intro u
      rw [getSenderChainKey_eq_ok, Option.map_eq_some_iff]
    rw [hiff, hiff, h]
  simp only [WithinReach, hkeys]

theorem Advanced.withinReach (h : s.Advanced C target t) : t.WithinReach target := by
  cases h with
  | unusable hnone => exact fun ck hck => absurd hck (hnone ck)
  | @advanced chain ck ck' hchain hkey hadvance =>
    intro next hnext
    obtain ⟨chain', hchain', hkey'⟩ := getSenderChainKey_eq_ok.mp hnext
    obtain rfl := Option.some.inj hchain'
    have hsame : some ck'.index = some next.index :=
      congrArg (·.bind SessionStructure.ChainKey.index) hkey'
    rw [← Option.some.inj hsame]
    have hindex := ChainKey.index_advance hadvance
    omega

theorem withinReach_fastForwardSenderChainOrDrop (C : Crypto) (s : SessionState) (target : UInt32) :
    (s.fastForwardSenderChainOrDrop C target).WithinReach target := by
  by_cases h : s.WithinReach target
  · exact (fastForwardSenderChainOrDrop_of_withinReach h).withinReach
  · rw [fastForwardSenderChainOrDrop_of_not_withinReach h]
    rintro ck ⟨⟩

/-- Any chain is within reach of a small reservation. -/
theorem withinReach_of_le (h : target ≤ SENDER_CHAIN_RESERVATION_BATCH) : s.WithinReach target := by
  intro ck _
  have hbatch : SENDER_CHAIN_RESERVATION_BATCH.toNat ≤ MAX_RESERVATION_FAST_FORWARD.toNat := by decide
  rw [UInt32.le_iff_toNat_le] at h
  omega

end SessionState

/-! ## The bounds of a record -/

namespace SessionRecord

/-- The archive is bounded, and the ceiling is within reach of the current chain. -/
structure Bounded (r : SessionRecord) : Prop where
  archive_le : r.previousSessions.length ≤ ARCHIVED_STATES_MAX_LENGTH
  withinReach : ∀ s ∈ r.currentSession, s.WithinReach r.lease.ceiling

variable {C : Crypto} {messages : SignalMessageCodec} {codec : SessionCodec} {r r' : SessionRecord}

theorem bounded_newFresh : newFresh.Bounded where
  archive_le := Nat.zero_le _
  withinReach s hs := by cases hs

theorem length_archiveCurrentState
    (h : r.previousSessions.length ≤ ARCHIVED_STATES_MAX_LENGTH) :
    r.archiveCurrentState.previousSessions.length ≤ ARCHIVED_STATES_MAX_LENGTH := by
  rw [archiveCurrentState]
  split
  · exact h
  · split
    · have hpos : 0 < ARCHIVED_STATES_MAX_LENGTH := by decide
      rw [List.length_cons, List.length_dropLast]
      omega
    · rw [List.length_cons]
      omega

theorem Bounded.archive (h : r.Bounded) : r.archiveCurrentState.Bounded where
  archive_le := length_archiveCurrentState h.archive_le
  withinReach s hs := by
    rw [archiveCurrentState] at hs
    cases hcurrent : r.currentSession with
    | none =>
      exact absurd hs (by simp [hcurrent])
    | some t =>
      rw [hcurrent] at hs
      cases hs

/-- A state that is promoted is advanced to the ceiling, wherever it was. -/
theorem bounded_promoteState (h : r.previousSessions.length ≤ ARCHIVED_STATES_MAX_LENGTH)
    (state : SessionState) : (r.promoteState C state).Bounded where
  archive_le := length_archiveCurrentState h
  withinReach s hs := by
    rw [promoteState] at hs ⊢
    obtain rfl := Option.some.inj hs
    split
    · exact SessionState.withinReach_fastForwardSenderChainOrDrop _ _ _
    · rename_i hzero
      rw [eq_zero_of_not_pos hzero]
      exact state.withinReach_zero

/-- A new state starts without a reservation. -/
theorem bounded_promoteFreshState (h : r.previousSessions.length ≤ ARCHIVED_STATES_MAX_LENGTH)
    (state : SessionState) : (r.promoteFreshState C state).Bounded where
  archive_le := by
    exact length_archiveCurrentState (by exact h)
  withinReach s _ := by
    rw [promoteFreshState]
    rw [CounterLease.ceiling_clearReservation]
    exact s.withinReach_zero

/-- The current state may be replaced by one with the same sender chain, and the ceiling
lowered. -/
theorem Bounded.replace (h : r.Bounded) {s t : SessionState} {lease : CounterLease}
    (hcurrent : r.currentSession = some s) (ht : t.senderChain = s.senderChain)
    (hlease : lease.ceiling ≤ r.lease.ceiling) :
    Bounded { r with currentSession := some t, lease } where
  archive_le := h.archive_le
  withinReach u hu := by
    obtain rfl := Option.some.inj hu
    refine (SessionState.withinReach_congr (s := s) (by rw [ht])).mpr fun ck hck => ?_
    exact Nat.le_trans hlease (h.withinReach s hcurrent ck hck)

/-- A message that is sent moves the chain by one, and the ceiling at most a batch ahead
of it. -/
theorem Bounded.encrypted (h : r.Bounded) (hencrypted : r.Encrypted C r') : r'.Bounded := by
  cases hencrypted with
  | @sent s chain ck next keys hcurrent hchain hkey hstep =>
    refine ⟨h.archive_le, fun t ht ck' hck' => ?_⟩
    obtain rfl := Option.some.inj ht
    obtain ⟨chain', hchain', hkey'⟩ := SessionState.getSenderChainKey_eq_ok.mp hck'
    obtain rfl := Option.some.inj hchain'
    have hsame : some next.index = some ck'.index :=
      congrArg (·.bind SessionStructure.ChainKey.index) hkey'
    obtain ⟨index, hindex, heq⟩ := bind_eq_ok.mp hstep
    cases heq
    have hnext := checkedSucc_eq_some.mp (okOr_eq_ok.mp hindex)
    have hreach := h.withinReach s hcurrent ck
      (SessionState.getSenderChainKey_eq_ok.mpr ⟨chain, hchain, hkey⟩)
    have hceiling := r.lease.ceiling_reserve_le ck.index
    have hbatch : SENDER_CHAIN_RESERVATION_BATCH.toNat ≤ MAX_RESERVATION_FAST_FORWARD.toNat := by
      decide
    rw [← Option.some.inj hsame, reserveSenderChainCounters]
    dsimp only
    omega

theorem bounded_rebase (h : r.previousSessions.length ≤ ARCHIVED_STATES_MAX_LENGTH) :
    r.rebaseLeaseAfterSenderChainReset.Bounded :=
  ⟨h, fun _ _ => SessionState.withinReach_of_le r.lease.ceiling_rebase_le⟩

theorem Bounded.eraseIdx_le (h : r.Bounded) (i : Nat) :
    (r.previousSessions.eraseIdx i).length ≤ ARCHIVED_STATES_MAX_LENGTH :=
  Nat.le_trans (List.length_eraseIdx_le _ _) h.archive_le

theorem Bounded.decrypted (h : r.Bounded) (hdecrypted : r.Decrypted C r') : r'.Bounded := by
  cases hdecrypted with
  | current hcurrent ht => exact h.replace hcurrent ht (UInt32.le_refl _)
  | currentReset t => exact bounded_rebase h.archive_le
  | previous t i => exact bounded_promoteState (h.eraseIdx_le i) t
  | previousReset t i => exact bounded_promoteFreshState (h.eraseIdx_le i) t

theorem Bounded.promoteMatching (h : r.Bounded) (version : UInt32) (baseKey : Bytes) :
    (r.promoteMatchingSession C version baseKey).2.Bounded := by
  rw [promoteMatchingSession]
  split
  · exact h
  · split
    · rename_i state taken htake
      obtain ⟨i, -, hi⟩ := Option.bind_eq_some_iff.mp htake
      obtain ⟨-, rfl⟩ := takePreviousSession_eq_some hi
      exact bounded_promoteState (h.eraseIdx_le i) state
    · exact h

theorem Bounded.processed (h : r.Bounded) (hprocessed : r.Processed C r') : r'.Bounded := by
  cases hprocessed with
  | @matched version baseKey r' hmatched =>
    have hpromoted := h.promoteMatching (C := C) version baseKey
    rwa [hmatched] at hpromoted
  | fresh bob => exact bounded_promoteFreshState h.archive_le bob

/-- A record without a reservation is bounded by its archive. -/
theorem bounded_of_ceiling_zero (h : r.previousSessions.length ≤ ARCHIVED_STATES_MAX_LENGTH)
    (hzero : r.lease.ceiling = 0) : r.Bounded := by
  refine ⟨h, fun s _ => ?_⟩
  rw [hzero]
  exact s.withinReach_zero

theorem Bounded.waive (h : r.Bounded) : (r.waiveCounterLease C).Bounded := by
  refine bounded_of_ceiling_zero ?_ rfl
  rw [waiveCounterLease, List.length_map]
  exact h.archive_le

theorem bounded_fromComponents {components : SessionRecordComponents}
    (h : fromComponents components = .ok r) : r.Bounded := by
  obtain ⟨current, -, h⟩ := bind_eq_ok.mp h
  obtain ⟨previous, hprevious, h⟩ := bind_eq_ok.mp h
  cases h
  refine bounded_of_ceiling_zero ?_ rfl
  rw [List.length_map, ← (mapM_eq_ok.mp hprevious).length_eq]
  exact List.length_take_le _ _

end SessionRecord

/-! ## Reading -/

theorem StoredRecord.exists_fastForwardUntrusted {C : Crypto} {p : StoredRecord}
    (h : ∀ s ∈ p.currentSession, s.WithinReach p.lease.ceiling) (trusted : Bool) :
    ∃ q, p.fastForwardUntrusted C trusted = .ok q ∧ q.previousSessions = p.previousSessions
      ∧ ∀ s ∈ q.currentSession, s.WithinReach q.lease.ceiling := by
  cases trusted with
  | true => exact ⟨p, rfl, rfl, h⟩
  | false =>
    obtain ⟨current, hforward, hrel⟩ := fastForwardUntrusted_of_withinReach h
    refine ⟨_, hforward, rfl, fun s hs => ?_⟩
    obtain rfl : current = some s := hs
    generalize p.currentSession = before at hrel
    cases hrel with
    | some hadvanced => exact hadvanced.withinReach

namespace SessionRecord

variable {C : Crypto} {messages : SignalMessageCodec} {codec : SessionCodec} {r r' : SessionRecord}

theorem Bounded.readable (hcodec : codec.RoundTrips) (h : r.Bounded)
    (hfits : ∀ f ∈ (r.stored codec).fields codec none, f.Fits) : (r.stored codec).Readable codec where
  length_le := by
    rw [stored, List.length_map]
    exact h.archive_le
  archived bytes hbytes := by
    obtain ⟨s, -, rfl⟩ := List.mem_map.mp hbytes
    obtain ⟨view, hview⟩ := hcodec.session s.toProtobuf
    exact ⟨_, StoredRecord.decodeArchived_eq_ok.mpr ⟨view, hview⟩⟩
  fits := hfits

/-- A bounded record can be read, and what is read is bounded. -/
theorem Bounded.read (hcodec : codec.RoundTrips) (h : r.Bounded)
    (hfits : ∀ f ∈ (r.stored codec).fields codec none, f.Fits)
    (written current : Option (FixedBytes 16)) :
    ∃ q, StoredRecord.deserializeInner codec C ((r.stored codec).serializeIntoInner codec written)
        current = .ok q
      ∧ q.previousSessions.length ≤ ARCHIVED_STATES_MAX_LENGTH
      ∧ ∀ s ∈ q.currentSession, s.WithinReach q.lease.ceiling := by
  have hreadable := h.readable hcodec hfits
  rw [StoredRecord.deserializeInner_of_readable hcodec hreadable]
  have hreach : ∀ t ∈ (r.currentSession.map (·.toProtobuf)).map SessionState.fromSessionStructure,
      t.WithinReach r.lease.ceiling := by
    intro t ht
    rw [Option.map_map] at ht
    obtain ⟨s, hs, rfl⟩ := Option.map_eq_some_iff.mp ht
    refine (SessionState.withinReach_congr ?_).mpr (h.withinReach s hs)
    change ((s.senderChain.map (·.toMessage)).map SessionStructure.Chain.fromMessage).map (·.chainKey)
      = _
    rw [Option.map_map, Option.map_map]
    rfl
  obtain ⟨q, hq, hprevious, hwithin⟩ := StoredRecord.exists_fastForwardUntrusted
    (p := ⟨_, (r.stored codec).previousSessions, .fromPersistedCeiling r.lease.ceiling⟩) hreach
    (current.isSome && (written.filter fun _ => 0 < r.lease.ceiling) == current)
  refine ⟨q, hq, ?_, hwithin⟩
  rw [hprevious]
  exact hreadable.length_le

theorem bounded_parsed {q : StoredRecord} (h : q.parsed codec = .ok r)
    (hlength : q.previousSessions.length ≤ ARCHIVED_STATES_MAX_LENGTH)
    (hreach : ∀ s ∈ q.currentSession, s.WithinReach q.lease.ceiling) : r.Bounded := by
  obtain ⟨previous, hprevious, h⟩ := bind_eq_ok.mp h
  cases h
  refine ⟨?_, hreach⟩
  rw [List.length_map, ← (mapM_eq_ok.mp hprevious).length_eq]
  exact hlength

/-! ## Runs -/

/-- A call keeps the bounds if its outcomes do. -/
theorem bounded_exec {σ α : Type} {m : Eff (Working σ) Stop α} {Q : α → SessionRecord → Prop}
    {E : SessionRecord → Prop} {st st' : σ} {result : Except Stop α}
    (hmeets : Meets m (Working.Has (· = r)) (fun a => Working.Has (Q a)) (fun _ => Working.Has E))
    (hexec : m.exec ⟨st, r⟩ = (result, ⟨st', r'⟩)) (hQ : ∀ a r', Q a r' → r'.Bounded)
    (hE : ∀ r', E r' → r'.Bounded) : r'.Bounded := by
  have hbounded : Meets m (Working.Has (· = r)) (fun _ => Working.Has Bounded)
      (fun _ => Working.Has Bounded) :=
    hmeets.mono (fun _ h => h) (fun a w h => hQ a w.record h) fun _ w h => hE w.record h
  have hend := hbounded.exec_snd (s := ⟨st, r⟩) rfl
  rwa [hexec] at hend

/-- One step keeps the bounds. -/
theorem Bounded.step (hcodec : codec.RoundTrips) (h : r.Bounded) (hstep : Step C messages codec r r') :
    r'.Bounded := by
  cases hstep with
  | encrypt hexec =>
    refine bounded_exec (meets_messageEncryptInner _) hexec (fun _ _ hsent => h.encrypted hsent) ?_
    rintro _ rfl
    exact h
  | decrypt hexec =>
    refine bounded_exec meets_messageDecryptSignalInner hexec (fun _ _ hdone => h.decrypted hdone) ?_
    rintro _ rfl
    exact h
  | decryptPrekey hexec =>
    refine bounded_exec (meets_messageDecryptPrekeyInner _ _) hexec ?_ ?_
    · rintro _ _ ⟨p, hprocessed, hdone⟩
      exact (h.processed hprocessed).decrypted hdone
    · rintro _ (rfl | hprocessed)
      · exact h
      · exact h.processed hprocessed
  | processBundle hexec =>
    refine bounded_exec (meets_processPrekeyBundleInner _ _) hexec ?_ ?_
    · rintro _ _ ⟨s, rfl⟩
      exact bounded_promoteFreshState h.archive_le s
    · rintro _ rfl
      exact h
  | archive => exact h.archive
  | promote _ state => exact bounded_promoteState h.archive_le state
  | promoteFresh _ state => exact bounded_promoteFreshState h.archive_le state
  | promoteMatching _ version baseKey => exact h.promoteMatching version baseKey
  | promoteOld _ i state => exact bounded_promoteState (h.eraseIdx_le i) state
  | clearPending =>
    refine ⟨h.archive_le, fun s hs => ?_⟩
    rw [clearPendingReservation, CounterLease.ceiling_setPendingFlush]
    exact h.withinReach s hs
  | waive => exact h.waive
  | reimport _ hfrom => exact bounded_fromComponents hfrom
  | @reload _ _ written current read hfits hread hparsed =>
    obtain ⟨q, hq, hlength, hreach⟩ := h.read hcodec hfits written current
    obtain rfl := Except.ok.inj (hread.symm.trans hq)
    exact bounded_parsed hparsed hlength hreach

/-- So does every run. -/
theorem Reachable.bounded (hcodec : codec.RoundTrips) (h : Reachable C messages codec r) :
    r.Bounded := by
  induction h with
  | refl => exact bounded_newFresh
  | tail _ hstep ih => exact ih.step hcodec hstep

end SessionRecord

/-! ## A session and a group that have sent -/

def plainMessages : SignalMessageCodec := ⟨fun _ _ _ body => body⟩

/-- Every identity is trusted. -/
def trustingStores : ProtocolStores Unit where
  getIdentityKeyPair := pure zeroKeyPair
  getLocalRegistrationId := pure 1
  saveIdentity _ _ := pure .newOrUnchanged
  isTrustedIdentity _ _ _ := pure true
  getPreKey _ := pure zeroKeyPair
  getSignedPreKey _ := pure zeroKeyPair

/-- The record once a message was encrypted with it. -/
def SessionRecord.sending (r : SessionRecord) : SessionRecord :=
  ((messageEncryptInner .transparent plainMessages trustingStores ⟨"peer", 0⟩ [7]).exec
    ⟨(), r⟩).2.record

/-- A new session that has sent, over an older one that had sent too. -/
def sentRecord : SessionRecord :=
  ((SessionRecord.newFresh.promoteFreshState .transparent newSession).sending.promoteFreshState
    .transparent newSession).sending

theorem SessionRecord.step_sending {codec : SessionCodec} (r : SessionRecord) :
    Step .transparent plainMessages codec r r.sending :=
  .encrypt rfl

theorem reachable_sentRecord :
    SessionRecord.Reachable .transparent plainMessages .fieldwise sentRecord :=
  (((Relation.ReflTransGen.single (.promoteFresh _ _)).tail (SessionRecord.step_sending _)).tail
    (.promoteFresh _ _)).tail (SessionRecord.step_sending _)

/-- A chain of our own. -/
def ownGroup : SenderKeyRecord :=
  ⟨[{ newGroup with senderSigningKey := some ⟨some zeroKey.serialize, some (List.replicate 32 0)⟩ }],
    .fresh⟩

/-- The chain once a message was encrypted with it. -/
def sentGroup : SenderKeyRecord :=
  match encryptWithRecord .transparent .words ownGroup [7] [] with
  | .ok (_, r) => r
  | .error _ => .newEmpty

theorem reachable_sentGroup : SenderKeyRecord.Reachable .transparent .words sentGroup := by
  have hadd : SenderKeyRecord.newEmpty.addSenderKeyState 1 0 (List.replicate 32 0) zeroKey
      (some ⟨.replicate 32 0⟩) = .ok ownGroup := rfl
  have hsent : ∃ skm, encryptWithRecord .transparent .words ownGroup [7] [] = .ok (skm, sentGroup) :=
    ⟨_, rfl⟩
  obtain ⟨skm, hsent⟩ := hsent
  exact (Relation.ReflTransGen.single (.distribute hadd)).tail (.encrypt hsent)

/-! ## Reloading what was reached -/

/-- Every group record that is reached can be read. -/
theorem SenderKeyRecord.Ordered.read {keyCodec : SenderKeyRecordCodec} (hcodec : keyCodec.RoundTrips)
    {r : SenderKeyRecord} (h : r.Ordered)
    (hfits : (keyCodec.senderKeyRecordToVec (r.states.map (·.asProtobuf))).length < 2 ^ 64)
    (C : Crypto) (written current : Option (FixedBytes 16)) :
    ∃ q, deserializeBytes keyCodec C (r.serializeBytes keyCodec written) current = .ok q := by
  rw [deserializeBytes_serializeBytes hcodec ⟨h.length_le, hfits⟩]
  split
  · exact ⟨_, rfl⟩
  · obtain ⟨states, hforward, -⟩ := fastForward_of_withinReach
      (r := ⟨r.states, .fromPersistedCeiling r.lease.ceiling⟩) h.withinReach
    exact ⟨_, hforward⟩

/-- Every record that is reached can be read again, with or without its own
incarnation, and its ceiling is at most `MAX_RESERVATION_FAST_FORWARD` ahead of the chain
it covers. -/
theorem reached_records_reload {codec : SessionCodec} (hcodec : codec.RoundTrips)
    {keyCodec : SenderKeyRecordCodec} (hkeyCodec : keyCodec.RoundTrips) (C : Crypto)
    (messages : SignalMessageCodec) (groupMessages : SenderKeyCodec) :
    (∀ r : SessionRecord, SessionRecord.Reachable C messages codec r →
      (∀ f ∈ (r.stored codec).fields codec none, f.Fits) →
      (∀ i j, ∃ q, StoredRecord.deserializeInner codec C ((r.stored codec).serializeIntoInner codec i)
        j = .ok q)
      ∧ ∀ s ∈ r.currentSession, ∀ ck, s.getSenderChainKey = .ok ck →
        r.lease.ceiling.toNat ≤ ck.index.toNat + MAX_RESERVATION_FAST_FORWARD.toNat)
    ∧ ∀ r : SenderKeyRecord, SenderKeyRecord.Reachable C groupMessages r →
      (keyCodec.senderKeyRecordToVec (r.states.map (·.asProtobuf))).length < 2 ^ 64 →
      (∀ i j, ∃ q, SenderKeyRecord.deserializeBytes keyCodec C (r.serializeBytes keyCodec i) j = .ok q)
      ∧ ∀ s ∈ r.states.head?, ∀ c ∈ s.senderChain,
        r.lease.ceiling.toNat ≤ c.iteration.toNat + MAX_RESERVATION_FAST_FORWARD.toNat := by
  refine ⟨fun r hreach hfits => ⟨fun i j => ?_, ?_⟩, fun r hreach hfits => ⟨?_, ?_⟩⟩
  · obtain ⟨q, hq, -⟩ := (hreach.bounded hcodec).read hcodec hfits i j
    exact ⟨q, hq⟩
  · exact (hreach.bounded hcodec).withinReach
  · exact hreach.ordered.read hkeyCodec hfits C
  · exact hreach.ordered.withinReach

/-- A record with an archived session and a chain of our own, both with a batch reserved,
are read by a later incarnation. -/
theorem reached_records_reload_new :
    SessionRecord.Reachable .transparent plainMessages .fieldwise sentRecord
    ∧ sentRecord.lease = .leased 64 true ∧ sentRecord.previousSessions.length = 1
    ∧ (∃ q, StoredRecord.deserializeInner .fieldwise .transparent
      ((sentRecord.stored .fieldwise).serializeIntoInner .fieldwise (some (.replicate 16 7)))
        (some (.replicate 16 8)) = .ok q)
    ∧ SenderKeyRecord.Reachable .transparent .words sentGroup
    ∧ sentGroup.lease = .leased 64 true
    ∧ ∃ q, SenderKeyRecord.deserializeBytes .fieldwise .transparent
      (sentGroup.serializeBytes .fieldwise (some (.replicate 16 7))) (some (.replicate 16 8))
        = .ok q := by
  obtain ⟨hsessions, hgroups⟩ := reached_records_reload SessionCodec.roundTrips_fieldwise
    SenderKeyRecordCodec.roundTrips_fieldwise .transparent plainMessages .words
  refine ⟨reachable_sentRecord, rfl, rfl, ?_, reachable_sentGroup, rfl, ?_⟩
  · exact (hsessions _ reachable_sentRecord (by decide +kernel)).1 _ _
  · exact (hgroups _ reachable_sentGroup (by decide +kernel)).1 _ _

/-- However often sessions are archived, promoted, reloaded and imported, a record keeps at
most `ARCHIVED_STATES_MAX_LENGTH` of them; and whatever a group sends, its record keeps at
most `MAX_SENDER_KEY_STATES` chains, each with a bounded backlog of keys in the order of
their iterations. -/
theorem records_stay_bounded {codec : SessionCodec} (hcodec : codec.RoundTrips) (C : Crypto)
    (messages : SignalMessageCodec) (groupMessages : SenderKeyCodec) :
    (∀ r : SessionRecord, SessionRecord.Reachable C messages codec r →
      r.previousSessions.length ≤ ARCHIVED_STATES_MAX_LENGTH)
    ∧ ∀ r : SenderKeyRecord, SenderKeyRecord.Reachable C groupMessages r →
      r.states.length ≤ MAX_SENDER_KEY_STATES ∧ ∀ s ∈ r.states, s.WellBuffered := by
  refine ⟨fun r hreach => (hreach.bounded hcodec).archive_le, fun r hreach => ?_⟩
  exact ⟨hreach.ordered.length_le, hreach.ordered.wellBuffered⟩

/-- The archived session counts, and the chain has no backlog. -/
theorem records_stay_bounded_new :
    sentRecord.previousSessions.length = 1 ∧ 1 ≤ ARCHIVED_STATES_MAX_LENGTH
      ∧ sentGroup.states.length = 1 ∧ ∀ s ∈ sentGroup.states, s.WellBuffered := by
  obtain ⟨hsessions, hgroups⟩ := records_stay_bounded SessionCodec.roundTrips_fieldwise .transparent
    plainMessages .words
  exact ⟨rfl, hsessions _ reachable_sentRecord, rfl, (hgroups _ reachable_sentGroup).2⟩

end WaCore.Signal
