import WaCore.Signal.GroupReceiver

/-!
# Delivery of group messages

What a receiver of a group gets out of the messages of one sender chain, when
the network delivers them in any order and more than once.  The receiver keeps
its records in memory; a schedule is a list of messages of the chain, each with
the call of the sender that made it.

`wellBuffered_runOps` is the invariant of every state a receiver reaches, and
`Listening` is what it knows about the chain after a part of the schedule.
-/

namespace WaCore.Signal

/-! ## Receivers -/

/-- The records of a device. -/
abbrev Records := SenderKeyName → Option SenderKeyRecord

def memoryStore : SenderKeyStore Records where
  loadSenderKey name := do pure ((← get) name)
  storeSenderKey name record := modify (Function.update · name (some record))

/-- A call of the group cipher. -/
inductive GroupOp where
  | encrypt (name : SenderKeyName) (plaintext csprng : Bytes)
  | decrypt (skmBytes : Bytes) (name : SenderKeyName)
  | process (name : SenderKeyName) (skdm : SenderKeyDistributionMessage)
  | create (name : SenderKeyName) (csprng : NewSenderKey)

section Runs

variable (C : Crypto) (codec : SenderKeyCodec)

def GroupOp.run : GroupOp → Eff Records SignalProtocolError Unit
  | .encrypt name plaintext csprng => do
    let _ ← groupEncrypt C codec memoryStore name plaintext csprng
  | .decrypt skmBytes name => do
    let _ ← groupDecrypt C codec memoryStore skmBytes name
  | .process name skdm => processSenderKeyDistributionMessage memoryStore name skdm
  | .create name csprng => do
    let _ ← createSenderKeyDistributionMessage memoryStore name csprng

/-- The records after some calls, also when calls fail. -/
def runOps (ops : List GroupOp) (s : Records) : Records :=
  ops.foldl (fun s op => ((op.run C codec).exec s).2) s

end Runs

/-! ## The backlogs of a receiver -/

/-- Every state of the record has a backlog in order. -/
def SenderKeyRecord.WellBuffered (record : SenderKeyRecord) : Prop :=
  ∀ state ∈ record.states, state.WellBuffered

/-- Every record of the device satisfies `R`. -/
def Records.All (R : SenderKeyRecord → Prop) (s : Records) : Prop :=
  ∀ name record, s name = some record → R record

variable {state : SenderKeyState} {record : SenderKeyRecord} {α : Type}

section Kept

variable {C : Crypto} {codec : SenderKeyCodec} {record record' : SenderKeyRecord}

theorem mem_setStateForChainId {chainId : UInt32} {s : SenderKeyState}
    (h : s ∈ (record.setStateForChainId chainId state).states) : s ∈ record.states ∨ s = state := by
  rw [SenderKeyRecord.setStateForChainId] at h
  rcases List.exists_or_eq_self_of_replaceF
    (fun s : SenderKeyState => if s.chainId = chainId then some state else none)
    record.states with heq | ⟨a, a', l₁, l₂, -, ha, hl, heq⟩
  · rw [heq] at h
    exact .inl h
  · rw [heq] at h
    rw [hl]
    split at ha
    · cases ha
      simp only [List.mem_append, List.mem_cons] at h ⊢
      tauto
    · cases ha

theorem SenderKeyState.WellBuffered.advance {c next : SenderChainKey} (h : state.WellBuffered)
    (hchain : state.senderChain = some c) (hnext : c.iteration.toNat ≤ next.iteration.toNat) :
    (state.setSenderChainKey next).WellBuffered := by
  obtain ⟨c', hc', hbelow⟩ := h.below
  obtain rfl := Option.some.inj (hchain.symm.trans hc')
  exact ⟨h.sorted, ⟨next, rfl, fun i hi => Nat.lt_of_lt_of_le (hbelow i hi) hnext⟩, h.length_le⟩

theorem encryptWithRecord_wellBuffered {plaintext csprng : Bytes} {skm : SenderKeyMessage}
    (hrecord : record.WellBuffered)
    (h : encryptWithRecord C codec record plaintext csprng = .ok (skm, record')) :
    record'.WellBuffered := by
  obtain ⟨state, states, chain, key, next, -, -, -, hstates, hchain, hstep, -, -, -, -, rfl⟩ :=
    encryptWithRecord_eq_ok h
  rw [SenderKeyRecord.WellBuffered, hstates, List.forall_mem_cons] at hrecord
  refine List.forall_mem_cons.mpr ⟨hrecord.1.advance hchain ?_, hrecord.2⟩
  rw [(SenderChainKey.stepWithMessageKey_eq_ok hstep).2]
  exact Nat.le_succ _

theorem decryptWithRecord_wellBuffered {plaintext : Bytes} {skm : SenderKeyMessage}
    (hrecord : record.WellBuffered)
    (h : decryptWithRecord C record skm = .ok (plaintext, record')) : record'.WellBuffered := by
  obtain ⟨state, key, state', hfind, hkey, rfl⟩ := decryptWithRecord_eq_ok h
  intro s hs
  rcases mem_setStateForChainId hs with hs | rfl
  · exact hrecord s hs
  · exact getSenderKey_wellBuffered (hrecord state (List.mem_of_find?_eq_some hfind)) hkey

theorem addSenderKeyState_wellBuffered {chainId iteration : UInt32} {chainKey : Bytes}
    {signatureKey : PublicKey} {signaturePrivateKey : Option PrivateKey}
    (hrecord : record.WellBuffered)
    (h : record.addSenderKeyState chainId iteration chainKey signatureKey signaturePrivateKey
      = .ok record') : record'.WellBuffered := by
  obtain ⟨front, states, rfl, hrest, -, hfront⟩ := SenderKeyRecord.addSenderKeyState_eq_ok h
  refine List.forall_mem_cons.mpr ⟨hfront.elim (hrecord front) fun hnew => ?_, fun state hstate => ?_⟩
  · obtain ⟨key, -, heq⟩ := bind_eq_ok.mp hnew
    cases heq
    exact ⟨.nil, ⟨_, rfl, nofun⟩, Nat.zero_le _⟩
  · exact hrecord state (List.mem_filter.mp (hrest.subset hstate)).1

end Kept

section Calls

open Eff

variable {R : SenderKeyRecord → Prop}

/-- The call leaves every record of the device with `R`, also when it fails. -/
abbrev KeepsRecords (R : SenderKeyRecord → Prop) (call : Eff Records SignalProtocolError α) : Prop :=
  Meets call (Records.All R) (fun _ => Records.All R) fun _ => Records.All R

theorem keepsRecords_storeSenderKey (name : SenderKeyName) (hrecord : R record) :
    KeepsRecords R (memoryStore.storeSenderKey name record) := by
  intro s hs name' record' h
  change Function.update s name (some record) name' = some record' at h
  by_cases hname : name' = name
  · subst hname
    rw [Function.update_self] at h
    exact Option.some.inj h ▸ hrecord
  · rw [Function.update_of_ne hname] at h
    exact hs name' record' h

/-- A call that loads a record, computes a new one and stores it. -/
theorem keepsRecords_update (name : SenderKeyName)
    {call : Option SenderKeyRecord → Eff Records SignalProtocolError α}
    (hcall : ∀ r, (∀ record, r = some record → R record) → KeepsRecords R (call r)) :
    KeepsRecords R (memoryStore.loadSenderKey name >>= call) :=
  Meets.bind_and (fun _ hs => ⟨hs name, hs⟩) hcall

theorem keepsRecords_store_pure (name : SenderKeyName) (hrecord : R record) (a : α) :
    KeepsRecords R (do memoryStore.storeSenderKey name record; pure a) :=
  (keepsRecords_storeSenderKey name hrecord).bind fun _ _ hs => hs

/-- Every call keeps the backlogs of a device in order. -/
theorem GroupOp.keepsRecords_run (C : Crypto) (codec : SenderKeyCodec) (op : GroupOp) :
    KeepsRecords (·.WellBuffered) (op.run C codec) := by
  have hempty : SenderKeyRecord.newEmpty.WellBuffered := nofun
  cases op with
  | encrypt name plaintext csprng =>
    refine Meets.bind (keepsRecords_update name fun r hr => ?_) fun _ _ hs => hs
    cases r with
    | none => exact fun _ hs => hs
    | some record =>
      refine meets_ofExcept_bind fun result hresult => ?_
      exact keepsRecords_store_pure name (encryptWithRecord_wellBuffered (hr record rfl) hresult) _
  | decrypt skmBytes name =>
    refine Meets.bind (meets_ofExcept_bind fun skm _ =>
      keepsRecords_update name fun r hr => ?_) fun _ _ hs => hs
    cases r with
    | none => exact fun _ hs => hs
    | some record =>
      refine meets_ofExcept_bind fun result hresult => ?_
      exact keepsRecords_store_pure name (decryptWithRecord_wellBuffered (hr record rfl) hresult) _
  | process name skdm =>
    refine keepsRecords_update name fun r hr => meets_ofExcept_bind fun record hrecord =>
      keepsRecords_storeSenderKey name ?_
    refine addSenderKeyState_wellBuffered ?_ hrecord
    cases r with
    | none => exact hempty
    | some record => exact hr record rfl
  | create name csprng =>
    refine Meets.bind (keepsRecords_update name fun r hr => ?_) fun _ _ hs => hs
    cases r with
    | some record => exact (meets_ofExcept _ _).mono (fun _ h => h) (fun _ _ h => h.2) fun _ _ h => h
    | none =>
      refine meets_ofExcept_bind fun record hrecord => ?_
      refine meets_ofExcept_bind fun skdm _ => ?_
      exact keepsRecords_store_pure name (addSenderKeyState_wellBuffered hempty hrecord) _

/-- In every state a device reaches its backlogs are in order. -/
theorem wellBuffered_runOps (C : Crypto) (codec : SenderKeyCodec) (ops : List GroupOp) {s : Records}
    (hs : s.All (·.WellBuffered)) : (runOps C codec ops s).All (·.WellBuffered) := by
  induction ops generalizing s with
  | nil => exact hs
  | cons op ops ih =>
    exact ih ((op.keepsRecords_run C codec).exec_snd hs)

end Calls

/-! ## Messages of a chain -/

/-- The state stands on the chain of `origin`, there or further on. -/
def OnChain (C : Crypto) (origin state : SenderKeyState) : Prop :=
  state.senderKeyId = origin.senderKeyId ∧ state.senderSigningKey = origin.senderSigningKey
    ∧ ∃ start steps chain, origin.senderChain = some start ∧ start.advance C steps = .ok chain
      ∧ state.senderChain = some chain

/-- A message that a sender on the chain of `origin` encrypted. -/
structure ChainMessage (C : Crypto) (codec : SenderKeyCodec) (origin : SenderKeyState) where
  record : SenderKeyRecord
  state : SenderKeyState
  front : record.states.head? = some state
  onChain : OnChain C origin state
  plaintext : Bytes
  csprng : Bytes
  message : SenderKeyMessage
  record' : SenderKeyRecord
  encrypted : encryptWithRecord C codec record plaintext csprng = .ok (message, record')

/-- What the delivery of a message relies on: the cipher and the encoding can be
read back, and the signatures of the chain verify. -/
structure Readable (C : Crypto) (codec : SenderKeyCodec) (origin : SenderKeyState)
    (signingKey : PublicKey) : Prop where
  aes : ∀ key iv plaintext ciphertext, C.aes256CbcEncrypt key iv plaintext = some ciphertext →
    C.aes256CbcDecrypt key iv ciphertext = some plaintext
  codec : ∀ id iteration ciphertext, codec.decode (codec.encode id iteration ciphertext)
    = some ⟨some id, some iteration, some ciphertext⟩
  signature : ∀ privateKey message csprng signature, origin.signingKeyPrivate = .ok privateKey →
    C.calculateSignature privateKey message csprng = some signature →
    C.verifySignature signingKey message signature.val = true

namespace ChainMessage

variable {C : Crypto} {codec : SenderKeyCodec} {origin : SenderKeyState}

/-- The iteration of the message. -/
def iteration (m : ChainMessage C codec origin) : Nat := m.message.iteration.toNat

/-- What the network carries. -/
def bytes (m : ChainMessage C codec origin) : Bytes := m.message.serialized

/-- The message key of an iteration of the chain. -/
def keyFrom (C : Crypto) (start : SenderChainKey) (n : Nat) : SenderMessageKey :=
  .new C (UInt32.ofNat n) (seedAt C start.iteration.toNat start.chainKey n)

theorem state_eq (m : ChainMessage C codec origin) {states : List SenderKeyState}
    (h : m.record.states = state :: states) : state = m.state := by
  have hfront := m.front
  rw [h] at hfront
  exact Option.some.inj hfront

/-- A receiver reads the message the sender made, and its signature verifies. -/
theorem tryFrom_bytes (m : ChainMessage C codec origin) {signingKey : PublicKey}
    (h : Readable C codec origin signingKey) :
    SenderKeyMessage.tryFrom codec m.bytes = .ok m.message
      ∧ m.message.verifySignature C signingKey = true := by
  obtain ⟨state, states, chain, key, next, ciphertext, privateKey, signature, hstates, -, -, -,
    hprivate, hsignature, hmessage, -⟩ := encryptWithRecord_eq_ok m.encrypted
  obtain rfl := m.state_eq hstates
  have horigin : origin.signingKeyPrivate = .ok privateKey := by
    rw [SenderKeyState.signingKeyPrivate, ← m.onChain.2.1]
    exact hprivate
  rw [bytes, hmessage]
  refine ⟨SenderKeyMessage.tryFrom_append (h.codec _ _ _) signature, ?_⟩
  rw [SenderKeyMessage.verifySignature_append rfl]
  exact h.signature _ _ _ _ horigin hsignature

/-- Where on the chain the message was made, and under which key. -/
theorem encrypted_eq (m : ChainMessage C codec origin) {start : SenderChainKey}
    (hstart : origin.senderChain = some start) :
    start.iteration.toNat ≤ m.iteration ∧ m.iteration + 1 < 2 ^ 32
      ∧ m.state.senderChain = some (chainAt C start.iteration.toNat start.chainKey m.iteration)
      ∧ m.message.chainId = origin.chainId ∧ m.message.messageVersion = 3
      ∧ C.aes256CbcEncrypt (keyFrom C start m.iteration).cipherKey (keyFrom C start m.iteration).iv
        m.plaintext = some m.message.ciphertext := by
  obtain ⟨state, states, chain, mkey, next, ciphertext, privateKey, signature, hstates, hchain, hstep,
    hcipher, -, -, hmessage, -⟩ := encryptWithRecord_eq_ok m.encrypted
  obtain rfl := m.state_eq hstates
  obtain ⟨hid, -, start', steps, chain', hstart', hadvance, hchain'⟩ := m.onChain
  obtain rfl := Option.some.inj (hstart.symm.trans hstart')
  obtain rfl := Option.some.inj (hchain.symm.trans hchain')
  rw [← chainAt_self C start] at hadvance
  obtain ⟨rfl, hfits⟩ := advance_chainAt (Nat.le_refl _) start.iteration.toNat_lt hadvance
  have hlt := (SenderChainKey.stepWithMessageKey_eq_ok hstep).2.symm.trans_lt next.iteration.toNat_lt
  rw [chainAt, toNat_ofNat_of_lt hfits] at hlt
  rw [stepWithMessageKey_chainAt (Nat.le_add_right _ _) hlt] at hstep
  cases hstep
  have hiteration : m.iteration = start.iteration.toNat + steps := by
    rw [iteration, hmessage]
    exact toNat_ofNat_of_lt hfits
  rw [hiteration, hmessage]
  refine ⟨Nat.le_add_right _ _, hlt, hchain, ?_, rfl, hcipher⟩
  rw [SenderKeyState.chainId, SenderKeyState.chainId, hid]

end ChainMessage

/-! ## Schedules -/

/-- The records after some messages were delivered to `name`. -/
def deliverAll (C : Crypto) (codec : SenderKeyCodec) (name : SenderKeyName) (messages : List Bytes)
    (s : Records) : Records :=
  runOps C codec (messages.map (.decrypt · name)) s

/-- The receiver knows the chain of `start` under `name`, and was given the
iterations `ds` of it. -/
structure Listening (C : Crypto) (name : SenderKeyName) (chainId : UInt32) (signingKey : PublicKey)
    (start : SenderChainKey) (ds : List Nat) (s : Records) (state : SenderKeyState) : Prop where
  found : ∃ record, s name = some record ∧ record.senderKeyStateForChainId chainId = some state
  signed : state.signingKeyPublic = .ok signingKey
  receiving : Receiving C start.iteration.toNat start.chainKey ds state

section Schedule

variable {C : Crypto} {codec : SenderKeyCodec} {name : SenderKeyName} {chainId : UInt32}
  {signingKey : PublicKey} {start : SenderChainKey} {ds : List Nat} {s : Records}
  {state : SenderKeyState}

theorem find?_replaceF {p : α → Bool} {f : α → Option α} {a a' : α} {l : List α}
    (hf : ∀ x, f x = if p x then some a' else none) (ha' : p a' = true) (h : l.find? p = some a) :
    (l.replaceF f).find? p = some a' := by
  induction l with
  | nil => cases h
  | cons x l ih =>
    by_cases hx : p x = true
    · rw [List.replaceF_cons_of_some f ((hf x).trans (if_pos hx)), List.find?_cons_of_pos ha']
    · rw [List.find?_cons_of_neg hx] at h
      rw [List.replaceF_cons_of_none f ((hf x).trans (if_neg hx)), List.find?_cons_of_neg hx]
      exact ih h

section Exec

variable {record record' : SenderKeyRecord} {skm : SenderKeyMessage} {bytes : Bytes}

/-- A message for a known record: what its decryption gives, and the record after
it when it succeeds. -/
theorem exec_groupDecrypt (hbytes : SenderKeyMessage.tryFrom codec bytes = .ok skm)
    (hs : s name = some record) :
    (groupDecrypt C codec memoryStore bytes name).exec s
      = ((decryptWithRecord C record skm).map Prod.fst, (decryptWithRecord C record skm).toOption.elim
        s fun result => Function.update s name (some result.2)) := by
  have hload : (memoryStore.loadSenderKey name).exec s = (.ok (some record), s) := by
    rw [← hs]
    rfl
  rw [groupDecrypt, hbytes, Eff.exec_bind_ok (Eff.exec_ofExcept _ s), Eff.exec_bind_ok hload]
  dsimp only
  cases decryptWithRecord C record skm with
  | error e => rw [Eff.exec_bind_error (Eff.exec_ofExcept _ s)]; rfl
  | ok result => rw [Eff.exec_bind_ok (Eff.exec_ofExcept _ s)]; rfl

end Exec

/-- What a receiver got for a message: its plaintext, or that it is a
duplicate. -/
def IsDuplicate (r : Except SignalProtocolError Bytes) : Prop :=
  ∃ chain counter, r = .error (.duplicatedMessage chain counter)

variable {origin : SenderKeyState}

/-- One delivery.  The receiver takes the key of the message's own iteration if
it has it; it lacks it only if the iteration was used before, or if it was put
aside before `MAX_MESSAGE_KEYS` others. -/
theorem Listening.deliver (h : Listening C name origin.chainId signingKey start ds s state)
    (hread : Readable C codec origin signingKey) (hstart : origin.senderChain = some start)
    (m : ChainMessage C codec origin)
    (hahead : m.iteration ≤ position start.iteration.toNat ds + MAX_FORWARD_JUMPS) :
    let r := (groupDecrypt C codec memoryStore m.bytes name).exec s
    (∃ state', Listening C name origin.chainId signingKey start (ds ++ [m.iteration]) r.2 state')
      ∧ (m.iteration ∈ ds → IsDuplicate r.1)
      ∧ (m.iteration ∉ ds →
          skippedAfter start.iteration.toNat ds m.iteration < MAX_MESSAGE_KEYS →
        r.1 = .ok m.plaintext ∧ ∃ state',
          getSenderKey C state m.message.iteration
            = .ok (ChainMessage.keyFrom C start m.iteration, state')) := by
  intro r
  obtain ⟨hk, hfits, -, hid, hversion, hcipher⟩ := m.encrypted_eq hstart
  obtain ⟨hbytes, hverify⟩ := m.tryFrom_bytes hread
  obtain ⟨record, hrecord, hfound⟩ := h.found
  have hauth : Authenticates C record m.message state :=
    ⟨hid ▸ hfound, by rw [hversion]; rfl, signingKey, h.signed, hverify⟩
  have hiteration : m.message.iteration = UInt32.ofNat m.iteration := UInt32.ofNat_toNat.symm
  rcases h.receiving.step hk hahead hfits with
    ⟨hnew, state', hkey, hreceiving⟩ | ⟨hwhy, hkey, hreceiving⟩
  · have hown : getSenderKey C state m.message.iteration
        = .ok (ChainMessage.keyFrom C start m.iteration, state') := by
      rw [hiteration]
      exact hkey
    have hr := exec_groupDecrypt (C := C) hbytes hrecord
    have hdecrypted : decryptWithRecord C record m.message
        = .ok (m.plaintext, record.setStateForChainId m.message.chainId state') := by
      simp [decryptWithRecord, hauth.found, hauth.version, h.signed, hverify, Except.toOption, hown,
        hread.aes _ _ _ _ hcipher]
    rw [hdecrypted] at hr
    obtain ⟨hid', hsigned'⟩ := getSenderKey_rest h.receiving.chain hkey
    rw [show r = _ from hr]
    refine ⟨⟨state', ⟨_, Function.update_self _ _ _, ?_⟩, ?_, hreceiving⟩,
      fun hmem => absurd hmem hnew, fun _ _ => ⟨rfl, state', hown⟩⟩
    · rw [hid]
      refine find?_replaceF (fun x => by simp only [decide_eq_true_eq]) (decide_eq_true ?_) hfound
      have hchainId := List.find?_some hfound
      rw [SenderKeyState.chainId, hid']
      exact of_decide_eq_true hchainId
    · rw [SenderKeyState.signingKeyPublic, hsigned']
      exact h.signed
  · have hr := exec_groupDecrypt (C := C) hbytes hrecord
    rw [hauth.decryptWithRecord_error (by rw [hiteration]; exact hkey)] at hr
    rw [show r = _ from hr]
    refine ⟨⟨state, h.found, h.signed, hreceiving⟩, fun _ => ⟨_, _, rfl⟩, fun hnew hroom => ?_⟩
    exact absurd (hwhy.resolve_left hnew) (Nat.not_le.mpr hroom)

/-- A receiver that does not know the chain learns it from a distribution
message. -/
theorem Listening.of_skdm {sender : SenderKeyRecord} {skdm : SenderKeyDistributionMessage}
    (hfront : sender.states.head? = some origin) (hstart : origin.senderChain = some start)
    (hskdm : buildSkdmFromRecord sender = .ok skdm)
    (hunknown : ∀ record, s name = some record →
      record.states.find? (SenderKeyRecord.hasSigningKey skdm.chainId skdm.signingKey) = none) :
    ∃ state, Listening C name origin.chainId skdm.signingKey start []
      ((processSenderKeyDistributionMessage memoryStore name skdm).exec s).2 state := by
  obtain ⟨front, chain, hfront', hchain, -, hskdm⟩ := buildSkdmFromRecord_eq_ok hskdm
  obtain rfl := Option.some.inj (hfront.symm.trans hfront')
  obtain rfl := Option.some.inj (hstart.symm.trans hchain)
  obtain ⟨version, chainId, iteration, chainKey, signingKey⟩ := skdm
  cases hskdm
  have hunknown' : ((s name).getD .newEmpty).states.find?
      (SenderKeyRecord.hasSigningKey origin.chainId signingKey) = none := by
    cases hrecord : s name with
    | none => rfl
    | some record => exact hunknown record hrecord
  obtain ⟨states, hadd⟩ : ∃ states, ((s name).getD .newEmpty).addSenderKeyState origin.chainId
      start.iteration start.chainKey.val signingKey none
        = .ok ⟨⟨some origin.chainId, some ⟨some signingKey.serialize, none⟩, [], some start⟩ :: states,
          ((s name).getD .newEmpty).lease.clearReservation⟩ := by
    simp only [SenderKeyRecord.addSenderKeyState, hunknown', SenderKeyState.new,
      FixedBytes.ofBytes_val]
    exact ⟨_, rfl⟩
  have hload : (memoryStore.loadSenderKey name).exec s = (.ok (s name), s) := rfl
  rw [processSenderKeyDistributionMessage, Eff.exec_bind_ok hload]
  dsimp only
  rw [hadd]
  refine ⟨_, ⟨_, Function.update_self _ _ _, List.find?_cons_of_pos (decide_eq_true rfl)⟩,
    SenderKeyState.signingKeyPublic_serialize rfl, .start start.iteration.toNat_lt ?_ rfl⟩
  rw [UInt32.ofNat_toNat]

/-- The receiver after any part of a schedule. -/
theorem Listening.deliverAll (h : Listening C name origin.chainId signingKey start ds s state)
    (hread : Readable C codec origin signingKey) (hstart : origin.senderChain = some start)
    (ms : List (ChainMessage C codec origin))
    (hahead : ∀ before m after, ms = before ++ m :: after → m.iteration
      ≤ position start.iteration.toNat (ds ++ before.map (·.iteration)) + MAX_FORWARD_JUMPS) :
    ∃ state', Listening C name origin.chainId signingKey start (ds ++ ms.map (·.iteration))
      (Signal.deliverAll C codec name (ms.map (·.bytes)) s) state' := by
  induction ms generalizing ds s state with
  | nil => exact ⟨state, by rwa [List.map_nil, List.append_nil]⟩
  | cons m ms ih =>
    obtain ⟨⟨state', h'⟩, -⟩ := h.deliver hread hstart m (by simpa using hahead [] m ms rfl)
    have hrun : Signal.deliverAll C codec name ((m :: ms).map (·.bytes)) s
        = Signal.deliverAll C codec name (ms.map (·.bytes))
          ((groupDecrypt C codec memoryStore m.bytes name).exec s).2 :=
      congrArg (Signal.deliverAll C codec name (ms.map (·.bytes)))
        (Eff.exec_bind_pure_snd (groupDecrypt C codec memoryStore m.bytes name) () s)
    rw [hrun, List.map_cons, List.append_cons]
    refine ih h' fun before m' after hms => ?_
    have hm' := hahead (m :: before) m' after (by rw [hms]; rfl)
    rwa [List.map_cons, List.append_cons] at hm'

end Schedule

/-- For a chain that is handed out at an iteration and any schedule of its
messages, no delivery further ahead than `MAX_FORWARD_JUMPS`: the first delivery
of a message decrypts to its plaintext, under the key of its own iteration, if
fewer than `MAX_MESSAGE_KEYS` later keys were put aside, and any other delivery
is a duplicate.  The backlogs of every device are in order at all times. -/
theorem group_delivery (C : Crypto) (codec : SenderKeyCodec) {sender : SenderKeyRecord}
    {origin : SenderKeyState} {skdm : SenderKeyDistributionMessage}
    (hfront : sender.states.head? = some origin) (hskdm : buildSkdmFromRecord sender = .ok skdm)
    (hread : Readable C codec origin skdm.signingKey) (receiver : Records) (name : SenderKeyName)
    (hunknown : ∀ record, receiver name = some record →
      record.states.find? (SenderKeyRecord.hasSigningKey skdm.chainId skdm.signingKey) = none)
    (schedule : List (ChainMessage C codec origin))
    (hahead : ∀ before m after, schedule = before ++ m :: after → m.iteration
      ≤ position skdm.iteration.toNat (before.map (·.iteration)) + MAX_FORWARD_JUMPS) :
    (∀ before m after, schedule = before ++ m :: after →
      let ds := before.map (·.iteration)
      let learned := ((processSenderKeyDistributionMessage memoryStore name skdm).exec receiver).2
      let s := deliverAll C codec name (before.map (·.bytes)) learned
      let r := ((groupDecrypt C codec memoryStore m.bytes name).exec s).1
      ∃ record state, s name = some record
        ∧ record.senderKeyStateForChainId skdm.chainId = some state
        ∧ state.senderChain.map (·.iteration.toNat) = some (position skdm.iteration.toNat ds)
        ∧ (m.iteration ∈ ds → IsDuplicate r)
        ∧ (m.iteration ∉ ds → skippedAfter skdm.iteration.toNat ds m.iteration < MAX_MESSAGE_KEYS →
          r = .ok m.plaintext ∧ ∃ chain key next state', m.state.senderChain = some chain
            ∧ chain.stepWithMessageKey C = .ok (key, next)
            ∧ getSenderKey C state m.message.iteration = .ok (key, state')))
    ∧ ∀ ops name record, runOps C codec ops (fun _ => none) name = some record →
        ∀ state ∈ record.states, state.WellBuffered := by
  refine ⟨fun before m after hschedule => ?_, fun ops => wellBuffered_runOps C codec ops nofun⟩
  obtain ⟨state₀, start, hfront', hstart, -, hskdm'⟩ := buildSkdmFromRecord_eq_ok hskdm
  obtain rfl := Option.some.inj (hfront.symm.trans hfront')
  have hiteration : skdm.iteration = start.iteration :=
    congrArg SenderKeyDistributionMessage.iteration hskdm'
  have hid : skdm.chainId = origin.chainId := congrArg SenderKeyDistributionMessage.chainId hskdm'
  rw [hiteration] at hahead ⊢
  rw [hid]
  obtain ⟨_, hlearned⟩ := Listening.of_skdm hfront hstart hskdm hunknown
  obtain ⟨state, hlistening⟩ := hlearned.deliverAll hread hstart before fun before' m' after' h => by
    exact hahead before' m' (after' ++ m :: after) (by rw [hschedule, h, List.append_assoc]; rfl)
  obtain ⟨-, hagain, hfirst⟩ := hlistening.deliver hread hstart m (hahead before m after hschedule)
  obtain ⟨record, hrecord, hfound⟩ := hlistening.found
  obtain ⟨hk, hfits, hchain, -⟩ := m.encrypted_eq hstart
  refine ⟨record, state, hrecord, hfound, ?_, hagain, fun hnew hroom => ?_⟩
  · rw [hlistening.receiving.chain]
    exact congrArg some (toNat_ofNat_of_lt hlistening.receiving.fits)
  · obtain ⟨hplain, state', hkey⟩ := hfirst hnew hroom
    exact ⟨hplain, _, _, _, state', hchain, stepWithMessageKey_chainAt hk hfits, hkey⟩

/-- A chain at iteration `n` over the transparent primitives. -/
def plainState (n : UInt32) : SenderKeyState where
  senderKeyId := some 1
  senderSigningKey := some
    ⟨some (PublicKey.mk (.replicate 32 9)).serialize, some (List.replicate 32 0)⟩
  messageKeys := []
  senderChain := some ⟨n, .replicate 32 0⟩

/-- The first message of the chain. -/
def firstMessage : ChainMessage .transparent .words (plainState 0) where
  record := ⟨[plainState 0], .fresh⟩
  state := plainState 0
  front := rfl
  onChain := ⟨rfl, rfl, _, 0, _, rfl, rfl, rfl⟩
  plaintext := [7]
  csprng := []
  message := ⟨3, 1, 0, [7], signedPart .words (plainState 0) 0 [7] ++ List.replicate 64 0⟩
  record' := ⟨[plainState 1], .leased 64 true⟩
  encrypted := rfl

/-- The second message of the chain. -/
def secondMessage : ChainMessage .transparent .words (plainState 0) where
  record := ⟨[plainState 1], .leased 64 true⟩
  state := plainState 1
  front := rfl
  onChain := ⟨rfl, rfl, _, 1, _, rfl, rfl, rfl⟩
  plaintext := [8]
  csprng := []
  message := ⟨3, 1, 1, [8], signedPart .words (plainState 1) 1 [8] ++ List.replicate 64 0⟩
  record' := ⟨[plainState 2], .leased 64 true⟩
  encrypted := rfl

/-- A receiver that gets the second message first reads both, and the repetition
is a duplicate. -/
theorem group_delivery_out_of_order :
    ∃ learned : Records, ∃ name,
      ((groupDecrypt .transparent .words memoryStore firstMessage.bytes name).exec
        (deliverAll .transparent .words name [secondMessage.bytes] learned)).1 = .ok [7]
      ∧ IsDuplicate ((groupDecrypt .transparent .words memoryStore secondMessage.bytes name).exec
        (deliverAll .transparent .words name [secondMessage.bytes, firstMessage.bytes]
          learned)).1 := by
  have hread : Readable .transparent .words (plainState 0) ⟨.replicate 32 9⟩ :=
    ⟨fun _ _ _ _ h => h.symm, SenderKeyCodec.words_decode_encode, fun _ _ _ _ _ _ => rfl⟩
  have hskdm : buildSkdmFromRecord ⟨[plainState 0], .fresh⟩
      = .ok ⟨3, 1, 0, .replicate 32 0, ⟨.replicate 32 9⟩⟩ := rfl
  have hnear : ∀ m ∈ [secondMessage, firstMessage, secondMessage],
      m.iteration ≤ MAX_FORWARD_JUMPS := by
    decide
  obtain ⟨hdelivery, -⟩ := group_delivery .transparent .words rfl hskdm hread (fun _ => none)
    ⟨"group", "sender"⟩ nofun [secondMessage, firstMessage, secondMessage]
    fun before m after h => Nat.le_add_left_of_le (hnear m (by rw [h]; simp))
  obtain ⟨_, _, -, -, -, -, hfirst⟩ := hdelivery [secondMessage] firstMessage [secondMessage] rfl
  obtain ⟨_, _, -, -, -, hagain, -⟩ := hdelivery [secondMessage, firstMessage] secondMessage [] rfl
  exact ⟨_, _, (hfirst (by decide) (by decide)).1, hagain (by decide)⟩

end WaCore.Signal
