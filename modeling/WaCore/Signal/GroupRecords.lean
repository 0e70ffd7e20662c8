import WaCore.Signal.FastForward
import WaCore.Signal.GroupDelivery

/-!
# The sender-key records that are reached

What can happen to a sender-key record from the empty one on: messages are encrypted
and decrypted, distributions are processed, and the record is written and loaded,
exported and imported, or taken off its lease.  `SenderKeyRecord.Ordered` is what all
records have that are reached so.
-/

namespace WaCore.Signal

/-! ## States that go on -/

/-- The same chain, at the same place or further on. -/
structure SenderKeyState.Onward (s s' : SenderKeyState) : Prop where
  id : s'.senderKeyId = s.senderKeyId
  signing : s'.senderSigningKey = s.senderSigningKey
  wellBuffered : s.WellBuffered → s'.WellBuffered
  iteration : ∀ c ∈ s.senderChain, ∃ c' ∈ s'.senderChain, c.iteration.toNat ≤ c'.iteration.toNat

namespace SenderKeyState

variable {C : Crypto} {s s' : SenderKeyState}

theorem Onward.setSenderChainKey {c next : SenderChainKey} (hchain : s.senderChain = some c)
    (hnext : c.iteration.toNat ≤ next.iteration.toNat) : s.Onward (s.setSenderChainKey next) where
  id := rfl
  signing := rfl
  wellBuffered h := h.advance hchain hnext
  iteration d hd := by
    obtain rfl := Option.some.inj (hchain.symm.trans hd)
    exact ⟨next, rfl, hnext⟩

theorem onward_of_getSenderKey {iteration : UInt32} {key : SenderMessageKey} (hs : s.WellBuffered)
    (h : getSenderKey C s iteration = .ok (key, s')) : s.Onward s' := by
  obtain ⟨c, hchain, -⟩ := hs.below
  obtain ⟨hid, hsigning⟩ := getSenderKey_rest hchain h
  refine ⟨hid, hsigning, fun hs => getSenderKey_wellBuffered hs h, fun d hd => ?_⟩
  obtain rfl := Option.some.inj (hchain.symm.trans hd)
  rcases getSenderKey_cases hchain h with ⟨-, hremove⟩ | ⟨steps, caught, -, hfits, -, rfl⟩
  · obtain ⟨smk, -, -, -, rfl⟩ := removeSenderMessageKey_eq_some hremove
    exact ⟨c, hchain, Nat.le_refl _⟩
  · refine ⟨_, rfl, ?_⟩
    rw [chainAt, toNat_ofNat_of_lt hfits]
    omega

theorem Onward.chainId (h : s.Onward s') : s'.chainId = s.chainId := by
  rw [SenderKeyState.chainId, SenderKeyState.chainId, h.id]

theorem Onward.withinReach {target : UInt32} (h : s.Onward s') (hs : s.WellBuffered)
    (hreach : s.WithinReach target) : s'.WithinReach target := by
  intro c' hc'
  obtain ⟨c, hc, -⟩ := hs.below
  obtain ⟨d, hd, hle⟩ := h.iteration c hc
  obtain rfl := Option.some.inj (hd.symm.trans hc')
  have hnear := hreach c hc
  omega

end SenderKeyState

/-! ## Records -/

namespace SenderKeyRecord

/-- What can happen to a record. -/
inductive Step (C : Crypto) (codec : SenderKeyCodec) : SenderKeyRecord → SenderKeyRecord → Prop where
  | encrypt {r r' : SenderKeyRecord} {plaintext csprng : Bytes} {skm : SenderKeyMessage}
    (h : encryptWithRecord C codec r plaintext csprng = .ok (skm, r')) : Step C codec r r'
  | decrypt {r r' : SenderKeyRecord} {skm : SenderKeyMessage} {plaintext : Bytes}
    (h : decryptWithRecord C r skm = .ok (plaintext, r')) : Step C codec r r'
  /-- A distribution of another sender, or a new chain of our own. -/
  | distribute {r r' : SenderKeyRecord} {chainId iteration : UInt32} {chainKey : Bytes}
    {signatureKey : PublicKey} {signaturePrivateKey : Option PrivateKey}
    (h : r.addSenderKeyState chainId iteration chainKey signatureKey signaturePrivateKey = .ok r') :
    Step C codec r r'
  | clearWireGated (r : SenderKeyRecord) : Step C codec r r.clearWireGated
  | reload {r r' : SenderKeyRecord} {written current : Option (FixedBytes 16)}
    (h : deserializeInner C (r.serializeInner written) current = .ok r') : Step C codec r r'
  | waive {r r' : SenderKeyRecord} (h : r.waiveCounterLease C = .ok r') : Step C codec r r'
  | reimport {r r' : SenderKeyRecord} {components : List SenderKeyStateComponents}
    (hinto : r.intoComponents C = .ok components) (hfrom : fromComponents components = .ok r') :
    Step C codec r r'

/-- The record is reached from the empty one. -/
def Reachable (C : Crypto) (codec : SenderKeyCodec) (r : SenderKeyRecord) : Prop :=
  Relation.ReflTransGen (Step C codec) newEmpty r

/-- What every record has that is reached. -/
structure Ordered (r : SenderKeyRecord) : Prop where
  length_le : r.states.length ≤ MAX_SENDER_KEY_STATES
  chains : (r.states.map (·.chainId)).Nodup
  wellBuffered : r.WellBuffered
  signed : ∀ s ∈ r.states, ∃ publicKey privateKey, s.SignedBy publicKey privateKey
  withinReach : ∀ s ∈ r.states.head?, s.WithinReach r.lease.ceiling

variable {C : Crypto} {codec : SenderKeyCodec} {r r' : SenderKeyRecord}

theorem ordered_newEmpty : newEmpty.Ordered :=
  ⟨Nat.zero_le _, List.nodup_nil, nofun, nofun, nofun⟩

/-- One state goes on. -/
theorem Ordered.replace {before after : List SenderKeyState} {s s' : SenderKeyState}
    (h : r.Ordered) (hr : r.states = before ++ s :: after) (hr' : r'.states = before ++ s' :: after)
    (hs : s.Onward s') (hreach : ∀ s ∈ r'.states.head?, s.WithinReach r'.lease.ceiling) :
    r'.Ordered where
  length_le := by
    have hle := h.length_le
    rw [hr, List.length_append] at hle
    rwa [hr', List.length_append]
  chains := by
    have hnodup := h.chains
    rw [hr, List.map_append, List.map_cons, ← hs.chainId] at hnodup
    rwa [hr', List.map_append]
  wellBuffered := by
    have hall := h.wellBuffered
    simp only [WellBuffered, hr, List.forall_mem_append, List.forall_mem_cons] at hall
    simp only [WellBuffered, hr', List.forall_mem_append, List.forall_mem_cons]
    exact ⟨hall.1, hs.wellBuffered hall.2.1, hall.2.2⟩
  signed := by
    have hall := h.signed
    simp only [hr, List.forall_mem_append, List.forall_mem_cons] at hall
    simp only [hr', List.forall_mem_append, List.forall_mem_cons]
    obtain ⟨publicKey, privateKey, hkey⟩ := hall.2.1
    exact ⟨hall.1, ⟨publicKey, privateKey, hs.signing.trans hkey⟩, hall.2.2⟩
  withinReach := hreach

/-- A state of a chain goes on under the same lease. -/
theorem Ordered.replace_states {before after : List SenderKeyState} {s s' : SenderKeyState}
    (h : r.Ordered) (hr : r.states = before ++ s :: after) (hs : s.Onward s') :
    Ordered { r with states := before ++ s' :: after } := by
  refine h.replace hr rfl hs fun front hfront => ?_
  have hreach := h.withinReach
  rw [hr] at hreach
  cases before with
  | nil =>
    cases hfront
    refine hs.withinReach ?_ (hreach s rfl)
    exact h.wellBuffered s (by simp [hr])
  | cons first before =>
    cases hfront
    exact hreach _ rfl

theorem Ordered.setLease (h : r.Ordered) {lease : CounterLease}
    (hlease : lease.ceiling ≤ r.lease.ceiling) : Ordered { r with lease } where
  length_le := h.length_le
  chains := h.chains
  wellBuffered := h.wellBuffered
  signed := h.signed
  withinReach s hs c hc := by
    exact Nat.le_trans hlease (h.withinReach s hs c hc)

theorem Ordered.fastForward {ceiling : UInt32} (h : r.Ordered)
    (hforward : r.fastForward C ceiling = .ok r') : r'.Ordered ∧ r'.lease = r.lease := by
  rcases fastForward_eq_ok hforward with
    ⟨rfl, -⟩ | ⟨s, states, c, c', hstates, hchain, rfl, hle, -⟩
  · exact ⟨h, rfl⟩
  · exact ⟨h.replace_states (show r.states = [] ++ s :: states from hstates)
      (.setSenderChainKey hchain hle), rfl⟩

theorem Ordered.encrypt {plaintext csprng : Bytes} {skm : SenderKeyMessage} (h : r.Ordered)
    (hencrypt : encryptWithRecord C codec r plaintext csprng = .ok (skm, r')) : r'.Ordered := by
  obtain ⟨s, states, c, key, next, -, -, -, hstates, hchain, hstep, -, -, -, -, rfl⟩ :=
    encryptWithRecord_eq_ok hencrypt
  obtain ⟨hkey, hnext⟩ := SenderChainKey.stepWithMessageKey_eq_ok hstep
  refine h.replace (show r.states = [] ++ s :: states from hstates) rfl
    (.setSenderChainKey hchain (by omega)) ?_
  rintro _ ⟨⟩ _ ⟨⟩
  have hreach := h.withinReach s (by rw [hstates]; rfl) c hchain
  have hceiling := r.lease.ceiling_reserve_le key.iteration
  have hbatch : SENDER_CHAIN_RESERVATION_BATCH.toNat ≤ MAX_RESERVATION_FAST_FORWARD.toNat := by
    decide
  rw [hkey] at hceiling ⊢
  dsimp only
  omega

/-- The state of a chain, and where it is in the record. -/
theorem setStateForChainId_eq {chainId : UInt32} {s : SenderKeyState}
    (h : r.senderKeyStateForChainId chainId = some s) (s' : SenderKeyState) :
    ∃ before after, r.states = before ++ s :: after
      ∧ r.setStateForChainId chainId s' = { r with states := before ++ s' :: after } := by
  obtain ⟨hs, before, after, hstates, hbefore⟩ := List.find?_eq_some_iff_append.mp h
  refine ⟨before, after, hstates, ?_⟩
  rw [setStateForChainId, hstates]
  congr 1
  clear hstates h
  induction before with
  | nil => exact List.replaceF_cons_of_some _ (if_pos (by simpa using hs))
  | cons b before ih =>
    rw [List.forall_mem_cons] at hbefore
    have hb : b.chainId ≠ chainId := by simpa using hbefore.1
    simp [hb, ih hbefore.2]

theorem Ordered.decrypt {skm : SenderKeyMessage} {plaintext : Bytes} (h : r.Ordered)
    (hdecrypt : decryptWithRecord C r skm = .ok (plaintext, r')) : r'.Ordered := by
  obtain ⟨s, key, s', hfound, hkey, rfl⟩ := decryptWithRecord_eq_ok hdecrypt
  obtain ⟨before, after, hstates, heq⟩ := setStateForChainId_eq hfound s'
  rw [heq]
  refine h.replace_states hstates (SenderKeyState.onward_of_getSenderKey ?_ hkey)
  exact h.wellBuffered s (List.mem_of_find?_eq_some hfound)

theorem Ordered.distribute {chainId iteration : UInt32} {chainKey : Bytes}
    {signatureKey : PublicKey} {signaturePrivateKey : Option PrivateKey} (h : r.Ordered)
    (hadd : r.addSenderKeyState chainId iteration chainKey signatureKey signaturePrivateKey
      = .ok r') : r'.Ordered := by
  obtain ⟨front, states, rfl, hsub, hid, hfront⟩ := addSenderKeyState_eq_ok hadd
  have hold : ∀ s ∈ states, s ∈ r.states ∧ s.chainId ≠ chainId := fun s hs => by
    simpa using List.mem_filter.mp (hsub.subset hs)
  refine ⟨length_addSenderKeyState hadd, ?_, addSenderKeyState_wellBuffered h.wellBuffered hadd,
    ?_, ?_⟩
  · refine List.nodup_cons.mpr ⟨fun hmem => ?_, ?_⟩
    · obtain ⟨s, hs, heq⟩ := List.mem_map.mp hmem
      exact (hold s hs).2 (heq.trans hid)
    · exact h.chains.sublist ((hsub.trans List.filter_sublist).map _)
  · refine List.forall_mem_cons.mpr ⟨?_, fun s hs => h.signed s (hold s hs).1⟩
    rcases hfront with hmem | hnew
    · exact h.signed front hmem
    · exact ⟨_, _, SenderKeyState.signedBy_of_new hnew⟩
  · rw [CounterLease.ceiling_clearReservation]
    exact fun s _ => s.withinReach_zero

theorem Ordered.reload {written current : Option (FixedBytes 16)} (h : r.Ordered)
    (hreload : deserializeInner C (r.serializeInner written) current = .ok r') : r'.Ordered := by
  have hrow : r.serializeInner written = ⟨r.states.map (·.asProtobuf),
      (r.serializeInner written).reservation, (r.serializeInner written).incarnation⟩ := rfl
  rw [hrow, deserializeInner_asProtobuf, reservation_serializeInner,
    List.take_of_length_le h.length_le] at hreload
  have hsame : Ordered ⟨r.states, .fromPersistedCeiling r.lease.ceiling⟩ :=
    h.setLease (UInt32.le_refl _)
  split at hreload
  · cases hreload
    exact hsame
  · exact (hsame.fastForward hreload).1

theorem Ordered.waive (h : r.Ordered) (hwaive : r.waiveCounterLease C = .ok r') : r'.Ordered := by
  obtain ⟨forwarded, hforward, heq⟩ := bind_eq_ok.mp hwaive
  cases heq
  exact (h.fastForward hforward).1.setLease (UInt32.le_iff_toNat_le.mpr (Nat.zero_le _))

theorem Ordered.reimport {components : List SenderKeyStateComponents} (h : r.Ordered)
    (hinto : r.intoComponents C = .ok components) (hfrom : fromComponents components = .ok r') :
    r'.Ordered := by
  obtain ⟨forwarded, hforward, rfl⟩ := fromComponents_intoComponents h.signed hinto hfrom
  have hforwarded := (h.fastForward hforward).1
  rw [List.take_of_length_le hforwarded.length_le]
  exact hforwarded.setLease (UInt32.le_iff_toNat_le.mpr (Nat.zero_le _))

/-- One step keeps the order. -/
theorem Ordered.step (h : r.Ordered) (hstep : Step C codec r r') : r'.Ordered := by
  cases hstep with
  | encrypt hencrypt => exact h.encrypt hencrypt
  | decrypt hdecrypt => exact h.decrypt hdecrypt
  | distribute hadd => exact h.distribute hadd
  | clearWireGated =>
    exact h.setLease (UInt32.le_of_eq (CounterLease.ceiling_setPendingFlush _ _))
  | reload hreload => exact h.reload hreload
  | waive hwaive => exact h.waive hwaive
  | reimport hinto hfrom => exact h.reimport hinto hfrom

theorem Reachable.ordered (h : Reachable C codec r) : r.Ordered := by
  induction h with
  | refl => exact ordered_newEmpty
  | tail _ hstep ih => exact ih.step hstep

end SenderKeyRecord

end WaCore.Signal
