import WaCore.Signal.FastForward
import WaCore.Signal.SessionFrames

/-!
# A sender chain that is given up

A state that is promoted under a lease too far ahead of its sender chain loses the
chain (`fast_forward_sender_chain_or_drop`).  What a decryption does with the state
afterwards, down to the line that is logged when it succeeds.
-/

namespace WaCore.Signal

open Eff

/-! ## The success log -/

def hexDigit (n : Nat) : Char := "0123456789abcdef".toList.getD n '0'

/-- `hex::encode`. -/
def hexEncode (bytes : Bytes) : String :=
  String.ofList (bytes.flatMap fun b => [hexDigit (b.toNat / 16), hexDigit (b.toNat % 16)])

def SessionState.senderRatchetKeyForLogging (state : SessionState) : Except String String :=
  state.senderRatchetKey.map fun key => hexEncode key.key.val

/-- The line that is logged for a message that was decrypted.  Its arguments are
formatted only if the level is enabled; a panic is an error with its text. -/
def successLog (debugEnabled : Bool) (state : SessionState) : Except String Unit :=
  if debugEnabled then do
    let _ ← state.senderRatchetKeyForLogging.mapError fun error =>
      s!"successful decrypt always has a valid base key: InvalidSessionError(\"{error}\")"
    pure ()
  else pure ()

/-- How an attempt with a state ends, with what is logged. -/
inductive Ending where
  | decrypted (plaintext : Bytes)
  | failed (error : SignalProtocolError)
  | panicked (text : String)
  deriving DecidableEq, Repr

section Decrypt

variable (C : Crypto) (input : SignalDecryptInput) (originalMessageType : CiphertextMessageType)

/-- The first lines of a round of `decrypt_message_with_record`. -/
def decryptAndLog (debugEnabled : Bool) (csprng : KeyPair) (state : SessionState) : Ending :=
  match (decryptMessageWithState C input originalMessageType csprng).exec ⟨state, true⟩ with
  | (.error e, _) => .failed e
  | (.ok result, attempt) =>
    match successLog debugEnabled attempt.state with
    | .ok () => .decrypted result.plaintext
    | .error text => .panicked text

end Decrypt

/-! ## Another sender chain -/

/-- The state with another sender chain. -/
def SessionState.withSender (chain : Option SessionStructure.Chain) (s : SessionState) :
    SessionState := { s with senderChain := chain }

def Attempt.withSender (chain : Option SessionStructure.Chain) (a : Attempt) : Attempt :=
  { a with state := a.state.withSender chain }

variable {sender : ChainKey}

section Trials

variable {C : Crypto} {input : SignalDecryptInput} {type : CiphertextMessageType}
  {theirEphemeral : PublicKey} {chain : Option SessionStructure.Chain} {a : Attempt}

/-- With another sender chain the program does the same, and the chain stays. -/
abbrev Unaware {α : Type} (chain : Option SessionStructure.Chain) (a : Attempt) (m : Trial α) : Prop :=
  Carries (Attempt.withSender chain) a m m

theorem unaware_updateState {f : SessionState → Except String SessionState}
    (hf : ∀ s : SessionState, f (s.withSender chain) = (f s).map (·.withSender chain)) :
    Unaware chain a (Trial.updateState f) := by
  rw [Unaware, Carries, Trial.updateState, exec_bind_ok (exec_get _), exec_bind_ok (exec_get _),
    exec_bind, exec_bind, exec_ofExcept]
  have h : f (a.withSender chain).state = (f a.state).map (·.withSender chain) := hf a.state
  rw [h]
  cases f a.state <;> rfl

theorem modifyReceiverChain_withSender (sender : PublicKey) (missing : String)
    (f : SessionStructure.Chain → SessionStructure.Chain) (s : SessionState) :
    (s.withSender chain).modifyReceiverChain sender missing f
      = (s.modifyReceiverChain sender missing f).map (·.withSender chain) := by
  rw [SessionState.modifyReceiverChain, SessionState.modifyReceiverChain]
  have hindex : (s.withSender chain).getReceiverChainIndex sender
      = s.getReceiverChainIndex sender := rfl
  rw [hindex]
  rcases s.getReceiverChainIndex sender with e | (_ | idx) <;> rfl

theorem unaware_liftState {α : Type} {m : Eff SessionState SignalProtocolError α}
    (h : Carries (SessionState.withSender chain) a.state m m) :
    Unaware chain a (Trial.liftState m) := by
  have hm : m.exec (a.withSender chain).state
      = ((m.exec a.state).1, (m.exec a.state).2.withSender chain) := h
  rw [Unaware, Carries, exec_liftState, hm]
  rfl

theorem carries_getMessageKeys (s : SessionState) (counter : UInt32) :
    Carries (SessionState.withSender chain) s (SessionState.getMessageKeys theirEphemeral counter)
      (SessionState.getMessageKeys theirEphemeral counter) := by
  refine carries_get_bind (carries_ofExcept_bind fun found _ => ?_)
  cases found with
  | none => exact carries_pure _
  | some idx =>
    refine carries_ofExcept_bind fun position _ => ?_
    dsimp only [SessionState.withSender]
    generalize position.bind (fun i =>
      ((s.receiverChains[idx]?.map (·.skipped)).getD [])[i]?.map (i, ·)) = entry
    rcases entry with _ | ⟨i, key⟩
    · exact carries_pure _
    · exact carries_set_bind rfl (carries_ofExcept_bind fun keys _ => carries_pure _)

theorem unaware_decryptWithMessageKeys (gen : MessageKeyGenerator) :
    Unaware chain a (decryptWithMessageKeys C input type gen) := by
  refine carries_get_bind (carries_ofExcept_bind fun remote _ => carries_ofExcept_bind fun their _ =>
    carries_ofExcept_bind fun ours _ => ?_)
  split
  · exact carries_set_bind rfl (carries_ofExcept _)
  · exact carries_throw _

theorem unaware_skipMessageKeys (steps : Nat) (chainKey : ChainKey) :
    Unaware chain a (skipMessageKeys C theirEphemeral steps chainKey) := by
  induction steps generalizing chainKey a with
  | zero => exact carries_pure _
  | succ steps ih =>
    refine carries_ofExcept_bind fun keys _ => ?_
    refine (unaware_updateState fun s => modifyReceiverChain_withSender _ _ _ s).bind fun _ _ _ => ?_
    exact ih _

theorem unaware_getOrCreateMessageKey (chainKey : ChainKey) (counter : UInt32) :
    Unaware chain a (getOrCreateMessageKey C type theirEphemeral chainKey counter) := by
  rw [getOrCreateMessageKey]
  split
  · exact (unaware_liftState (carries_getMessageKeys _ counter)).bind fun _ _ _ => carries_ofExcept _
  · refine carries_get_bind (carries_ofExcept_bind fun isSelf _ => ?_)
    split
    · exact carries_throw _
    · refine (unaware_skipMessageKeys _ _).bind fun _ _ _ => carries_ofExcept_bind fun keys _ => ?_
      refine (unaware_updateState fun s => modifyReceiverChain_withSender _ _ _ s).bind fun _ _ _ => ?_
      exact carries_pure _

theorem unaware_decryptFromClosedChain (nextIndex counter : UInt32) :
    Unaware chain a (decryptFromClosedChain C input type theirEphemeral nextIndex counter) := by
  rw [decryptFromClosedChain]
  split
  · exact carries_throw _
  · exact (unaware_liftState (carries_getMessageKeys _ counter)).bind fun _ _ _ =>
      carries_ofExcept_bind fun gen _ => unaware_decryptWithMessageKeys gen

/-- A message of a chain that the state has. -/
theorem unaware_decryptWithPendingState (receiverChain : ReceiverChainState) (counter : UInt32)
    (csprng : KeyPair) :
    Unaware chain a
      (decryptWithPendingState C input type theirEphemeral (some receiverChain) counter csprng) := by
  cases receiverChain with
  | closed nextIndex =>
    exact (unaware_decryptFromClosedChain nextIndex counter).bind fun _ _ _ => carries_pure _
  | opened chainKey =>
    exact (unaware_getOrCreateMessageKey chainKey counter).bind fun gen _ _ =>
      (unaware_decryptWithMessageKeys gen).bind fun _ _ _ => carries_pure _

/-! ## A new chain -/

theorem exec_getOrCreateChainKey_none {r : ChainKey × Option DeferredSenderRatchet} {a' : Attempt} :
    exec (getOrCreateChainKey C theirEphemeral none) a = (.ok r, a') ↔
      ∃ root ours keys sender, a.state.rootKey = .ok root
        ∧ a.state.senderRatchetPrivateKey = .ok ours
        ∧ root.createChain C theirEphemeral ours = .ok keys
        ∧ a.state.getSenderChainKey = .ok sender
        ∧ (keys.2, some ⟨keys.1, saturatingSub sender.index 1⟩) = r
        ∧ { a with state := a.state.addReceiverChain theirEphemeral keys.2 } = a' := by
  simp [getOrCreateChainKey, exec_bind_eq_ok, exec_map, Except.map, invalidSession_eq_ok]

/-- A new chain needs a sender chain.  With another one of the same ratchet key the
message is decrypted as well, and either way the sender chain is a new one. -/
theorem decryptFromChain_none_withSender {counter : UInt32} {csprng : KeyPair} {r : Bytes × Bool}
    {a' : Attempt}
    (h : exec (decryptFromChain C input type theirEphemeral none counter csprng) a = (.ok r, a')) :
    (∃ sender, a.state.getSenderChainKey = .ok sender) ∧ ∀ chain sender,
      (a.state.withSender chain).senderRatchetPrivateKey = a.state.senderRatchetPrivateKey →
      (a.state.withSender chain).getSenderChainKey = .ok sender →
      ∃ a'', exec (decryptFromChain C input type theirEphemeral none counter csprng)
          (a.withSender chain) = (.ok r, a'')
        ∧ a''.state.senderRatchetKey = .ok csprng.publicKey := by
  rw [decryptFromChain] at h
  obtain ⟨created, a₁, hcreated, h⟩ := exec_bind_eq_ok.mp h
  obtain ⟨root, ours, keys, sender₀, hroot, hours, hkeys, hsender₀, rfl, rfl⟩ :=
    exec_getOrCreateChainKey_none.mp hcreated
  obtain ⟨gen, a₂, hgen, h⟩ := exec_bind_eq_ok.mp h
  obtain ⟨plaintext, a₃, hplaintext, h⟩ := exec_bind_eq_ok.mp h
  rw [exec_bind_ok (exec_get a₃)] at h
  obtain ⟨state, a₄, happly, h⟩ := exec_bind_eq_ok.mp h
  obtain ⟨⟨rootKey, chainKey⟩, hchain, -⟩ := bind_eq_ok.mp (Prod.mk.inj happly).1
  cases h
  -- the same steps with the other sender chain, up to the ratchet
  refine ⟨⟨sender₀, hsender₀⟩, fun chain sender hprivate hsender =>
    ⟨⟨(((a₃.state.withSender chain).setRootKey rootKey).setPreviousCounter
      (saturatingSub sender.index 1)).setSenderChain csprng chainKey, a₃.available⟩, ?_, ?_⟩⟩
  · rw [decryptFromChain]
    refine (exec_bind_ok ((exec_getOrCreateChainKey_none (a := a.withSender chain)).mpr
      ⟨root, ours, keys, sender, hroot, hprivate.trans hours, hkeys, hsender, rfl, rfl⟩)).trans ?_
    refine (exec_bind_ok ((unaware_getOrCreateMessageKey _ _).exec_eq hgen)).trans ?_
    refine (exec_bind_ok ((unaware_decryptWithMessageKeys _).exec_eq hplaintext)).trans ?_
    rw [exec_bind_ok (exec_get _), DeferredSenderRatchet.apply, hchain]
    rfl
  · simp [SessionState.senderRatchetKey, SessionState.setSenderChain, Except.mapError]

end Trials

/-! ## A whole attempt -/

section Attempts

variable {C : Crypto} {input : SignalDecryptInput} {type : CiphertextMessageType} {csprng : KeyPair}
  {a a' : Attempt} {result : StateDecryptResult} {chain : Option SessionStructure.Chain}

/-- The state has a receiver chain for a ratchet key. -/
def SessionState.Knows (s : SessionState) (ratchetKey : PublicKey) : Prop :=
  ∃ receiverChain, s.receiverChainState ratchetKey = .ok (some receiverChain)

/-- A message that is decrypted passes the checks, and is next in its chain or not. -/
theorem decryptMessageWithState_eq_ok
    (h : exec (decryptMessageWithState C input type csprng) a = (.ok result, a')) :
    ∃ root receiverChain, a.state.rootKey = .ok root
      ∧ input.message.messageVersion.toUInt32 = a.state.version
      ∧ a.state.receiverChainState input.message.senderRatchetKey = .ok receiverChain := by
  rw [decryptMessageWithState, exec_bind_ok (exec_get a)] at h
  obtain ⟨root, a₁, hroot, h⟩ := exec_bind_eq_ok.mp h
  dsimp only at h
  split at h
  · cases h
  · rename_i hversion
    obtain ⟨receiverChain, a₂, hchain, -⟩ := exec_bind_eq_ok.mp h
    exact ⟨root, receiverChain, mapError_eq_ok.mp (Prod.mk.inj hroot).1, not_not.mp hversion,
      invalidSession_eq_ok.mp (Prod.mk.inj hchain).1⟩

variable {root : RootKey} {receiverChain : Option ReceiverChainState}

theorem exec_decryptMessageWithState (hroot : a.state.rootKey = .ok root)
    (hversion : input.message.messageVersion.toUInt32 = a.state.version)
    (hchain : a.state.receiverChainState input.message.senderRatchetKey = .ok receiverChain) :
    exec (decryptMessageWithState C input type csprng) a
      = exec ((inOrderChain input.message.counter receiverChain).elim
          (decryptOutOfOrder C input type input.message.senderRatchetKey receiverChain csprng)
          (decryptInOrder C input type input.message.senderRatchetKey)) a := by
  simp only [decryptMessageWithState, exec_bind, exec_get, hroot, hchain, hversion, invalidSession,
    Except.mapError, exec_ofExcept, ne_eq, not_true, if_false]
  cases inOrderChain input.message.counter receiverChain <;> rfl

theorem exec_decryptOutOfOrder {theirEphemeral : PublicKey} {r : Bytes × Bool}
    (h : exec (decryptWithPendingState C input type theirEphemeral receiverChain
      input.message.counter csprng) a = (.ok r, a')) :
    exec (decryptOutOfOrder C input type theirEphemeral receiverChain csprng) a
      = (.ok ⟨r.1, .applied a.state.decryptSnapshot r.2⟩, a') := by
  rw [decryptOutOfOrder]
  exact exec_bind_ok (exec_onFailure_ok.mpr h)

theorem decryptOutOfOrder_eq_ok {theirEphemeral : PublicKey}
    (h : exec (decryptOutOfOrder C input type theirEphemeral receiverChain csprng) a
      = (.ok result, a')) :
    ∃ r, exec (decryptWithPendingState C input type theirEphemeral receiverChain
        input.message.counter csprng) a = (.ok r, a') ∧ r.1 = result.plaintext := by
  rw [decryptOutOfOrder, exec_bind_ok (exec_get a)] at h
  obtain ⟨r, a₁, hr, h⟩ := exec_bind_eq_ok.mp h
  cases h
  exact ⟨r, exec_onFailure_ok.mp hr, rfl⟩

/-- A message of a chain that the state has is decrypted with any sender chain. -/
theorem decryptMessageWithState_of_knows (chain : Option SessionStructure.Chain)
    (hknows : a.state.Knows input.message.senderRatchetKey)
    (h : exec (decryptMessageWithState C input type csprng) a = (.ok result, a')) :
    ∃ result', exec (decryptMessageWithState C input type csprng) (a.withSender chain)
        = (.ok result', a'.withSender chain) ∧ result'.plaintext = result.plaintext := by
  obtain ⟨root, _, hroot, hversion, -⟩ := decryptMessageWithState_eq_ok h
  obtain ⟨receiverChain, hchain⟩ := hknows
  rw [exec_decryptMessageWithState hroot hversion hchain] at h
  rw [exec_decryptMessageWithState (a := a.withSender chain) hroot hversion hchain]
  generalize inOrderChain input.message.counter (some receiverChain) = inOrder at h ⊢
  cases inOrder with
  | some chainKey =>
    refine ⟨result, Carries.exec_eq (carries_ofExcept_bind fun keys _ => ?_) h, rfl⟩
    exact (unaware_decryptWithMessageKeys _).bind fun _ _ _ => carries_pure _
  | none =>
    obtain ⟨r, hr, hplaintext⟩ := decryptOutOfOrder_eq_ok h
    exact ⟨_, exec_decryptOutOfOrder ((unaware_decryptWithPendingState _ _ _).exec_eq hr), hplaintext⟩

/-- A message of a new chain is, with a sender chain of the same ratchet key. -/
theorem decryptMessageWithState_of_new
    (hnew : a.state.receiverChainState input.message.senderRatchetKey = .ok none)
    (h : exec (decryptMessageWithState C input type csprng) a = (.ok result, a')) :
    (∃ sender, a.state.getSenderChainKey = .ok sender) ∧ ∀ chain sender,
      (a.state.withSender chain).senderRatchetPrivateKey = a.state.senderRatchetPrivateKey →
      (a.state.withSender chain).getSenderChainKey = .ok sender →
      ∃ result' a'', exec (decryptMessageWithState C input type csprng) (a.withSender chain)
          = (.ok result', a'') ∧ result'.plaintext = result.plaintext
        ∧ a''.state.senderRatchetKey = .ok csprng.publicKey := by
  obtain ⟨root, _, hroot, hversion, -⟩ := decryptMessageWithState_eq_ok h
  rw [exec_decryptMessageWithState hroot hversion hnew] at h
  obtain ⟨r, hr, hplaintext⟩ := decryptOutOfOrder_eq_ok h
  obtain ⟨hsender, hother⟩ := decryptFromChain_none_withSender hr
  refine ⟨hsender, fun chain sender hprivate hsender' => ?_⟩
  obtain ⟨a'', hr', hkey⟩ := hother chain sender hprivate hsender'
  rw [exec_decryptMessageWithState (a := a.withSender chain) hroot hversion hnew]
  exact ⟨_, a'', exec_decryptOutOfOrder hr', hplaintext, hkey⟩

end Attempts

/-! ## After the chain is advanced or dropped -/

section Promoted

variable {C : Crypto} {input : SignalDecryptInput} {type : CiphertextMessageType} {csprng : KeyPair}
  {s s' : SessionState} {target : UInt32} {result : StateDecryptResult} {a' : Attempt}

/-- An advanced chain has the ratchet key it had, and can be sent on if it could. -/
theorem SessionState.Advanced.withSender (h : s.Advanced C target s') :
    ∃ chain, s' = s.withSender chain ∧ s'.senderRatchetPrivateKey = s.senderRatchetPrivateKey
      ∧ s'.senderRatchetKey = s.senderRatchetKey
      ∧ ∀ sender, s.getSenderChainKey = .ok sender → ∃ sender', s'.getSenderChainKey = .ok sender' := by
  cases h with
  | unusable h => exact ⟨s.senderChain, rfl, rfl, rfl, fun sender hsender => ⟨sender, hsender⟩⟩
  | @advanced chain ck ck' hchain hkey hadvance =>
    refine ⟨_, rfl, ?_, ?_, fun _ _ => ⟨ck', SessionState.getSenderChainKey_eq_ok.mpr ⟨_, rfl, rfl⟩⟩⟩
    · rw [SessionState.senderRatchetPrivateKey, SessionState.senderRatchetPrivateKey, hchain]
      rfl
    · rw [SessionState.senderRatchetKey, SessionState.senderRatchetKey, hchain]
      rfl

variable {debugEnabled : Bool}

theorem successLog_eq_ok :
    successLog debugEnabled s = .ok () ↔ (debugEnabled = true → ∃ key, s.senderRatchetKey = .ok key) := by
  cases debugEnabled with
  | false => simp [successLog, pure, Except.pure]
  | true =>
    rw [successLog, SessionState.senderRatchetKeyForLogging]
    cases s.senderRatchetKey <;> simp [Except.map, Except.mapError]

theorem decryptAndLog_of_ok
    (h : exec (decryptMessageWithState C input type csprng) ⟨s, true⟩ = (.ok result, a')) :
    decryptAndLog C input type debugEnabled csprng s = .decrypted result.plaintext
      ↔ (debugEnabled = true → ∃ key, a'.state.senderRatchetKey = .ok key) := by
  rw [← successLog_eq_ok, decryptAndLog, h]
  dsimp only
  cases successLog debugEnabled a'.state <;> simp

theorem decryptAndLog_of_error {e : SignalProtocolError}
    (h : exec (decryptMessageWithState C input type csprng) ⟨s, true⟩ = (.error e, a')) :
    decryptAndLog C input type debugEnabled csprng s = .failed e := by
  rw [decryptAndLog, h]

/-- Without a sender chain a message of a new chain is not decrypted. -/
theorem decryptAndLog_dropped_new
    (hnew : s.receiverChainState input.message.senderRatchetKey = .ok none) (plaintext : Bytes) :
    decryptAndLog C input type debugEnabled csprng (s.withSender none) ≠ .decrypted plaintext := by
  intro hdecrypted
  cases hexec : exec (decryptMessageWithState C input type csprng) ⟨s.withSender none, true⟩ with
  | mk r a'' =>
    cases r with
    | error e =>
      rw [decryptAndLog_of_error hexec] at hdecrypted
      cases hdecrypted
    | ok result' =>
      obtain ⟨⟨sender, hsender⟩, -⟩ := decryptMessageWithState_of_new hnew hexec
      obtain ⟨chain, hchain, -⟩ := SessionState.getSenderChainKey_eq_ok.mp hsender
      cases hchain

/-- When a message that a state can decrypt is decrypted by the state with its sender
chain advanced or dropped, and the success can be logged. -/
theorem decryptAndLog_fastForward_iff (debugEnabled : Bool) (target : UInt32)
    (h : exec (decryptMessageWithState C input type csprng) ⟨s, true⟩ = (.ok result, a')) :
    decryptAndLog C input type debugEnabled csprng (s.fastForwardSenderChainOrDrop C target)
        = .decrypted result.plaintext
      ↔ (s.WithinReach target ∨ s.Knows input.message.senderRatchetKey)
        ∧ (debugEnabled = true → s.WithinReach target
          ∧ (s.Knows input.message.senderRatchetKey → ∃ key, s.senderRatchetKey = .ok key)) := by
  obtain ⟨root, receiverChain, -, -, hchain⟩ := decryptMessageWithState_eq_ok h
  by_cases hreach : s.WithinReach target
  · have hadvanced := SessionState.fastForwardSenderChainOrDrop_of_withinReach (C := C) hreach
    generalize s.fastForwardSenderChainOrDrop C target = s' at hadvanced
    obtain ⟨chain, rfl, hprivate, hkey, hsender⟩ := hadvanced.withSender
    cases receiverChain with
    | some receiverChain =>
      have hknows : s.Knows input.message.senderRatchetKey := ⟨receiverChain, hchain⟩
      obtain ⟨result', hexec, hplaintext⟩ := decryptMessageWithState_of_knows chain hknows h
      have hfinal : (a'.withSender chain).state.senderRatchetKey = s.senderRatchetKey := hkey
      rw [← hplaintext, decryptAndLog_of_ok hexec, hfinal]
      simp only [hreach, hknows, true_or, true_and, true_imp_iff]
    | none =>
      have hnew : ¬ s.Knows input.message.senderRatchetKey := fun ⟨c, hc⟩ => by cases hc.symm.trans hchain
      obtain ⟨⟨sender, hsender₀⟩, hother⟩ := decryptMessageWithState_of_new hchain h
      obtain ⟨sender', hsender'⟩ := hsender sender hsender₀
      obtain ⟨result', a'', hexec, hplaintext, hratchet⟩ := hother chain sender' hprivate hsender'
      rw [← hplaintext, decryptAndLog_of_ok hexec]
      simp [hreach, hnew, hratchet]
  · rw [SessionState.fastForwardSenderChainOrDrop_of_not_withinReach hreach]
    cases receiverChain with
    | some receiverChain =>
      have hknows : s.Knows input.message.senderRatchetKey := ⟨receiverChain, hchain⟩
      obtain ⟨result', hexec, hplaintext⟩ := decryptMessageWithState_of_knows none hknows h
      have hfinal : ¬ ∃ key, (a'.withSender none).state.senderRatchetKey = .ok key :=
        fun ⟨key, hkey⟩ => by cases hkey
      rw [← hplaintext]
      refine (decryptAndLog_of_ok hexec).trans ?_
      simp only [hfinal, hreach, hknows, or_true, true_and, false_and]
    | none =>
      have hnew : ¬ s.Knows input.message.senderRatchetKey := fun ⟨c, hc⟩ => by cases hc.symm.trans hchain
      refine iff_of_false (decryptAndLog_dropped_new hchain result.plaintext) ?_
      simp only [hreach, hnew, or_self, false_and, not_false_iff]

end Promoted

/-! ## A session that stops receiving -/

def zeroKey : PublicKey := ⟨.replicate 32 0⟩

def zeroKeyPair : KeyPair := ⟨zeroKey, ⟨.replicate 32 0⟩⟩

/-- A session that has sent nothing yet and has received nothing. -/
def newSession : SessionState :=
  (SessionState.new 3 zeroKey zeroKey ⟨.replicate 32 0⟩ zeroKey).setSenderChain zeroKeyPair
    ⟨.replicate 32 0, 0⟩

/-- The session once it knows a chain of the peer. -/
def answeredSession : SessionState := newSession.addReceiverChain zeroKey ⟨.replicate 32 0, 0⟩

def ratchetMessage : SignalMessage := ⟨3, zeroKey, 0, [1], List.replicate 8 0⟩

/-- Under a ceiling of 2001 a message that starts a chain is lost with the sender
chain, and one of a known chain panics where its success is logged. -/
theorem dropped_chain_stops_receiving :
    decryptAndLog .transparent ⟨ratchetMessage, false⟩ .whisper true zeroKeyPair newSession
        = .decrypted [1]
      ∧ decryptAndLog .transparent ⟨ratchetMessage, false⟩ .whisper true zeroKeyPair
          (newSession.fastForwardSenderChainOrDrop .transparent 2001)
        = .failed (.invalidSessionStructure "missing sender chain")
      ∧ decryptAndLog .transparent ⟨ratchetMessage, false⟩ .whisper true zeroKeyPair answeredSession
        = .decrypted [1]
      ∧ decryptAndLog .transparent ⟨ratchetMessage, false⟩ .whisper true zeroKeyPair
          (answeredSession.fastForwardSenderChainOrDrop .transparent 2001)
        = .panicked ("successful decrypt always has a valid base key: "
            ++ "InvalidSessionError(\"missing sender chain\")") := by
  decide +kernel

/-- Within reach of the ceiling both are decrypted. -/
theorem decryptAndLog_within_reach :
    newSession.WithinReach 2000
      ∧ decryptAndLog .transparent ⟨ratchetMessage, false⟩ .whisper true zeroKeyPair
          (newSession.fastForwardSenderChainOrDrop .transparent 2000) = .decrypted [1] := by
  have hreach : newSession.WithinReach 2000 := by
    intro ck _
    exact Nat.le_add_left _ _
  have hnew : ¬ newSession.Knows zeroKey := fun ⟨c, hc⟩ => by cases hc
  have hdecrypt : ∃ result a', exec (decryptMessageWithState .transparent ⟨ratchetMessage, false⟩
      .whisper zeroKeyPair) ⟨newSession, true⟩ = (.ok result, a') ∧ result.plaintext = [1] :=
    ⟨_, _, rfl, rfl⟩
  obtain ⟨result, a', hexec, hplaintext⟩ := hdecrypt
  have hiff := decryptAndLog_fastForward_iff true 2000 hexec
  rw [hplaintext] at hiff
  exact ⟨hreach, hiff.mpr ⟨.inl hreach, fun _ => ⟨hreach, fun h => absurd h hnew⟩⟩⟩

end WaCore.Signal
