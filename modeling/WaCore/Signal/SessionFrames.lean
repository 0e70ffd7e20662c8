import Mathlib.Data.List.InsertIdx
import WaCore.Lib.Keeps
import WaCore.Signal.SessionCheckout

/-!
# What a decryption changes

The fields of a state that a decryption may change are those of its snapshot.
The sender chain is among them, but it changes only by the sender ratchet, after
the message has been authenticated.  Hence a state on which a message fails is
put back as it was, and so is a record: on every path that does not commit, the
record is the one the decryption started from.
-/

namespace WaCore.Signal

open Eff

/-! ## States -/

/-- The states differ at most in what a snapshot holds. -/
def SessionState.SameOutside (s s' : SessionState) : Prop :=
  s'.restoreDecryptSnapshot s.decryptSnapshot = s

/-- In addition the sender chain is the same. -/
structure SessionState.Receives (s s' : SessionState) : Prop where
  outside : s.SameOutside s'
  sender : s'.senderChain = s.senderChain

section States

variable {s t t' : SessionState}

theorem SessionState.Receives.refl (s : SessionState) : s.Receives s := ⟨rfl, rfl⟩

/-- Only the receiver chains are changed. -/
theorem SessionState.Receives.setChains (h : s.Receives t) (chains : List SessionStructure.Chain) :
    s.Receives { t with receiverChains := chains } := ⟨h.outside, h.sender⟩

theorem SessionState.Receives.addReceiverChain (h : s.Receives t) (sender : PublicKey)
    (chainKey : ChainKey) : s.Receives (t.addReceiverChain sender chainKey) := h.setChains _

theorem SessionState.Receives.modifyReceiverChain {sender : PublicKey} {missing : String}
    {f : SessionStructure.Chain → SessionStructure.Chain} (h : s.Receives t)
    (hmodify : t.modifyReceiverChain sender missing f = .ok t') : s.Receives t' := by
  obtain ⟨idx, -, rfl⟩ := SessionState.modifyReceiverChain_eq_ok.mp hmodify
  exact h.setChains _

end States

/-! ## One state -/

/-- The state of an attempt has the property. -/
def Attempt.Has (P : SessionState → Prop) (a : Attempt) : Prop := P a.state

section Trials

variable {C : Crypto} {input : SignalDecryptInput} {type : CiphertextMessageType}
  {theirEphemeral : PublicKey} {s : SessionState} {P : SessionState → Prop}

theorem exec_liftState {α : Type} (m : Eff SessionState SignalProtocolError α) (a : Attempt) :
    (Trial.liftState m).exec a = ((m.exec a.state).1, { a with state := (m.exec a.state).2 }) := rfl

theorem keeps_liftState {α : Type} {m : Eff SessionState SignalProtocolError α} (h : Keeps P m) :
    Keeps (Attempt.Has P) (Trial.liftState m) := by
  intro a ha
  exact h a.state ha

theorem keeps_updateState {f : SessionState → Except String SessionState}
    (h : ∀ t t', P t → f t = .ok t' → P t') :
    Keeps (Attempt.Has P) (Trial.updateState f) := by
  refine keeps_get_bind fun a ha => snd_ofExcept_bind ha fun t ht => ?_
  exact h a.state t ha (invalidSession_eq_ok.mp ht)

theorem keeps_getMessageKeys (sender : PublicKey) (counter : UInt32) :
    Keeps s.Receives (SessionState.getMessageKeys sender counter) := by
  refine keeps_get_bind fun t ht => snd_ofExcept_bind ht fun found _ => ?_
  cases found with
  | none => exact ht
  | some idx =>
    refine snd_ofExcept_bind ht fun position _ => ?_
    split
    · exact ht
    · exact (keeps_ofExcept _).bind (fun _ => keeps_pure _) _ (ht.setChains _)

theorem keeps_decryptWithMessageKeys (gen : MessageKeyGenerator) :
    Keeps (Attempt.Has P) (decryptWithMessageKeys C input type gen) := by
  refine keeps_get_bind fun a ha => snd_ofExcept_bind ha fun remote _ =>
    snd_ofExcept_bind ha fun their _ => snd_ofExcept_bind ha fun ours _ => ?_
  split
  · exact ha
  · exact ha

theorem keeps_getOrCreateChainKey (receiverChain : Option ReceiverChainState) :
    Keeps (Attempt.Has s.Receives)
      (getOrCreateChainKey C theirEphemeral receiverChain) := by
  match receiverChain with
  | some (.opened chain) => exact keeps_pure _
  | some (.closed _) => exact keeps_throw _
  | none =>
    refine keeps_get_bind fun a ha => snd_ofExcept_bind ha fun root _ =>
      snd_ofExcept_bind ha fun ours _ => snd_ofExcept_bind ha fun keys _ =>
      snd_ofExcept_bind ha fun sender _ => ?_
    exact SessionState.Receives.addReceiverChain ha _ _

theorem keeps_skipMessageKeys (steps : Nat) (chainKey : ChainKey) :
    Keeps (Attempt.Has s.Receives)
      (skipMessageKeys C theirEphemeral steps chainKey) := by
  induction steps generalizing chainKey with
  | zero => exact keeps_pure _
  | succ steps ih =>
    exact (keeps_ofExcept _).bind fun _ =>
      (keeps_updateState fun _ _ ht h => ht.modifyReceiverChain h).bind fun _ => ih _

theorem keeps_getOrCreateMessageKey (chainKey : ChainKey) (counter : UInt32) :
    Keeps (Attempt.Has s.Receives)
      (getOrCreateMessageKey C type theirEphemeral chainKey counter) := by
  rw [getOrCreateMessageKey]
  split
  · exact (keeps_liftState (keeps_getMessageKeys _ _)).bind fun _ => keeps_ofExcept _
  · refine keeps_get_bind fun a ha => snd_ofExcept_bind ha fun isSelf _ => ?_
    split
    · exact ha
    · refine (keeps_skipMessageKeys _ _).bind (fun _ => (keeps_ofExcept _).bind fun _ =>
        (keeps_updateState fun _ _ ht h => ht.modifyReceiverChain h).bind fun _ => keeps_pure _) a ha

theorem keeps_decryptFromClosedChain (nextIndex counter : UInt32) :
    Keeps (Attempt.Has s.Receives)
      (decryptFromClosedChain C input type theirEphemeral nextIndex counter) := by
  rw [decryptFromClosedChain]
  split
  · exact keeps_throw _
  · exact (keeps_liftState (keeps_getMessageKeys _ _)).bind fun _ =>
      (keeps_ofExcept _).bind fun _ => keeps_decryptWithMessageKeys _

/-- What a state becomes by a decryption, which may have reset the sender chain. -/
structure SessionState.DecryptsTo (s : SessionState) (senderChainReset : Bool) (s' : SessionState) :
    Prop where
  outside : s.SameOutside s'
  sender : senderChainReset = false → s'.senderChain = s.senderChain

theorem DeferredSenderRatchet.apply_eq_ok {deferred : DeferredSenderRatchet} {csprng : KeyPair}
    {t t' : SessionState} (houtside : s.SameOutside t)
    (h : deferred.apply C t theirEphemeral csprng = .ok t') : s.DecryptsTo true t' := by
  obtain ⟨_, -, h⟩ := bind_eq_ok.mp h
  cases h
  exact ⟨houtside, nofun⟩

theorem meets_decryptFromChain (receiverChain : Option ReceiverChainState) (counter : UInt32)
    (csprng : KeyPair) :
    Meets (decryptFromChain C input type theirEphemeral receiverChain counter csprng)
      (Attempt.Has s.Receives) (fun r => Attempt.Has (s.DecryptsTo r.2))
      (fun _ => Attempt.Has s.SameOutside) := by
  refine ((keeps_getOrCreateChainKey _).meets fun _ _ h => h.outside).bind fun r => ?_
  refine ((keeps_getOrCreateMessageKey _ _).meets fun _ _ h => h.outside).bind fun gen => ?_
  refine ((keeps_decryptWithMessageKeys _).meets fun _ _ h => h.outside).bind fun plaintext => ?_
  cases r.2 with
  | none => exact fun a ha => ⟨ha.outside, fun _ => ha.sender⟩
  | some deferred =>
    intro a ha
    rw [exec_bind_ok (exec_get a)]
    cases happly : deferred.apply C a.state theirEphemeral csprng with
    | error e => exact ha.outside
    | ok t => exact DeferredSenderRatchet.apply_eq_ok ha.outside happly

theorem meets_decryptWithPendingState (receiverChain : Option ReceiverChainState) (counter : UInt32)
    (csprng : KeyPair) :
    Meets (decryptWithPendingState C input type theirEphemeral receiverChain counter csprng)
      (Attempt.Has s.Receives) (fun r => Attempt.Has (s.DecryptsTo r.2))
      (fun _ => Attempt.Has s.SameOutside) := by
  match receiverChain with
  | some (.closed nextIndex) =>
    exact ((keeps_decryptFromClosedChain _ _).meets fun _ _ h => h.outside).bind
      fun _ a ha => ⟨ha.outside, fun _ => ha.sender⟩
  | some (.opened _) => exact meets_decryptFromChain _ _ _
  | none => exact meets_decryptFromChain _ _ _

/-- What an effect says about the state before and the one after. -/
def StateDecryptEffect.Describes (s s' : SessionState) : StateDecryptEffect → Prop
  | .deferredChainKey ratchetKey chainKey =>
    s' = s ∧ ∃ t, s.setReceiverChainKey ratchetKey chainKey = .ok t
  | .applied snapshot senderChainReset =>
    snapshot = s.decryptSnapshot ∧ s.DecryptsTo senderChainReset s'

theorem exists_setReceiverChainKey {chainState : ReceiverChainState} (chainKey : ChainKey)
    (h : s.receiverChainState theirEphemeral = .ok (some chainState)) :
    ∃ t, s.setReceiverChainKey theirEphemeral chainKey = .ok t := by
  obtain ⟨found, hfound, h⟩ := bind_eq_ok.mp h
  cases found with
  | none => cases h
  | some idx => exact ⟨_, SessionState.modifyReceiverChain_eq_ok.mpr ⟨idx, hfound, rfl⟩⟩

theorem inOrderChain_eq_some {counter : UInt32} {receiverChain : Option ReceiverChainState}
    {chainKey : ChainKey} (h : inOrderChain counter receiverChain = some chainKey) :
    receiverChain = some (.opened chainKey) ∧ chainKey.index = counter := by
  match receiverChain with
  | some (.opened c) =>
    rw [inOrderChain] at h
    split at h
    · cases h
      exact ⟨rfl, by assumption⟩
    · cases h
  | some (.closed _) => cases h
  | none => cases h

theorem meets_decryptInOrder {chainKey : ChainKey}
    (h : s.receiverChainState theirEphemeral = .ok (some (.opened chainKey))) :
    Meets (decryptInOrder C input type theirEphemeral chainKey) (Attempt.Has (· = s))
      (fun r a => r.effect.Describes s a.state) (fun _ => Attempt.Has (· = s)) := by
  refine ((keeps_ofExcept _).meets fun _ _ h => h).bind fun r => ?_
  refine ((keeps_decryptWithMessageKeys _).meets fun _ _ h => h).bind fun plaintext => ?_
  exact fun a ha => ⟨ha, exists_setReceiverChainKey r.2 h⟩

theorem meets_decryptOutOfOrder (receiverChain : Option ReceiverChainState) (csprng : KeyPair) :
    Meets (decryptOutOfOrder C input type theirEphemeral receiverChain csprng)
      (Attempt.Has (· = s)) (fun r a => r.effect.Describes s a.state)
      (fun _ => Attempt.Has (· = s)) := by
  intro a ha
  obtain rfl : a.state = s := ha
  refine (Meets.onFailure (meets_decryptWithPendingState _ _ _) ?_).bind (fun r => ?_) a
    (SessionState.Receives.refl a.state)
  · exact fun _ _ h => h
  · exact fun a' ha' => ⟨rfl, ha'⟩

/-- A state on which a message fails is as it was. -/
theorem meets_decryptMessageWithState (csprng : KeyPair) :
    Meets (decryptMessageWithState C input type csprng) (Attempt.Has (· = s))
      (fun r a => r.effect.Describes s a.state) (fun _ => Attempt.Has (· = s)) := by
  intro a ha
  obtain rfl : a.state = s := ha
  rw [decryptMessageWithState, exec_bind_ok (exec_get a)]
  refine ((keeps_ofExcept _).meets fun _ _ h => h).bind (fun _ => ?_) a (rfl)
  dsimp only
  split
  · exact fun _ h => h
  · refine meets_ofExcept_bind fun receiverChain hchain => ?_
    split
    · rename_i chainKey hinOrder
      obtain ⟨rfl, -⟩ := inOrderChain_eq_some hinOrder
      exact meets_decryptInOrder (invalidSession_eq_ok.mp hchain)
    · exact meets_decryptOutOfOrder _ _

end Trials

/-! ## Records -/

theorem takePreviousSession_eq_some {record record' : SessionRecord} {i : Nat} {s : SessionState}
    (h : record.takePreviousSession i = some (s, record')) :
    record.previousSessions[i]? = some s
      ∧ record' = { record with previousSessions := record.previousSessions.eraseIdx i } := by
  rw [SessionRecord.takePreviousSession] at h
  cases hget : record.previousSessions[i]? with
  | none =>
    rw [hget] at h
    cases h
  | some t =>
    rw [hget] at h
    cases h
    exact ⟨rfl, rfl⟩

/-- A state that was taken out is put back where it was. -/
theorem restorePreviousSession_eraseIdx {record : SessionRecord} {i : Nat} {s : SessionState}
    (h : record.previousSessions[i]? = some s) :
    { record with previousSessions := record.previousSessions.eraseIdx i }.restorePreviousSession i s
      = record := by
  obtain ⟨hlt, rfl⟩ := List.getElem?_eq_some_iff.mp h
  have hle : i ≤ (record.previousSessions.eraseIdx i).length := by
    rw [List.length_eraseIdx_of_lt hlt]
    omega
  rw [SessionRecord.restorePreviousSession, if_pos hle]
  rw [List.insertIdx_eraseIdx_getElem hlt]

/-- A decryption of a record, and the record while it is not committed. -/
inductive RecordDecrypt.From (record : SessionRecord) : RecordDecrypt → SessionRecord → Prop where
  | current {s s' : SessionState} {result : StateDecryptResult}
    (hcurrent : record.currentSession = some s) (heffect : result.effect.Describes s s') :
    From record (.ofCurrent result) { record with currentSession := some s' }
  | previous {s s' : SessionState} {effect : StateDecryptEffect} {i : Nat} (plaintext : Bytes)
    (hprevious : record.previousSessions[i]? = some s)
    (heffect : effect.Describes s s') :
    From record (.previous s' effect i plaintext)
      { record with previousSessions := record.previousSessions.eraseIdx i }

section Records

variable {C : Crypto} {input : SignalDecryptInput} {type : CiphertextMessageType}
  {csprng : Nat → KeyPair} {record record' : SessionRecord}

/-- What the loop over archived states does. -/
theorem tryPreviousSessions_spec (remaining idx : Nat) (errs : List SignalProtocolError) :
    (∃ e, tryPreviousSessions C input type csprng remaining idx errs record = (.error e, record))
      ∨ ∃ decrypt record', tryPreviousSessions C input type csprng remaining idx errs record
          = (.ok decrypt, record') ∧ RecordDecrypt.From record decrypt record' := by
  induction remaining generalizing idx errs with
  | zero => exact .inl ⟨_, rfl⟩
  | succ remaining ih =>
    rw [tryPreviousSessions]
    split
    · exact .inl ⟨_, rfl⟩
    · rename_i previous taken htake
      obtain ⟨hget, rfl⟩ := takePreviousSession_eq_some htake
      split
      · rename_i result attempt hexec
        exact .inr ⟨_, _, rfl, .previous _ hget ((meets_decryptMessageWithState _).of_ok hexec rfl)⟩
      · rename_i e attempt hexec
        -- the candidate is put back, and the record is the one it was taken from
        have hsame : attempt.state = previous := (meets_decryptMessageWithState _).of_error hexec rfl
        rw [hsame, restorePreviousSession_eraseIdx hget]
        split
        · exact .inl ⟨_, rfl⟩
        · exact ih _ _

/-- A message that no state can decrypt leaves the record as it was. -/
theorem decryptMessageWithRecord_spec :
    (∃ e, decryptMessageWithRecord C input type csprng record = (.error e, record))
      ∨ ∃ decrypt record', decryptMessageWithRecord C input type csprng record
          = (.ok decrypt, record') ∧ RecordDecrypt.From record decrypt record' := by
  rw [decryptMessageWithRecord]
  split
  · exact tryPreviousSessions_spec _ _ _
  · rename_i s hcurrent
    split
    · rename_i result attempt hexec
      exact .inr ⟨_, _, rfl, .current hcurrent ((meets_decryptMessageWithState _).of_ok hexec rfl)⟩
    · rename_i e attempt hexec
      obtain rfl : attempt.state = s := (meets_decryptMessageWithState _).of_error hexec rfl
      have hsame : { record with currentSession := some attempt.state } = record := by
        rw [← hcurrent]
      rw [hsame]
      split
      · exact .inl ⟨_, rfl⟩
      · split
        · exact .inl ⟨_, rfl⟩
        · exact tryPreviousSessions_spec _ _ _

/-- The record after a committed decryption. -/
inductive SessionRecord.Decrypted (C : Crypto) (record : SessionRecord) : SessionRecord → Prop where
  | current {s t : SessionState} (hcurrent : record.currentSession = some s)
    (ht : t.senderChain = s.senderChain) :
    Decrypted C record { record with currentSession := some t }
  | currentReset (t : SessionState) :
    Decrypted C record { record with currentSession := some t }.rebaseLeaseAfterSenderChainReset
  | previous (t : SessionState) (i : Nat) :
    Decrypted C record
      ({ record with previousSessions := record.previousSessions.eraseIdx i }.promoteState C t)
  | previousReset (t : SessionState) (i : Nat) :
    Decrypted C record
      ({ record with previousSessions := record.previousSessions.eraseIdx i }.promoteFreshState C t)

/-- A decryption that is dropped is undone. -/
theorem RecordDecrypt.From.drop {decrypt : RecordDecrypt}
    (h : RecordDecrypt.From record decrypt record') : decrypt.drop record' = record := by
  cases h with
  | @current s s' result hcurrent heffect =>
    obtain ⟨plaintext, effect⟩ := result
    cases effect with
    | deferredChainKey ratchetKey chainKey =>
      obtain ⟨rfl, -⟩ := heffect
      rw [RecordDecrypt.ofCurrent, RecordDecrypt.drop, ← hcurrent]
    | applied snapshot senderChainReset =>
      obtain ⟨rfl, hdecrypts⟩ := heffect
      have houtside : s'.restoreDecryptSnapshot s.decryptSnapshot = s := hdecrypts.outside
      rw [RecordDecrypt.ofCurrent, RecordDecrypt.drop]
      dsimp only [Option.map_some]
      rw [houtside, ← hcurrent]
  | @previous s s' effect i plaintext hprevious heffect =>
    have hrollback : effect.rollback s' = s := by
      cases effect with
      | deferredChainKey ratchetKey chainKey => exact heffect.1
      | applied snapshot senderChainReset =>
        obtain ⟨rfl, hdecrypts⟩ := heffect
        exact hdecrypts.outside
    rw [RecordDecrypt.drop, hrollback, restorePreviousSession_eraseIdx hprevious]

/-- A decryption can be committed. -/
theorem RecordDecrypt.From.commit {decrypt : RecordDecrypt}
    (h : RecordDecrypt.From record decrypt record') :
    ∃ plaintext record'', (decrypt.commit C).exec record' = (.ok plaintext, record'')
      ∧ record.Decrypted C record'' := by
  cases h with
  | @current s s' result hcurrent heffect =>
    obtain ⟨plaintext, effect⟩ := result
    cases effect with
    | deferredChainKey ratchetKey chainKey =>
      obtain ⟨rfl, t, ht⟩ := heffect
      refine ⟨plaintext, _, ?_, .current (t := t.clearUnacknowledgedPreKeyMessage) hcurrent ?_⟩
      · simp [RecordDecrypt.ofCurrent, RecordDecrypt.commit, RecordDecrypt.expectCurrent, exec_bind,
          exec_map, ht, invalidSession, Except.mapError, Except.map]
      · obtain ⟨idx, -, rfl⟩ := SessionState.modifyReceiverChain_eq_ok.mp ht
        rfl
    | applied snapshot senderChainReset =>
      obtain ⟨rfl, hdecrypts⟩ := heffect
      cases senderChainReset with
      | false => exact ⟨plaintext, _, rfl, .current hcurrent (hdecrypts.sender rfl)⟩
      | true => exact ⟨plaintext, _, rfl, .currentReset _⟩
  | @previous s s' effect i plaintext hprevious heffect =>
    cases effect with
    | deferredChainKey ratchetKey chainKey =>
      obtain ⟨rfl, t, ht⟩ := heffect
      refine ⟨plaintext, _, ?_, .previous t.clearUnacknowledgedPreKeyMessage i⟩
      simp [RecordDecrypt.commit, StateDecryptEffect.commit, StateDecryptEffect.senderChainReset,
        exec_bind, exec_map, ht, invalidSession, Except.mapError, Except.map]
    | applied snapshot senderChainReset =>
      cases senderChainReset with
      | false => exact ⟨plaintext, _, rfl, .previous _ i⟩
      | true => exact ⟨plaintext, _, rfl, .previousReset _ i⟩

end Records

end WaCore.Signal
