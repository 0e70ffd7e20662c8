import WaCore.Signal.SessionOutcomes

/-!
# A call on a session is done or not done

A call takes its record out of the store and works on it.  When it fails or is dropped at
an `await`, the record that it had taken goes back, whatever the call has done to it by
then.  Only an answer of the store itself, to the commit of the new record, can be an error
of a call that has done its work.
-/

namespace WaCore.Signal

open Eff

variable {σ τ α : Type} (store : SessionStore τ) (address : ProtocolAddress)

/-- Put back what was taken out; if there was nothing, the checkout is cancelled. -/
def SessionCheckout.giveBack (session : SessionCheckout) : Option SessionRecord → Eff τ Stop Unit
  | some taken => session.commit store taken
  | none => modify (session.cancel store)

/-- How a call ends, if a record that it commits is `After` the one that it took out of the
store, which was in the state `s`. -/
inductive SessionCheckout.Ends (After : SessionRecord → SessionRecord → Prop) (s : τ) :
    Except Stop α × World σ τ → Prop where
  | untouched (e : Stop) (st : σ) : Ends After s (.error e, ⟨st, s⟩)
  | notLoaded {e : Stop} {st : σ} {s' : τ}
    (hload : (store.loadSessionForUpdate address).exec s = (.error e, s')) :
    Ends After s (.error e, ⟨st, s'⟩)
  | returned {e : Stop} {found : Option SessionRecord} {key : Option SessionCheckoutKey} {s₁ s' : τ}
    {st : σ} (hload : (store.loadSessionForUpdate address).exec s = (.ok (found, key), s₁))
    (hback : s' = ((giveBack store ⟨address, key, found.isSome, .working⟩ found).exec s₁).2
      ∨ ∃ taken ∈ found, s' = (tryStore store ⟨address, key, true, .working⟩ taken s₁).2) :
    Ends After s (.error e, ⟨st, s'⟩)
  | committed {result : Except Stop α} {found : Option SessionRecord}
    {key : Option SessionCheckoutKey} {s₁ s' : τ} {st : σ} {record : SessionRecord}
    {answer : Except Stop Unit}
    (hload : (store.loadSessionForUpdate address).exec s = (.ok (found, key), s₁))
    (hafter : After (found.getD .newFresh) record)
    (hcommit : (SessionCheckout.commit store ⟨address, key, found.isSome, .working⟩ record).exec s₁
      = (answer, s'))
    (hanswer : ∀ e, result = .error e ↔ answer = .error e) :
    Ends After s (result, ⟨st, s'⟩)

/-- The call is done or not done. -/
def AllOrNothing (After : SessionRecord → SessionRecord → Prop) (call : Eff (World σ τ) Stop α) :
    Prop :=
  ∀ w, SessionCheckout.Ends store address After w.sessions (call.exec w)

variable {store address}

theorem exec_onSessions (m : Eff τ Stop α) (w : World σ τ) :
    (World.onSessions m).exec w
      = ((m.exec w.sessions).1, { w with sessions := (m.exec w.sessions).2 }) := rfl

theorem exec_run (session : SessionCheckout) (record : SessionRecord)
    (work : Eff (Working σ) Stop α) (finish : Except Stop α → SessionRecord → Eff τ Stop Unit)
    (w : World σ τ) :
    (session.run store record work finish).exec w =
      match work.exec ⟨w.stores, record⟩ with
      | (result, working) =>
        if isDropped result then
          (result, ⟨working.stores, session.drop store working.record w.sessions⟩)
        else match (finish result working.record).exec w.sessions with
          | (.ok _, s) => (result, ⟨working.stores, s⟩)
          | (.error e, s) => (.error e, ⟨working.stores, s⟩) := by
  rw [SessionCheckout.run, exec_bind_ok (exec_get w)]
  rcases work.exec ⟨w.stores, record⟩ with ⟨result, working⟩
  dsimp only
  rw [exec_bind_ok (exec_set _ _)]
  split
  · rfl
  · rw [exec_bind, exec_onSessions]
    rcases (finish result working.record).exec w.sessions with ⟨e | u, s⟩
    · rfl
    · rfl

section Calls

variable {After : SessionRecord → SessionRecord → Prop} {found : Option SessionRecord}
  {key : Option SessionCheckoutKey} {s : τ} {w : World σ τ}

/-- A checkout is done or not done if, once the work has stopped, it puts back what it
took. -/
theorem ends_run {recovery : CheckoutDropRecovery} {work : Eff (Working σ) Stop α}
    {finish : Except Stop α → SessionRecord → Eff τ Stop Unit} {Broken : SessionRecord → Prop}
    (hload : (store.loadSessionForUpdate address).exec s = (.ok (found, key), w.sessions))
    (hwork : Meets work (Working.Has (· = found.getD .newFresh))
      (fun _ => Working.Has (After (found.getD .newFresh))) (fun _ => Working.Has Broken))
    (hdone : ∀ a r', finish (.ok a) r'
      = SessionCheckout.commit store ⟨address, key, found.isSome, .working⟩ r')
    (hbroken : ∀ r', Broken r' →
      SessionCheckout.recovered ⟨address, key, found.isSome, recovery⟩ r' = found
        ∧ ∀ e, finish (.error e) r'
          = SessionCheckout.giveBack store ⟨address, key, found.isSome, .working⟩ found) :
    SessionCheckout.Ends store address After s
      ((SessionCheckout.run store ⟨address, key, found.isSome, recovery⟩ (found.getD .newFresh) work
        finish).exec w) := by
  have hend := hwork ⟨w.stores, found.getD .newFresh⟩ rfl
  rw [exec_run]
  generalize work.exec ⟨w.stores, found.getD .newFresh⟩ = r at hend ⊢
  rcases r with ⟨e | a, working⟩
  · obtain ⟨hrecovered, hfinish⟩ := hbroken working.record hend
    cases e with
    | dropped =>
      refine .returned hload ?_
      rw [SessionCheckout.drop, hrecovered]
      cases found with
      | none => exact .inl rfl
      | some taken => exact .inr ⟨taken, rfl, rfl⟩
    | error e =>
      simp only [isDropped, Bool.false_eq_true, if_false, hfinish]
      cases hback : (SessionCheckout.giveBack store _ found).exec w.sessions with
      | mk answer s' =>
        cases answer with
        | error e => exact .returned hload (.inl (hback ▸ rfl))
        | ok u => exact .returned hload (.inl (hback ▸ rfl))
  · simp only [isDropped, Bool.false_eq_true, if_false, hdone]
    cases hcommit : (SessionCheckout.commit store _ working.record).exec w.sessions with
    | mk answer s' =>
      cases answer with
      | error e => exact .committed hload hend hcommit (by simp)
      | ok u => exact .committed hload hend hcommit (by simp)

/-- A load that fails, or what follows one that succeeds. -/
theorem ends_load {f : Option SessionRecord × Option SessionCheckoutKey → Eff (World σ τ) Stop α}
    (h : ∀ found key s₁,
      (store.loadSessionForUpdate address).exec w.sessions = (.ok (found, key), s₁) →
      SessionCheckout.Ends store address After w.sessions
        ((f (found, key)).exec { w with sessions := s₁ })) :
    SessionCheckout.Ends store address After w.sessions
      ((World.onSessions (store.loadSessionForUpdate address) >>= f).exec w) := by
  rw [exec_bind, exec_onSessions]
  cases hload : (store.loadSessionForUpdate address).exec w.sessions with
  | mk result s₁ =>
    cases result with
    | error e => exact .notLoaded hload
    | ok r => exact h r.1 r.2 s₁ hload

/-- A call on the record of an address that has one. -/
theorem allOrNothing_loadCheckout {work : Eff (Working σ) Stop α}
    (hwork : ∀ r, Meets work (Working.Has (· = r)) (fun _ => Working.Has (After r))
      (fun _ => Working.Has (· = r))) :
    AllOrNothing store address After (do
      let (session, record) ← loadCheckout store address
      session.run store record work fun _ record => session.commit store record) := by
  intro w
  rw [loadCheckout, bind_assoc]
  refine ends_load fun found key s₁ hload => ?_
  cases found with
  | none => exact .returned hload (.inl rfl)
  | some taken =>
    dsimp only
    rw [pure_bind]
    refine (ends_run (w := { w with sessions := s₁ }) hload (hwork taken) ?_ ?_ :)
    · exact fun _ _ => rfl
    · intro r' hr'
      rw [show r' = taken from hr']
      exact ⟨rfl, fun _ => rfl⟩

/-- A record after a message was decrypted with it. -/
def SessionRecord.Received (C : Crypto) (r r' : SessionRecord) : Prop :=
  r.Decrypted C r' ∨ ∃ p : SessionRecord, r.Processed C p ∧ p.Decrypted C r'

variable {C : Crypto} {stores : ProtocolStores σ}

theorem allOrNothing_messageDecryptPrekeyInput (message : PreKeySignalMessage) (owned : Bool)
    (csprng : Nat → KeyPair) :
    AllOrNothing store address (SessionRecord.Received C)
      (messageDecryptPrekeyInput C store stores address message owned csprng) := by
  intro w
  rw [messageDecryptPrekeyInput, loadOrCreateCheckout, bind_assoc]
  refine ends_load fun found key s₁ hload => ?_
  dsimp only
  rw [pure_bind]
  refine ends_run (w := { w with sessions := s₁ }) hload
    ((meets_messageDecryptPrekeyInner message owned).mono (fun _ h => h) (fun _ _ h => .inr h)
      fun _ _ h => h) (fun _ _ => rfl) fun r' _ => ?_
  cases found with
  | none => exact ⟨rfl, fun _ => rfl⟩
  | some taken => exact ⟨rfl, fun _ => rfl⟩

theorem allOrNothing_processPrekeyBundle (bundle : PreKeyBundle) (csprng : NewSessionKeys) :
    AllOrNothing store address (fun r r' => ∃ s, r' = r.promoteFreshState C s)
      (processPrekeyBundle C store stores address bundle csprng) := by
  intro w
  have hstores : ∀ m : Eff σ Stop Bool, (World.onStores m).exec w
      = ((m.exec w.stores).1, { w with stores := (m.exec w.stores).2 }) := fun _ => rfl
  rw [processPrekeyBundle, exec_bind, hstores]
  rcases (stores.isTrustedIdentity address bundle.identityKey .sending).exec w.stores with
    ⟨e | trusted, st⟩
  · exact .untouched e st
  · dsimp only
    split
    · exact .untouched _ st
    split
    · exact .untouched _ st
    rw [loadOrCreateCheckout, bind_assoc]
    refine ends_load (w := ⟨st, w.sessions⟩) fun found key s₁ hload => ?_
    dsimp only
    rw [pure_bind]
    refine ends_run (w := ⟨st, s₁⟩) hload (meets_processPrekeyBundleInner bundle csprng)
      (fun _ _ => if_pos (Bool.or_true _)) fun r' hr' => ?_
    rw [show r' = _ from hr']
    cases found with
    | none => exact ⟨rfl, fun _ => rfl⟩
    | some taken => exact ⟨rfl, fun _ => rfl⟩

end Calls

/-- However a call on a session ends, with any store, and also when it is dropped: a value
means that the new record was committed; an error means that the record it had taken out
went back, or that the store answered the commit of the new record with it. -/
theorem calls_all_or_nothing (C : Crypto) (codec : SignalMessageCodec) (store : SessionStore τ)
    (stores : ProtocolStores σ) (address : ProtocolAddress) :
    (∀ ptext, AllOrNothing store address (SessionRecord.Encrypted C)
        (messageEncrypt C codec store stores address ptext))
      ∧ (∀ ciphertext csprng, AllOrNothing store address (SessionRecord.Received C)
        (messageDecrypt C store stores address ciphertext csprng))
      ∧ (∀ ciphertext csprng, AllOrNothing store address (SessionRecord.Received C)
        (messageDecryptOwned C store stores address ciphertext csprng))
      ∧ ∀ bundle csprng, AllOrNothing store address (fun r r' => ∃ s, r' = r.promoteFreshState C s)
        (processPrekeyBundle C store stores address bundle csprng) := by
  have hsignal : ∀ input csprng, AllOrNothing store address (SessionRecord.Received C)
      (messageDecryptSignalInput C store stores address input csprng) := fun input csprng =>
    allOrNothing_loadCheckout fun _ => meets_messageDecryptSignalInner.mono (fun _ h => h)
      (fun _ _ h => .inl h) fun _ _ h => h
  refine ⟨fun ptext => allOrNothing_loadCheckout fun _ => meets_messageEncryptInner ptext,
    fun ciphertext csprng => ?_, fun ciphertext csprng => ?_, allOrNothing_processPrekeyBundle⟩
  · cases ciphertext with
    | signalMessage m => exact hsignal _ csprng
    | preKeySignalMessage m => exact allOrNothing_messageDecryptPrekeyInput m false csprng
    | senderKeyMessage | plaintextContent => exact fun w => .untouched _ _
  · rcases ciphertext with _ | ciphertext
    · exact fun w => .untouched _ _
    · cases ciphertext with
      | signalMessage m => exact hsignal _ csprng
      | preKeySignalMessage m => exact allOrNothing_messageDecryptPrekeyInput m true csprng
      | senderKeyMessage | plaintextContent => exact fun w => .untouched _ _

end WaCore.Signal
