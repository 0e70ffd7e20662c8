import WaCore.Signal.GroupRecords

/-!
# Distributions that are replayed

A receiver of a group gets distributions and messages of one sender in any order, and
each of them any number of times.  A distribution of a chain that the record holds
under the same signing key changes nothing of its state, so that the chain never goes
back: `SenderKeyState.Consumes` says what one arrival does to the state of a chain, and
an iteration that was used is not available again.
-/

namespace WaCore.Signal

open Eff

/-- A store with the record of one sender. -/
def recordStore : SenderKeyStore SenderKeyRecord where
  loadSenderKey _ := do pure (some (← get))
  storeSenderKey _ record := set record

/-- What a receiver gets from a sender. -/
inductive Arrival where
  | distribution (skdm : SenderKeyDistributionMessage)
  | message (skmBytes : Bytes)

section Arrivals

variable (C : Crypto) (codec : SenderKeyCodec) (name : SenderKeyName)

/-- The record after an arrival, also when the call fails. -/
def Arrival.after (r : SenderKeyRecord) : Arrival → SenderKeyRecord
  | .distribution skdm => ((processSenderKeyDistributionMessage recordStore name skdm).exec r).2
  | .message skmBytes => ((groupDecrypt C codec recordStore skmBytes name).exec r).2

/-- The record after some arrivals. -/
def received (r : SenderKeyRecord) (arrivals : List Arrival) : SenderKeyRecord :=
  arrivals.foldl (fun r a => a.after C codec name r) r

/-- The arrival is a message of a chain, and it is decrypted. -/
def Arrival.Decrypts (r : SenderKeyRecord) (a : Arrival) (chainId : UInt32) (n : Nat) : Prop :=
  ∃ skmBytes skm plaintext r', a = .message skmBytes
    ∧ SenderKeyMessage.tryFrom codec skmBytes = .ok skm
    ∧ skm.chainId = chainId ∧ skm.iteration.toNat = n
    ∧ (groupDecrypt C codec recordStore skmBytes name).exec r = (.ok plaintext, r')

end Arrivals

/-- The state of a chain under a signing key. -/
def SenderKeyRecord.stateOf (r : SenderKeyRecord) (chainId : UInt32) (signingKey : PublicKey) :
    Option SenderKeyState :=
  r.states.find? (hasSigningKey chainId signingKey)

/-! ## One state -/

/-- The key of the iteration is put aside, or the chain has not passed it. -/
def SenderKeyState.Available (s : SenderKeyState) (n : Nat) : Prop :=
  n ∈ s.buffered ∨ ∃ c ∈ s.senderChain, c.iteration.toNat ≤ n

/-- What one arrival does to the state of a chain, if it uses an iteration or none. -/
structure SenderKeyState.Consumes (s s' : SenderKeyState) (used : Option Nat) : Prop where
  iteration : ∀ c ∈ s.senderChain, ∃ c' ∈ s'.senderChain, c.iteration.toNat ≤ c'.iteration.toNat
  available : ∀ n, s'.Available n → s.Available n ∧ used ≠ some n
  usable : ∀ n ∈ used, s.Available n
  lost : ∀ key ∈ s.messageKeys, key ∉ s'.messageKeys → used = some key.iteration.toNat
    ∨ (MAX_MESSAGE_KEYS ≤ s'.messageKeys.length
      ∧ ∀ kept ∈ s'.messageKeys, key.iteration < kept.iteration)

namespace SenderKeyState

variable {C : Crypto} {s s' : SenderKeyState} {iteration : UInt32}

theorem Consumes.refl (s : SenderKeyState) : s.Consumes s none where
  iteration c hc := ⟨c, hc, Nat.le_refl _⟩
  available _ h := ⟨h, nofun⟩
  usable := nofun
  lost _ hkey hlost := absurd hkey hlost

/-- An old key is used up. -/
theorem consumes_of_remove {key : SenderMessageKey} (hs : s.WellBuffered) {c : SenderChainKey}
    (hchain : s.senderChain = some c) (hold : iteration < c.iteration)
    (h : s.removeSenderMessageKey C iteration = some (key, s')) :
    s.Consumes s' (some iteration.toNat) := by
  obtain ⟨smk, hsmk, hiteration, -, rfl⟩ := removeSenderMessageKey_eq_some h
  rw [UInt32.lt_iff_toNat_lt] at hold
  have hnodup : s.buffered.Nodup := hs.sorted.imp Nat.ne_of_lt
  refine ⟨fun d hd => ⟨d, hd, Nat.le_refl _⟩, fun n hn => ?_, ?_, fun k hk hlost => ?_⟩
  · rcases hn with hn | ⟨d, hd, hle⟩
    · rw [buffered, buffered_eraseP, hnodup.mem_erase_iff] at hn
      exact ⟨.inl hn.2, fun heq => hn.1 (Option.some.inj heq).symm⟩
    · obtain rfl := Option.some.inj (hchain.symm.trans hd)
      refine ⟨.inr ⟨c, hchain, hle⟩, fun heq => ?_⟩
      have := Option.some.inj heq
      omega
  · rintro _ ⟨⟩
    exact .inl (hiteration ▸ List.mem_map_of_mem hsmk)
  · by_cases hk' : k.iteration = iteration
    · exact .inl (by rw [hk'])
    · exact absurd ((List.mem_eraseP_of_neg (by simpa using hk')).mpr hk) hlost

/-- A later key is used, and those before it are put aside. -/
theorem consumes_of_caughtUp {c : SenderChainKey} {steps : Nat} {caught : SenderKeyState}
    (hs : s.WellBuffered) (hchain : s.senderChain = some c)
    (hiteration : iteration.toNat = c.iteration.toNat + steps)
    (hfits : c.iteration.toNat + steps + 1 < 2 ^ 32)
    (h : CaughtUp C c.iteration.toNat c.chainKey c.iteration.toNat steps s caught) :
    s.Consumes (caught.setSenderChainKey
        (chainAt C c.iteration.toNat c.chainKey (c.iteration.toNat + steps + 1)))
      (some iteration.toNat) := by
  have hto : (chainAt C c.iteration.toNat c.chainKey
      (c.iteration.toNat + steps + 1)).iteration.toNat = c.iteration.toNat + steps + 1 :=
    toNat_ofNat_of_lt hfits
  obtain ⟨hsuffix, -⟩ := h.buffered_suffix (by omega)
  obtain ⟨c', hc', hbelow⟩ := hs.below
  obtain rfl := Option.some.inj (hchain.symm.trans hc')
  refine ⟨fun d hd => ⟨_, rfl, ?_⟩, fun n hn => ?_, ?_, fun k hk hlost => .inr ?_⟩
  · obtain rfl := Option.some.inj (hchain.symm.trans hd)
    omega
  · rcases hn with hn | ⟨d, hd, hle⟩
    · rcases List.mem_append.mp (hsuffix.subset hn) with hn | hn
      · have hlt := hbelow n hn
        exact ⟨.inl hn, fun heq => by have := Option.some.inj heq; omega⟩
      · rw [List.mem_range'_1] at hn
        exact ⟨.inr ⟨c, hchain, hn.1⟩, fun heq => by have := Option.some.inj heq; omega⟩
    · obtain rfl := Option.some.inj hd
      exact ⟨.inr ⟨c, hchain, by omega⟩, fun heq => by have := Option.some.inj heq; omega⟩
  · rintro _ ⟨⟩
    exact .inr ⟨c, hchain, by omega⟩
  · -- what is kept comes after what is lost in one sorted list
    obtain ⟨dropped, hdropped⟩ := h.suffix
    refine ⟨h.whole.resolve_left fun hwhole => hlost ?_, fun kept hkept => ?_⟩
    · exact hwhole ▸ List.mem_append_left _ hk
    · have hsorted := hs.pairwise_append hchain steps
      rw [← map_iteration_append C c.iteration.toNat c.chainKey (by omega),
        ← hdropped, List.map_append, List.pairwise_append] at hsorted
      have hmem : k ∈ dropped := by
        have hall : k ∈ dropped ++ caught.messageKeys := hdropped ▸ List.mem_append_left _ hk
        exact (List.mem_append.mp hall).resolve_right hlost
      exact UInt32.lt_iff_toNat_lt.mpr (hsorted.2.2 _ (List.mem_map_of_mem hmem) _
        (List.mem_map_of_mem hkept))

theorem consumes_of_getSenderKey {key : SenderMessageKey} (hs : s.WellBuffered)
    (h : getSenderKey C s iteration = .ok (key, s')) : s.Consumes s' (some iteration.toNat) := by
  obtain ⟨c, hchain, -⟩ := hs.below
  rcases getSenderKey_cases hchain h with
    ⟨hold, hremove⟩ | ⟨steps, caught, hiteration, hfits, hcaught, rfl⟩
  · exact consumes_of_remove hs hchain hold hremove
  · exact consumes_of_caughtUp hs hchain hiteration hfits hcaught

end SenderKeyState

/-! ## One arrival -/

section Steps

variable {C : Crypto} {codec : SenderKeyCodec} {name : SenderKeyName} {r : SenderKeyRecord}
  {a : Arrival} {chainId : UInt32} {signingKey : PublicKey} {s s' : SenderKeyState}

theorem exec_loadRecord (r : SenderKeyRecord) :
    (recordStore.loadSenderKey name).exec r = (.ok (some r), r) := rfl

/-- How an arrival ends: nothing happens, a distribution is added, or a message is
decrypted. -/
theorem Arrival.after_cases (C : Crypto) (codec : SenderKeyCodec) (name : SenderKeyName)
    (r : SenderKeyRecord) (a : Arrival) :
    (a.after C codec name r = r ∧ ∀ chainId n, ¬ a.Decrypts C codec name r chainId n)
    ∨ (∃ skdm, a = .distribution skdm ∧ r.addSenderKeyState skdm.chainId skdm.iteration
        skdm.chainKey.val skdm.signingKey none = .ok (a.after C codec name r))
    ∨ ∃ skmBytes skm plaintext, a = .message skmBytes
      ∧ SenderKeyMessage.tryFrom codec skmBytes = .ok skm
      ∧ decryptWithRecord C r skm = .ok (plaintext, a.after C codec name r)
      ∧ (groupDecrypt C codec recordStore skmBytes name).exec r
        = (.ok plaintext, a.after C codec name r) := by
  cases a with
  | distribution skdm =>
    rw [after, processSenderKeyDistributionMessage, exec_bind_ok (exec_loadRecord r)]
    dsimp only [Option.getD_some]
    cases hadd : r.addSenderKeyState skdm.chainId skdm.iteration skdm.chainKey.val skdm.signingKey
      none with
    | ok r' => exact .inr (.inl ⟨skdm, rfl, hadd⟩)
    | error e =>
      refine .inl ⟨rfl, ?_⟩
      rintro chainId n ⟨skmBytes, skm, plaintext, r', heq, -⟩
      cases heq
  | message skmBytes =>
    have hmeets : Meets (groupDecrypt C codec recordStore skmBytes name) (· = r)
        (fun plaintext r' => ∃ skm, SenderKeyMessage.tryFrom codec skmBytes = .ok skm
          ∧ decryptWithRecord C r skm = .ok (plaintext, r')) (fun _ => (· = r)) := by
      refine meets_ofExcept_bind fun skm hskm => ?_
      rintro _ rfl
      rw [exec_bind_ok (exec_loadRecord _)]
      refine meets_ofExcept_bind (fun result hdecrypt => ?_) _ rfl
      exact fun _ _ => ⟨skm, hskm, hdecrypt⟩
    cases hexec : (groupDecrypt C codec recordStore skmBytes name).exec r with
    | mk result r' =>
      rw [after, hexec]
      cases result with
      | error e =>
        refine .inl ⟨hmeets.of_error hexec rfl, ?_⟩
        rintro chainId n ⟨skmBytes, skm, plaintext, r'', heq, -, -, -, hok⟩
        cases heq
        rw [hexec] at hok
        cases hok
      | ok plaintext =>
        obtain ⟨skm, hskm, hdecrypt⟩ := hmeets.of_ok hexec rfl
        exact .inr (.inr ⟨skmBytes, skm, _, rfl, hskm, hdecrypt, hexec⟩)

theorem stateOf_eq_some (h : r.stateOf chainId signingKey = some s) :
    s ∈ r.states ∧ s.chainId = chainId ∧ s.signingKeyPublic = .ok signingKey := by
  have hfound := List.find?_some h
  rw [SenderKeyRecord.hasSigningKey, Bool.and_eq_true, decide_eq_true_eq, decide_eq_true_eq] at hfound
  exact ⟨List.mem_of_find?_eq_some h, hfound.1, toOption_eq_some.mp hfound.2⟩

/-- A chain id names one state. -/
theorem SenderKeyRecord.Ordered.eq_of_chainId {t : SenderKeyState} (h : r.Ordered)
    (hs : s ∈ r.states) (ht : t ∈ r.states) (heq : s.chainId = t.chainId) : s = t :=
  List.inj_on_of_nodup_map h.chains hs ht heq

/-- A distribution does not change the state of a chain that is still there. -/
theorem stateOf_distribute (h : r.Ordered) {skdm : SenderKeyDistributionMessage}
    {r' : SenderKeyRecord}
    (hadd : r.addSenderKeyState skdm.chainId skdm.iteration skdm.chainKey.val skdm.signingKey none
      = .ok r') (hs : r.stateOf chainId signingKey = some s)
    (hs' : r'.stateOf chainId signingKey = some s') : s' = s := by
  obtain ⟨hmem, hid, hkey⟩ := stateOf_eq_some hs
  obtain ⟨hmem', hid', hkey'⟩ := stateOf_eq_some hs'
  obtain ⟨front, states, rfl, hsub, hfrontId, hfront⟩ := SenderKeyRecord.addSenderKeyState_eq_ok hadd
  have hold : s' ∈ r.states → s' = s := fun hold =>
    h.eq_of_chainId hold hmem (hid'.trans hid.symm)
  rcases List.mem_cons.mp hmem' with rfl | hrest
  · refine hfront.elim hold fun hnew => ?_
    -- a new state has the key of the distribution, under which the record has a state
    have hsigned := SenderKeyState.signingKeyPublic_serialize (SenderKeyState.signedBy_of_new hnew)
    obtain rfl := Except.ok.inj (hkey'.symm.trans hsigned)
    obtain rfl : chainId = skdm.chainId := hid'.symm.trans hfrontId
    rw [SenderKeyRecord.stateOf] at hs
    simp only [SenderKeyRecord.addSenderKeyState, hs] at hadd
    cases hadd
    rfl
  · exact hold (List.mem_filter.mp (hsub.subset hrest)).1

/-- Only the state of a message's chain is changed. -/
theorem stateOf_decrypt (h : r.Ordered) {skm : SenderKeyMessage} {plaintext : Bytes}
    {r' : SenderKeyRecord} (hdecrypt : decryptWithRecord C r skm = .ok (plaintext, r'))
    (hs : r.stateOf chainId signingKey = some s) (hs' : r'.stateOf chainId signingKey = some s') :
    s.Consumes s' (if skm.chainId = chainId then some skm.iteration.toNat else none) := by
  obtain ⟨hmem, hid, -⟩ := stateOf_eq_some hs
  obtain ⟨hmem', hid', -⟩ := stateOf_eq_some hs'
  have hordered := h.decrypt hdecrypt
  obtain ⟨t, key, t', hfound, hkey, rfl⟩ := decryptWithRecord_eq_ok hdecrypt
  have ht : t ∈ r.states := List.mem_of_find?_eq_some hfound
  have htId : t.chainId = skm.chainId := by simpa using List.find?_some hfound
  have htId' : t'.chainId = skm.chainId :=
    (SenderKeyState.onward_of_getSenderKey (h.wellBuffered t ht) hkey).chainId.trans htId
  obtain ⟨before, after, -, hset⟩ := SenderKeyRecord.setStateForChainId_eq hfound t'
  split
  · rename_i heq
    obtain rfl := h.eq_of_chainId hmem ht (hid.trans (heq.symm.trans htId.symm))
    have ht' : t' ∈ (r.setStateForChainId skm.chainId t').states := by simp [hset]
    obtain rfl := hordered.eq_of_chainId hmem' ht' (hid'.trans (heq.symm.trans htId'.symm))
    exact SenderKeyState.consumes_of_getSenderKey (h.wellBuffered s hmem) hkey
  · rename_i hne
    have hsame : s' ∈ r.states := (mem_setStateForChainId hmem').resolve_right fun heq =>
      hne (htId'.symm.trans ((congrArg _ heq.symm).trans hid'))
    obtain rfl := h.eq_of_chainId hmem hsame (hid.trans hid'.symm)
    exact .refl s

/-- What an arrival does to the state of a chain that is there before and after. -/
theorem Arrival.consumes (h : r.Ordered) (hs : r.stateOf chainId signingKey = some s)
    (hs' : (a.after C codec name r).stateOf chainId signingKey = some s') :
    ∃ used, s.Consumes s' used ∧ ∀ n, used = some n ↔ a.Decrypts C codec name r chainId n := by
  rcases a.after_cases C codec name r with
    ⟨hsame, hnone⟩ | ⟨skdm, rfl, hadd⟩ | ⟨skmBytes, skm, plaintext, rfl, hskm, hdecrypt, hexec⟩
  · rw [hsame, hs] at hs'
    cases hs'
    exact ⟨none, .refl s, fun n => ⟨nofun, fun hdecrypts => absurd hdecrypts (hnone _ _)⟩⟩
  · obtain rfl := stateOf_distribute h hadd hs hs'
    refine ⟨none, .refl _, fun n => ⟨nofun, ?_⟩⟩
    rintro ⟨skmBytes, skm, plaintext, r', heq, -⟩
    cases heq
  · refine ⟨_, stateOf_decrypt h hdecrypt hs hs', fun n => ?_⟩
    constructor
    · intro hused
      split at hused
      · exact ⟨skmBytes, skm, plaintext, _, rfl, hskm, by assumption, Option.some.inj hused, hexec⟩
      · cases hused
    · rintro ⟨_, skm', -, -, heq, hskm', hid, rfl, -⟩
      cases heq
      obtain rfl := Except.ok.inj (hskm.symm.trans hskm')
      rw [if_pos hid]

theorem SenderKeyRecord.Ordered.arrival (h : r.Ordered) (a : Arrival) :
    (a.after C codec name r).Ordered := by
  rcases a.after_cases C codec name r with
    ⟨hsame, -⟩ | ⟨skdm, -, hadd⟩ | ⟨skmBytes, skm, plaintext, -, -, hdecrypt, -⟩
  · rwa [hsame]
  · exact h.distribute hadd
  · exact h.decrypt hdecrypt

end Steps

/-! ## Runs -/

section Runs

variable (C : Crypto) (codec : SenderKeyCodec) (name : SenderKeyName)

/-- The state of a chain after some arrivals. -/
def stateAfter (r : SenderKeyRecord) (chainId : UInt32) (signingKey : PublicKey)
    (arrivals : List Arrival) : Option SenderKeyState :=
  (received C codec name r arrivals).stateOf chainId signingKey

/-- The chain is neither evicted nor replaced while the arrivals are received. -/
def KeptThrough (r : SenderKeyRecord) (chainId : UInt32) (signingKey : PublicKey)
    (arrivals : List Arrival) : Prop :=
  ∀ before, before <+: arrivals → (stateAfter C codec name r chainId signingKey before).isSome = true

variable {C codec name} {r : SenderKeyRecord} {arrivals : List Arrival} {chainId : UInt32}
  {signingKey : PublicKey} {s s' : SenderKeyState}

theorem received_append (before after : List Arrival) :
    received C codec name r (before ++ after)
      = received C codec name (received C codec name r before) after := List.foldl_append

theorem SenderKeyRecord.Ordered.received (h : r.Ordered) (arrivals : List Arrival) :
    (received C codec name r arrivals).Ordered := by
  induction arrivals generalizing r with
  | nil => exact h
  | cons a arrivals ih => exact ih (h.arrival a)

theorem stateAfter_append (before after : List Arrival) :
    stateAfter C codec name r chainId signingKey (before ++ after)
      = stateAfter C codec name (received C codec name r before) chainId signingKey after := by
  rw [stateAfter, received_append, stateAfter]

theorem KeptThrough.after {before mid : List Arrival}
    (h : KeptThrough C codec name r chainId signingKey arrivals)
    (hpre : before ++ mid <+: arrivals) :
    KeptThrough C codec name (received C codec name r before) chainId signingKey mid := by
  intro p hp
  rw [← stateAfter_append]
  exact h _ (((List.prefix_append_right_inj before).mpr hp).trans hpre)

/-- Over a run the chain goes on, and no iteration becomes available. -/
theorem received_onward (h : r.Ordered)
    (hkept : KeptThrough C codec name r chainId signingKey arrivals)
    (hs : r.stateOf chainId signingKey = some s)
    (hs' : stateAfter C codec name r chainId signingKey arrivals = some s') :
    (∀ c ∈ s.senderChain, ∃ c' ∈ s'.senderChain, c.iteration.toNat ≤ c'.iteration.toNat)
      ∧ ∀ n, s'.Available n → s.Available n := by
  induction arrivals generalizing r s with
  | nil =>
    obtain rfl := Option.some.inj (hs.symm.trans hs')
    exact ⟨fun c hc => ⟨c, hc, Nat.le_refl _⟩, fun _ hn => hn⟩
  | cons a arrivals ih =>
    obtain ⟨t, ht⟩ := Option.isSome_iff_exists.mp (hkept [a] (by simp))
    obtain ⟨used, hconsumes, -⟩ := Arrival.consumes h hs ht
    obtain ⟨hiteration, havailable⟩ := ih (h.arrival a)
      (hkept.after (show [a] ++ arrivals <+: a :: arrivals from List.prefix_rfl)) ht hs'
    refine ⟨fun c hc => ?_, fun n hn => (hconsumes.available n (havailable n hn)).1⟩
    obtain ⟨c', hc', hle⟩ := hconsumes.iteration c hc
    obtain ⟨c'', hc'', hle'⟩ := hiteration c' hc'
    exact ⟨c'', hc'', Nat.le_trans hle hle'⟩

/-- Whatever distributions and messages arrive, in any order and any number of times: the
record has few states, one for each chain id, and a chain that is kept only goes on, has
its keys until they are used or too old, and uses no iteration twice. -/
theorem replay_never_rewinds (hr : SenderKeyRecord.Reachable C codec r) (name : SenderKeyName)
    (arrivals : List Arrival) :
    (received C codec name r arrivals).states.length ≤ MAX_SENDER_KEY_STATES
    ∧ ((received C codec name r arrivals).states.map (·.chainId)).Nodup
    ∧ ∀ chainId signingKey, KeptThrough C codec name r chainId signingKey arrivals →
      (∀ before mid s s', before ++ mid <+: arrivals →
        stateAfter C codec name r chainId signingKey before = some s → stateAfter C codec name r
          chainId signingKey (before ++ mid) = some s' →
        ∀ c ∈ s.senderChain, ∃ c' ∈ s'.senderChain, c.iteration.toNat ≤ c'.iteration.toNat)
      ∧ (∀ before a s s', before ++ [a] <+: arrivals →
        stateAfter C codec name r chainId signingKey before = some s → stateAfter C codec name r
          chainId signingKey (before ++ [a]) = some s' →
        ∀ key ∈ s.messageKeys, key ∉ s'.messageKeys →
          a.Decrypts C codec name (received C codec name r before) chainId key.iteration.toNat
          ∨ (MAX_MESSAGE_KEYS ≤ s'.messageKeys.length
            ∧ ∀ kept ∈ s'.messageKeys, key.iteration < kept.iteration))
      ∧ ∀ before a mid b n, before ++ [a] ++ mid ++ [b] <+: arrivals →
        a.Decrypts C codec name (received C codec name r before) chainId n →
        ¬ b.Decrypts C codec name (received C codec name r (before ++ [a] ++ mid)) chainId n := by
  have hordered := hr.ordered
  have hend : (received C codec name r arrivals).Ordered := hordered.received arrivals
  refine ⟨hend.length_le, hend.chains, fun chainId signingKey hkept => ⟨?_, ?_, ?_⟩⟩
  · intro before mid s s' hpre hs hs'
    rw [stateAfter_append] at hs'
    exact (received_onward (hordered.received before) (hkept.after hpre) hs hs').1
  · intro before a s s' hpre hs hs' key hkey hlost
    rw [stateAfter_append] at hs'
    obtain ⟨used, hconsumes, hused⟩ := Arrival.consumes (hordered.received before) hs hs'
    exact (hconsumes.lost key hkey hlost).imp_left (hused _).mp
  · intro before a mid b n hpre ha hb
    have hthere : ∀ part, part <+: arrivals →
        ∃ s, stateAfter C codec name r chainId signingKey part = some s :=
      fun part hpart => Option.isSome_iff_exists.mp (hkept part hpart)
    have hupto : before ++ [a] ++ mid <+: arrivals := (List.prefix_append _ _).trans hpre
    have hfirst : before ++ [a] <+: arrivals := (List.prefix_append _ _).trans hupto
    obtain ⟨s₀, hs₀⟩ := hthere before ((List.prefix_append _ _).trans hfirst)
    obtain ⟨s₁, hs₁⟩ := hthere _ hfirst
    obtain ⟨s₂, hs₂⟩ := hthere _ hupto
    obtain ⟨s₃, hs₃⟩ := hthere _ hpre
    rw [stateAfter_append] at hs₁
    obtain ⟨used, hconsumes, hused⟩ := Arrival.consumes (hordered.received before) hs₀ hs₁
    rw [stateAfter_append] at hs₃
    obtain ⟨used', hconsumes', hused'⟩ := Arrival.consumes (hordered.received _) hs₂ hs₃
    -- the iteration is gone after its first use, and does not come back
    have hgone := hconsumes'.usable n ((hused' n).mpr hb)
    rw [stateAfter_append] at hs₂
    rw [← stateAfter_append] at hs₁
    have havailable := (received_onward (hordered.received _) (hkept.after hupto) hs₁ hs₂).2 n hgone
    exact (hconsumes.available n havailable).2 ((hused n).mpr ha)

end Runs

/-- The distribution of the plain chain. -/
def plainDistribution : SenderKeyDistributionMessage :=
  ⟨3, 1, 0, .replicate 32 0, ⟨.replicate 32 9⟩⟩

/-- The record of a receiver that has got it. -/
def plainRecord : SenderKeyRecord where
  states := [{ plainState 0 with
    senderSigningKey := some ⟨some (PublicKey.mk (.replicate 32 9)).serialize, none⟩ }]
  lease := .fresh

def plainReplay : List Arrival :=
  [.message secondMessage.bytes, .distribution plainDistribution, .message secondMessage.bytes]

/-- The second message is decrypted, the chain is distributed once more, and the second
message is not decrypted again. -/
theorem replay_of_plainDistribution :
    SenderKeyRecord.Reachable .transparent .words plainRecord
    ∧ KeptThrough .transparent .words ⟨"group", "sender"⟩ plainRecord 1 ⟨.replicate 32 9⟩ plainReplay
    ∧ (Arrival.message secondMessage.bytes).Decrypts .transparent .words ⟨"group", "sender"⟩
      plainRecord 1 1
    ∧ ¬ (Arrival.message secondMessage.bytes).Decrypts .transparent .words ⟨"group", "sender"⟩
      (received .transparent .words ⟨"group", "sender"⟩ plainRecord
        [.message secondMessage.bytes, .distribution plainDistribution]) 1 1 := by
  have hadd : SenderKeyRecord.newEmpty.addSenderKeyState 1 0 (List.replicate 32 0)
      ⟨.replicate 32 9⟩ none = .ok plainRecord := rfl
  have hreach : SenderKeyRecord.Reachable .transparent .words plainRecord :=
    .single (.distribute hadd)
  have hkept : KeptThrough .transparent .words ⟨"group", "sender"⟩ plainRecord 1
      ⟨.replicate 32 9⟩ plainReplay := by
    have hinits : ∀ before ∈ plainReplay.inits, (stateAfter .transparent .words
        ⟨"group", "sender"⟩ plainRecord 1 ⟨.replicate 32 9⟩ before).isSome = true := by
      decide +kernel
    exact fun before hbefore => hinits before ((List.mem_inits _ _).mpr hbefore)
  have hfirst : (Arrival.message secondMessage.bytes).Decrypts .transparent .words
      ⟨"group", "sender"⟩ plainRecord 1 1 := ⟨_, secondMessage.message, [8], _, rfl, rfl, rfl, rfl, rfl⟩
  refine ⟨hreach, hkept, hfirst, ?_⟩
  obtain ⟨-, -, hchain⟩ := replay_never_rewinds hreach ⟨"group", "sender"⟩ plainReplay
  exact (hchain 1 ⟨.replicate 32 9⟩ hkept).2.2 [] _ [.distribution plainDistribution] _ 1
    List.prefix_rfl hfirst

end WaCore.Signal
