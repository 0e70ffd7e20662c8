import WaCore.Lib.Backlog
import WaCore.Signal.GroupCipher

/-!
# A receiver's chain

`get_sender_key` walks a chain forward, puts the keys it passes aside and finds
them again.  A receiver that learned a chain at iteration `k` and was then asked
for the iterations `ds` is described by `Receiving`: its chain stands at
`position k ds`, and its backlog is one in the sense of `WaCore.Backlog`, with
the seed of its own iteration for each key.  `getSenderKey_old` and
`getSenderKey_ahead` are the two steps.
-/

namespace WaCore.Signal

/-! ## Chains by iteration -/

section Chain

variable (C : Crypto) (k : Nat) (origin : Key)

/-- The chain key of iteration `n`, for a chain that has `origin` at `k`. -/
def keyAt (n : Nat) : Key := C.nextChainKey^[n - k] origin

def chainAt (n : Nat) : SenderChainKey := ⟨UInt32.ofNat n, keyAt C k origin n⟩

/-- The seed of the message key of iteration `n`. -/
def seedAt (n : Nat) : Key := C.messageKeySeed (keyAt C k origin n)

variable {C k origin} {n : Nat}

theorem keyAt_succ (hk : k ≤ n) : keyAt C k origin (n + 1) = C.nextChainKey (keyAt C k origin n) := by
  rw [keyAt, keyAt, Nat.succ_sub hk, Function.iterate_succ_apply']

/-- Every chain key has its own chain. -/
theorem chainAt_self (C : Crypto) (c : SenderChainKey) :
    chainAt C c.iteration.toNat c.chainKey c.iteration.toNat = c := by
  rw [chainAt, keyAt, Nat.sub_self, Function.iterate_zero_apply, UInt32.ofNat_toNat]

theorem checkedSucc_ofNat (hn : n + 1 < 2 ^ 32) :
    checkedSucc (UInt32.ofNat n) = some (UInt32.ofNat (n + 1)) := by
  rw [checkedSucc_eq_some, UInt32.toNat_ofNat', UInt32.toNat_ofNat']
  omega

theorem stepSeedOnly_chainAt (hk : k ≤ n) (hn : n + 1 < 2 ^ 32) :
    (chainAt C k origin n).stepSeedOnly C = .ok (seedAt C k origin n, chainAt C k origin (n + 1)) := by
  rw [SenderChainKey.stepSeedOnly, chainAt, checkedSucc_ofNat hn, okOr_some, chainAt, keyAt_succ hk]
  rfl

theorem stepWithMessageKey_chainAt (hk : k ≤ n) (hn : n + 1 < 2 ^ 32) :
    (chainAt C k origin n).stepWithMessageKey C
      = .ok (.new C (UInt32.ofNat n) (seedAt C k origin n), chainAt C k origin (n + 1)) := by
  rw [SenderChainKey.stepWithMessageKey, stepSeedOnly_chainAt hk hn]
  rfl

theorem advance_chainAt {steps : Nat} {c : SenderChainKey} (hk : k ≤ n) (hn : n < 2 ^ 32)
    (h : (chainAt C k origin n).advance C steps = .ok c) :
    c = chainAt C k origin (n + steps) ∧ n + steps < 2 ^ 32 := by
  induction steps generalizing n with
  | zero =>
    cases h
    exact ⟨rfl, hn⟩
  | succ steps ih =>
    obtain ⟨c', hnext, h⟩ := bind_eq_ok.mp h
    obtain ⟨iteration, hsucc, hc'⟩ := bind_eq_ok.mp hnext
    have hiteration := checkedSucc_eq_some.mp (okOr_eq_ok.mp hsucc)
    have hlt := iteration.toNat_lt
    rw [chainAt, UInt32.toNat_ofNat', Nat.mod_eq_of_lt hn] at hiteration
    have heq : c' = chainAt C k origin (n + 1) := by
      cases hc'
      rw [chainAt.eq_def C k origin (n + 1), keyAt_succ hk, ← hiteration, UInt32.ofNat_toNat]
      rfl
    obtain ⟨hc, hfits⟩ := ih (by omega) (by omega) (heq ▸ h)
    exact ⟨by rw [hc]; congr 1; omega, by omega⟩

end Chain

/-! ## The backlog -/

/-- The iterations of the keys that were put aside. -/
def SenderKeyState.buffered (state : SenderKeyState) : List Nat :=
  state.messageKeys.map (·.iteration.toNat)

/-- The backlog is in the order of its iterations, all of them below the one of
the chain, and no longer than it may be. -/
structure SenderKeyState.WellBuffered (state : SenderKeyState) : Prop where
  sorted : state.buffered.Pairwise (· < ·)
  below : ∃ c, state.senderChain = some c ∧ ∀ i ∈ state.buffered, i < c.iteration.toNat
  length_le : state.buffered.length ≤ MAX_MESSAGE_KEYS + MESSAGE_KEY_PRUNE_THRESHOLD

/-- The stored key of iteration `n`. -/
def storedAt (C : Crypto) (k : Nat) (origin : Key) (n : Nat) : StoredMessageKey :=
  ⟨UInt32.ofNat n, seedAt C k origin n⟩

section Backlog

variable {C : Crypto} {k n : Nat} {origin : Key} {state : SenderKeyState}

theorem addSkippedMessageKey_suffix (state : SenderKeyState) (iteration : UInt32) (seed : Key) :
    (state.addSkippedMessageKey iteration seed).messageKeys <:+
        state.messageKeys ++ [⟨iteration, seed⟩]
      ∧ ((state.addSkippedMessageKey iteration seed).messageKeys
          = state.messageKeys ++ [⟨iteration, seed⟩]
        ∨ MAX_MESSAGE_KEYS ≤ (state.addSkippedMessageKey iteration seed).messageKeys.length) := by
  rw [SenderKeyState.addSkippedMessageKey]
  dsimp only
  split
  · refine ⟨List.drop_suffix _ _, .inr ?_⟩
    rw [List.length_drop]
    omega
  · exact ⟨List.suffix_rfl, .inl rfl⟩

theorem length_addSkippedMessageKey (state : SenderKeyState) (iteration : UInt32) (seed : Key) :
    (state.addSkippedMessageKey iteration seed).messageKeys.length
      ≤ MAX_MESSAGE_KEYS + MESSAGE_KEY_PRUNE_THRESHOLD := by
  rw [SenderKeyState.addSkippedMessageKey]
  dsimp only
  split
  · rw [List.length_drop]
    omega
  · omega

/-- A catch-up over `steps` iterations from `n` on keeps the latest keys. -/
structure CaughtUp (C : Crypto) (k : Nat) (origin : Key) (n steps : Nat)
    (state state' : SenderKeyState) : Prop where
  suffix : state'.messageKeys <:+
    state.messageKeys ++ (List.range' n steps).map (storedAt C k origin)
  whole : state'.messageKeys = state.messageKeys ++ (List.range' n steps).map (storedAt C k origin)
    ∨ MAX_MESSAGE_KEYS ≤ state'.messageKeys.length
  length_le : state.messageKeys.length ≤ MAX_MESSAGE_KEYS + MESSAGE_KEY_PRUNE_THRESHOLD →
    state'.messageKeys.length ≤ MAX_MESSAGE_KEYS + MESSAGE_KEY_PRUNE_THRESHOLD
  rest : state' = { state with messageKeys := state'.messageKeys }

theorem catchUp_eq {steps : Nat} (hk : k ≤ n) (hn : n + steps < 2 ^ 32) :
    ∃ state', catchUp C steps state (chainAt C k origin n) =
        .ok (state', chainAt C k origin (n + steps)) ∧ CaughtUp C k origin n steps state state' := by
  induction steps generalizing n state with
  | zero => exact ⟨state, rfl, by simp, .inl (by simp), id, rfl⟩
  | succ steps ih =>
    obtain ⟨hsuffix, hwhole⟩ :=
      addSkippedMessageKey_suffix state (UInt32.ofNat n) (seedAt C k origin n)
    have hlength := length_addSkippedMessageKey state (UInt32.ofNat n) (seedAt C k origin n)
    generalize hadded : state.addSkippedMessageKey (UInt32.ofNat n) (seedAt C k origin n) = added
      at hsuffix hwhole hlength
    obtain ⟨state', heq, hcaught⟩ := @ih (n + 1) added (Nat.le_succ_of_le hk) (by omega)
    have hsplit : state.messageKeys ++ (List.range' n (steps + 1)).map (storedAt C k origin)
        = (state.messageKeys ++ [storedAt C k origin n])
          ++ (List.range' (n + 1) steps).map (storedAt C k origin) := by
      rw [List.range'_succ, List.map_cons, List.append_assoc, List.singleton_append]
    refine ⟨state', ?_, ?_, ?_, fun _ => hcaught.length_le hlength, ?_⟩
    · subst hadded
      rw [Nat.add_right_comm] at heq
      rw [catchUp, stepSeedOnly_chainAt hk (by omega)]
      exact heq
    · rw [hsplit]
      obtain ⟨given, hgiven⟩ := hsuffix
      refine hcaught.suffix.trans ⟨given, ?_⟩
      rw [← List.append_assoc, hgiven]
      rfl
    · rw [hsplit]
      rcases hcaught.whole with hall | hlong
      · refine hwhole.imp (fun h => hall.trans (congrArg (· ++ _) h)) fun hlong => ?_
        rw [hall, List.length_append]
        exact Nat.le_add_right_of_le hlong
      · exact .inr hlong
    · rw [hcaught.rest, ← hadded]
      rfl

end Backlog

/-! ## The two steps -/

/-- The state of a receiver that learned the chain of `origin` at `k`, after the
iterations `ds` were asked for. -/
structure Receiving (C : Crypto) (k : Nat) (origin : Key) (ds : List Nat) (state : SenderKeyState) :
    Prop where
  chain : state.senderChain = some (chainAt C k origin (position k ds))
  fits : position k ds < 2 ^ 32
  keys : ∀ key ∈ state.messageKeys, key = storedAt C k origin key.iteration.toNat
  wellBuffered : state.WellBuffered
  backlog : Backlog MAX_MESSAGE_KEYS k ds state.buffered

section Steps

variable {C : Crypto} {k i : Nat} {origin : Key} {ds : List Nat} {state : SenderKeyState}

theorem toNat_ofNat_of_lt (h : i < 2 ^ 32) : (UInt32.ofNat i).toNat = i := by
  rw [UInt32.toNat_ofNat', Nat.mod_eq_of_lt h]

variable {c : SenderChainKey} {iteration : UInt32} {key : SenderMessageKey}
  {state' : SenderKeyState} {n steps : Nat}

/-- `get_sender_key` on an iteration that was passed. -/
theorem getSenderKey_eq_old (hchain : state.senderChain = some c) (hold : iteration < c.iteration) :
    getSenderKey C state iteration = okOr (state.removeSenderMessageKey C iteration)
      (.duplicatedMessage c.iteration iteration) := by
  rw [getSenderKey, hchain, okOr_some, ok_bind, if_pos hold]

/-- `get_sender_key` on an iteration of the rest of the chain, if it is not too
far. -/
theorem getSenderKey_eq_ahead (hk : k ≤ n) (hsteps : steps ≤ MAX_FORWARD_JUMPS)
    (hn : n + steps + 1 < 2 ^ 32) (hchain : state.senderChain = some (chainAt C k origin n)) :
    ∃ state', getSenderKey C state (UInt32.ofNat (n + steps)) =
        .ok (.new C (UInt32.ofNat (n + steps)) (seedAt C k origin (n + steps)),
          state'.setSenderChainKey (chainAt C k origin (n + steps + 1)))
      ∧ CaughtUp C k origin n steps state state' := by
  obtain ⟨state', hcatch, hcaught⟩ :=
    @catchUp_eq C k n origin state steps hk (Nat.lt_of_succ_lt hn)
  refine ⟨state', ?_, hcaught⟩
  have hto := toNat_ofNat_of_lt (Nat.lt_of_succ_lt hn)
  have hfrom : (chainAt C k origin n).iteration.toNat = n := toNat_ofNat_of_lt (by omega)
  rw [getSenderKey, hchain, okOr_some, ok_bind]
  rw [if_neg (by rw [UInt32.lt_iff_toNat_lt, hto]; omega)]
  rw [hto, hfrom, Nat.add_sub_cancel_left, if_neg (Nat.not_lt.mpr hsteps), hcatch]
  dsimp only [ok_bind]
  rw [stepWithMessageKey_chainAt (Nat.le_add_right_of_le hk) hn]
  rfl

/-- The iterations of a backlog and of the keys that a catch-up puts aside. -/
theorem map_iteration_append (C : Crypto) (k : Nat) (origin : Key) (hn : n + steps < 2 ^ 32) :
    (state.messageKeys ++ (List.range' n steps).map (storedAt C k origin)).map (·.iteration.toNat)
      = state.buffered ++ List.range' n steps := by
  have hid : ∀ j ∈ List.range' n steps, (storedAt C k origin j).iteration.toNat = j :=
    fun j hj => toNat_ofNat_of_lt (by rw [List.mem_range'_1] at hj; omega)
  rw [List.map_append, List.map_map]
  exact congrArg (state.buffered ++ ·) ((List.map_congr_left hid).trans (List.map_id' _))

/-- What the backlog is after a catch-up. -/
theorem CaughtUp.buffered_suffix (h : CaughtUp C k origin n steps state state')
    (hn : n + steps < 2 ^ 32) :
    state'.buffered <:+ state.buffered ++ List.range' n steps
      ∧ (state'.buffered = state.buffered ++ List.range' n steps
        ∨ MAX_MESSAGE_KEYS ≤ state'.buffered.length) := by
  rw [← map_iteration_append C k origin hn]
  refine ⟨h.suffix.map _, h.whole.imp (congrArg _) fun hlong => ?_⟩
  rwa [SenderKeyState.buffered, List.length_map]

/-- The iterations passed in a catch-up come after those that were held. -/
theorem SenderKeyState.WellBuffered.pairwise_append (h : state.WellBuffered)
    (hchain : state.senderChain = some c) (steps : Nat) :
    (state.buffered ++ List.range' c.iteration.toNat steps).Pairwise (· < ·) := by
  obtain ⟨c', hc', hbelow⟩ := h.below
  obtain rfl : c = c' := Option.some.inj (hchain.symm.trans hc')
  refine List.pairwise_append.mpr ⟨h.sorted, List.pairwise_lt_range', fun i hi j hj => ?_⟩
  have hlt := hbelow i hi
  rw [List.mem_range'_1] at hj
  omega

theorem CaughtUp.wellBuffered (h : CaughtUp C k origin n steps state state')
    (hn : n + steps + 1 < 2 ^ 32) (hstate : state.WellBuffered)
    (hchain : state.senderChain = some (chainAt C k origin n)) :
    (state'.setSenderChainKey (chainAt C k origin (n + steps + 1))).WellBuffered := by
  have hfrom : (chainAt C k origin n).iteration.toNat = n := toNat_ofNat_of_lt (by omega)
  have hto : (chainAt C k origin (n + steps + 1)).iteration.toNat = n + steps + 1 :=
    toNat_ofNat_of_lt hn
  have hsuffix := (h.buffered_suffix (Nat.lt_of_succ_lt hn)).1
  have hsorted := hstate.pairwise_append hchain steps
  obtain ⟨c, hc, hbelow⟩ := hstate.below
  obtain rfl := Option.some.inj (hchain.symm.trans hc)
  rw [hfrom] at hsorted hbelow
  refine ⟨hsorted.sublist hsuffix.sublist, ⟨_, rfl, fun j hj => ?_⟩, ?_⟩
  · rcases List.mem_append.mp (hsuffix.subset hj) with hj | hj
    · have hlt := hbelow j hj
      omega
    · rw [List.mem_range'_1] at hj
      omega
  · have hlength := hstate.length_le
    rw [SenderKeyState.buffered, List.length_map] at hlength ⊢
    exact h.length_le hlength

/-- What is left when a key is taken out of the backlog. -/
theorem removeSenderMessageKey_eq_some
    (h : state.removeSenderMessageKey C iteration = some (key, state')) :
    ∃ smk ∈ state.messageKeys, smk.iteration = iteration
      ∧ key = .new C smk.iteration smk.seed
      ∧ state' = { state with messageKeys := state.messageKeys.eraseP (·.iteration = iteration) } := by
  obtain ⟨smk, hfind, heq⟩ := Option.bind_eq_some_iff.mp h
  cases heq
  exact ⟨smk, List.mem_of_find?_eq_some hfind, by simpa using List.find?_some hfind, rfl, rfl⟩

theorem removeSenderMessageKey_eq_none (h : iteration.toNat ∉ state.buffered) :
    state.removeSenderMessageKey C iteration = none := by
  have hfind : state.messageKeys.find? (·.iteration = iteration) = none := by
    refine List.find?_eq_none.mpr fun smk hsmk heq => h ?_
    rw [← of_decide_eq_true heq]
    exact List.mem_map_of_mem hsmk
  rw [SenderKeyState.removeSenderMessageKey, hfind]
  rfl

theorem buffered_eraseP (iteration : UInt32) :
    (state.messageKeys.eraseP (·.iteration = iteration)).map (·.iteration.toNat)
      = state.buffered.erase iteration.toNat := by
  rw [SenderKeyState.buffered, List.erase_eq_eraseP, List.eraseP_map]
  congr 2
  funext smk
  simp only [Function.comp, UInt32.toNat_inj, beq_eq_decide, eq_comm]

/-- A key that is taken out leaves a backlog in order. -/
theorem SenderKeyState.WellBuffered.erase (h : state.WellBuffered) (iteration : UInt32) :
    SenderKeyState.WellBuffered
      { state with messageKeys := state.messageKeys.eraseP (·.iteration = iteration) } := by
  have hsub := List.eraseP_sublist (p := fun smk : StoredMessageKey => smk.iteration = iteration)
    (l := state.messageKeys) |>.map (·.iteration.toNat)
  obtain ⟨c, hc, hbelow⟩ := h.below
  exact ⟨h.sorted.sublist hsub, ⟨c, hc, fun i hi => hbelow i (hsub.subset hi)⟩,
    Nat.le_trans hsub.length_le h.length_le⟩

/-- The two ways `get_sender_key` ends with a key. -/
theorem getSenderKey_cases (hchain : state.senderChain = some c)
    (h : getSenderKey C state iteration = .ok (key, state')) :
    (iteration < c.iteration ∧ state.removeSenderMessageKey C iteration = some (key, state'))
    ∨ ∃ steps caught, iteration.toNat = c.iteration.toNat + steps
      ∧ c.iteration.toNat + steps + 1 < 2 ^ 32
      ∧ CaughtUp C c.iteration.toNat c.chainKey c.iteration.toNat steps state caught
      ∧ state' = caught.setSenderChainKey
        (chainAt C c.iteration.toNat c.chainKey (c.iteration.toNat + steps + 1)) := by
  by_cases hold : iteration < c.iteration
  · rw [getSenderKey_eq_old hchain hold] at h
    exact .inl ⟨hold, okOr_eq_ok.mp h⟩
  · right
    rw [getSenderKey, hchain, okOr_some, ok_bind, if_neg hold] at h
    rw [UInt32.lt_iff_toNat_lt] at hold
    have hlt := iteration.toNat_lt
    obtain ⟨caught, hcatch, hcaught⟩ := @catchUp_eq C c.iteration.toNat c.iteration.toNat c.chainKey
      state (iteration.toNat - c.iteration.toNat) (Nat.le_refl _) (by omega)
    rw [chainAt_self] at hcatch
    dsimp only at h
    split at h
    · cases h
    · rw [hcatch, ok_bind] at h
      obtain ⟨⟨key, next⟩, hstep, hr⟩ := bind_eq_ok.mp h
      have hfits := (SenderChainKey.stepWithMessageKey_eq_ok hstep).2.symm.trans_lt
        next.iteration.toNat_lt
      rw [chainAt, toNat_ofNat_of_lt (by omega)] at hfits
      rw [stepWithMessageKey_chainAt (Nat.le_add_right _ _) hfits] at hstep
      cases hstep
      cases hr
      exact ⟨_, caught, by omega, hfits, hcaught, rfl⟩

/-- Taking a key keeps the backlog in order, and the rest of the state. -/
theorem getSenderKey_wellBuffered (hstate : state.WellBuffered)
    (h : getSenderKey C state iteration = .ok (key, state')) : state'.WellBuffered := by
  obtain ⟨c, hchain, -⟩ := hstate.below
  rcases getSenderKey_cases hchain h with ⟨-, hremove⟩ | ⟨steps, caught, -, hfits, hcaught, rfl⟩
  · obtain ⟨smk, -, -, -, rfl⟩ := removeSenderMessageKey_eq_some hremove
    exact hstate.erase iteration
  · exact hcaught.wellBuffered hfits hstate (by rw [hchain, chainAt_self])

theorem getSenderKey_rest (hchain : state.senderChain = some c)
    (h : getSenderKey C state iteration = .ok (key, state')) :
    state'.senderKeyId = state.senderKeyId ∧ state'.senderSigningKey = state.senderSigningKey := by
  rcases getSenderKey_cases hchain h with ⟨-, hremove⟩ | ⟨steps, caught, -, -, hcaught, rfl⟩
  · obtain ⟨smk, -, -, -, rfl⟩ := removeSenderMessageKey_eq_some hremove
    exact ⟨rfl, rfl⟩
  · rw [hcaught.rest]
    exact ⟨rfl, rfl⟩

/-- A receiver that learned the chain at `k`. -/
theorem Receiving.start (hk : k < 2 ^ 32)
    (hchain : state.senderChain = some ⟨UInt32.ofNat k, origin⟩) (hkeys : state.messageKeys = []) :
    Receiving C k origin [] state where
  chain := by rw [hchain, chainAt, position, keyAt, Nat.sub_self, Function.iterate_zero_apply]
  fits := hk
  keys := by simp [hkeys]
  wellBuffered := ⟨by simp [SenderKeyState.buffered, hkeys], ⟨_, hchain, by
    simp [SenderKeyState.buffered, hkeys]⟩, by simp [SenderKeyState.buffered, hkeys]⟩
  backlog := by
    rw [SenderKeyState.buffered, hkeys]
    exact Backlog.start _ _

/-- A message that is ahead of the chain is decrypted with its key. -/
theorem Receiving.ahead (h : Receiving C k origin ds state) (hi : position k ds ≤ i)
    (hjump : i ≤ position k ds + MAX_FORWARD_JUMPS) (hfits : i + 1 < 2 ^ 32) :
    ∃ state', getSenderKey C state (UInt32.ofNat i) =
        .ok (.new C (UInt32.ofNat i) (seedAt C k origin i), state')
      ∧ Receiving C k origin (ds ++ [i]) state' := by
  obtain ⟨steps, rfl⟩ := Nat.exists_eq_add_of_le hi
  obtain ⟨caught, heq, hcaught⟩ :=
    getSenderKey_eq_ahead (le_position k ds) (by omega) hfits h.chain
  have hposition : position k (ds ++ [position k ds + steps]) = position k ds + steps + 1 := by
    rw [position_append, if_neg (by omega)]
  obtain ⟨hsuffix, hwhole⟩ := hcaught.buffered_suffix (by omega)
  refine ⟨_, heq, by rw [hposition]; rfl, by omega, fun key hkey => ?_,
    hcaught.wellBuffered hfits h.wellBuffered h.chain, ?_⟩
  · rcases List.mem_append.mp (hcaught.suffix.subset hkey) with hkey | hkey
    · exact h.keys key hkey
    · obtain ⟨j, hj, rfl⟩ := List.mem_map.mp hkey
      rw [List.mem_range'_1] at hj
      rw [storedAt, toNat_ofNat_of_lt (by omega), storedAt]
  · refine h.backlog.ahead_of_suffix hi ?_ ?_ ?_
    all_goals rw [Nat.add_sub_cancel_left]
    · have hsorted := h.wellBuffered.pairwise_append h.chain steps
      rwa [chainAt, toNat_ofNat_of_lt h.fits] at hsorted
    · exact hsuffix
    · exact hwhole

/-- A message that was passed is decrypted with the key that was put aside, and
is a duplicate if there is none. -/
theorem Receiving.old (h : Receiving C k origin ds state) (hi : i < position k ds) :
    (i ∈ state.buffered ∧ ∃ state', getSenderKey C state (UInt32.ofNat i) =
        .ok (.new C (UInt32.ofNat i) (seedAt C k origin i), state')
      ∧ Receiving C k origin (ds ++ [i]) state')
    ∨ (i ∉ state.buffered ∧ getSenderKey C state (UInt32.ofNat i) =
        .error (.duplicatedMessage (UInt32.ofNat (position k ds)) (UInt32.ofNat i))
      ∧ Receiving C k origin (ds ++ [i]) state) := by
  have hto : (UInt32.ofNat i).toNat = i := toNat_ofNat_of_lt (Nat.lt_trans hi h.fits)
  have hposition : position k (ds ++ [i]) = position k ds := by rw [position_append, if_pos hi]
  have hnodup : state.buffered.Nodup := h.wellBuffered.sorted.imp Nat.ne_of_lt
  rw [getSenderKey_eq_old h.chain (by
    rw [UInt32.lt_iff_toNat_lt, hto, chainAt, toNat_ofNat_of_lt h.fits]
    exact hi)]
  by_cases hheld : i ∈ state.buffered
  · left
    -- the key that is found is the one of the iteration
    obtain ⟨smk, hsmk, hiteration⟩ := List.mem_map.mp hheld
    have hsome : ∃ found, state.messageKeys.find? (·.iteration = UInt32.ofNat i) = some found :=
      Option.isSome_iff_exists.mp (List.find?_isSome.mpr ⟨smk, hsmk, by
        rw [← hiteration, UInt32.ofNat_toNat, decide_eq_true rfl]⟩)
    obtain ⟨found, hfound⟩ := hsome
    have hfoundAt : found.iteration = UInt32.ofNat i := by simpa using List.find?_some hfound
    have hseed := congrArg StoredMessageKey.seed (h.keys found (List.mem_of_find?_eq_some hfound))
    rw [hfoundAt, hto] at hseed
    refine ⟨hheld, { state with messageKeys := state.messageKeys.eraseP (·.iteration = UInt32.ofNat i) },
      ?_, ?_, ?_, fun key hkey => h.keys key (List.mem_of_mem_eraseP hkey), h.wellBuffered.erase _, ?_⟩
    · rw [SenderKeyState.removeSenderMessageKey, hfound]
      change Except.ok (SenderMessageKey.new C found.iteration found.seed, _) = _
      rw [hfoundAt, hseed]
      rfl
    · rw [hposition]
      exact h.chain
    · rw [hposition]
      exact h.fits
    · refine h.backlog.old hi fun j => ?_
      rw [SenderKeyState.buffered, buffered_eraseP, hto, hnodup.mem_erase_iff, and_comm]
  · right
    refine ⟨hheld, ?_, ?_, ?_, h.keys, h.wellBuffered, ?_⟩
    · rw [removeSenderMessageKey_eq_none (by rwa [hto])]
      rfl
    · rw [hposition]
      exact h.chain
    · rw [hposition]
      exact h.fits
    · refine h.backlog.old hi fun j => ⟨fun hj => ⟨hj, ?_⟩, And.left⟩
      rintro rfl
      exact hheld hj

/-- One call of `get_sender_key`.  It has the key of the iteration unless that
was used, or put aside before `MAX_MESSAGE_KEYS` others. -/
theorem Receiving.step (h : Receiving C k origin ds state) (hk : k ≤ i)
    (hjump : i ≤ position k ds + MAX_FORWARD_JUMPS) (hfits : i + 1 < 2 ^ 32) :
    (i ∉ ds ∧ ∃ state', getSenderKey C state (UInt32.ofNat i) =
        .ok (.new C (UInt32.ofNat i) (seedAt C k origin i), state')
      ∧ Receiving C k origin (ds ++ [i]) state')
    ∨ ((i ∈ ds ∨ MAX_MESSAGE_KEYS ≤ skippedAfter k ds i)
      ∧ getSenderKey C state (UInt32.ofNat i) =
        .error (.duplicatedMessage (UInt32.ofNat (position k ds)) (UInt32.ofNat i))
      ∧ Receiving C k origin (ds ++ [i]) state) := by
  by_cases hi : i < position k ds
  · rcases h.old hi with ⟨hheld, hkey⟩ | ⟨hheld, hkey⟩
    · exact .inl ⟨(h.backlog.unused i hheld).2, hkey⟩
    · refine .inr ⟨or_iff_not_imp_left.mpr fun hnew => ?_, hkey⟩
      by_contra hroom
      exact hheld (h.backlog.mem_held hk hi hnew (Nat.lt_of_not_le hroom))
  · refine .inl ⟨fun hmem => hi (lt_position_of_mem hmem), ?_⟩
    exact h.ahead (Nat.le_of_not_lt hi) hjump hfits

end Steps

end WaCore.Signal
