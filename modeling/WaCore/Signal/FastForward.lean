import WaCore.Signal.SenderKeys
import WaCore.Signal.SessionState

/-!
# A sender chain under a reservation

What `fast_forward_sender_chain` makes of a state of a session, and of one of a
group: the chain is advanced to the end of the reservation, unless that is too far
ahead.
-/

namespace WaCore.Signal

/-- A reservation is too far ahead of an index. -/
theorem lt_saturatingSub_iff {target index : UInt32} :
    MAX_RESERVATION_FAST_FORWARD < saturatingSub target index
      ↔ index.toNat + MAX_RESERVATION_FAST_FORWARD.toNat < target.toNat := by
  rw [UInt32.lt_iff_toNat_lt, toNat_saturatingSub]
  omega

theorem toNat_add_sub_lt (target index : UInt32) :
    index.toNat + (target.toNat - index.toNat) < 2 ^ 32 := by
  have htarget := target.toNat_lt
  have hindex := index.toNat_lt
  omega

/-! ## Chain keys of both kinds -/

section Jump

variable {α σ ε : Type} (index : α → UInt32) {next : α → Except ε α}
  {advance : Nat → α → Except ε α}

/-- Steps that each move the index by one can be taken as long as it fits. -/
theorem exists_advance (hzero : ∀ c, advance 0 c = .ok c)
    (hsucc : ∀ steps c, advance (steps + 1) c = next c >>= advance steps)
    (hnext : ∀ c i, checkedSucc (index c) = some i → ∃ c', next c = .ok c' ∧ index c' = i)
    (steps : Nat) (c : α) (h : (index c).toNat + steps < 2 ^ 32) :
    ∃ c', advance steps c = .ok c' := by
  induction steps generalizing c with
  | zero => exact ⟨c, hzero c⟩
  | succ steps ih =>
    have hlt : (index c).toNat + 1 < 2 ^ 32 := by omega
    obtain ⟨i, hi⟩ : ∃ i, checkedSucc (index c) = some i := ⟨index c + 1, if_pos hlt⟩
    obtain ⟨c', hc', rfl⟩ := hnext c i hi
    have htoNat := checkedSucc_eq_some.mp hi
    obtain ⟨last, hlast⟩ := ih c' (by omega)
    exact ⟨last, by rw [hsucc, hc', ok_bind, hlast]⟩

/-- The jump to a target that is not too far ahead. -/
theorem jump_eq_ok {write : α → Except ε σ} {s s' : σ} {c c' : α} {target : UInt32} {far : ε}
    (hzero : advance 0 c = .ok c) (hsame : write c = .ok s)
    (hreach : target.toNat ≤ (index c).toNat + MAX_RESERVATION_FAST_FORWARD.toNat)
    (hadvance : advance (target.toNat - (index c).toNat) c = .ok c') (hwrite : write c' = .ok s') :
    (if MAX_RESERVATION_FAST_FORWARD < saturatingSub target (index c) then .error far
      else if target ≤ index c then .ok s
      else advance (target.toNat - (index c).toNat) c >>= write) = .ok s' := by
  rw [if_neg (lt_saturatingSub_iff.not.mpr (Nat.not_lt.mpr hreach))]
  split
  · -- the chain is there already, and advancing it by nothing changes nothing
    rename_i hle
    rw [Nat.sub_eq_zero_of_le (UInt32.le_iff_toNat_le.mp hle), hzero] at hadvance
    cases hadvance
    rw [← hsame, hwrite]
  · rw [hadvance, ok_bind, hwrite]

end Jump

theorem ChainKey.exists_advance_to (C : Crypto) (c : ChainKey) (target : UInt32) :
    ∃ c', c.advance C (target.toNat - c.index.toNat) = .ok c' := by
  refine exists_advance index (fun _ => rfl) (fun _ _ => rfl)
    (fun c i hi => ⟨⟨C.nextChainKey c.key, i⟩, ?_, rfl⟩) _ c (toNat_add_sub_lt target c.index)
  rw [nextChainKey, hi]
  rfl

theorem SenderChainKey.exists_advance_to (C : Crypto) (c : SenderChainKey) (target : UInt32) :
    ∃ c', c.advance C (target.toNat - c.iteration.toNat) = .ok c' := by
  refine exists_advance iteration (fun _ => rfl) (fun _ _ => rfl)
    (fun c i hi => ⟨⟨i, C.nextChainKey c.chainKey⟩, ?_, rfl⟩) _ c
    (toNat_add_sub_lt target c.iteration)
  rw [next, hi]
  rfl

/-! ## Sessions -/

namespace SessionState

variable {C : Crypto} {s s' : SessionState} {target : UInt32}

theorem getSenderChainKey_eq_ok {ck : ChainKey} :
    s.getSenderChainKey = .ok ck
      ↔ ∃ chain, s.senderChain = some chain ∧ chain.chainKey = some ck.toStructure := by
  constructor
  · intro h
    obtain ⟨chain, hchain, h⟩ := bind_eq_ok.mp h
    obtain ⟨stored, hstored, h⟩ := bind_eq_ok.mp h
    obtain ⟨bytes, hbytes, h⟩ := bind_eq_ok.mp h
    obtain ⟨key, hkey, h⟩ := bind_eq_ok.mp h
    obtain ⟨index, hindex, h⟩ := bind_eq_ok.mp h
    cases h
    obtain ⟨storedIndex, storedKey⟩ := stored
    rw [okOr_eq_ok] at hchain hstored hbytes hkey hindex
    subst hbytes hindex
    refine ⟨chain, hchain, hstored.trans ?_⟩
    rw [ChainKey.toStructure, FixedBytes.val_of_ofBytes hkey]
  · rintro ⟨chain, hchain, hkey⟩
    simp [getSenderChainKey, hchain, hkey, ChainKey.toStructure]

/-- The end of the reservation is not too far ahead of the sender chain, if there is
one. -/
def WithinReach (s : SessionState) (target : UInt32) : Prop :=
  ∀ ck, s.getSenderChainKey = .ok ck →
    target.toNat ≤ ck.index.toNat + MAX_RESERVATION_FAST_FORWARD.toNat

/-- The state once its sender chain is at the end of the reservation, or past it. -/
inductive Advanced (C : Crypto) (s : SessionState) (target : UInt32) : SessionState → Prop where
  | unusable (h : ∀ ck, s.getSenderChainKey ≠ .ok ck) : Advanced C s target s
  | advanced {chain : SessionStructure.Chain} {ck ck' : ChainKey} (hchain : s.senderChain = some chain)
    (hkey : chain.chainKey = some ck.toStructure)
    (hadvance : ck.advance C (target.toNat - ck.index.toNat) = .ok ck') :
    Advanced C s target { s with senderChain := some { chain with chainKey := some ck'.toStructure } }

theorem fastForwardSenderChain_of_withinReach (h : s.WithinReach target) :
    ∃ s', s.fastForwardSenderChain C target = .ok s' ∧ Advanced C s target s' := by
  cases hck : s.getSenderChainKey with
  | error e =>
    exact ⟨s, by rw [fastForwardSenderChain, hck], .unusable fun ck h => nomatch hck.symm.trans h⟩
  | ok ck =>
    obtain ⟨chain, hchain, hkey⟩ := getSenderChainKey_eq_ok.mp hck
    obtain ⟨ck', hck'⟩ := ck.exists_advance_to C target
    refine ⟨_, ?_, .advanced hchain hkey hck'⟩
    have hset (ck : ChainKey) : invalidSession (s.setSenderChainKey ck)
        = .ok { s with senderChain := some { chain with chainKey := some ck.toStructure } } := by
      rw [setSenderChainKey, hchain]
      rfl
    rw [fastForwardSenderChain, hck]
    refine jump_eq_ok ChainKey.index rfl ?_ (h ck hck) hck' (hset ck')
    rw [hset, ← hkey, ← hchain]

theorem fastForwardSenderChain_of_not_withinReach (h : ¬ s.WithinReach target) :
    ∃ e, s.fastForwardSenderChain C target = .error e := by
  simp only [WithinReach, not_forall, Nat.not_le] at h
  obtain ⟨ck, hck, hfar⟩ := h
  exact ⟨_, by rw [fastForwardSenderChain, hck]; dsimp only; rw [if_pos (lt_saturatingSub_iff.mpr hfar)]⟩

theorem withinReach_zero (s : SessionState) : s.WithinReach 0 := fun _ _ => Nat.zero_le _

/-- Without a reservation the state stays as it is. -/
theorem advanced_zero (C : Crypto) (s : SessionState) : Advanced C s 0 s := by
  cases hck : s.getSenderChainKey with
  | error e => exact .unusable fun ck h => nomatch hck.symm.trans h
  | ok ck =>
    obtain ⟨chain, hchain, hkey⟩ := getSenderChainKey_eq_ok.mp hck
    have h : Advanced C s 0 _ := .advanced hchain hkey (by
      rw [UInt32.toNat_zero, Nat.zero_sub, ChainKey.advance])
    rwa [← hkey, ← hchain] at h

theorem fastForwardSenderChainOrDrop_of_withinReach (h : s.WithinReach target) :
    Advanced C s target (s.fastForwardSenderChainOrDrop C target) := by
  obtain ⟨s', hs', hadvanced⟩ := fastForwardSenderChain_of_withinReach h
  rwa [fastForwardSenderChainOrDrop, hs']

theorem fastForwardSenderChainOrDrop_of_not_withinReach (h : ¬ s.WithinReach target) :
    s.fastForwardSenderChainOrDrop C target = { s with senderChain := none } := by
  obtain ⟨e, he⟩ := fastForwardSenderChain_of_not_withinReach h
  rw [fastForwardSenderChainOrDrop, he]

end SessionState

/-! ## Groups -/

namespace SenderKeyState

variable {C : Crypto} {s : SenderKeyState} {target : UInt32}

def WithinReach (s : SenderKeyState) (target : UInt32) : Prop :=
  ∀ c ∈ s.senderChain, target.toNat ≤ c.iteration.toNat + MAX_RESERVATION_FAST_FORWARD.toNat

inductive Advanced (C : Crypto) (s : SenderKeyState) (target : UInt32) : SenderKeyState → Prop where
  | unusable (h : s.senderChain = none) : Advanced C s target s
  | advanced {c c' : SenderChainKey} (hchain : s.senderChain = some c)
    (hadvance : c.advance C (target.toNat - c.iteration.toNat) = .ok c') :
    Advanced C s target (s.setSenderChainKey c')

theorem fastForwardSenderChain_of_withinReach (h : s.WithinReach target) :
    ∃ s', s.fastForwardSenderChain C target = .ok s' ∧ Advanced C s target s' := by
  cases hchain : s.senderChain with
  | none => exact ⟨s, by rw [fastForwardSenderChain, hchain], .unusable hchain⟩
  | some c =>
    obtain ⟨c', hc'⟩ := c.exists_advance_to C target
    refine ⟨_, ?_, .advanced hchain hc'⟩
    rw [fastForwardSenderChain, hchain]
    refine jump_eq_ok SenderChainKey.iteration rfl ?_ (h c hchain) hc' rfl
    rw [setSenderChainKey, ← hchain]
    rfl

theorem fastForwardSenderChain_of_not_withinReach (h : ¬ s.WithinReach target) :
    ∃ e, s.fastForwardSenderChain C target = .error e := by
  simp only [WithinReach, not_forall, Nat.not_le] at h
  obtain ⟨c, hchain, hfar⟩ := h
  have hsome : s.senderChain = some c := hchain
  exact ⟨_, by rw [fastForwardSenderChain, hsome]; dsimp only; rw [if_pos (lt_saturatingSub_iff.mpr hfar)]⟩

theorem withinReach_zero (s : SenderKeyState) : s.WithinReach 0 := fun _ _ => Nat.zero_le _

theorem advanced_zero (C : Crypto) (s : SenderKeyState) : Advanced C s 0 s := by
  cases hchain : s.senderChain with
  | none => exact .unusable hchain
  | some c =>
    have h : Advanced C s 0 (s.setSenderChainKey c) := .advanced hchain (by
      rw [UInt32.toNat_zero, Nat.zero_sub, SenderChainKey.advance])
    rwa [setSenderChainKey, ← hchain] at h

end SenderKeyState

end WaCore.Signal
