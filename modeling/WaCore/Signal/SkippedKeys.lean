import WaCore.Lib.Eviction
import WaCore.Signal.SessionFrames

/-!
# The keys a receiver chain puts aside

`set_message_keys` puts the key of a message that was passed over on a chain's
backlog, and `get_message_keys` takes it off again.  A backlog is in no order, as
a key is taken off by moving the last one into its place.

Whatever calls are made, the backlog has one key for a counter, a key that was put
aside is there until it is taken or until `MAX_MESSAGE_KEYS` later ones are held,
and taking it gives what was put aside.
-/

namespace WaCore.Signal

open Eff

variable {key : SkippedKey} {c : UInt32}

namespace SkippedKey

/-- The counter a backlog is pruned by. -/
def counter (key : SkippedKey) : UInt32 := key.index.getD 0

/-! ## Removing a key -/

section Removing

variable {keys : List SkippedKey} {i : Nat}

theorem swapRemove_eq (hi : i < keys.length) :
    ∃ last, keys.getLast? = some last ∧ swapRemove keys i = (keys.set i last).dropLast := by
  have hlast := List.getLast?_eq_some_getLast (List.ne_nil_of_length_pos (Nat.zero_lt_of_lt hi))
  exact ⟨_, hlast, by rw [swapRemove, hlast]⟩

theorem perm_swapRemove (hi : i < keys.length) : (swapRemove keys i).Perm (keys.eraseIdx i) := by
  obtain ⟨last, hlast, heq⟩ := swapRemove_eq hi
  exact heq ▸ perm_dropLast_set hi hlast

theorem take_swapRemove (hi : i < keys.length) : (swapRemove keys i).take i = keys.take i := by
  obtain ⟨last, -, heq⟩ := swapRemove_eq hi
  exact heq ▸ take_dropLast_set hi

theorem length_swapRemove (hi : i < keys.length) :
    (swapRemove keys i).length + 1 = keys.length := by
  rw [(perm_swapRemove hi).length_eq, List.length_eraseIdx_add_one hi]

theorem perm_cons_swapRemove (h : keys[i]? = some key) : keys.Perm (key :: swapRemove keys i) := by
  obtain ⟨hi, rfl⟩ := List.getElem?_eq_some_iff.mp h
  exact (List.getElem_cons_eraseIdx_perm hi).symm.trans ((perm_swapRemove hi).symm.cons _)

end Removing

/-! ## Making room -/

section Evicting

variable {threshold : UInt32} {rounds excess i : Nat} {keys : List SkippedKey}

theorem filter_above (h : ∀ key ∈ keys, ¬ key.counter ≤ threshold) :
    keys.filter (fun key => ¬ key.counter ≤ threshold) = keys :=
  List.filter_eq_self.mpr fun key hkey => decide_eq_true (h key hkey)

theorem evict_zero : evict threshold rounds 0 i keys = keys := by
  cases rounds <;> rfl

theorem evict_of_none (h : keys[i]? = none) : evict threshold rounds excess i keys = keys := by
  cases rounds with
  | zero => rfl
  | succ rounds => cases excess <;> simp [evict, h]

/-- A pass that may remove as many keys as there are up to the threshold removes
all of them.  The keys it went past are above the threshold. -/
theorem perm_evict (hrounds : keys.length ≤ rounds + i)
    (hpast : ∀ key ∈ keys.take i, ¬ key.counter ≤ threshold)
    (hexcess : keys.countP (·.counter ≤ threshold) = excess) :
    (evict threshold rounds excess i keys).Perm
      (keys.filter fun key => ¬ key.counter ≤ threshold) := by
  induction rounds generalizing excess i keys with
  | zero =>
    have hlength : keys.length ≤ i := by omega
    rw [evict, filter_above (List.take_of_length_le hlength ▸ hpast)]
  | succ rounds ih =>
    cases hkey : keys[i]? with
    | none =>
      have hlength := List.getElem?_eq_none_iff.mp hkey
      rw [evict_of_none hkey, filter_above (List.take_of_length_le hlength ▸ hpast)]
    | some key =>
    obtain ⟨hi, -⟩ := List.getElem?_eq_some_iff.mp hkey
    cases excess with
    | zero =>
      rw [evict_zero, filter_above]
      exact fun key hkey hle => List.countP_eq_zero.mp hexcess key hkey (decide_eq_true hle)
    | succ excess =>
      simp only [evict, hkey]
      split
      · rename_i hle
        change key.counter ≤ threshold at hle
        have hperm := perm_cons_swapRemove hkey
        have hcount := hperm.countP_eq (·.counter ≤ threshold)
        simp only [List.countP_cons, hle, decide_true, if_true] at hcount
        have hlength := length_swapRemove hi
        refine (ih (by omega) (take_swapRemove hi ▸ hpast) (by omega)).trans ?_
        have hfilter := hperm.filter fun key => ¬ key.counter ≤ threshold
        rw [List.filter_cons_of_neg (by simpa using hle)] at hfilter
        exact hfilter.symm
      · rename_i hnle
        refine ih (by omega) (fun k hk => ?_) hexcess
        rw [List.take_add_one, hkey] at hk
        rcases List.mem_append.mp hk with hk | hk
        · exact hpast k hk
        · exact (List.mem_singleton.mp hk) ▸ hnle

end Evicting

/-- What is left when a backlog loses the keys with the lowest counters. -/
structure Pruned (keys kept : List SkippedKey) : Prop where
  length_le : kept.length ≤ MAX_MESSAGE_KEYS + MESSAGE_KEY_PRUNE_THRESHOLD
  subperm : kept.Subperm keys
  lost : ∀ key ∈ keys, key ∉ kept →
    kept.length = MAX_MESSAGE_KEYS ∧ ∀ other ∈ kept, key.counter < other.counter

variable {keys : List SkippedKey}

/-- The counters are distinct, so the threshold has just as many keys up to it as
are to go. -/
theorem countP_threshold {excess : Nat} (hnodup : (keys.map counter).Nodup) (hpos : 0 < excess)
    (hle : excess ≤ keys.length) :
    keys.countP (·.counter
      ≤ (((keys.map counter).mergeSort (· ≤ ·))[excess - 1]?).getD 0) = excess := by
  have hlt : excess - 1 < ((keys.map counter).mergeSort (· ≤ ·)).length := by
    rw [List.length_mergeSort, List.length_map]
    omega
  have hcount := countP_le_nth (· ≤ ·) hnodup (List.getElem?_eq_getElem hlt)
  rw [List.countP_map] at hcount
  rw [List.getElem?_eq_getElem hlt]
  exact hcount.trans (by omega)

theorem pruned_prune (hnodup : (keys.map counter).Nodup) : Pruned keys (prune keys) := by
  by_cases hlong : MAX_MESSAGE_KEYS + MESSAGE_KEY_PRUNE_THRESHOLD < keys.length
  · obtain ⟨threshold, hperm, hcount⟩ : ∃ threshold,
        (prune keys).Perm (keys.filter fun key => ¬ key.counter ≤ threshold)
          ∧ keys.countP (·.counter ≤ threshold) = keys.length - MAX_MESSAGE_KEYS := by
      have hcount := countP_threshold hnodup
        (show 0 < keys.length - MAX_MESSAGE_KEYS by omega) (Nat.sub_le _ _)
      refine ⟨_, ?_, hcount⟩
      rw [prune, if_pos hlong]
      exact perm_evict (Nat.le_refl _) (by simp) hcount
    have hlength : (prune keys).length = MAX_MESSAGE_KEYS := by
      have htotal := List.length_eq_countP_add_countP (·.counter ≤ threshold) (l := keys)
      rw [hperm.length_eq, ← List.countP_eq_length_filter]
      simp only [decide_eq_true_eq] at htotal
      omega
    refine ⟨by omega, hperm.subperm.trans List.filter_sublist.subperm, ?_⟩
    intro key hkey hlost
    refine ⟨hlength, fun other hother => ?_⟩
    have hle : key.counter ≤ threshold := by
      by_contra hnle
      exact hlost (hperm.mem_iff.mpr (List.mem_filter.mpr ⟨hkey, decide_eq_true hnle⟩))
    have habove := (List.mem_filter.mp (hperm.mem_iff.mp hother)).2
    exact UInt32.lt_of_le_of_lt hle (UInt32.not_le.mp (of_decide_eq_true habove))
  · rw [prune, if_neg hlong]
    exact ⟨by omega, .refl _, fun key hkey hlost => absurd hkey hlost⟩

/-! ## Looking a key up -/

theorem position_eq (counter : UInt32) (h : ∀ key ∈ keys, key.index.isSome) :
    position counter keys = .ok (keys.findIdx? (·.index = some counter)) := by
  induction keys with
  | nil => rfl
  | cons key keys ih =>
    obtain ⟨index, hindex⟩ := Option.isSome_iff_exists.mp (h key List.mem_cons_self)
    have hrest := ih fun k hk => h k (List.mem_cons_of_mem _ hk)
    rw [position, okOr_eq_ok.mpr hindex, ok_bind, hrest, List.findIdx?_cons, hindex]
    by_cases heq : index = counter
    · simp [heq, pure, Except.pure]
    · rw [if_neg heq, if_neg (by simpa using heq)]
      rfl

end SkippedKey

/-! ## The backlog of a chain -/

namespace SessionState

variable {state : SessionState} {sender : PublicKey} {idx : Nat}

/-- The keys a sender's receiver chain put aside. -/
def backlog (state : SessionState) (sender : PublicKey) : List SkippedKey :=
  match state.getReceiverChainIndex sender with
  | .ok (some idx) => (state.receiverChains[idx]?.map (·.skipped)).getD []
  | _ => []

theorem backlog_eq (h : state.getReceiverChainIndex sender = .ok (some idx)) :
    state.backlog sender = (state.receiverChains[idx]?.map (·.skipped)).getD [] := by
  rw [backlog, h]

theorem receiverChainIndex_lt {senderBytes : Bytes} {chains : List SessionStructure.Chain}
    (h : receiverChainIndex senderBytes chains = .ok (some idx)) : idx < chains.length := by
  induction chains generalizing idx with
  | nil => cases h
  | cons chain chains ih =>
    obtain ⟨keyBytes, -, h⟩ := bind_eq_ok.mp h
    split at h
    · cases h
    · split at h
      · cases h
        exact Nat.zero_lt_succ _
      · obtain ⟨rest, hrest, h⟩ := bind_eq_ok.mp h
        cases rest with
        | none => cases h
        | some i =>
          cases h
          exact Nat.succ_lt_succ (ih hrest)

/-- The state with a sender's backlog replaced. -/
def withBacklog (state : SessionState) (idx : Nat) (keys : List SkippedKey) : SessionState :=
  { state with receiverChains := state.receiverChains.modify idx fun chain =>
      { chain with skipped := keys } }

theorem getReceiverChainIndex_withBacklog (keys : List SkippedKey) :
    (state.withBacklog idx keys).getReceiverChainIndex sender
      = state.getReceiverChainIndex sender := by
  -- a chain is found by its ratchet key only
  rw [getReceiverChainIndex, getReceiverChainIndex, withBacklog]
  dsimp only
  induction state.receiverChains generalizing idx with
  | nil => rw [List.modify_nil]
  | cons chain chains ih =>
    cases idx with
    | zero => rw [List.modify_zero_cons, receiverChainIndex, receiverChainIndex]
    | succ i => rw [List.modify_succ_cons, receiverChainIndex, receiverChainIndex, ih]

theorem backlog_withBacklog (h : state.getReceiverChainIndex sender = .ok (some idx))
    (keys : List SkippedKey) : (state.withBacklog idx keys).backlog sender = keys := by
  rw [backlog_eq ((getReceiverChainIndex_withBacklog keys).trans h), withBacklog,
    List.getElem?_modify_eq, List.getElem?_eq_getElem (receiverChainIndex_lt h)]
  rfl

end SessionState

/-! ## Calls on a backlog -/

/-- A generator that the backlog gives back as it is, with the counter it is
found by.  Those of a chain are. -/
def MessageKeyGenerator.Storable (keys : MessageKeyGenerator) : Prop :=
  (SkippedKey.fromGenerator keys).index.isSome
    ∧ (SkippedKey.fromGenerator keys).intoGenerator = .ok keys

theorem MessageKeyGenerator.storable_seed (material : Key) (counter : UInt32) :
    (MessageKeyGenerator.seed material counter).Storable := ⟨rfl, rfl⟩

inductive BacklogCall where
  | setMessageKeys (keys : MessageKeyGenerator)
  | getMessageKeys (counter : UInt32)
  deriving DecidableEq

namespace BacklogCall

def run (sender : PublicKey) :
    BacklogCall → Eff SessionState SignalProtocolError (Option MessageKeyGenerator)
  | .setMessageKeys keys => do
    let state ← get
    let state ← Eff.ofExcept (invalidSession (state.setMessageKeys sender keys))
    set state
    pure none
  | .getMessageKeys counter => SessionState.getMessageKeys sender counter

/-- The state after some calls. -/
def after (sender : PublicKey) (state : SessionState) (calls : List BacklogCall) : SessionState :=
  calls.foldl (fun state call => ((call.run sender).exec state).2) state

/-- The keys the calls put aside. -/
def stored (calls : List BacklogCall) : List MessageKeyGenerator :=
  calls.filterMap fun
    | .setMessageKeys keys => some keys
    | .getMessageKeys _ => none

/-- Keys as the ratchet puts them aside, with ascending counters. -/
structure Ascending (stored : List MessageKeyGenerator) : Prop where
  storable : ∀ keys ∈ stored, keys.Storable
  pairwise : stored.Pairwise fun a b =>
    (SkippedKey.fromGenerator a).counter < (SkippedKey.fromGenerator b).counter

/-- What a backlog holds of the keys that were put aside. -/
structure Holds (stored : List MessageKeyGenerator) (keys : List SkippedKey) : Prop where
  putAside : ∀ key ∈ keys, ∃ generator ∈ stored, key = SkippedKey.fromGenerator generator
  distinct : (keys.map SkippedKey.counter).Nodup
  length_le : keys.length ≤ MAX_MESSAGE_KEYS + MESSAGE_KEY_PRUNE_THRESHOLD + 1

section Calls

variable {state : SessionState} {sender : PublicKey} {idx : Nat}

theorem exec_setMessageKeys (h : state.getReceiverChainIndex sender = .ok (some idx))
    (keys : MessageKeyGenerator) :
    ((setMessageKeys keys).run sender).exec state
      = (.ok none, state.withBacklog idx
          (SkippedKey.prune (state.backlog sender) ++ [SkippedKey.fromGenerator keys])) := by
  have hchain := List.getElem?_eq_getElem (SessionState.receiverChainIndex_lt h)
  have hset : state.setMessageKeys sender keys = .ok (state.withBacklog idx
      (SkippedKey.prune (state.backlog sender) ++ [SkippedKey.fromGenerator keys])) := by
    refine SessionState.modifyReceiverChain_eq_ok.mpr ⟨idx, h, ?_⟩
    rw [SessionState.backlog_eq h, SessionState.withBacklog, List.modify_eq_set_getElem?,
      List.modify_eq_set_getElem?, hchain]
    rfl
  refine (exec_bind_ok (exec_get _)).trans ?_
  rw [hset]
  rfl

end Calls

/-! ### One call -/

section Step

variable {gs : List MessageKeyGenerator} {keys : List SkippedKey}

theorem Ascending.index_isSome (h : Ascending gs) (hkeys : Holds gs keys) :
    ∀ key ∈ keys, key.index.isSome := by
  intro key hkey
  obtain ⟨generator, hgenerator, rfl⟩ := hkeys.putAside key hkey
  exact (h.storable generator hgenerator).1

theorem Holds.of_subperm {kept : List SkippedKey} (h : Holds gs keys) (hsub : kept.Subperm keys) :
    Holds gs kept := by
  refine ⟨fun key hkey => h.putAside key (hsub.subset hkey), ?_, hsub.length_le.trans h.length_le⟩
  obtain ⟨part, hperm, hsublist⟩ := hsub
  exact (hperm.map _).nodup_iff.mp (h.distinct.sublist (hsublist.map _))

/-- A key is put aside above those that are held. -/
theorem Holds.set {generator : MessageKeyGenerator} (hasc : Ascending (gs ++ [generator]))
    (h : Holds gs keys) :
    Holds (gs ++ [generator]) (SkippedKey.prune keys ++ [SkippedKey.fromGenerator generator]) := by
  have hpruned := SkippedKey.pruned_prune h.distinct
  have hkept := h.of_subperm hpruned.subperm
  refine ⟨fun key hkey => ?_, ?_, ?_⟩
  · rcases List.mem_append.mp hkey with hkey | hkey
    · obtain ⟨g, hg, rfl⟩ := hkept.putAside key hkey
      exact ⟨g, List.mem_append_left _ hg, rfl⟩
    · exact ⟨generator, List.mem_append_right _ List.mem_cons_self, List.mem_singleton.mp hkey⟩
  · rw [List.map_append, List.nodup_append]
    refine ⟨hkept.distinct, List.nodup_singleton _, ?_⟩
    intro a ha b hb hab
    obtain ⟨key, hkey, rfl⟩ := List.mem_map.mp ha
    obtain ⟨g, hg, rfl⟩ := hkept.putAside key hkey
    have hlt := (List.pairwise_append.mp hasc.pairwise).2.2 g hg generator List.mem_cons_self
    rw [List.map_singleton, List.mem_singleton] at hb
    rw [hab, hb] at hlt
    exact UInt32.lt_irrefl _ hlt
  · have := hpruned.length_le
    rw [List.length_append, List.length_singleton]
    omega

theorem Holds.nodup_index (h : Holds gs keys) : (keys.map SkippedKey.index).Nodup := by
  refine List.Nodup.of_map (·.getD 0) ?_
  rw [List.map_map]
  exact h.distinct

/-- A key that is put aside pushes out only keys that `MAX_MESSAGE_KEYS` others
are above of. -/
theorem Holds.lost_by_set {new : SkippedKey} (h : Holds gs keys) (hkey : key ∈ keys)
    (hlost : key ∉ SkippedKey.prune keys ++ [new]) :
    MAX_MESSAGE_KEYS ≤ (SkippedKey.prune keys ++ [new]).countP (key.counter < ·.counter) := by
  have hgone : key ∉ SkippedKey.prune keys := fun hk => hlost (List.mem_append_left _ hk)
  obtain ⟨hlength, hlarger⟩ := (SkippedKey.pruned_prune h.distinct).lost key hkey hgone
  have hall : (SkippedKey.prune keys).countP (key.counter < ·.counter)
      = (SkippedKey.prune keys).length :=
    List.countP_eq_length.mpr fun other hother => decide_eq_true (hlarger other hother)
  rw [List.countP_append]
  omega

/-- A counter is gone once its key is taken. -/
theorem Holds.index_ne_of_taken {other : SkippedKey} {i : Nat} (h : Holds gs keys)
    (hentry : keys[i]? = some key) (hc : key.index = some c)
    (hother : other ∈ SkippedKey.swapRemove keys i) : other.index ≠ some c := by
  intro heq
  have hperm := (SkippedKey.perm_cons_swapRemove hentry).map SkippedKey.index
  have hnodup := hperm.nodup_iff.mp h.nodup_index
  rw [List.map_cons, List.nodup_cons, hc] at hnodup
  exact hnodup.1 (List.mem_map.mpr ⟨other, hother, heq⟩)

variable {state : SessionState} {sender : PublicKey} {idx : Nat}

/-- A call that takes a key gives what was put aside and takes it off, or finds
none. -/
theorem getMessageKeys_cases (hchain : state.getReceiverChainIndex sender = .ok (some idx))
    (hasc : Ascending gs) (h : Holds gs (state.backlog sender)) (counter : UInt32) :
    (∃ i, ∃ generator ∈ gs, (SkippedKey.fromGenerator generator).index = some counter
        ∧ (state.backlog sender)[i]? = some (SkippedKey.fromGenerator generator)
        ∧ ((getMessageKeys counter).run sender).exec state = (.ok (some generator),
            state.withBacklog idx (SkippedKey.swapRemove (state.backlog sender) i)))
      ∨ ((∀ key ∈ state.backlog sender, key.index ≠ some counter)
        ∧ ((getMessageKeys counter).run sender).exec state = (.ok none, state)) := by
  have hposition := SkippedKey.position_eq counter (hasc.index_isSome h)
  cases hfound : (state.backlog sender).findIdx? (·.index = some counter) with
  | none =>
    rw [hfound] at hposition
    refine .inr ⟨fun key hkey heq => ?_, ?_⟩
    · have := List.findIdx?_eq_none_iff.mp hfound key hkey
      exact absurd heq (of_decide_eq_false this)
    · rw [SessionState.backlog_eq hchain] at hposition
      refine (exec_bind_ok (exec_get _)).trans ?_
      rw [hchain]
      refine (exec_bind_ok rfl).trans ?_
      dsimp only
      rw [hposition]
      rfl
  | some i =>
    rw [hfound] at hposition
    obtain ⟨hi, hindex, -⟩ := List.findIdx?_eq_some_iff_getElem.mp hfound
    obtain ⟨generator, hgenerator, hkey⟩ := h.putAside _ (List.getElem_mem hi)
    have hentry := (List.getElem?_eq_getElem hi).trans (congrArg some hkey)
    refine .inl ⟨i, generator, hgenerator, hkey ▸ of_decide_eq_true hindex, hentry, ?_⟩
    have hgiven := (hasc.storable generator hgenerator).2
    rw [SessionState.backlog_eq hchain] at hposition hentry ⊢
    refine (exec_bind_ok (exec_get _)).trans ?_
    rw [hchain]
    refine (exec_bind_ok rfl).trans ?_
    dsimp only
    rw [hposition]
    refine (exec_bind_ok rfl).trans ?_
    rw [Option.bind_some, hentry]
    refine (exec_bind_ok (exec_set _ _)).trans ?_
    rw [hgiven]
    rfl

/-- A call keeps the chain where it is, and what its backlog holds. -/
theorem holds_run {call : BacklogCall} (hchain : state.getReceiverChainIndex sender = .ok (some idx))
    (hasc : Ascending (gs ++ stored [call])) (h : Holds gs (state.backlog sender)) :
    (((call.run sender).exec state).2).getReceiverChainIndex sender = .ok (some idx)
      ∧ Holds (gs ++ stored [call]) ((((call.run sender).exec state).2).backlog sender) := by
  cases call with
  | setMessageKeys generator =>
    rw [exec_setMessageKeys hchain, SessionState.getReceiverChainIndex_withBacklog,
      SessionState.backlog_withBacklog hchain]
    exact ⟨hchain, h.set hasc⟩
  | getMessageKeys counter =>
    have hgs : gs ++ stored [getMessageKeys counter] = gs := List.append_nil gs
    rw [hgs] at hasc ⊢
    rcases getMessageKeys_cases hchain hasc h counter with
      ⟨i, generator, -, -, hentry, hexec⟩ | ⟨-, hexec⟩
    · rw [hexec, SessionState.getReceiverChainIndex_withBacklog,
        SessionState.backlog_withBacklog hchain]
      have hperm := SkippedKey.perm_cons_swapRemove hentry
      exact ⟨hchain, h.of_subperm ((List.sublist_cons_self _ _).subperm.trans hperm.symm.subperm)⟩
    · rw [hexec]
      exact ⟨hchain, h⟩

end Step

/-! ### All calls -/

theorem Ascending.left {gs hs : List MessageKeyGenerator} (h : Ascending (gs ++ hs)) :
    Ascending gs where
  storable keys hkeys := h.storable keys (List.mem_append_left _ hkeys)
  pairwise := (List.pairwise_append.mp h.pairwise).1

theorem stored_append (calls more : List BacklogCall) :
    stored (calls ++ more) = stored calls ++ stored more := by
  rw [stored, List.filterMap_append]
  rfl

/-- What a backlog that started empty holds after any calls. -/
theorem holds_after {state : SessionState} {sender : PublicKey} {idx : Nat}
    (hchain : state.getReceiverChainIndex sender = .ok (some idx))
    (hempty : state.backlog sender = []) {calls : List BacklogCall}
    (hasc : Ascending (stored calls)) :
    (after sender state calls).getReceiverChainIndex sender = .ok (some idx)
      ∧ Holds (stored calls) ((after sender state calls).backlog sender) := by
  induction calls using List.reverseRecOn with
  | nil =>
    refine ⟨hchain, ?_⟩
    rw [after, List.foldl_nil, hempty]
    exact ⟨by simp, List.nodup_nil, Nat.zero_le _⟩
  | append_singleton calls call ih =>
    rw [stored_append] at hasc ⊢
    obtain ⟨hchain', hholds⟩ := ih hasc.left
    rw [after, List.foldl_concat]
    exact holds_run hchain' hasc hholds

/-- Whatever calls a backlog has seen, its counters are distinct and their number
is bounded.  The next call loses a key it does not hand out only when
`MAX_MESSAGE_KEYS` keys with larger counters remain, and it hands out the key put
aside for a counter exactly when that is held. -/
theorem eviction_drops_oldest {state before next : SessionState} {sender : PublicKey} {idx : Nat}
    {calls : List BacklogCall} {call : BacklogCall}
    {r : Except SignalProtocolError (Option MessageKeyGenerator)}
    (hchain : state.getReceiverChainIndex sender = .ok (some idx))
    (hempty : state.backlog sender = []) (hasc : Ascending (stored (calls ++ [call])))
    (hbefore : after sender state calls = before)
    (hcall : (call.run sender).exec before = (r, next)) :
    ((before.backlog sender).map SkippedKey.index).Nodup
      ∧ (before.backlog sender).length ≤ MAX_MESSAGE_KEYS + MESSAGE_KEY_PRUNE_THRESHOLD + 1
      ∧ (∀ key ∈ before.backlog sender, key ∉ next.backlog sender →
          (∃ c keys, call = .getMessageKeys c ∧ r = .ok (some keys)
            ∧ key = SkippedKey.fromGenerator keys)
          ∨ MAX_MESSAGE_KEYS ≤ (next.backlog sender).countP (key.counter < ·.counter))
      ∧ (∀ keys, call = .setMessageKeys keys →
          r = .ok none ∧ SkippedKey.fromGenerator keys ∈ next.backlog sender)
      ∧ (∀ c, call = .getMessageKeys c →
          (∀ keys, r = .ok (some keys)
            ↔ keys ∈ stored calls ∧ (SkippedKey.fromGenerator keys).index = some c
              ∧ SkippedKey.fromGenerator keys ∈ before.backlog sender)
          ∧ (r = .ok none ↔ ∀ key ∈ before.backlog sender, key.index ≠ some c)
          ∧ (∀ key ∈ next.backlog sender, key.index ≠ some c)) := by
  rw [stored_append] at hasc
  obtain ⟨hchain', hholds⟩ := holds_after hchain hempty hasc.left
  rw [hbefore] at hchain' hholds
  refine ⟨hholds.nodup_index, hholds.length_le, ?_⟩
  cases call with
  | setMessageKeys generator =>
    rw [exec_setMessageKeys hchain'] at hcall
    cases hcall
    rw [SessionState.backlog_withBacklog hchain']
    refine ⟨fun key hkey hlost => .inr (hholds.lost_by_set hkey hlost), ?_, nofun⟩
    rintro keys ⟨⟩
    exact ⟨rfl, List.mem_append_right _ List.mem_cons_self⟩
  | getMessageKeys c =>
    rcases getMessageKeys_cases hchain' hasc.left hholds c with
      ⟨i, generator, hgenerator, hc, hentry, hexec⟩ | ⟨hnone, hexec⟩
    · rw [hexec] at hcall
      cases hcall
      rw [SessionState.backlog_withBacklog hchain']
      have hmem := List.mem_of_getElem? hentry
      refine ⟨fun key hkey hlost => .inl ⟨c, generator, rfl, rfl, ?_⟩, nofun, ?_⟩
      · have hperm := SkippedKey.perm_cons_swapRemove hentry
        rcases List.mem_cons.mp (hperm.mem_iff.mp hkey) with rfl | hrest
        · rfl
        · exact absurd hrest hlost
      · rintro _ ⟨⟩
        refine ⟨fun keys => ⟨?_, ?_⟩, ⟨nofun, fun hnone => absurd hc (hnone _ hmem)⟩,
          fun key hkey => hholds.index_ne_of_taken hentry hc hkey⟩
        · rintro ⟨⟩
          exact ⟨hgenerator, hc, hmem⟩
        · rintro ⟨hkeys, hindex, hheld⟩
          have heq := List.inj_on_of_nodup_map hholds.nodup_index hheld hmem (hindex.trans hc.symm)
          have hinto := (hasc.left.storable keys hkeys).2
          rw [heq, (hasc.left.storable generator hgenerator).2] at hinto
          rw [Except.ok.inj hinto]
    · rw [hexec] at hcall
      cases hcall
      refine ⟨fun key hkey hlost => absurd hkey hlost, nofun, ?_⟩
      rintro _ ⟨⟩
      refine ⟨fun keys => ⟨nofun, ?_⟩, ⟨fun _ => hnone, fun _ => rfl⟩, hnone⟩
      rintro ⟨-, hindex, hheld⟩
      exact absurd hindex (hnone _ hheld)

/-- A session with one receiver chain, which has put nothing aside. -/
def newChain : SessionState :=
  (SessionState.new 3 ⟨.replicate 32 1⟩ ⟨.replicate 32 2⟩ ⟨.replicate 32 3⟩
    ⟨.replicate 32 4⟩).addReceiverChain ⟨.replicate 32 9⟩ ⟨.replicate 32 5, 0⟩

/-- Two keys are put aside. -/
def twoSkipped : List BacklogCall :=
  [.setMessageKeys (.seed (.replicate 32 6) 0), .setMessageKeys (.seed (.replicate 32 7) 2)]

theorem ascending_twoSkipped : Ascending (stored (twoSkipped ++ [.getMessageKeys 2])) where
  storable keys hkeys := by
    rcases List.mem_pair.mp hkeys with rfl | rfl <;> exact MessageKeyGenerator.storable_seed _ _
  pairwise := List.pairwise_pair.mpr (by decide)

/-- The second of them is handed out, and is gone then. -/
theorem eviction_of_twoSkipped :
    ∃ r next, ((getMessageKeys 2).run ⟨.replicate 32 9⟩).exec
        (after ⟨.replicate 32 9⟩ newChain twoSkipped) = (r, next)
      ∧ (r = .ok (some (.seed (.replicate 32 7) 2))
        ↔ .seed (.replicate 32 7) 2 ∈ stored twoSkipped
          ∧ (SkippedKey.fromGenerator (.seed (.replicate 32 7) 2)).index = some 2
          ∧ SkippedKey.fromGenerator (.seed (.replicate 32 7) 2)
            ∈ (after ⟨.replicate 32 9⟩ newChain twoSkipped).backlog ⟨.replicate 32 9⟩)
      ∧ ∀ key ∈ next.backlog ⟨.replicate 32 9⟩, key.index ≠ some 2 := by
  have hchain : newChain.getReceiverChainIndex ⟨.replicate 32 9⟩ = .ok (some 0) := by decide
  have hempty : newChain.backlog ⟨.replicate 32 9⟩ = [] := by decide
  have hsound := eviction_drops_oldest hchain hempty ascending_twoSkipped rfl rfl
  obtain ⟨hfound, -, hgone⟩ := hsound.2.2.2.2 2 rfl
  exact ⟨_, _, rfl, hfound _, hgone⟩

end BacklogCall

end WaCore.Signal
