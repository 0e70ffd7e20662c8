import WaCore.Lib.KeyedStore
import WaCore.Lib.RankedDedup

/-!
# LID and phone pairs of a history sync

`dedupe_lid_mappings` (`wacore/src/history_sync.rs`) leaves one pair for a LID and one for
a phone number.  The pairs come from the bulk block of the sync and from the conversations
in it, in the order of the wire.

The source walks the pairs once, with the places of the standing pairs in two indexes and
a mark on each pair that is dropped.  `dedupeLidMappings_eq` says that this is the
deduplication with two ranks of `Lib.RankedDedup`.
-/

namespace WaCore.HistorySync

inductive HistoryLidMappingSource where
  | bulk
  | conversation
  deriving DecidableEq, Repr

structure HistoryLidMapping where
  phoneNumber : String
  lid : String
  source : HistoryLidMappingSource
  deriving DecidableEq, Repr

/-- The two indexes and the marks of the walk. -/
structure DedupeState where
  byLid : Keyed String Nat
  byPhone : Keyed String Nat
  drop : List Bool

namespace DedupeState

/-- The standing places that share the LID or the phone number of a pair. -/
def conflicts (st : DedupeState) (m : HistoryLidMapping) : List Nat :=
  let conflicts := (st.byLid.lookup m.lid).toList
  match st.byPhone.lookup m.phoneNumber with
  | some kept => if conflicts.contains kept then conflicts else conflicts ++ [kept]
  | none => conflicts

/-- Drop a standing pair.  The source indexes the vector; the place is always in it. -/
def displace (mappings : List HistoryLidMapping) (st : DedupeState) (kept : Nat) :
    DedupeState :=
  match mappings[kept]? with
  | some old =>
    { byLid := st.byLid.erase old.lid
      byPhone := st.byPhone.erase old.phoneNumber
      drop := st.drop.set kept true }
  | none => st

/-- The body of the loop, at the pair `m` of place `i`. -/
def visit (mappings : List HistoryLidMapping) (st : DedupeState) (i : Nat)
    (m : HistoryLidMapping) : DedupeState :=
  let conflicts := st.conflicts m
  let incomingWins := !conflicts.isEmpty && m.source == .bulk &&
    conflicts.all fun k => mappings[k]?.any fun kept => kept.source == .conversation
  if !conflicts.isEmpty && !incomingWins then
    { st with drop := st.drop.set i true }
  else
    let st := conflicts.foldl (displace mappings) st
    { st with
      byLid := st.byLid.insert m.lid i
      byPhone := st.byPhone.insert m.phoneNumber i }

/-- The loop over the places. -/
def walk (mappings : List HistoryLidMapping) (entries : List (HistoryLidMapping × Nat)) :
    DedupeState :=
  entries.foldl (fun st entry => visit mappings st entry.2 entry.1)
    ⟨∅, ∅, List.replicate mappings.length false⟩

end DedupeState

def dedupeLidMappings (mappings : List HistoryLidMapping) : List HistoryLidMapping :=
  let st := DedupeState.walk mappings mappings.zipIdx
  ((mappings.zip st.drop).filter fun entry => !entry.2).map Prod.fst

/-! ## The walk keeps the standing pairs -/

namespace HistoryLidMapping

/-- Two pairs name the same LID or the same phone number. -/
def Shares (a b : HistoryLidMapping) : Prop := a.lid = b.lid ∨ a.phoneNumber = b.phoneNumber

instance decidableShares : DecidableRel Shares := fun _ _ => inferInstanceAs (Decidable (_ ∨ _))

def Bulk (m : HistoryLidMapping) : Prop := m.source = .bulk

instance decidableBulk : DecidablePred Bulk := fun _ => inferInstanceAs (Decidable (_ = _))

theorem Shares.symm {a b : HistoryLidMapping} (h : Shares a b) : Shares b a :=
  h.imp Eq.symm Eq.symm

end HistoryLidMapping

open HistoryLidMapping RankedDedup

/-- The pairs before place `i` that are not dropped, with their places, are `kept`, and the
indexes find each of them. -/
structure DedupeState.Tracks (mappings : List HistoryLidMapping) (st : DedupeState) (i : Nat)
    (kept : List (HistoryLidMapping × Nat)) : Prop where
  kept_eq : kept = (mappings.zipIdx.take i).filter fun entry => st.drop[entry.2]? = some false
  byLid : ∀ lid k, st.byLid.lookup lid = some k ↔ ∃ m, (m, k) ∈ kept ∧ m.lid = lid
  byPhone : ∀ phone k,
    st.byPhone.lookup phone = some k ↔ ∃ m, (m, k) ∈ kept ∧ m.phoneNumber = phone
  length_drop : st.drop.length = mappings.length
  ahead : ∀ k, i ≤ k → k < mappings.length → st.drop[k]? = some false

namespace DedupeState

variable {mappings : List HistoryLidMapping} {st : DedupeState} {i k : Nat}
  {kept : List (HistoryLidMapping × Nat)} {m : HistoryLidMapping}

namespace Tracks

theorem getElem?_of_mem (h : st.Tracks mappings i kept) (hk : (m, k) ∈ kept) :
    mappings[k]? = some m ∧ k < i := by
  rw [h.kept_eq] at hk
  have hmem := (List.mem_filter.mp hk).1
  obtain ⟨j, hj, heq⟩ := List.mem_take_iff_getElem.mp hmem
  rw [List.getElem_zipIdx] at heq
  obtain ⟨rfl, rfl⟩ := Prod.mk.inj heq
  rw [List.length_zipIdx] at hj
  rw [Nat.zero_add]
  exact ⟨List.getElem?_eq_getElem (by omega), by omega⟩

theorem mem_conflicts (h : st.Tracks mappings i kept) :
    k ∈ st.conflicts m ↔ ∃ old, (old, k) ∈ kept ∧ Shares old m := by
  have hlid := h.byLid m.lid k
  have hphone := h.byPhone m.phoneNumber k
  have hiff : k ∈ st.conflicts m ↔
      st.byLid.lookup m.lid = some k ∨ st.byPhone.lookup m.phoneNumber = some k := by
    unfold conflicts
    cases hp : st.byPhone.lookup m.phoneNumber with
    | none => simp [Option.mem_toList]
    | some k' =>
      dsimp only
      split
      · rename_i hcontains
        have hk' : st.byLid.lookup m.lid = some k' := by
          simpa [Option.mem_toList] using hcontains
        simp [hk', eq_comm]
      · simp [eq_comm]
  rw [hiff, hlid, hphone]
  constructor
  · rintro (⟨old, hold, heq⟩ | ⟨old, hold, heq⟩)
    · exact ⟨old, hold, .inl heq⟩
    · exact ⟨old, hold, .inr heq⟩
  · rintro ⟨old, hold, heq | heq⟩
    · exact .inl ⟨old, hold, heq⟩
    · exact .inr ⟨old, hold, heq⟩

end Tracks

theorem lookup_erase_eq_some {s : Keyed String Nat} {a b : String} :
    (s.erase a).lookup b = some k ↔ a ≠ b ∧ s.lookup b = some k := by
  by_cases hab : a = b
  · subst hab
    simp [AList.lookup_erase]
  · rw [AList.lookup_erase_ne (Ne.symm hab)]
    simp [hab]

theorem lookup_insert_eq_some {s : Keyed String Nat} {a b : String} {v : Nat} :
    (s.insert a v).lookup b = some k ↔ (a = b ∧ v = k) ∨ (a ≠ b ∧ s.lookup b = some k) := by
  by_cases hab : a = b
  · subst hab
    simp [AList.lookup_insert]
  · rw [AList.lookup_insert_ne (Ne.symm hab)]
    simp [hab]

/-- What is left of the indexes and marks after some places are dropped. -/
theorem displaced (places : List Nat) (st : DedupeState)
    (hplaces : ∀ k ∈ places, k < mappings.length) :
    let st' := places.foldl (displace mappings) st
    (∀ lid k, st'.byLid.lookup lid = some k ↔ st.byLid.lookup lid = some k ∧
      ∀ c ∈ places, ∀ old, mappings[c]? = some old → old.lid ≠ lid) ∧
    (∀ phone k, st'.byPhone.lookup phone = some k ↔ st.byPhone.lookup phone = some k ∧
      ∀ c ∈ places, ∀ old, mappings[c]? = some old → old.phoneNumber ≠ phone) ∧
    (∀ k, st'.drop[k]? = some false ↔ st.drop[k]? = some false ∧ k ∉ places) ∧
    st'.drop.length = st.drop.length := by
  induction places generalizing st with
  | nil => simp
  | cons c places ih =>
    obtain ⟨hc, hplaces⟩ := List.forall_mem_cons.mp hplaces
    obtain ⟨hlid, hphone, hdrop, hlength⟩ := ih (st.displace mappings c) hplaces
    have hold := List.getElem?_eq_getElem hc
    have hst : st.displace mappings c =
        { byLid := st.byLid.erase mappings[c].lid
          byPhone := st.byPhone.erase mappings[c].phoneNumber
          drop := st.drop.set c true } := by
      unfold displace
      rw [hold]
    rw [hst] at hlid hphone hdrop hlength
    dsimp only [List.foldl_cons] at hlid hphone hdrop hlength ⊢
    rw [hst]
    refine ⟨?_, ?_, ?_, ?_⟩
    · intro lid k
      rw [hlid, List.forall_mem_cons, lookup_erase_eq_some]
      simp only [hold, Option.some.injEq, forall_eq']
      tauto
    · intro phone k
      rw [hphone, List.forall_mem_cons, lookup_erase_eq_some]
      simp only [hold, Option.some.injEq, forall_eq']
      tauto
    · intro k
      rw [hdrop, List.getElem?_set]
      by_cases hk : c = k
      · split <;> simp_all
      · rw [if_neg hk]
        have : k ≠ c := fun h => hk h.symm
        simp [this]
    · rw [hlength, List.length_set]

namespace Tracks

theorem take_succ (hi : mappings[i]? = some m) :
    mappings.zipIdx.take (i + 1) = mappings.zipIdx.take i ++ [(m, i)] := by
  have hget : mappings.zipIdx[i]? = some (m, i) := by
    rw [List.getElem?_zipIdx, hi]
    simp
  rw [List.take_add_one, hget]
  rfl

theorem lt_of_mem_take {entry : HistoryLidMapping × Nat}
    (h : entry ∈ mappings.zipIdx.take i) : entry.2 < i := by
  obtain ⟨j, hj, rfl⟩ := List.mem_take_iff_getElem.mp h
  rw [List.getElem_zipIdx]
  omega

theorem reject (h : st.Tracks mappings i kept) (hi : mappings[i]? = some m) :
    Tracks mappings { st with drop := st.drop.set i true } (i + 1) kept where
  kept_eq := by
    have hlt : i < st.drop.length := by
      rw [h.length_drop]
      exact (List.getElem?_eq_some_iff.mp hi).1
    rw [take_succ hi, List.filter_append, List.filter_cons, List.filter_nil,
      if_neg (by simp [hlt]), List.append_nil]
    refine h.kept_eq.trans (List.filter_congr fun entry hentry => ?_)
    have hne : i ≠ entry.2 := Nat.ne_of_gt (lt_of_mem_take hentry)
    rw [List.getElem?_set_ne hne]
  byLid := h.byLid
  byPhone := h.byPhone
  length_drop := by rw [List.length_set, h.length_drop]
  ahead := by
    intro k hik hk
    rw [List.getElem?_set_ne (by omega)]
    exact h.ahead k (by omega) hk

/-- An index after the pair `m` took the places of the pairs it shares something with. -/
theorem lookup_enter (h : st.Tracks mappings i kept) {key : HistoryLidMapping → String}
    (hkey : ∀ a b, key a = key b → Shares a b) {index index' : Keyed String Nat}
    (hindex : ∀ v k, index.lookup v = some k ↔ ∃ old, (old, k) ∈ kept ∧ key old = v)
    (hindex' : ∀ v k, index'.lookup v = some k ↔ index.lookup v = some k ∧
      ∀ c ∈ st.conflicts m, ∀ old, mappings[c]? = some old → key old ≠ v) (v : String) (k : Nat) :
    (index'.insert (key m) i).lookup v = some k ↔
      ∃ old, (old, k) ∈ kept.filter (fun entry => ¬ Shares entry.1 m) ++ [(m, i)] ∧
        key old = v := by
  rw [lookup_insert_eq_some]
  constructor
  · rintro (⟨hv, rfl⟩ | ⟨hne, hlook⟩)
    · exact ⟨m, List.mem_append_right _ (List.mem_singleton_self _), hv⟩
    · obtain ⟨hlook, hspared⟩ := (hindex' v k).mp hlook
      obtain ⟨old, hold, hv⟩ := (hindex v k).mp hlook
      refine ⟨old, List.mem_append_left _ (List.mem_filter.mpr ⟨hold, ?_⟩), hv⟩
      have hfree : ¬ Shares old m := by
        intro hshares
        have hk := h.mem_conflicts.mpr ⟨old, hold, hshares⟩
        exact hspared k hk old (h.getElem?_of_mem hold).1 hv
      simpa using hfree
  · rintro ⟨old, hold, rfl⟩
    rcases List.mem_append.mp hold with hold | hold
    · obtain ⟨hold, hfree⟩ := List.mem_filter.mp hold
      have hfree : ¬ Shares old m := by simpa using hfree
      have hlook := (hindex (key old) k).mpr ⟨old, hold, rfl⟩
      refine .inr ⟨fun heq => hfree (hkey old m heq.symm), (hindex' _ _).mpr ⟨hlook, ?_⟩⟩
      intro c hc other hother heq
      obtain ⟨other', hother', hshares⟩ := h.mem_conflicts.mp hc
      -- the index holds one place for a key, so the displaced pair is this one
      have hsame := (h.getElem?_of_mem hother').1
      rw [hother, Option.some.injEq] at hsame
      subst hsame
      have hc' := (hindex (key old) c).mpr ⟨other, hother', heq⟩
      rw [hlook, Option.some.injEq] at hc'
      subst hc'
      have hold' := (h.getElem?_of_mem hold).1
      rw [hother, Option.some.injEq] at hold'
      exact hfree (hold' ▸ hshares)
    · obtain ⟨rfl, rfl⟩ := Prod.mk.inj (List.mem_singleton.mp hold)
      exact .inl ⟨rfl, rfl⟩

theorem enter (h : st.Tracks mappings i kept) (hi : mappings[i]? = some m) :
    let st' := (st.conflicts m).foldl (displace mappings) st
    Tracks mappings
      { st' with
        byLid := st'.byLid.insert m.lid i
        byPhone := st'.byPhone.insert m.phoneNumber i }
      (i + 1) (kept.filter (fun entry => ¬ Shares entry.1 m) ++ [(m, i)]) := by
  have hin : i < mappings.length := (List.getElem?_eq_some_iff.mp hi).1
  have hplaces : ∀ k ∈ st.conflicts m, k < i := by
    intro k hk
    obtain ⟨old, hold, -⟩ := h.mem_conflicts.mp hk
    exact (h.getElem?_of_mem hold).2
  have hinside : ∀ k ∈ st.conflicts m, k < mappings.length :=
    fun k hk => (hplaces k hk).trans hin
  obtain ⟨hlid, hphone, hdrop, hlength⟩ := displaced (st.conflicts m) st hinside
  have hahead : ∀ k, i ≤ k → k < mappings.length →
      ((st.conflicts m).foldl (displace mappings) st).drop[k]? = some false := by
    intro k hik hk
    refine (hdrop k).mpr ⟨h.ahead k hik hk, fun hmem => ?_⟩
    have := hplaces k hmem
    omega
  refine
    { kept_eq := ?_
      byLid := h.lookup_enter (fun a b => .inl) h.byLid hlid
      byPhone := h.lookup_enter (fun a b => .inr) h.byPhone hphone
      length_drop := hlength.trans h.length_drop
      ahead := fun k hik hk => hahead k (by omega) hk }
  rw [take_succ hi, List.filter_append, List.filter_cons,
    if_pos (by simpa using hahead i (Nat.le_refl i) hin)]
  congr 1
  rw [h.kept_eq, List.filter_filter]
  refine (List.filter_congr fun entry hentry => ?_).symm
  rw [Bool.eq_iff_iff, Bool.and_eq_true, decide_eq_true_iff, decide_eq_true_iff, decide_eq_true_iff,
    hdrop, and_comm]
  refine and_congr_left fun hkept => ?_
  have hmem : entry ∈ kept := by
    rw [h.kept_eq]
    exact List.mem_filter.mpr ⟨hentry, by simpa using hkept⟩
  rw [not_iff_not, h.mem_conflicts]
  constructor
  · rintro ⟨old, hold, hshares⟩
    have heq := (h.getElem?_of_mem hold).1.symm.trans (h.getElem?_of_mem hmem).1
    rw [Option.some.injEq] at heq
    exact heq ▸ hshares
  · intro hshares
    exact ⟨entry.1, hmem, hshares⟩

theorem visit (h : st.Tracks mappings i kept) (hi : mappings[i]? = some m) :
    (st.visit mappings i m).Tracks mappings (i + 1)
      (offer (fun a b => Shares a.1 b.1) (fun a => Bulk a.1) kept (m, i)) := by
  have hempty : (st.conflicts m).isEmpty = false ↔ ∃ entry ∈ kept, Shares entry.1 m := by
    rw [List.isEmpty_eq_false_iff_exists_mem]
    constructor
    · rintro ⟨k, hk⟩
      obtain ⟨old, hold, hshares⟩ := h.mem_conflicts.mp hk
      exact ⟨(old, k), hold, hshares⟩
    · rintro ⟨entry, hentry, hshares⟩
      exact ⟨entry.2, h.mem_conflicts.mpr ⟨entry.1, hentry, hshares⟩⟩
  have hall : ((st.conflicts m).all fun k =>
      mappings[k]?.any fun old => old.source == .conversation) = true ↔
      ∀ entry ∈ kept, Shares entry.1 m → ¬ Bulk entry.1 := by
    rw [List.all_eq_true]
    constructor
    · intro hconv entry hentry hshares hbulk
      have hsource := hconv entry.2 (h.mem_conflicts.mpr ⟨entry.1, hentry, hshares⟩)
      rw [(h.getElem?_of_mem hentry).1, Option.any_some, hbulk] at hsource
      exact absurd hsource (by decide)
    · intro hlow k hk
      obtain ⟨old, hold, hshares⟩ := h.mem_conflicts.mp hk
      rw [(h.getElem?_of_mem hold).1, Option.any_some]
      have hbulk := hlow (old, k) hold hshares
      cases hsource : old.source with
      | bulk => exact absurd hsource hbulk
      | conversation => rfl
  unfold DedupeState.visit
  dsimp only
  by_cases hclash : ∃ entry ∈ kept, Shares entry.1 m
  · rw [hempty.mpr hclash]
    unfold offer
    rw [if_pos hclash]
    by_cases hwins : Bulk m ∧ ∀ entry ∈ kept, Shares entry.1 m → ¬ Bulk entry.1
    · rw [if_pos hwins, hall.mpr hwins.2]
      have hbulk : m.source = .bulk := hwins.1
      rw [hbulk]
      exact h.enter hi
    · rw [if_neg hwins]
      have hloses : (m.source == .bulk && (st.conflicts m).all fun k =>
          mappings[k]?.any fun old => old.source == .conversation) = false := by
        rw [← Bool.not_eq_true, Bool.and_eq_true, hall, beq_iff_eq]
        exact hwins
      simp only [Bool.not_false, Bool.true_and, hloses]
      exact h.reject hi
  · have hnone : (st.conflicts m).isEmpty = true := by
      rw [← Bool.not_eq_false, hempty]
      exact hclash
    rw [hnone, offer_of_free hclash]
    have hkept : kept.filter (fun entry => ¬ Shares entry.1 m) = kept := by
      apply List.filter_eq_self.mpr
      intro entry hentry
      simpa using fun hshares => hclash ⟨entry, hentry, hshares⟩
    have henter := h.enter hi
    rw [hkept] at henter
    exact henter

end Tracks

theorem tracks_walk (mappings : List HistoryLidMapping) (i : Nat) (hi : i ≤ mappings.length) :
    (walk mappings (mappings.zipIdx.take i)).Tracks mappings i
      (dedup (fun a b => Shares a.1 b.1) (fun a => Bulk a.1) (mappings.zipIdx.take i)) := by
  induction i with
  | zero =>
    refine ⟨rfl, fun _ _ => ?_, fun _ _ => ?_, List.length_replicate, ?_⟩
    · simp [walk, dedup]
    · simp [walk, dedup]
    · intro k _ hk
      simp [walk, hk]
  | succ i ih =>
    have hget : mappings[i]? = some mappings[i] := List.getElem?_eq_getElem hi
    rw [Tracks.take_succ hget, dedup_concat]
    have hwalk : walk mappings (mappings.zipIdx.take i ++ [(mappings[i], i)]) =
        (walk mappings (mappings.zipIdx.take i)).visit mappings i mappings[i] := by
      rw [walk, List.foldl_append]
      rfl
    rw [hwalk]
    exact (ih (Nat.le_of_succ_le hi)).visit hget

end DedupeState

/-- The pairs whose mark is not set, found with their places or beside the marks. -/
theorem filter_zip_eq (mappings : List HistoryLidMapping) (before drop : List Bool)
    (hlength : drop.length = mappings.length) :
    ((mappings.zip drop).filter fun entry => !entry.2).map Prod.fst =
      ((mappings.zipIdx before.length).filter
        fun entry => (before ++ drop)[entry.2]? = some false).map Prod.fst := by
  induction mappings generalizing before drop with
  | nil => rfl
  | cons m mappings ih =>
    obtain ⟨b, drop, rfl⟩ := List.exists_cons_of_length_eq_add_one hlength
    have ih := ih (before ++ [b]) drop (by simpa using hlength)
    cases b with
    | false => simpa using ih
    | true => simpa using ih

/-- The walk with the two indexes is the deduplication in which bulk pairs rank higher. -/
theorem dedupeLidMappings_eq (mappings : List HistoryLidMapping) :
    dedupeLidMappings mappings = dedup Shares Bulk mappings := by
  have htracks := DedupeState.tracks_walk mappings mappings.length (Nat.le_refl _)
  rw [List.take_of_length_le (by simp)] at htracks
  have hmap := dedup_map Shares Bulk Prod.fst mappings.zipIdx
  have hfst : mappings.zipIdx.map Prod.fst = mappings := by simp
  rw [hfst, htracks.kept_eq, List.take_of_length_le (by simp)] at hmap
  rw [← hmap]
  exact filter_zip_eq mappings [] _ htracks.length_drop

/-! ## What the result depends on -/

/-- The conversation pairs that sharing with a bulk pair displaces turn no others away. -/
abbrev ConversationsUndisturbed (mappings : List HistoryLidMapping) : Prop :=
  Undisturbed Shares Bulk mappings

theorem filter_bulk_dedupe (mappings : List HistoryLidMapping) :
    (dedupeLidMappings mappings).filter (fun m => m.Bulk) =
      firstWins Shares (mappings.filter fun m => m.Bulk) := by
  rw [dedupeLidMappings_eq, filter_high_dedup]

/-- Two wire orders of the same bulk pairs and the same conversation pairs. -/
theorem filter_conversation_dedupe {mappings other : List HistoryLidMapping}
    (hbulk : (other.filter fun m => m.Bulk) = mappings.filter fun m => m.Bulk)
    (hconversation : (other.filter fun m => ¬ m.Bulk) = mappings.filter fun m => ¬ m.Bulk)
    (hfree : ConversationsUndisturbed mappings) :
    (dedupeLidMappings other).filter (fun m => ¬ m.Bulk) =
      (dedupeLidMappings mappings).filter fun m => ¬ m.Bulk := by
  have hsymm : ∀ a b, Shares a b → Shares b a := fun _ _ => Shares.symm
  have hdoomed : Doomed Shares Bulk other = Doomed Shares Bulk mappings := by
    unfold Doomed
    rw [hbulk]
  have hother : ConversationsUndisturbed other := by
    unfold ConversationsUndisturbed Undisturbed
    rw [hconversation, hdoomed]
    exact hfree
  rw [dedupeLidMappings_eq, dedupeLidMappings_eq, filter_low_dedup hsymm hother,
    filter_low_dedup hsymm hfree, hconversation]
  simp only [hdoomed]

/-- One pair is left for a LID and for a phone number.  A bulk pair gives way to an earlier
bulk pair alone, and the bulk pairs that are left depend on the bulk pairs alone.  The
conversation pairs that are left share nothing with them, and do not depend on the wire
order where no displaced one turned another away. -/
theorem dedupe_by_rank (mappings : List HistoryLidMapping) :
    (dedupeLidMappings mappings).Sublist mappings ∧
    ((dedupeLidMappings mappings).Pairwise fun a b =>
      a.lid ≠ b.lid ∧ a.phoneNumber ≠ b.phoneNumber) ∧
    (∀ before m after, mappings = before ++ m :: after → m.Bulk →
      m ∈ dedupeLidMappings mappings ∨
        ∃ b ∈ before, b.Bulk ∧ b ∈ dedupeLidMappings mappings ∧ b.Shares m) ∧
    (∀ b ∈ dedupeLidMappings mappings, b.Bulk →
      ∀ c ∈ mappings, ¬ c.Bulk → b.Shares c → c ∉ dedupeLidMappings mappings) ∧
    (∀ other : List HistoryLidMapping,
      (other.filter fun m => m.Bulk) = mappings.filter (fun m => m.Bulk) →
      (dedupeLidMappings other).filter (fun m => m.Bulk) =
        (dedupeLidMappings mappings).filter fun m => m.Bulk) ∧
    (∀ other : List HistoryLidMapping,
      (other.filter fun m => m.Bulk) = mappings.filter (fun m => m.Bulk) →
      (other.filter fun m => ¬ m.Bulk) = mappings.filter (fun m => ¬ m.Bulk) →
      ConversationsUndisturbed mappings →
      (dedupeLidMappings other).filter (fun m => ¬ m.Bulk) =
        (dedupeLidMappings mappings).filter fun m => ¬ m.Bulk) := by
  refine ⟨?_, ?_, ?_, ?_, ?_, fun other => filter_conversation_dedupe⟩
  · rw [dedupeLidMappings_eq]
    exact dedup_sublist Shares Bulk mappings
  · rw [dedupeLidMappings_eq]
    refine (pairwise_dedup Shares Bulk mappings).imp fun {a b} hfree => ?_
    exact ⟨fun hlid => hfree (.inl hlid), fun hphone => hfree (.inr hphone)⟩
  · intro before m after heq hbulk
    have hsplit : mappings.filter (fun m => m.Bulk) =
        before.filter (fun m => m.Bulk) ++ m :: after.filter (fun m => m.Bulk) := by
      rw [heq, List.filter_append, List.filter_cons, if_pos (by simpa using hbulk)]
    have hkept : ∀ b ∈ firstWins Shares (mappings.filter fun m => m.Bulk),
        b ∈ dedupeLidMappings mappings := by
      intro b hb
      rw [← filter_bulk_dedupe] at hb
      exact (List.mem_filter.mp hb).1
    rw [hsplit] at hkept
    rcases mem_firstWins_or Shares (before.filter fun m => m.Bulk)
      (after.filter fun m => m.Bulk) m with hm | ⟨b, hb, hfirst, hshares⟩
    · exact .inl (hkept m hm)
    · obtain ⟨hb, hbbulk⟩ := List.mem_filter.mp hb
      exact .inr ⟨b, hb, by simpa using hbbulk, hkept b hfirst, hshares⟩
  · intro b hb hbulk c _ hlow hshares hc
    rw [dedupeLidMappings_eq] at hb hc
    refine not_doomed_of_mem_dedup (fun _ _ => Shares.symm) hc hlow ⟨b, ?_, hshares⟩
    rw [← filter_high_dedup]
    exact List.mem_filter.mpr ⟨hb, by simpa using hbulk⟩
  · intro other hbulk
    rw [filter_bulk_dedupe, filter_bulk_dedupe, hbulk]

/-- The first of two bulk pairs with one phone number is left, so the second is not, which
no later pair supersedes; and a conversation pair is lost where another one of its phone
number came before the bulk pair that displaces that one. -/
theorem dedupe_first_bulk_and_wire_order :
    dedupeLidMappings [⟨"1", "A", .bulk⟩, ⟨"1", "B", .bulk⟩] = [⟨"1", "A", .bulk⟩] ∧
    dedupeLidMappings [⟨"3", "A", .bulk⟩, ⟨"1", "A", .conversation⟩, ⟨"1", "B", .conversation⟩] =
      [⟨"3", "A", .bulk⟩, ⟨"1", "B", .conversation⟩] ∧
    dedupeLidMappings [⟨"1", "A", .conversation⟩, ⟨"1", "B", .conversation⟩, ⟨"3", "A", .bulk⟩] =
      [⟨"3", "A", .bulk⟩] := by
  decide +kernel

end WaCore.HistorySync
