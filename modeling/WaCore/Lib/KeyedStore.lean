import Mathlib.Data.List.AList
import Mathlib.Algebra.BigOperators.Group.List.Basic
import Mathlib.Data.List.Perm.Basic
import Mathlib.Tactic.Abel

/-!
# Keyed stores and lists in which the last row for a key wins

A keyed store is a finite map, one row for a key.  `total f` adds up a value
`f` of its rows, and the lemmas of the first part say how a deletion or a write
changes it: the row that was there goes out of the sum, the new one comes in.

The second part is about lists of keyed rows that stand for such a map.  The
row that counts for a key is the last one, and there are two ways to find it:
a scan from the back that skips the keys it has seen (`firstPerKey`), and a
stable sort whose runs of equal keys are cut at their last row (`runEnds`).
They find the same rows (`perm_runEnds_mergeSort`).
-/

namespace WaCore

/-- A finite map with one row for a key. -/
abbrev Keyed (K V : Type) := AList fun _ : K => V

namespace Keyed

variable {K V M : Type} [DecidableEq K]

/-- Write rows one after the other. -/
def putAll (rows : List (K × V)) (s : Keyed K V) : Keyed K V :=
  rows.foldl (fun s row => s.insert row.1 row.2) s

/-- Delete the rows of some keys. -/
def deleteAll (keys : List K) (s : Keyed K V) : Keyed K V :=
  keys.foldl (fun s k => s.erase k) s

@[simp] theorem putAll_nil (s : Keyed K V) : putAll [] s = s := rfl

@[simp] theorem putAll_cons (row : K × V) (rows : List (K × V)) (s : Keyed K V) :
    putAll (row :: rows) s = putAll rows (s.insert row.1 row.2) := rfl

@[simp] theorem deleteAll_nil (s : Keyed K V) : deleteAll [] s = s := rfl

@[simp] theorem deleteAll_cons (k : K) (ks : List K) (s : Keyed K V) :
    deleteAll (k :: ks) s = deleteAll ks (s.erase k) := rfl

theorem lookup_deleteAll (ks : List K) (s : Keyed K V) (k : K) :
    (deleteAll ks s).lookup k = if k ∈ ks then none else s.lookup k := by
  induction ks generalizing s with
  | nil => simp
  | cons a ks ih =>
    rw [deleteAll_cons, ih]
    by_cases hk : k = a
    · subst hk
      simp [AList.lookup_erase]
    · simp [hk]

/-- The rows of some keys, looked up one after the other. -/
def restrict (keys : List K) (s : Keyed K V) : Keyed K V :=
  keys.foldl (fun out k =>
    match s.lookup k with
    | some v => out.insert k v
    | none => out) ∅

theorem lookup_restrict_of_mem {keys : List K} (s : Keyed K V) {k : K} (hk : k ∈ keys) :
    (restrict keys s).lookup k = s.lookup k := by
  -- a key that is not asked for keeps the row it has so far
  have hfold : ∀ (keys : List K) (out : Keyed K V),
      (keys.foldl (fun out k => match s.lookup k with
        | some v => out.insert k v
        | none => out) out).lookup k
        = if k ∈ keys ∧ (s.lookup k).isSome then s.lookup k else out.lookup k := by
    intro keys
    induction keys with
    | nil => simp
    | cons a keys ih =>
      intro out
      rw [List.foldl_cons, ih]
      by_cases ha : k = a
      · subst ha
        cases hlook : s.lookup k <;> simp
      · cases s.lookup a <;> simp [ha]
  rw [restrict, hfold]
  cases hlook : s.lookup k <;> simp [hk]

/-! ## The total of a store -/

section Total

variable [AddCommGroup M] (f : V → M)

/-- The sum of a value of the rows. -/
def total (s : Keyed K V) : M := (s.entries.map fun row => f row.2).sum

/-- What the row of a key, if there is one, adds to the total. -/
def valueAt (s : Keyed K V) (k : K) : M := ((s.lookup k).map f).getD 0

omit [DecidableEq K] in
@[simp] theorem total_empty : total f (∅ : Keyed K V) = 0 := rfl

theorem total_erase (s : Keyed K V) (k : K) : total f (s.erase k) = total f s - valueAt f s k := by
  by_cases hk : k ∈ s
  · obtain ⟨v, l₁, l₂, hnot, hs, herase⟩ := List.exists_of_kerase (AList.mem_keys.mp hk)
    have hlook : s.lookup k = some v := by
      rw [AList.lookup, hs, List.dlookup_append, List.dlookup_eq_none.mpr hnot]
      simp
    have hentries : (s.erase k).entries = l₁ ++ l₂ := herase
    simp only [total, valueAt, hlook, hentries, hs, List.map_append, List.map_cons,
      List.sum_append, List.sum_cons, Option.map_some, Option.getD_some]
    abel
  · have hlook : s.lookup k = none := AList.lookup_eq_none.mpr hk
    have hentries : (s.erase k).entries = s.entries := List.kerase_of_notMem_keys hk
    simp [total, valueAt, hlook, hentries]

theorem total_insert (s : Keyed K V) (k : K) (v : V) :
    total f (s.insert k v) = total f s - valueAt f s k + f v := by
  rw [← total_erase]
  have hentries : (s.insert k v).entries = ⟨k, v⟩ :: (s.erase k).entries := rfl
  simp only [total, hentries, List.map_cons, List.sum_cons]
  abel

theorem valueAt_erase_of_ne (s : Keyed K V) {k a : K} (h : k ≠ a) :
    valueAt f (s.erase a) k = valueAt f s k := by
  rw [valueAt, valueAt, AList.lookup_erase_ne h]

theorem valueAt_insert_of_ne (s : Keyed K V) {k a : K} (v : V) (h : k ≠ a) :
    valueAt f (s.insert a v) k = valueAt f s k := by
  rw [valueAt, valueAt, AList.lookup_insert_ne h]

theorem valueAt_deleteAll (ks : List K) (s : Keyed K V) (k : K) :
    valueAt f (deleteAll ks s) k = if k ∈ ks then 0 else valueAt f s k := by
  rw [valueAt, lookup_deleteAll]
  split <;> simp [valueAt]

theorem total_deleteAll {ks : List K} (hks : ks.Nodup) (s : Keyed K V) :
    total f (deleteAll ks s) = total f s - (ks.map (valueAt f s)).sum := by
  induction ks generalizing s with
  | nil => simp
  | cons a ks ih =>
    obtain ⟨ha, hks⟩ := List.nodup_cons.mp hks
    have hrest : ks.map (valueAt f (s.erase a)) = ks.map (valueAt f s) := by
      refine List.map_congr_left fun k hk => valueAt_erase_of_ne f s ?_
      rintro rfl
      exact ha hk
    rw [deleteAll_cons, ih hks, total_erase, hrest, List.map_cons, List.sum_cons]
    abel

theorem total_putAll {rows : List (K × V)} (hrows : (rows.map Prod.fst).Nodup) (s : Keyed K V) :
    total f (putAll rows s)
      = total f s - (rows.map fun row => valueAt f s row.1).sum
        + (rows.map fun row => f row.2).sum := by
  induction rows generalizing s with
  | nil => simp
  | cons row rows ih =>
    rw [List.map_cons, List.nodup_cons] at hrows
    have hrest : (rows.map fun r => valueAt f (s.insert row.1 row.2) r.1)
        = rows.map fun r => valueAt f s r.1 := by
      refine List.map_congr_left fun r hr => valueAt_insert_of_ne f s row.2 ?_
      intro heq
      exact hrows.1 (heq ▸ List.mem_map_of_mem hr)
    rw [putAll_cons, ih hrows.2, total_insert, hrest]
    simp only [List.map_cons, List.sum_cons]
    abel

/-- What a batch does to the total when it deletes keys and then writes rows: a
key that it deletes has no row left to go out of the sum when it is written. -/
theorem total_putAll_deleteAll {ks : List K} {rows : List (K × V)} (hks : ks.Nodup)
    (hrows : (rows.map Prod.fst).Nodup) (s : Keyed K V) :
    total f (putAll rows (deleteAll ks s))
      = total f s
        - ((ks.map (valueAt f s)).sum
          + (rows.map fun row => if row.1 ∈ ks then 0 else valueAt f s row.1).sum)
        + (rows.map fun row => f row.2).sum := by
  rw [total_putAll f hrows, total_deleteAll f hks]
  simp only [valueAt_deleteAll]
  abel

end Total

end Keyed

/-! ## The last row for a key -/

section LastWins

variable {K α β : Type} [DecidableEq K] (key : α → K)

/-- The first row for each key that is not in `seen`. -/
def firstPerKey : List K → List α → List α
  | _, [] => []
  | seen, x :: xs =>
    if key x ∈ seen then firstPerKey seen xs else x :: firstPerKey (seen ++ [key x]) xs

theorem mem_firstPerKey (seen : List K) (xs : List α) (x : α) :
    x ∈ firstPerKey key seen xs
      ↔ key x ∉ seen ∧ (xs.filter fun y => key y = key x).head? = some x := by
  induction xs generalizing seen with
  | nil => simp [firstPerKey]
  | cons y xs ih =>
    rw [firstPerKey]
    by_cases hseen : key y ∈ seen
    · rw [if_pos hseen, ih]
      by_cases hkey : key y = key x
      · have : key x ∈ seen := hkey ▸ hseen
        simp [this]
      · simp [hkey]
    · rw [if_neg hseen, List.mem_cons, ih]
      by_cases hkey : key y = key x
      · have hnot : key x ∉ seen := hkey ▸ hseen
        simp [hkey, hnot, eq_comm]
      · have hne : x ≠ y := fun h => hkey (h ▸ rfl)
        have hne' : key x ≠ key y := fun h => hkey h.symm
        simp [hkey, hne, hne']

/-- When no two rows share a key, a scan only drops repetitions. -/
theorem mem_firstPerKey_of_injective {key : α → K} (hkey : Function.Injective key) (xs : List α)
    (x : α) : x ∈ firstPerKey key [] xs ↔ x ∈ xs := by
  rw [mem_firstPerKey]
  constructor
  · intro h
    exact List.mem_of_mem_filter (List.mem_of_mem_head? h.2)
  · intro h
    refine ⟨List.not_mem_nil, ?_⟩
    have hmem : x ∈ xs.filter fun y => key y = key x := List.mem_filter.mpr ⟨h, by simp⟩
    cases hfilter : xs.filter fun y => key y = key x with
    | nil => simp [hfilter] at hmem
    | cons y ys =>
      have hy : y ∈ xs.filter fun y => key y = key x := by simp [hfilter]
      have heq : key y = key x := by simpa using (List.mem_filter.mp hy).2
      rw [List.head?_cons, hkey heq]

theorem nodup_keys_firstPerKey (seen : List K) (xs : List α) :
    ((firstPerKey key seen xs).map key).Nodup := by
  induction xs generalizing seen with
  | nil => simp [firstPerKey]
  | cons y xs ih =>
    rw [firstPerKey]
    split
    · exact ih seen
    · rw [List.map_cons, List.nodup_cons]
      refine ⟨?_, ih _⟩
      intro hmem
      obtain ⟨x, hx, hkey⟩ := List.mem_map.mp hmem
      have hnot := ((mem_firstPerKey key _ xs x).mp hx).1
      exact hnot (by simp [hkey])

theorem firstPerKey_map (g : β → α) (seen : List K) (xs : List β) :
    firstPerKey key seen (xs.map g) = (firstPerKey (key ∘ g) seen xs).map g := by
  induction xs generalizing seen with
  | nil => rfl
  | cons x xs ih =>
    simp only [List.map_cons, firstPerKey, Function.comp_apply, ih]
    split <;> rfl

/-- The last row of each run of equal keys. -/
def runEnds : List α → List α
  | [] => []
  | x :: xs =>
    (xs.takeWhile fun y => key y = key x).getLastD x
      :: runEnds (xs.dropWhile fun y => key y = key x)
  termination_by xs => xs.length
  decreasing_by
    exact Nat.lt_succ_of_le (List.dropWhile_suffix _).length_le

section Sorted

variable {le : K → K → Bool}

/-- Past the rows for the first key of a sorted list there is none left for it. -/
theorem key_ne_of_mem_dropWhile (hanti : ∀ a b, le a b → le b a → a = b) {x : α} {xs : List α}
    (h : (x :: xs).Pairwise fun a b => le (key a) (key b)) {z : α}
    (hz : z ∈ xs.dropWhile fun y => key y = key x) : key z ≠ key x := by
  intro hzx
  obtain ⟨hx, hxs⟩ := List.pairwise_cons.mp h
  have hdrop := hxs.sublist (List.dropWhile_sublist fun y => decide (key y = key x))
  match hd : xs.dropWhile fun y => key y = key x with
  | [] => simp [hd] at hz
  | y :: ys =>
    rw [hd] at hz hdrop
    have hne : key y ≠ key x := by
      have := List.head_dropWhile_not (fun y => decide (key y = key x)) (l := xs) (by simp [hd])
      simpa [hd] using this
    rcases List.mem_cons.mp hz with rfl | hz
    · exact hne hzx
    · have hmem : y ∈ xs := (List.dropWhile_sublist _).subset (hd ▸ List.mem_cons_self)
      have hyz := (List.pairwise_cons.mp hdrop).1 z hz
      exact hne (hanti _ _ (hzx ▸ hyz) (hx y hmem))

omit [DecidableEq K] in
theorem key_getLastD {x : α} {run : List α} (hrun : ∀ z ∈ run, key z = key x) :
    key (run.getLastD x) = key x := by
  cases run with
  | nil => rfl
  | cons a run =>
    rw [List.getLastD_cons, List.getLastD_eq_getLast?]
    cases hlast : run.getLast? with
    | none => exact hrun a List.mem_cons_self
    | some z => exact hrun z (List.mem_cons_of_mem a (List.mem_of_getLast? hlast))

theorem key_of_mem_takeWhile {x z : α} {xs : List α}
    (hz : z ∈ xs.takeWhile fun y => key y = key x) : key z = key x := by
  simpa using List.all_eq_true.mp List.all_takeWhile z hz

theorem mem_runEnds (hanti : ∀ a b, le a b → le b a → a = b) {xs : List α}
    (h : xs.Pairwise fun a b => le (key a) (key b)) (x : α) :
    x ∈ runEnds key xs ↔ (xs.filter fun y => key y = key x).getLast? = some x := by
  fun_induction runEnds key xs with
  | case1 => simp
  | case2 x₀ xs ih =>
    have hdrop := (List.pairwise_cons.mp h).2.sublist
      (List.dropWhile_sublist fun y => decide (key y = key x₀))
    have hrest := fun z => key_ne_of_mem_dropWhile key hanti h (z := z)
    have hrun : ∀ z ∈ xs.takeWhile (fun y => key y = key x₀), key z = key x₀ :=
      fun z hz => key_of_mem_takeWhile key hz
    have hsplit : xs = xs.takeWhile (fun y => key y = key x₀)
        ++ xs.dropWhile (fun y => key y = key x₀) := List.takeWhile_append_dropWhile.symm
    rw [List.mem_cons, ih hdrop]
    conv_rhs => rw [hsplit]
    generalize xs.takeWhile (fun y => key y = key x₀) = run at *
    generalize xs.dropWhile (fun y => key y = key x₀) = rest at *
    by_cases hkey : key x₀ = key x
    · -- the run is all that there is for this key
      have hnone : rest.filter (fun y => key y = key x) = [] := by
        simpa [hkey] using hrest
      have hall : run.filter (fun y => key y = key x) = run := by
        simpa [hkey] using hrun
      rw [List.filter_cons_of_pos (by simpa using hkey), List.filter_append, hall, hnone, List.getLast?_cons, List.getLast?_nil]
      simp [eq_comm]
    · have hnone : run.filter (fun y => key y = key x) = [] := by
        simp only [List.filter_eq_nil_iff, decide_eq_true_eq]
        intro z hz
        rw [hrun z hz]
        exact hkey
      have hne : x ≠ run.getLastD x₀ := fun heq => hkey (by rw [heq, key_getLastD key hrun])
      rw [List.filter_cons_of_neg (by simpa using hkey), List.filter_append, hnone,
        List.nil_append, or_iff_right hne]

theorem nodup_keys_runEnds (hanti : ∀ a b, le a b → le b a → a = b) {xs : List α}
    (h : xs.Pairwise fun a b => le (key a) (key b)) : ((runEnds key xs).map key).Nodup := by
  fun_induction runEnds key xs with
  | case1 => simp
  | case2 x₀ xs ih =>
    have hdrop := (List.pairwise_cons.mp h).2.sublist
      (List.dropWhile_sublist fun y => decide (key y = key x₀))
    rw [List.map_cons, List.nodup_cons]
    refine ⟨?_, ih hdrop⟩
    intro hmem
    obtain ⟨z, hz, hkey⟩ := List.mem_map.mp hmem
    have hin : z ∈ xs.dropWhile fun y => key y = key x₀ :=
      List.mem_of_mem_filter (List.mem_of_getLast? ((mem_runEnds key hanti hdrop z).mp hz))
    apply key_ne_of_mem_dropWhile key hanti h hin
    rw [hkey]
    exact key_getLastD key fun z hz => key_of_mem_takeWhile key hz

/-- A stable sort by key keeps the rows of one key in their order. -/
theorem filter_key_mergeSort (htrans : ∀ a b c, le a b → le b c → le a c)
    (htotal : ∀ a b, le a b || le b a) (xs : List α) (k : K) :
    (xs.mergeSort fun a b => le (key a) (key b)).filter (fun y => key y = k)
      = xs.filter fun y => key y = k := by
  have hrefl : ∀ a, le a a := fun a => by simpa using htotal a a
  have hperm := List.mergeSort_perm xs fun a b => le (key a) (key b)
  have hsame : (xs.filter fun y => key y = k).Pairwise fun a b => le (key a) (key b) := by
    refine List.pairwise_of_forall_mem_list fun a ha b hb => ?_
    have ha' : key a = k := by simpa using List.of_mem_filter ha
    have hb' : key b = k := by simpa using List.of_mem_filter hb
    rw [ha', hb']
    exact hrefl k
  have hsub := List.sublist_mergeSort (fun a b c => htrans (key a) (key b) (key c))
    (fun a b => htotal (key a) (key b)) hsame List.filter_sublist
  have hsub' := hsub.filter fun y => decide (key y = k)
  rw [List.filter_filter] at hsub'
  simp only [Bool.and_self] at hsub'
  exact (hsub'.eq_of_length (hperm.filter _).length_eq.symm).symm

/-- The two ways to find the rows that count find the same ones. -/
theorem perm_runEnds_mergeSort (htrans : ∀ a b c, le a b → le b c → le a c)
    (htotal : ∀ a b, le a b || le b a) (hanti : ∀ a b, le a b → le b a → a = b)
    (xs : List α) :
    (runEnds key (xs.mergeSort fun a b => le (key a) (key b))).Perm
      (firstPerKey key [] xs.reverse) := by
  have hsorted := List.pairwise_mergeSort (fun a b c => htrans (key a) (key b) (key c))
    (fun a b => htotal (key a) (key b)) xs
  rw [List.perm_ext_iff_of_nodup (List.Nodup.of_map key (nodup_keys_runEnds key hanti hsorted))
    (List.Nodup.of_map key (nodup_keys_firstPerKey key [] _))]
  intro x
  rw [mem_runEnds key hanti hsorted, mem_firstPerKey, filter_key_mergeSort key htrans htotal,
    List.filter_reverse]
  simp

end Sorted

end LastWins

end WaCore
