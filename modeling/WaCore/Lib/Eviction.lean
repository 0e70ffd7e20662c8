import Mathlib.Data.List.Sort
import Mathlib.Data.List.Perm.Subperm

/-!
# Dropping the smallest elements of an unordered list

A buffer that is never kept in order makes room by dropping its `n` smallest
elements: it finds the `n`-th smallest, and then removes, in one pass, what does
not exceed it.  An element is removed by moving the last one into its place.

`countP_le_nth` is why a pass that stops after `n` removals has removed all of
them, and `perm_dropLast_set` is what one removal does.
-/

namespace WaCore

section Removal

variable {α : Type} {l : List α} {i : Nat} {last : α}

/-- Moving the last element into a place removes what stood there. -/
theorem perm_dropLast_set (hi : i < l.length) (hlast : l.getLast? = some last) :
    (l.set i last).dropLast.Perm (l.eraseIdx i) := by
  obtain ⟨init, rfl⟩ := List.getLast?_eq_some_iff.mp hlast
  rw [List.length_append, List.length_singleton] at hi
  rcases Nat.lt_succ_iff_lt_or_eq.mp hi with hlt | rfl
  · rw [List.set_append_left _ _ hlt, List.dropLast_concat, List.eraseIdx_append_of_lt_length hlt]
    exact (List.set_perm_cons_eraseIdx hlt last).trans (List.perm_append_singleton _ _).symm
  · rw [List.eraseIdx_append_of_length_le (Nat.le_refl _)]
    simp

/-- The elements before the place stay where they are. -/
theorem take_dropLast_set (hi : i < l.length) : (l.set i last).dropLast.take i = l.take i := by
  rw [List.dropLast_eq_take, List.take_take, List.length_set, Nat.min_eq_left (by omega),
    List.take_set_of_le (Nat.le_refl i)]

end Removal

/-- As many elements as its place says do not exceed an element of the sorted
list. -/
theorem countP_le_nth {α : Type} (r : α → α → Prop) [DecidableRel r] [Std.Total r] [IsTrans α r]
    [Std.Antisymm r] {l : List α} (hnodup : l.Nodup) {n : Nat} {t : α}
    (ht : (l.mergeSort (r · ·))[n]? = some t) : l.countP (r · t) = n + 1 := by
  generalize hs : l.mergeSort (r · ·) = s at ht
  have hperm : s.Perm l := hs ▸ List.mergeSort_perm l _
  have hsorted : s.Pairwise r := hs ▸ List.pairwise_mergeSort' r l
  have hdistinct : s.Nodup := hperm.nodup_iff.mpr hnodup
  obtain ⟨hn, hnth⟩ := List.getElem?_eq_some_iff.mp ht
  have hbelow : (s.take (n + 1)).countP (r · t) = (s.take (n + 1)).length := by
    refine List.countP_eq_length.mpr fun a ha => decide_eq_true ?_
    obtain ⟨j, hj, rfl⟩ := List.mem_take_iff_getElem.mp ha
    rcases Nat.lt_succ_iff_lt_or_eq.mp (show j < n + 1 by omega) with hlt | rfl
    · exact hnth ▸ List.pairwise_iff_getElem.mp hsorted j n _ hn hlt
    · exact hnth ▸ Std.Refl.refl _
  have habove : (s.drop (n + 1)).countP (r · t) = 0 := by
    refine List.countP_eq_zero.mpr fun a ha hle => ?_
    obtain ⟨j, hj, rfl⟩ := List.mem_drop_iff_getElem.mp ha
    have hge := List.pairwise_iff_getElem.mp hsorted n (n + 1 + j) hn (by omega) (by omega)
    have heq := Std.Antisymm.antisymm _ _ (of_decide_eq_true hle) (hnth ▸ hge)
    have := (List.Nodup.getElem_inj_iff hdistinct).mp (heq.trans hnth.symm)
    omega
  have hlength : (s.take (n + 1)).length = n + 1 := List.length_take_of_le (by omega)
  rw [← hperm.countP_eq, ← List.take_append_drop (n + 1) s, List.countP_append, hbelow, habove,
    hlength]

end WaCore
