import Mathlib.Data.List.Induction
import Mathlib.Order.Lattice

/-!
# Histories

A history is a list that grows at its end.  What was at a place stays there.
-/

namespace WaCore

variable {α : Type} {l : List α} {a b : α} {i : Nat}

theorem getElem?_concat_cases (h : (l ++ [a])[i]? = some b) :
    l[i]? = some b ∨ i = l.length ∧ b = a := by
  rcases Nat.lt_or_ge i l.length with hlt | hge
  · exact .inl ((List.getElem?_append_left hlt).symm.trans h)
  · rw [List.getElem?_append_right hge, List.getElem?_singleton] at h
    split at h
    · cases h
      exact .inr ⟨by omega, rfl⟩
    · cases h

theorem lt_of_getElem? (h : l[i]? = some a) : i < l.length := (List.getElem?_eq_some_iff.mp h).1

theorem getElem?_append_of (h : l[i]? = some a) (more : List α) : (l ++ more)[i]? = some a :=
  (List.getElem?_append_left (lt_of_getElem? h)).trans h

/-- In a descending list the elements above a bound come before the others. -/
theorem mem_takeWhile_of_descending {β : Type} [LinearOrder β] (key : α → β)
    (h : l.Pairwise fun a b => key b ≤ key a) {since : β} :
    a ∈ l.takeWhile (fun e => since < key e) ↔ a ∈ l ∧ since < key a := by
  induction l with
  | nil => simp
  | cons first rest ih =>
    obtain ⟨hfirst, hrest⟩ := List.pairwise_cons.mp h
    by_cases hlt : since < key first
    · rw [List.takeWhile_cons_of_pos (by simpa using hlt), List.mem_cons, List.mem_cons, ih hrest,
        or_and_right]
      exact or_congr_left ⟨fun heq => ⟨heq, heq ▸ hlt⟩, And.left⟩
    · rw [List.takeWhile_cons_of_neg (by simpa using hlt)]
      refine iff_of_false List.not_mem_nil fun ⟨hmem, habove⟩ => hlt ?_
      rcases List.mem_cons.mp hmem with rfl | hmem
      · exact habove
      · exact lt_of_lt_of_le habove (hfirst a hmem)

end WaCore
