import Mathlib.Data.List.Basic
import Mathlib.Tactic.Common

/-!
# Partition in place

One pass over a vector that drops some elements and brings others to the front,
with `swap` and `swap_remove` and no second vector.  The order of what is left is
not kept.

In a round the vector is `front ++ kept ++ rest`: what was brought to the front,
what stays behind it, and what has not been looked at.
-/

namespace WaCore.InPlace

variable {α : Type}

/-- `Vec::swap`. -/
def swap (l : List α) (i j : Nat) : List α :=
  match l[i]?, l[j]? with
  | some a, some b => (l.set i b).set j a
  | _, _ => l

/-- `Vec::swap_remove`: the last element takes the place of the one at `i`. -/
def swapRemove (l : List α) (i : Nat) : List α :=
  match l.getLast? with
  | some last => (l.set i last).dropLast
  | none => []

variable (drop front : α → Bool)

/-- The pass from index `i` on, with `k` elements at the front; a round looks at one
element, so that the number of elements bounds the rounds. -/
def partitionLoop : Nat → List α → Nat → Nat → List α × Nat
  | 0, l, _, k => (l, k)
  | rounds + 1, l, i, k =>
    match l[i]? with
    | none => (l, k)
    | some a =>
      if drop a then partitionLoop rounds (swapRemove l i) i k
      else if front a then partitionLoop rounds (swap l i k) (i + 1) (k + 1)
      else partitionLoop rounds l (i + 1) k

def partition (l : List α) : List α × Nat := partitionLoop drop front l.length l 0 0

/-! ## One round -/

theorem swap_self (l : List α) (i : Nat) : swap l i i = l := by
  rw [swap]
  cases h : l[i]? with
  | none => rfl
  | some a =>
    obtain ⟨hi, rfl⟩ := List.getElem?_eq_some_iff.mp h
    simp

theorem swap_append (front kept rest : List α) (a b : α) :
    swap (front ++ b :: kept ++ a :: rest) (front.length + (kept.length + 1)) front.length
      = front ++ a :: kept ++ b :: rest := by
  simp [swap]

theorem swapRemove_append_nil (l : List α) (a : α) : swapRemove (l ++ [a]) l.length = l := by
  simp [swapRemove]

theorem swapRemove_append_concat (l rest : List α) (a last : α) :
    swapRemove (l ++ a :: (rest ++ [last])) l.length = l ++ last :: rest := by
  have hlast : (l ++ a :: (rest ++ [last])).getLast? = some last := by
    rw [← List.cons_append, ← List.append_assoc, List.getLast?_concat]
  have hset : (l ++ a :: (rest ++ [last])).set l.length last = (l ++ last :: rest) ++ [last] := by
    simp
  rw [swapRemove, hlast]
  dsimp only
  rw [hset, List.dropLast_concat]

/-! ## The pass -/

/-- The vector after a pass: what is not dropped, and the front of it comes first. -/
structure Partitioned (l : List α) (r : List α × Nat) : Prop where
  perm : r.1.Perm (l.filter fun a => !drop a)
  front_take : ∀ a ∈ r.1.take r.2, front a = true
  front_drop : ∀ a ∈ r.1.drop r.2, front a = false

variable {drop front}

theorem partitionLoop_eq {rounds : Nat} {first kept rest : List α}
    (hfirst : ∀ a ∈ first, front a = true) (hkept : ∀ a ∈ kept, front a = false)
    (hrounds : rest.length ≤ rounds) :
    ∃ first' kept', partitionLoop drop front rounds (first ++ kept ++ rest)
          (first.length + kept.length) first.length = (first' ++ kept', first'.length)
      ∧ (∀ a ∈ first', front a = true) ∧ (∀ a ∈ kept', front a = false)
      ∧ (first' ++ kept').Perm (first ++ kept ++ rest.filter fun a => !drop a) := by
  induction rounds generalizing first kept rest with
  | zero =>
    obtain rfl := List.eq_nil_of_length_eq_zero (Nat.le_zero.mp hrounds)
    exact ⟨first, kept, by simp [partitionLoop], hfirst, hkept, by simp⟩
  | succ rounds ih =>
    cases rest with
    | nil => exact ⟨first, kept, by simp [partitionLoop], hfirst, hkept, by simp⟩
    | cons a rest =>
      have hget : (first ++ kept ++ a :: rest)[first.length + kept.length]? = some a := by
        simp [List.append_assoc]
      have hshort : rest.length ≤ rounds := Nat.le_of_succ_le_succ hrounds
      rw [partitionLoop, hget]
      dsimp only
      by_cases hdrop : drop a = true
      · -- the last element comes to this place and is looked at next
        rw [if_pos hdrop, List.filter_cons_of_neg (by simp [hdrop])]
        rcases List.eq_nil_or_concat rest with rfl | ⟨rest, last, rfl⟩
        · rw [← List.length_append, swapRemove_append_nil]
          have := @ih first kept [] hfirst hkept (Nat.zero_le _)
          rwa [List.append_nil, ← List.length_append] at this
        · rw [← List.length_append, List.concat_eq_append, swapRemove_append_concat]
          have hlen : (last :: rest).length ≤ rounds := by
            simpa using hshort
          obtain ⟨first', kept', hloop, hfirst', hkept', hperm⟩ := ih hfirst hkept hlen
          rw [← List.length_append] at hloop
          refine ⟨first', kept', hloop, hfirst', hkept', hperm.trans (.append_left _ ?_)⟩
          exact ((List.perm_append_singleton last rest).symm).filter _
      · rw [if_neg hdrop, List.filter_cons_of_pos (by simp [hdrop])]
        by_cases hfront : front a = true
        · rw [if_pos hfront]
          have hmore : ∀ b ∈ first ++ [a], front b = true :=
            List.forall_mem_append.mpr ⟨hfirst, List.forall_mem_singleton.mpr hfront⟩
          cases kept with
          | nil =>
            have := @ih (first ++ [a]) [] rest hmore hkept hshort
            simpa [swap_self] using this
          | cons b kept =>
            have hrest : ∀ c ∈ kept ++ [b], front c = false := by
              obtain ⟨hb, hkept⟩ := List.forall_mem_cons.mp hkept
              exact List.forall_mem_append.mpr ⟨hkept, List.forall_mem_singleton.mpr hb⟩
            obtain ⟨first', kept', hloop, hfirst', hkept', hperm⟩ := ih hmore hrest hshort
            refine ⟨first', kept', ?_, hfirst', hkept', hperm.trans ?_⟩
            · rw [List.length_cons, swap_append]
              simpa [Nat.add_assoc, Nat.add_left_comm] using hloop
            · simp only [List.append_assoc]
              refine .append_left first ?_
              exact ((List.perm_middle.cons a).trans (.swap b a _)).trans (List.perm_middle.symm.cons b)
        · rw [if_neg hfront]
          have hmore : ∀ b ∈ kept ++ [a], front b = false := by
            intro b hb
            rcases List.mem_append.mp hb with hb | hb
            · exact hkept b hb
            · rw [List.mem_singleton.mp hb]
              exact Bool.eq_false_iff.mpr hfront
          have := ih hfirst hmore hshort
          simpa [Nat.add_assoc] using this

/-- The pass drops and brings to the front what it should. -/
theorem partitioned_partition (l : List α) : Partitioned drop front l (partition drop front l) := by
  obtain ⟨first, kept, hloop, hfirst, hkept, hperm⟩ :=
    @partitionLoop_eq α drop front l.length [] [] l nofun nofun (Nat.le_refl _)
  have hpartition : partition drop front l = (first ++ kept, first.length) := hloop
  rw [hpartition]
  refine ⟨hperm, ?_, ?_⟩
  · rw [List.take_left]
    exact hfirst
  · rw [List.drop_left]
    exact hkept

end WaCore.InPlace
