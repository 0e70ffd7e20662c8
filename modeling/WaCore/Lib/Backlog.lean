import Mathlib.Data.List.Basic
import Mathlib.Data.List.Perm.Subperm
import Mathlib.Tactic.Common

/-!
# Keys that are used once, in any order

A sender numbers its messages and uses a key for each number.  A receiver that
derives the keys in order has to put aside those of the messages it passes over,
and it has room for a bounded number of them.

For deliveries with the numbers `ds` to a receiver that started at `k`,
`position k ds` is the next number the receiver derives, and `skips k ds` are
the numbers it put aside, in the order it did so.  `Backlog` is what a receiver
owes: it holds the keys it put aside and did not use, except for such that at
least `room` later ones were put aside after.  The rules below say which steps
keep it, and what it says about a delivery: `Backlog.mem_held` for the first one
of a number, `Backlog.not_mem_held` for any other.
-/

namespace WaCore

/-- The next number of a receiver that started at `p`, after some deliveries. -/
def position : Nat → List Nat → Nat
  | p, [] => p
  | p, i :: is => position (if i < p then p else i + 1) is

/-- The numbers a receiver that started at `p` put aside, in order. -/
def skips : Nat → List Nat → List Nat
  | _, [] => []
  | p, i :: is => if i < p then skips p is else List.range' p (i - p) ++ skips (i + 1) is

section Runs

variable {p i : Nat} {ds : List Nat}

theorem position_append (p : Nat) (ds : List Nat) (i : Nat) :
    position p (ds ++ [i]) = if i < position p ds then position p ds else i + 1 := by
  induction ds generalizing p with
  | nil => rfl
  | cons d ds ih => exact ih _

theorem skips_append_of_lt (h : i < position p ds) : skips p (ds ++ [i]) = skips p ds := by
  induction ds generalizing p with
  | nil => exact if_pos h
  | cons d ds ih =>
    rw [position] at h
    rw [List.cons_append, skips, skips]
    split
    · rename_i hd
      rw [if_pos hd] at h
      exact ih h
    · rename_i hd
      rw [if_neg hd] at h
      rw [ih h]

theorem skips_append_of_le (h : position p ds ≤ i) :
    skips p (ds ++ [i]) = skips p ds ++ List.range' (position p ds) (i - position p ds) := by
  induction ds generalizing p with
  | nil =>
    have hnot : ¬ i < p := Nat.not_lt.mpr h
    simp [skips, position, hnot]
  | cons d ds ih =>
    rw [position] at h ⊢
    rw [List.cons_append, skips, skips]
    split
    · rename_i hd
      rw [if_pos hd] at h
      exact ih h
    · rename_i hd
      rw [if_neg hd] at h
      rw [ih h, List.append_assoc]

theorem le_position (p : Nat) (ds : List Nat) : p ≤ position p ds := by
  induction ds generalizing p with
  | nil => exact Nat.le_refl p
  | cons d ds ih =>
    refine Nat.le_trans ?_ (ih _)
    split <;> omega

theorem lt_position_of_mem (h : i ∈ ds) : i < position p ds := by
  induction ds generalizing p with
  | nil => cases h
  | cons d ds ih =>
    rcases List.mem_cons.mp h with rfl | h
    · refine Nat.lt_of_lt_of_le ?_ (le_position _ ds)
      split <;> omega
    · exact ih h

theorem skips_mem_bounds (h : i ∈ skips p ds) : p ≤ i ∧ i < position p ds := by
  induction ds generalizing p with
  | nil => cases h
  | cons d ds ih =>
    rw [skips] at h
    rw [position]
    split at h
    · rename_i hd
      rw [if_pos hd]
      exact ih h
    · rename_i hd
      rw [if_neg hd]
      rcases List.mem_append.mp h with h | h
      · have hle := le_position (d + 1) ds
        have hbounds := List.mem_range'_1.mp h
        omega
      · have hbounds := ih h
        omega

/-- A number below the position was put aside when the receiver passed it, or
was delivered right then. -/
theorem mem_skips_or_mem (hp : p ≤ i) (h : i < position p ds) : i ∈ skips p ds ∨ i ∈ ds := by
  induction ds generalizing p with
  | nil => exact absurd h (Nat.not_lt.mpr hp)
  | cons d ds ih =>
    rw [position] at h
    rw [skips, List.mem_cons]
    split
    · rename_i hd
      rw [if_pos hd] at h
      rcases ih hp h with h | h
      · exact .inl h
      · exact .inr (.inr h)
    · rename_i hd
      rw [if_neg hd] at h
      rw [List.mem_append, List.mem_range'_1]
      by_cases hlt : i < d
      · exact .inl (.inl (by omega))
      by_cases heq : i = d
      · exact .inr (.inl heq)
      · rcases ih (by omega) h with h | h
        · exact .inl (.inr h)
        · exact .inr (.inr h)

end Runs

/-- How many numbers were put aside after `i`. -/
def skippedAfter (p : Nat) (ds : List Nat) (i : Nat) : Nat :=
  ((skips p ds).filter (i < ·)).length

/-- The numbers in `held` are those a receiver has to have after the deliveries
`ds`. -/
structure Backlog (room p : Nat) (ds held : List Nat) : Prop where
  /-- Only what was put aside and not used is held. -/
  unused : ∀ i ∈ held, i ∈ skips p ds ∧ i ∉ ds
  /-- Only what is followed by `room` later ones was given up. -/
  crowded : ∀ i ∈ skips p ds, i ∉ ds → i ∉ held → room ≤ skippedAfter p ds i

namespace Backlog

variable {room p i : Nat} {ds held held' : List Nat}

theorem start (room p : Nat) : Backlog room p [] [] := ⟨nofun, nofun⟩

/-- The first delivery of a number that was passed finds its key. -/
theorem mem_held (h : Backlog room p ds held) (hp : p ≤ i) (hi : i < position p ds) (hnew : i ∉ ds)
    (hroom : skippedAfter p ds i < room) : i ∈ held := by
  by_contra hheld
  have hskipped := (mem_skips_or_mem hp hi).resolve_right hnew
  exact absurd (h.crowded i hskipped hnew hheld) (Nat.not_le.mpr hroom)

/-- A number that was passed is delivered: its key, if it is held, is given up. -/
theorem old (h : Backlog room p ds held) (hi : i < position p ds)
    (hheld : ∀ j, j ∈ held' ↔ j ∈ held ∧ j ≠ i) : Backlog room p (ds ++ [i]) held' := by
  refine ⟨fun j hj => ?_, fun j hj hnew hgone => ?_⟩
  · obtain ⟨hj, hne⟩ := (hheld j).mp hj
    obtain ⟨hskipped, hunused⟩ := h.unused j hj
    rw [skips_append_of_lt hi]
    exact ⟨hskipped, by simp [hunused, hne]⟩
  · rw [skips_append_of_lt hi] at hj
    rw [List.mem_append, List.mem_singleton, not_or] at hnew
    rw [skippedAfter, skips_append_of_lt hi]
    exact h.crowded j hj hnew.1 fun hheld' => hgone ((hheld j).mpr ⟨hheld', hnew.2⟩)

/-- A number ahead is delivered: the ones before it are put aside, and some of
those held are given up, each with `room` later ones held. -/
theorem ahead (h : Backlog room p ds held) (hi : position p ds ≤ i)
    (hheld : ∀ j ∈ held', j ∈ held ++ List.range' (position p ds) (i - position p ds))
    (hgiven : ∀ j ∈ held ++ List.range' (position p ds) (i - position p ds), j ∉ held' →
      room ≤ (held'.filter (j < ·)).length)
    (hnodup : held'.Nodup) : Backlog room p (ds ++ [i]) held' := by
  have hskips := skips_append_of_le hi
  have hunused : ∀ j ∈ held ++ List.range' (position p ds) (i - position p ds),
      j ∈ skips p (ds ++ [i]) ∧ j ∉ ds ++ [i] := by
    intro j hj
    rw [hskips, List.mem_append, List.mem_append, List.mem_singleton]
    rcases List.mem_append.mp hj with hj | hj
    · obtain ⟨hskipped, hnew⟩ := h.unused j hj
      have hlt := (skips_mem_bounds hskipped).2
      exact ⟨.inl hskipped, by rintro (hmem | rfl); exacts [hnew hmem, by omega]⟩
    · refine ⟨.inr hj, ?_⟩
      rw [List.mem_range'_1] at hj
      rintro (hmem | rfl)
      · have := lt_position_of_mem (p := p) hmem
        omega
      · omega
  refine ⟨fun j hj => hunused j (hheld j hj), fun j hj hnew hgone => ?_⟩
  by_cases hbefore : j ∈ held ++ List.range' (position p ds) (i - position p ds)
  · -- what is held after the number is part of what was put aside after it
    refine Nat.le_trans (hgiven j hbefore hgone) ?_
    refine (List.subperm_of_subset (hnodup.filter _) fun l hl => ?_).length_le
    rw [List.mem_filter] at hl ⊢
    exact ⟨(hunused l (hheld l hl.1)).1, hl.2⟩
  · rw [List.mem_append, not_or] at hbefore
    rw [hskips, List.mem_append] at hj
    rw [List.mem_append, not_or] at hnew
    have hold := h.crowded j (hj.resolve_right hbefore.2) hnew.1 hbefore.1
    refine Nat.le_trans hold ?_
    rw [skippedAfter, skippedAfter, hskips, List.filter_append, List.length_append]
    exact Nat.le_add_right _ _

/-- The receiver keeps the latest of the numbers it holds, and gives up some
only if it keeps at least `room`. -/
theorem ahead_of_suffix (h : Backlog room p ds held) (hi : position p ds ≤ i)
    (hsorted : (held ++ List.range' (position p ds) (i - position p ds)).Pairwise (· < ·))
    (hsuffix : held' <:+ held ++ List.range' (position p ds) (i - position p ds))
    (hroom : held' = held ++ List.range' (position p ds) (i - position p ds) ∨ room ≤ held'.length) :
    Backlog room p (ds ++ [i]) held' := by
  refine h.ahead hi (fun j hj => hsuffix.subset hj) (fun j hj hgone => ?_)
    ((hsorted.sublist hsuffix.sublist).imp Nat.ne_of_lt)
  rcases hroom with rfl | hroom
  · exact absurd hj hgone
  · obtain ⟨given, hgiven⟩ := hsuffix
    rw [← hgiven] at hsorted hj
    have hbefore := (List.mem_append.mp hj).resolve_right hgone
    have hall : held'.filter (j < ·) = held' := List.filter_eq_self.mpr fun l hl =>
      decide_eq_true ((List.pairwise_append.mp hsorted).2.2 j hbefore l hl)
    rwa [hall]

end Backlog

end WaCore
