import Mathlib.Logic.Function.Basic
import Mathlib.Tactic.Common

/-!
# Tables with linear probing

A table has `n` slots, and an element is put into the first free slot from its
home on, wrapping around.  A search starts at the home of what it looks for, and
goes on until it accepts an element or meets a free slot.

`Reaches` says that an element is found on that way.  Filling a free slot keeps
it, for the elements that were there (`Reaches.fill`) and for the new one
(`reaches_fill`).  While one slot is free, a search ends within `n` steps: with
what it looks for if that is there (`Searches.eq_found`), with nothing otherwise
(`Searches.eq_missing`).
-/

namespace WaCore.Probing

variable {α γ : Type} {n : Nat} {slots : Nat → Option α} {home : Nat} {a : α}

/-- An element stands on the way from a slot, with no free slot before it. -/
def Reaches (n : Nat) (slots : Nat → Option α) (home : Nat) (a : α) : Prop :=
  ∃ d, slots ((home + d) % n) = some a ∧ ∀ i < d, slots ((home + i) % n) ≠ none

theorem update_ne_none {s t : Nat} {b : α} (h : slots t ≠ none) :
    Function.update slots s (some b) t ≠ none := by
  rw [Function.update_apply]
  split
  · exact Option.some_ne_none b
  · exact h

theorem Reaches.fill {s : Nat} {b : α} (hfree : slots s = none) (h : Reaches n slots home a) :
    Reaches n (Function.update slots s (some b)) home a := by
  obtain ⟨d, hd, hfull⟩ := h
  refine ⟨d, ?_, fun i hi => update_ne_none (hfull i hi)⟩
  have hne : (home + d) % n ≠ s := by
    rintro rfl
    rw [hfree] at hd
    cases hd
  rw [Function.update_of_ne hne, hd]

theorem reaches_fill {d : Nat} (hfull : ∀ i < d, slots ((home + i) % n) ≠ none) :
    Reaches n (Function.update slots ((home + d) % n) (some a)) home a :=
  ⟨d, Function.update_self _ _ _, fun i hi => update_ne_none (hfull i hi)⟩

/-- A free slot is met from everywhere. -/
theorem exists_free {s : Nat} (hs : s < n) (hfree : slots s = none) (home : Nat) :
    ∃ d < n, slots ((home + d) % n) = none := by
  have hpos : 0 < n := Nat.zero_lt_of_lt hs
  have hhome := Nat.mod_lt home hpos
  refine ⟨(s + (n - home % n)) % n, Nat.mod_lt _ hpos, ?_⟩
  have hslot : (home + (s + (n - home % n)) % n) % n = s := by
    rw [Nat.add_mod_mod, ← Nat.mod_add_mod,
      show home % n + (s + (n - home % n)) = s + n by omega, Nat.add_mod_right,
      Nat.mod_eq_of_lt hs]
  rw [hslot, hfree]

theorem succ_step (h i : Nat) : ((h + 1) % n + i) % n = (h + (i + 1)) % n := by
  rw [Nat.mod_add_mod]
  congr 1
  omega

/-- A function of its fuel and a slot goes on from slot to slot, to the first that is
free or that it stops at. -/
structure Searches (n : Nat) (slots : Nat → Option α) (Stops : α → Prop) (found missing : γ)
    (f : Nat → Nat → γ) : Prop where
  free : ∀ {fuel h}, h < n → slots h = none → f (fuel + 1) h = missing
  stop : ∀ {fuel h a}, h < n → slots h = some a → Stops a → f (fuel + 1) h = found
  next : ∀ {fuel h a}, h < n → slots h = some a → ¬ Stops a → f (fuel + 1) h = f fuel ((h + 1) % n)

namespace Searches

variable {Stops : α → Prop} {found missing r : γ} {f : Nat → Nat → γ} {fuel h d : Nat}

/-- The search has its result at the latest at a slot that ends it. -/
theorem eq (hf : Searches n slots Stops found missing f) (hh : h < n) (hfuel : d < fuel)
    (hend : ∀ a, slots ((h + d) % n) = some a → Stops a)
    (hmissing : ∀ i ≤ d, slots ((h + i) % n) = none → r = missing)
    (hfound : ∀ s a, slots s = some a → Stops a → r = found) : f fuel h = r := by
  induction fuel generalizing h d with
  | zero => cases hfuel
  | succ fuel ih =>
    have hhere : (h + 0) % n = h := Nat.mod_eq_of_lt hh
    cases hslot : slots h with
    | none => rw [hf.free hh hslot, hmissing 0 (Nat.zero_le _) (by rwa [hhere])]
    | some a =>
      by_cases hstop : Stops a
      · rw [hf.stop hh hslot hstop, hfound h a hslot hstop]
      · rw [hf.next hh hslot hstop]
        cases d with
        | zero => exact absurd (hend a (by rwa [hhere])) hstop
        | succ d =>
          refine ih (Nat.mod_lt _ (Nat.zero_lt_of_lt hh)) (Nat.lt_of_succ_lt_succ hfuel) ?_ ?_
          · rwa [succ_step]
          · intro i hi
            rw [succ_step]
            exact hmissing (i + 1) (Nat.succ_le_succ hi)

variable (hf : Searches n slots Stops found missing f) (hempty : ∃ s < n, slots s = none)
  (hh : h < n) (hfuel : n ≤ fuel)
include hf hempty hh hfuel

theorem eq_missing (hnone : ∀ s a, slots s = some a → ¬ Stops a) : f fuel h = missing := by
  obtain ⟨s, hs, hfree⟩ := hempty
  obtain ⟨d, hd, hfree⟩ := exists_free hs hfree h
  refine hf.eq hh (show d < fuel by omega) (fun a ha => ?_) (fun _ _ _ => rfl) fun s a ha hstop =>
    absurd hstop (hnone s a ha)
  rw [hfree] at ha
  cases ha

theorem eq_found (hreach : Reaches n slots h a) (hstop : Stops a) : f fuel h = found := by
  obtain ⟨s, hs, hfree⟩ := hempty
  obtain ⟨e, he, hfree⟩ := exists_free hs hfree h
  obtain ⟨d, hd, hfull⟩ := hreach
  have hle : d ≤ e := Nat.le_of_not_lt fun hlt => hfull e hlt hfree
  refine hf.eq hh (show d < fuel by omega) (fun b hb => ?_) (fun i hi hnone => ?_)
    fun _ _ _ _ => rfl
  · rw [hd] at hb
    cases hb
    exact hstop
  · rcases Nat.lt_or_eq_of_le hi with hlt | rfl
    · exact absurd hnone (hfull i hlt)
    · rw [hd] at hnone
      cases hnone

end Searches

end WaCore.Probing
