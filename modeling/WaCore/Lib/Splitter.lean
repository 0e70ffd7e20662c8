import Mathlib.Data.List.Basic
import Mathlib.Tactic.Common

/-!
# Cutting a stream into items

A `Splitter` takes the first item off a list, if the list holds a whole one.  What
it cuts off does not depend on what comes later, so a stream that arrives piece by
piece is cut into the same items however it arrives: items may be taken off
between any two pieces, and the rest is kept for the next one.

`Yields input items rest` says that `items` can be cut off `input` one after the
other and `rest` is left.
-/

namespace WaCore

structure Splitter (τ α : Type) where
  cut : List τ → Option (α × List τ)
  shorter : ∀ {input a rest}, cut input = some (a, rest) → rest.length < input.length
  extend : ∀ {input a rest}, cut input = some (a, rest) →
    ∀ more, cut (input ++ more) = some (a, rest ++ more)

namespace Splitter

variable {τ α : Type} (S : Splitter τ α)

inductive Yields : List τ → List α → List τ → Prop where
  | nil (input : List τ) : Yields input [] input
  | cons {input mid rest : List τ} {a : α} {items : List α} (hcut : S.cut input = some (a, mid))
    (h : Yields mid items rest) : Yields input (a :: items) rest

/-- All whole items are cut off. -/
structure Splits (input : List τ) (items : List α) (rest : List τ) : Prop where
  yields : S.Yields input items rest
  done : S.cut rest = none

variable {S} {input mid rest : List τ} {items more : List α}

theorem Yields.trans (h : S.Yields input items mid) (h' : S.Yields mid more rest) :
    S.Yields input (items ++ more) rest := by
  induction h with
  | nil input => exact h'
  | cons hcut h ih => exact .cons hcut (ih h')

/-- Items can be cut off before the rest of the stream has arrived. -/
theorem Yields.append (h : S.Yields input items rest) (later : List τ) :
    S.Yields (input ++ later) items (rest ++ later) := by
  induction h with
  | nil input => exact .nil _
  | cons hcut h ih => exact .cons (S.extend hcut later) ih

/-- What can be cut off comes first in any way to cut the input up. -/
theorem Yields.splits_iff (h : S.Yields input items mid) {all : List α} :
    S.Splits input all rest ↔ ∃ more, all = items ++ more ∧ S.Splits mid more rest := by
  induction h generalizing all with
  | nil input => simp
  | @cons input next mid a items hcut h ih =>
    constructor
    · rintro ⟨hyields, hdone⟩
      cases hyields with
      | nil => rw [hcut] at hdone; cases hdone
      | cons hcut' hyields =>
        rw [hcut] at hcut'
        obtain ⟨rfl, rfl⟩ := Prod.mk.inj (Option.some.inj hcut')
        obtain ⟨more, rfl, hmore⟩ := ih.mp ⟨hyields, hdone⟩
        exact ⟨more, rfl, hmore⟩
    · rintro ⟨more, rfl, hmore⟩
      exact ⟨.cons hcut (h.trans hmore.yields), hmore.done⟩

theorem Splits.unique (h : S.Splits input items rest) {items' : List α} {rest' : List τ}
    (h' : S.Splits input items' rest') : items' = items ∧ rest' = rest := by
  obtain ⟨more, rfl, hyields, -⟩ := h.yields.splits_iff.mp h'
  cases hyields with
  | nil => simp
  | cons hcut => rw [h.done] at hcut; cases hcut

end Splitter

end WaCore
