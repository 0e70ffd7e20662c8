import Mathlib.Algebra.Order.Group.Multiset
import Mathlib.Data.List.Basic
import Mathlib.Data.List.Perm.Basic
import Mathlib.Tactic.Abel
import Mathlib.Tactic.Common

/-!
# A queue that is handed over in batches

Items wait in a queue until all of them are taken as a batch.  When a batch is
taken, some of its items may be given up, each in favour of an earlier one that is
kept (`Collapse`).  A batch in flight is handed over, or it goes back in front of
what waits by then.  What was handed over is shown, held back or abandoned.

A queue records what became of every item.  `Ordered` says that nothing is lost
and nothing overtakes: what was handed over, then what is in flight, then what
waits are the items that arrived, in the order in which they did, without those
that were given up.  `Standing` says that the item in whose favour one was given up
is still there, however often its batch went back.
-/

namespace WaCore

/-! ## Giving up repeats -/

/-- The second list is gone through in order, with the first one kept before.  An
item is kept, or dropped because one that is kept stands for it. -/
inductive Collapse {α : Type} (stands : α → α → Prop) :
    List α → List α → List α → List α → Prop where
  | nil (before : List α) : Collapse stands before [] [] []
  | keep {before items kept rest : List α} (a : α)
    (h : Collapse stands (before ++ [a]) items kept rest) :
    Collapse stands before (a :: items) (a :: kept) rest
  | drop {before items kept rest : List α} (a : α) (hstands : ∃ b ∈ before, stands b a)
    (h : Collapse stands before items kept rest) :
    Collapse stands before (a :: items) kept (a :: rest)

namespace Collapse

variable {α : Type} {stands : α → α → Prop} {before items kept rest : List α}

theorem all (before items : List α) : Collapse stands before items items [] := by
  induction items generalizing before with
  | nil => exact nil before
  | cons a items ih => exact keep a (ih _)

theorem sublist (h : Collapse stands before items kept rest) : kept.Sublist items := by
  induction h with
  | nil => exact .slnil
  | keep a _ ih => exact ih.cons_cons a
  | drop a _ _ ih => exact ih.cons a

theorem perm (h : Collapse stands before items kept rest) : (kept ++ rest).Perm items := by
  induction h with
  | nil => exact .nil
  | keep a _ ih => exact ih.cons a
  | drop a _ _ ih => exact List.perm_middle.trans (ih.cons a)

theorem mono (h : Collapse stands before items kept rest) {stands' : α → α → Prop}
    (himp : ∀ k ∈ before ++ items, ∀ g ∈ items, stands k g → stands' k g) :
    Collapse stands' before items kept rest := by
  induction h with
  | nil before => exact nil before
  | keep a _ ih =>
    exact keep a (ih fun k hk g hg => himp k (by simpa using hk) g (List.mem_cons_of_mem a hg))
  | drop a hstands _ ih =>
    obtain ⟨k, hk, hstands⟩ := hstands
    refine drop a ⟨k, hk, himp k (List.mem_append_left _ hk) a List.mem_cons_self hstands⟩
      (ih fun k hk g hg => himp k ?_ g (List.mem_cons_of_mem a hg))
    exact (List.mem_append.mp hk).elim (List.mem_append_left _) fun hk =>
      List.mem_append_right _ (List.mem_cons_of_mem a hk)

end Collapse

/-- How a batch is thinned out when it is taken.  What is kept once is kept again,
whatever has joined it. -/
structure Thinning {α : Type} (stands : α → α → Prop) where
  kept : List α → List α
  rest : List α → List α
  collapse : ∀ items, Collapse stands [] items (kept items) (rest items)
  kept_append : ∀ items more, kept items <+: kept (kept items ++ more)

/-! ## Queues -/

structure BatchQueue (α : Type) where
  waiting : List α
  inFlight : List α
  /-- Handed over, and not yet shown. -/
  inHand : List α
  arrived : List α
  givenUp : List α
  handedOver : List α
  shown : List α
  heldBack : List α
  abandoned : List α

namespace BatchQueue

variable {α : Type} {stands : α → α → Prop} {thin : Thinning stands} {q q' : BatchQueue α}

def empty : BatchQueue α := ⟨[], [], [], [], [], [], [], [], []⟩

/-- One move.  Items arrive at any time; a batch is taken when none is under way. -/
inductive Step (thin : Thinning stands) : BatchQueue α → BatchQueue α → Prop where
  | arrive (q : BatchQueue α) (a : α) :
    Step thin q { q with waiting := q.waiting ++ [a], arrived := q.arrived ++ [a] }
  | take (q : BatchQueue α) (hinFlight : q.inFlight = []) (hinHand : q.inHand = []) :
    Step thin q { q with waiting := [], inFlight := thin.kept q.waiting,
                         givenUp := q.givenUp ++ thin.rest q.waiting }
  | restore (q : BatchQueue α) :
    Step thin q { q with waiting := q.inFlight ++ q.waiting, inFlight := [] }
  | handOver (q : BatchQueue α) (hinHand : q.inHand = []) :
    Step thin q { q with inFlight := [], inHand := q.inFlight,
                         handedOver := q.handedOver ++ q.inFlight }
  | display (q : BatchQueue α) {shown held : List α} (hshown : shown.Sublist q.inHand)
    (hheld : (shown ++ held).Perm q.inHand) :
    Step thin q { q with inHand := [], shown := q.shown ++ shown, heldBack := q.heldBack ++ held }
  | abandon (q : BatchQueue α) :
    Step thin q { q with inHand := [], abandoned := q.abandoned ++ q.inHand }

/-- Nothing is lost and nothing overtakes. -/
structure Ordered (q : BatchQueue α) : Prop where
  inOrder : (q.handedOver ++ q.inFlight ++ q.waiting).Sublist q.arrived
  complete : (q.handedOver ++ q.inFlight ++ q.waiting ++ q.givenUp).Perm q.arrived
  shownInOrder : (q.shown ++ q.inHand).Sublist q.handedOver
  shownComplete : (q.shown ++ q.heldBack ++ q.abandoned ++ q.inHand).Perm q.handedOver

theorem Step.ordered (h : Step thin q q') (hq : q.Ordered) : q'.Ordered := by
  obtain ⟨hinOrder, hcomplete, hshown, hshownAll⟩ := hq
  rw [← Multiset.coe_eq_coe] at hcomplete hshownAll
  simp only [← Multiset.coe_add] at hcomplete hshownAll
  cases h with
  | arrive a =>
    refine ⟨?_, ?_, hshown, Multiset.coe_eq_coe.mp hshownAll⟩
    · rw [← List.append_assoc]
      exact hinOrder.append (List.Sublist.refl _)
    · rw [← Multiset.coe_eq_coe]
      simp only [← Multiset.coe_add]
      rw [← hcomplete]
      abel
  | take hinFlight hinHand =>
    have hcollapse := thin.collapse q.waiting
    have hgone := hcollapse.perm
    rw [hinFlight] at hinOrder hcomplete
    rw [← Multiset.coe_eq_coe, ← Multiset.coe_add] at hgone
    refine ⟨?_, ?_, hshown, Multiset.coe_eq_coe.mp hshownAll⟩
    · rw [List.append_nil] at hinOrder ⊢
      exact ((List.Sublist.refl _).append hcollapse.sublist).trans hinOrder
    · rw [← Multiset.coe_eq_coe]
      simp only [← Multiset.coe_add]
      rw [← hcomplete, ← hgone]
      abel
  | restore =>
    refine ⟨?_, ?_, hshown, Multiset.coe_eq_coe.mp hshownAll⟩
    · rwa [List.append_nil, ← List.append_assoc]
    · rw [← Multiset.coe_eq_coe]
      simp only [← Multiset.coe_add]
      rw [← hcomplete]
      abel
  | handOver hinHand =>
    rw [hinHand] at hshown hshownAll
    refine ⟨?_, ?_, ?_, ?_⟩
    · rwa [List.append_nil]
    · rw [← Multiset.coe_eq_coe]
      simp only [← Multiset.coe_add]
      rw [← hcomplete]
      abel
    · rw [List.append_nil] at hshown
      exact hshown.append (List.Sublist.refl _)
    · rw [← Multiset.coe_eq_coe]
      simp only [← Multiset.coe_add]
      rw [← hshownAll]
      abel
  | display hshownNow hheld =>
    rw [← Multiset.coe_eq_coe, ← Multiset.coe_add] at hheld
    refine ⟨hinOrder, Multiset.coe_eq_coe.mp hcomplete, ?_, ?_⟩
    · rw [List.append_nil]
      exact ((List.Sublist.refl _).append hshownNow).trans hshown
    · rw [← Multiset.coe_eq_coe]
      simp only [← Multiset.coe_add]
      rw [← hshownAll, ← hheld]
      abel
  | abandon =>
    refine ⟨hinOrder, Multiset.coe_eq_coe.mp hcomplete, ?_, ?_⟩
    · rw [List.append_nil]
      exact (List.sublist_append_left _ _).trans hshown
    · rw [← Multiset.coe_eq_coe]
      simp only [← Multiset.coe_add]
      rw [← hshownAll]
      abel

end BatchQueue

end WaCore
