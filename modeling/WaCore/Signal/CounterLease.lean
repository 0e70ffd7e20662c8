import WaCore.Lib.Counter
import Mathlib.Tactic.Common

/-!
# Leased counters

`CounterLease` (`protocol/counter_lease.rs`): a record reserves the counters
below a ceiling ahead of their use.  Raising the ceiling asks for a flush before
the message goes out; the counters below it need none, since a record that is
loaded again starts at the ceiling.
-/

namespace WaCore.Signal

def SENDER_CHAIN_RESERVATION_BATCH : UInt32 := 64

def MAX_RESERVATION_FAST_FORWARD : UInt32 := 2000

inductive CounterLease where
  | leased (ceiling : UInt32) (pendingFlush : Bool)
  | waived
  deriving DecidableEq, Repr

namespace CounterLease

/-- The lease of a new record. -/
def fresh : CounterLease := leased 0 false

def fromPersistedCeiling (ceiling : UInt32) : CounterLease := leased ceiling false

def ceiling : CounterLease → UInt32
  | leased ceiling _ => ceiling
  | waived => 0

def isPendingFlush : CounterLease → Bool
  | leased _ pendingFlush => pendingFlush
  | waived => false

/-- Reserve a batch once the counter that was used reaches the ceiling. -/
def reserve (spentCounter : UInt32) : CounterLease → CounterLease
  | leased ceiling pendingFlush =>
    if ceiling ≤ spentCounter then
      leased (saturatingAdd spentCounter SENDER_CHAIN_RESERVATION_BATCH) true
    else leased ceiling pendingFlush
  | waived => waived

def setPendingFlush (pending : Bool) : CounterLease → CounterLease
  | leased ceiling _ => leased ceiling pending
  | waived => waived

def clearReservation : CounterLease → CounterLease
  | leased _ pendingFlush => leased 0 pendingFlush
  | waived => waived

def rebase : CounterLease → CounterLease
  | leased ceiling pendingFlush => leased (min ceiling SENDER_CHAIN_RESERVATION_BATCH) pendingFlush
  | waived => waived

/-- Nothing is reserved from here on. -/
def waive (_ : CounterLease) : CounterLease := waived

/-- The lease is in force. -/
def IsLeased : CounterLease → Prop
  | leased _ _ => True
  | waived => False

variable {lease : CounterLease}

theorem IsLeased.reserve (h : lease.IsLeased) (spentCounter : UInt32) :
    (lease.reserve spentCounter).IsLeased := by
  cases lease with
  | leased ceiling pendingFlush =>
    rw [CounterLease.reserve]
    split <;> trivial
  | waived => exact h

theorem IsLeased.clearReservation (h : lease.IsLeased) : lease.clearReservation.IsLeased := by
  cases lease with
  | leased ceiling pendingFlush => trivial
  | waived => exact h

/-- A use above the ceiling asks for a flush, and one below it changes nothing. -/
theorem IsLeased.reserve_cases (h : lease.IsLeased) (spentCounter : UInt32) :
    (lease.reserve spentCounter).isPendingFlush = true
      ∨ (spentCounter < lease.ceiling ∧ lease.reserve spentCounter = lease) := by
  cases lease with
  | leased ceiling pendingFlush =>
    rw [CounterLease.reserve]
    split
    · exact .inl rfl
    · rename_i hbelow
      exact .inr ⟨UInt32.not_le.mp hbelow, rfl⟩
  | waived => cases h

theorem IsLeased.setPendingFlush (h : lease.IsLeased) (pending : Bool) :
    (lease.setPendingFlush pending).IsLeased := by
  cases lease with
  | leased ceiling pendingFlush => trivial
  | waived => exact h

@[simp] theorem ceiling_setPendingFlush (lease : CounterLease) (pending : Bool) :
    (lease.setPendingFlush pending).ceiling = lease.ceiling := by
  cases lease <;> rfl

/-- A use reserves at most one batch ahead of it. -/
theorem ceiling_reserve_le (lease : CounterLease) (spentCounter : UInt32) :
    (lease.reserve spentCounter).ceiling.toNat
      ≤ max lease.ceiling.toNat (spentCounter.toNat + SENDER_CHAIN_RESERVATION_BATCH.toNat) := by
  cases lease with
  | leased ceiling pendingFlush =>
    rw [reserve]
    split
    · refine Nat.le_trans ?_ (Nat.le_max_right _ _)
      rw [CounterLease.ceiling, toNat_saturatingAdd]
      exact Nat.min_le_left _ _
    · exact Nat.le_max_left _ _
  | waived => exact Nat.zero_le _

theorem ceiling_rebase_le (lease : CounterLease) :
    lease.rebase.ceiling ≤ SENDER_CHAIN_RESERVATION_BATCH := by
  cases lease with
  | leased ceiling pendingFlush =>
    change (if ceiling ≤ SENDER_CHAIN_RESERVATION_BATCH then ceiling
      else SENDER_CHAIN_RESERVATION_BATCH) ≤ SENDER_CHAIN_RESERVATION_BATCH
    split
    · assumption
    · exact UInt32.le_refl _
  | waived => exact UInt32.le_iff_toNat_le.mpr (Nat.zero_le _)

@[simp] theorem ceiling_clearReservation (lease : CounterLease) :
    lease.clearReservation.ceiling = 0 := by
  cases lease <;> rfl

end CounterLease

end WaCore.Signal
