import Mathlib.Data.UInt

/-!
# Counters of 32 bits

The arithmetic on `u32` that a counter needs: a successor that fails at the end
of the range, and sums and differences that stop there.
-/

namespace WaCore

/-- `u32::checked_add(1)`. -/
def checkedSucc (n : UInt32) : Option UInt32 := if n.toNat + 1 < 2 ^ 32 then some (n + 1) else none

/-- `u32::saturating_add`. -/
def saturatingAdd (n k : UInt32) : UInt32 :=
  if n.toNat + k.toNat < 2 ^ 32 then n + k else UInt32.ofNat (2 ^ 32 - 1)

/-- `u32::saturating_sub`. -/
def saturatingSub (n k : UInt32) : UInt32 := if k ≤ n then n - k else 0

theorem eq_zero_of_not_pos {n : UInt32} (h : ¬ 0 < n) : n = 0 := by
  exact UInt32.toNat_inj.mp (Nat.eq_zero_of_not_pos h)

theorem checkedSucc_eq_some {n m : UInt32} : checkedSucc n = some m ↔ m.toNat = n.toNat + 1 := by
  unfold checkedSucc
  have hm := m.toNat_lt
  split
  · have hsucc : (n + 1).toNat = n.toNat + 1 := by
      rw [UInt32.toNat_add, UInt32.toNat_one]
      omega
    rw [Option.some.injEq, ← UInt32.toNat_inj, hsucc, eq_comm]
  · simp only [reduceCtorEq, false_iff]
    omega

theorem checkedSucc_eq_none {n : UInt32} : checkedSucc n = none ↔ n.toNat + 1 = 2 ^ 32 := by
  have hn := n.toNat_lt
  unfold checkedSucc
  split
  · simp only [reduceCtorEq, false_iff]
    omega
  · simp only [true_iff]
    omega

theorem toNat_saturatingAdd (n k : UInt32) :
    (saturatingAdd n k).toNat = min (n.toNat + k.toNat) (2 ^ 32 - 1) := by
  unfold saturatingAdd
  split
  · rw [UInt32.toNat_add]
    omega
  · rw [UInt32.toNat_ofNat']
    omega

theorem toNat_saturatingSub (n k : UInt32) : (saturatingSub n k).toNat = n.toNat - k.toNat := by
  unfold saturatingSub
  split
  · rename_i h
    exact UInt32.toNat_sub_of_le _ _ h
  · rename_i h
    rw [UInt32.le_iff_toNat_le] at h
    rw [UInt32.toNat_zero]
    omega

end WaCore
