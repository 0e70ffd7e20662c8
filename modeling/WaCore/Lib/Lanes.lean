import Mathlib.Data.BitVec
import Mathlib.Tactic.Abel
import Mathlib.Tactic.Ring

/-!
# Lane-parallel arithmetic in one machine word

A word that holds several lanes is a concatenation of bit vectors.  Adding two
such words adds their lanes only while no carry leaves a lane.  The classical
way to add all lanes at once masks the top bit of every lane away, adds what is
left, and puts the top bits back with an exclusive or.

`swarAdd` and `swarSub` are those two formulas for a mask `low`.  On one lane
they are the wrapping sum and difference (`swarAdd_lane`, `swarSub_lane`), and
on a concatenation they work lane by lane (`swarAdd_append`, `swarSub_append`).
-/

namespace WaCore

namespace Lanes

variable {v w : Nat}

/-- Add under the mask `low`, then restore the bits outside it. -/
def swarAdd (low x y : BitVec w) : BitVec w :=
  ((x &&& low) + (y &&& low)) ^^^ ((x ^^^ y) &&& ~~~low)

/-- Subtract under the mask `low`, with a borrow ready in every lane, then
restore the bits outside it. -/
def swarSub (low x y : BitVec w) : BitVec w :=
  ((x ||| ~~~low) - (y &&& low)) ^^^ ((x ^^^ ~~~y) &&& ~~~low)

/-! ## Concatenations -/

theorem toNat_append_eq (a : BitVec w) (b : BitVec v) :
    (a ++ b).toNat = 2 ^ v * a.toNat + b.toNat := by
  rw [BitVec.toNat_append, Nat.shiftLeft_eq, Nat.mul_comm, Nat.two_pow_add_eq_or_of_lt b.isLt]

theorem append_add_append {a c : BitVec w} {b d : BitVec v} (h : b.toNat + d.toNat < 2 ^ v) :
    (a ++ b) + (c ++ d) = (a + c) ++ (b + d) := by
  apply BitVec.eq_of_toNat_eq
  rw [BitVec.toNat_add, toNat_append_eq, toNat_append_eq, toNat_append_eq, BitVec.toNat_add,
    BitVec.toNat_add, Nat.pow_add, Nat.mul_comm (2 ^ w) (2 ^ v), ← Nat.mul_mod_mul_left]
  have hsplit : 2 ^ v * a.toNat + b.toNat + (2 ^ v * c.toNat + d.toNat)
      = (b.toNat + d.toNat) + 2 ^ v * (a.toNat + c.toNat) := by ring
  rw [hsplit, Nat.mod_mul, Nat.add_mul_mod_self_left, Nat.mod_eq_of_lt h,
    Nat.add_mul_div_left _ _ (Nat.two_pow_pos v), Nat.div_eq_of_lt h, Nat.zero_add,
    Nat.mul_mod_mul_left, Nat.add_comm]

theorem append_sub_append {a c : BitVec w} {b d : BitVec v} (h : d.toNat ≤ b.toNat) :
    (a ++ b) - (c ++ d) = (a - c) ++ (b - d) := by
  have hcarry : (b - d).toNat + d.toNat < 2 ^ v := by
    rw [BitVec.toNat_sub_of_le h]
    omega
  have hsum : ((a - c) ++ (b - d)) + (c ++ d) = a ++ b := by
    rw [append_add_append hcarry, BitVec.sub_add_cancel, BitVec.sub_add_cancel]
  rw [← hsum, BitVec.add_sub_cancel]

theorem swarAdd_append {l a c : BitVec w} {m b d : BitVec v} (hm : 2 * m.toNat < 2 ^ v) :
    swarAdd (l ++ m) (a ++ b) (c ++ d) = swarAdd l a c ++ swarAdd m b d := by
  have hb : (b &&& m).toNat ≤ m.toNat := by rw [BitVec.toNat_and]; exact Nat.and_le_right
  have hd : (d &&& m).toNat ≤ m.toNat := by rw [BitVec.toNat_and]; exact Nat.and_le_right
  simp only [swarAdd, BitVec.and_append, BitVec.xor_append, BitVec.not_append]
  rw [append_add_append (by omega), BitVec.xor_append]

theorem swarSub_append {l a c : BitVec w} {m b d : BitVec v} (hm : 2 * m.toNat < 2 ^ v) :
    swarSub (l ++ m) (a ++ b) (c ++ d) = swarSub l a c ++ swarSub m b d := by
  have hd : (d &&& m).toNat ≤ m.toNat := by rw [BitVec.toNat_and]; exact Nat.and_le_right
  have hb : (~~~m).toNat ≤ (b ||| ~~~m).toNat := by
    exact Nat.right_le_or
  have hnot : (~~~m).toNat = 2 ^ v - 1 - m.toNat := BitVec.toNat_not
  simp only [swarSub, BitVec.and_append, BitVec.xor_append, BitVec.or_append, BitVec.not_append]
  rw [append_sub_append (by omega), BitVec.xor_append]

/-! ## One lane

`top w` is the highest bit of a lane of `w + 1` bits.  Adding it and flipping
it are the same thing. -/

/-- The highest bit of a lane of `w + 1` bits. -/
def top (w : Nat) : BitVec (w + 1) := BitVec.twoPow (w + 1) w

theorem toNat_top : (top w).toNat = 2 ^ w := by
  rw [top, BitVec.toNat_twoPow, Nat.mod_eq_of_lt (Nat.pow_lt_pow_succ (by decide))]

theorem top_add_top : top w + top w = 0 := by
  apply BitVec.eq_of_toNat_eq
  rw [BitVec.toNat_add, toNat_top, ← Nat.two_mul, ← Nat.pow_succ']
  simp

theorem xor_top (x : BitVec (w + 1)) : x ^^^ top w = x + top w := by
  apply BitVec.eq_of_getLsbD_eq
  intro i hi
  -- nothing is carried into bit `i`, since the bits of `top w` below it are zero
  have hcarry : BitVec.carry i x (top w) false = false := by
    have hmod : (top w).toNat % 2 ^ i = 0 := by
      rw [toNat_top]
      exact Nat.mod_eq_zero_of_dvd (Nat.pow_dvd_pow 2 (by omega))
    simp only [BitVec.carry, Bool.toNat_false, decide_eq_false_iff_not]
    omega
  rw [BitVec.getLsbD_add hi, hcarry, BitVec.getLsbD_xor, Bool.xor_false]

theorem and_top (x : BitVec (w + 1)) : x &&& top w = if x.getLsbD w then top w else 0#(w + 1) :=
  BitVec.and_twoPow x w

theorem and_not_add_and (x m : BitVec w) : (x &&& ~~~m) + (x &&& m) = x := by
  rw [BitVec.add_eq_or_of_and_eq_zero _ _ (by ext; simp; grind)]
  ext
  grind

theorem or_eq_and_not_add (x m : BitVec w) : x ||| m = (x &&& ~~~m) + m := by
  rw [BitVec.add_eq_or_of_and_eq_zero _ _ (by ext; simp)]
  ext
  grind

/-- On one lane the masked sum is the wrapping sum. -/
theorem swarAdd_lane (x y : BitVec (w + 1)) : swarAdd (~~~top w) x y = x + y := by
  have hx := and_not_add_and x (top w)
  have hy := and_not_add_and y (top w)
  rw [and_top] at hx hy
  rw [swarAdd, BitVec.not_not, and_top, BitVec.getLsbD_xor]
  generalize x &&& ~~~top w = a at *
  generalize y &&& ~~~top w = b at *
  generalize x.getLsbD w = p at *
  generalize y.getLsbD w = q at *
  subst hx hy
  cases p <;> cases q <;>
    simp only [Bool.xor_false, Bool.xor_true, Bool.not_true, Bool.not_false, if_true,
      Bool.false_eq_true, if_false, xor_top, BitVec.xor_zero, BitVec.add_zero]
  · abel
  · abel
  · rw [add_add_add_comm, top_add_top, add_zero]

/-- On one lane the masked difference is the wrapping difference. -/
theorem swarSub_lane (x y : BitVec (w + 1)) : swarSub (~~~top w) x y = x - y := by
  have hx := and_not_add_and x (top w)
  have hy := and_not_add_and y (top w)
  have hneg : top w = -top w := eq_neg_of_add_eq_zero_left top_add_top
  rw [and_top] at hx hy
  rw [swarSub, BitVec.not_not, and_top, BitVec.getLsbD_xor, or_eq_and_not_add]
  have hbit : (~~~y).getLsbD w = !y.getLsbD w := by
    simp
  rw [hbit]
  generalize x &&& ~~~top w = a at *
  generalize y &&& ~~~top w = b at *
  generalize x.getLsbD w = p at *
  generalize y.getLsbD w = q at *
  subst hx hy
  cases p <;> cases q <;>
    simp only [Bool.xor_false, Bool.xor_true, Bool.not_true, Bool.not_false, if_true,
      Bool.false_eq_true, if_false, xor_top, BitVec.xor_zero, BitVec.add_zero]
  · rw [show a + top w - b + top w = a - b + (top w + top w) by abel, top_add_top, add_zero]
  · rw [← sub_sub, sub_eq_add_neg (a - b), ← hneg]
    abel
  · rw [show a + top w - b + top w = a - b + (top w + top w) by abel, top_add_top]
    abel

end Lanes

end WaCore
