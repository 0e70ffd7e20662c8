import Mathlib.Data.List.Basic
import Mathlib.Data.UInt

/-!
# Byte strings

`Bytes` is the model of `&[u8]` and `Vec<u8>`.  A property of a single byte
can be checked on all of them: `forall_byte` reduces it to the 256 numbers, so
that `decide` can run over them.
-/

namespace WaCore

/-- A byte string, the model of `&[u8]` and `Vec<u8>`. -/
abbrev Bytes := List UInt8

/-- A byte array of a fixed length, the model of `[u8; n]`. -/
abbrev FixedBytes (n : Nat) := { bytes : Bytes // bytes.length = n }

namespace FixedBytes

/-- An array of one byte repeated, `[b; n]`. -/
def replicate (n : Nat) (b : UInt8) : FixedBytes n := ⟨List.replicate n b, List.length_replicate⟩

/-- The conversion of a slice to an array, `try_into`. -/
def ofBytes (n : Nat) (bytes : Bytes) : Option (FixedBytes n) :=
  if h : bytes.length = n then some ⟨bytes, h⟩ else none

/-- Part of an array, `a[i..i + k]`. -/
def slice {n : Nat} (a : FixedBytes n) (i k : Nat) (h : i + k ≤ n) : FixedBytes k :=
  ⟨(a.val.drop i).take k, by
    rw [List.length_take, List.length_drop, a.property]
    omega⟩

/-- The two halves of 64 bytes. -/
def halves (a : FixedBytes 64) : FixedBytes 32 × FixedBytes 32 :=
  (a.slice 0 32 (by decide), a.slice 32 32 (by decide))

@[simp] theorem ofBytes_val {n : Nat} (a : FixedBytes n) : ofBytes n a.val = some a := by
  rw [ofBytes, dif_pos a.property]

theorem val_of_ofBytes {n : Nat} {bytes : Bytes} {a : FixedBytes n} (h : ofBytes n bytes = some a) :
    a.val = bytes := by
  rw [ofBytes] at h
  split at h
  · cases h
    rfl
  · cases h

end FixedBytes

/-- What holds of the 256 numbers holds of every byte. -/
theorem forall_byte {P : UInt8 → Prop} (h : ∀ i : Fin 256, P (UInt8.ofNat i.val)) (b : UInt8) :
    P b := by
  have hb := h ⟨b.toNat, b.toNat_lt⟩
  rwa [UInt8.ofNat_toNat] at hb

/-! ## Big-endian words -/

theorem or_shift_eight {hi lo : Nat} (h : lo < 256) : hi <<< 8 ||| lo = 256 * hi + lo := by
  rw [Nat.shiftLeft_eq, Nat.mul_comm]
  exact (Nat.two_pow_add_eq_or_of_lt h hi).symm

theorem or_shift_three {a b c : Nat} (hb : b < 256) (hc : c < 256) :
    a <<< 16 ||| b <<< 8 ||| c = 256 * (256 * a + b) + c := by
  have hdigits : a <<< 16 ||| b <<< 8 ||| c = (a <<< 8 ||| b) <<< 8 ||| c := by
    rw [Nat.shiftLeft_or_distrib, ← Nat.shiftLeft_add]
  rw [hdigits, or_shift_eight hb, or_shift_eight hc]

theorem or_shift_four {a b c d : Nat} (hb : b < 256) (hc : c < 256) (hd : d < 256) :
    a <<< 24 ||| b <<< 16 ||| c <<< 8 ||| d = 256 * (256 * (256 * a + b) + c) + d := by
  have hdigits : a <<< 24 ||| b <<< 16 ||| c <<< 8 ||| d =
      (a <<< 16 ||| b <<< 8 ||| c) <<< 8 ||| d := by
    rw [Nat.shiftLeft_or_distrib, Nat.shiftLeft_or_distrib, ← Nat.shiftLeft_add,
      ← Nat.shiftLeft_add]
  rw [hdigits, or_shift_three hb hc, or_shift_eight hd]

/-- A byte shifted inside a word keeps its bits. -/
theorem shiftLeft_mod_word {x k w : Nat} (hx : x < 256) (hk : k + 8 ≤ w) :
    x <<< k % 2 ^ w = x <<< k := by
  apply Nat.mod_eq_of_lt
  calc x <<< k = x * 2 ^ k := Nat.shiftLeft_eq x k
    _ < 2 ^ 8 * 2 ^ k := Nat.mul_lt_mul_of_pos_right hx (Nat.two_pow_pos k)
    _ = 2 ^ (k + 8) := by rw [← Nat.pow_add, Nat.add_comm]
    _ ≤ 2 ^ w := Nat.pow_le_pow_right (by decide) hk

theorem uint16_of_bytes (v : UInt16) :
    (v >>> 8).toUInt8.toUInt16 <<< 8 ||| v.toUInt8.toUInt16 = v := by
  have hv : v.toNat < 2 ^ 16 := v.toNat_lt
  apply UInt16.toNat_inj.mp
  simp only [UInt16.toNat_or, UInt16.toNat_shiftLeft, UInt8.toNat_toUInt16, UInt16.toNat_toUInt8,
    UInt16.toNat_shiftRight, UInt16.reduceToNat, Nat.reduceMod]
  rw [shiftLeft_mod_word (by omega) (by omega), or_shift_eight (by omega)]
  omega

theorem uint32_of_bytes (v : UInt32) :
    (v >>> 24).toUInt8.toUInt32 <<< 24 ||| (v >>> 16).toUInt8.toUInt32 <<< 16 |||
      (v >>> 8).toUInt8.toUInt32 <<< 8 ||| v.toUInt8.toUInt32 = v := by
  have hv : v.toNat < 2 ^ 32 := v.toNat_lt
  apply UInt32.toNat_inj.mp
  simp only [UInt32.toNat_or, UInt32.toNat_shiftLeft, UInt8.toNat_toUInt32, UInt32.toNat_toUInt8,
    UInt32.toNat_shiftRight, UInt32.reduceToNat, Nat.reduceMod]
  simp (disch := omega) only [shiftLeft_mod_word]
  rw [or_shift_four (by omega) (by omega) (by omega)]
  omega

/-- The low twenty bits of a word, in three bytes. -/
theorem uint20_of_bytes (v : UInt32) (hv : v.toNat < 2 ^ 20) :
    (((v >>> 16) &&& 0x0F).toUInt8.toUInt32 &&& 0x0F) <<< 16 |||
      ((v >>> 8) &&& 0xFF).toUInt8.toUInt32 <<< 8 ||| (v &&& 0xFF).toUInt8.toUInt32 = v := by
  have h15 (n : Nat) : n &&& 15 = n % 2 ^ 4 := Nat.and_two_pow_sub_one_eq_mod n 4
  have h255 (n : Nat) : n &&& 255 = n % 2 ^ 8 := Nat.and_two_pow_sub_one_eq_mod n 8
  apply UInt32.toNat_inj.mp
  simp only [UInt32.toNat_or, UInt32.toNat_and, UInt32.toNat_shiftLeft, UInt8.toNat_toUInt32,
    UInt32.toNat_toUInt8, UInt32.toNat_shiftRight, UInt32.reduceToNat, Nat.reduceMod, h15, h255]
  simp (disch := omega) only [shiftLeft_mod_word]
  rw [or_shift_three (by omega) (by omega)]
  omega

end WaCore
