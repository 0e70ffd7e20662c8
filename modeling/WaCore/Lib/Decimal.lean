import WaCore.Lib.Utf8

/-!
# Decimal numbers as text

The bytes of a number that was written in decimal: they are digits, there is at
least one, and the number is what they say (`value_ofString_toString`).
-/

namespace WaCore.Decimal

open Utf8

/-- The number some digits say. -/
def value (digits : Bytes) : Nat := digits.foldl (fun n b => 10 * n + (b.toNat - 48)) 0

theorem toNat_of_isDigit {c : Char} (h : c.isDigit = true) : 48 ≤ c.toNat ∧ c.toNat ≤ 57 := by
  rw [Char.isDigit, Bool.and_eq_true, decide_eq_true_eq, decide_eq_true_eq] at h
  exact ⟨UInt32.le_iff_toNat_le.mp h.1, UInt32.le_iff_toNat_le.mp h.2⟩

theorem utf8EncodeChar_of_isDigit {c : Char} (h : c.isDigit = true) :
    String.utf8EncodeChar c = [UInt8.ofNat c.toNat] := by
  have hc := (toNat_of_isDigit h).2
  rw [String.utf8EncodeChar, if_pos (show c.val.toNat ≤ 127 from Nat.le_trans hc (by decide))]
  rfl

theorem flatMap_encode_digits {cs : List Char} (h : ∀ c ∈ cs, c.isDigit = true) :
    cs.flatMap String.utf8EncodeChar = cs.map fun c => UInt8.ofNat c.toNat := by
  induction cs with
  | nil => rfl
  | cons c cs ih =>
    rw [List.flatMap_cons, utf8EncodeChar_of_isDigit (h c List.mem_cons_self),
      ih fun d hd => h d (List.mem_cons_of_mem _ hd)]
    rfl

/-- A number is written with one byte for each digit. -/
theorem ofString_toString (n : Nat) :
    ofString (toString n) = (Nat.toDigits 10 n).map fun c => UInt8.ofNat c.toNat := by
  have hdigits : ∀ c ∈ Nat.toDigits 10 n, c.isDigit = true :=
    fun c hc => Nat.isDigit_of_mem_toDigits (by decide) (by decide) hc
  rw [← flatMap_encode_digits hdigits, ofString, show toString n = String.ofList _ from rfl,
    String.toByteArray_ofList, List.utf8Encode]
  simp

theorem ofString_toString_ne_nil (n : Nat) : ofString (toString n) ≠ [] := by
  rw [ofString_toString]
  simp

theorem digit_of_mem {n : Nat} {b : UInt8} (h : b ∈ ofString (toString n)) : 48 ≤ b ∧ b ≤ 57 := by
  rw [ofString_toString] at h
  obtain ⟨c, hc, rfl⟩ := List.mem_map.mp h
  have hdigit := toNat_of_isDigit (Nat.isDigit_of_mem_toDigits (by decide) (by decide) hc)
  rw [UInt8.le_iff_toNat_le, UInt8.le_iff_toNat_le, UInt8.toNat_ofNat']
  have h48 : (48 : UInt8).toNat = 48 := rfl
  have h57 : (57 : UInt8).toNat = 57 := rfl
  omega

theorem value_map_digits {cs : List Char} (h : ∀ c ∈ cs, c.isDigit = true) (n : Nat) :
    (cs.map fun c => UInt8.ofNat c.toNat).foldl (fun n b => 10 * n + (b.toNat - 48)) n
      = Nat.ofDigitChars 10 cs n := by
  induction cs generalizing n with
  | nil => rfl
  | cons c cs ih =>
    have hc := (toNat_of_isDigit (h c List.mem_cons_self)).2
    have hbyte : (UInt8.ofNat c.toNat).toNat = c.toNat := by
      rw [UInt8.toNat_ofNat']
      omega
    rw [List.map_cons, List.foldl_cons, ih (fun d hd => h d (List.mem_cons_of_mem _ hd)), hbyte]
    rfl

/-- The digits of a number say the number. -/
theorem value_ofString_toString (n : Nat) : value (ofString (toString n)) = n := by
  rw [ofString_toString, value, value_map_digits, Nat.ofDigitChars_toDigits (by decide) (by decide)]
  exact fun c hc => Nat.isDigit_of_mem_toDigits (by decide) (by decide) hc

end WaCore.Decimal
