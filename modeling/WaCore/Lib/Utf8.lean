import WaCore.Lib.Bytes

/-!
# UTF-8 byte strings

A Rust `&str` is a byte slice that is valid UTF-8, and so is a Lean `String`.
This module moves between the two views: `ofString` gives the bytes of a
string and `fromUtf8` checks bytes and gives the string back, with the
`Utf8Error` that the Rust standard library reports when they are not valid.

The one structural fact about the encoding is `Valid.split`: a byte below
`0x80` is a whole character, so valid UTF-8 splits into two valid parts around
it.  Parsers that cut a string at a separator such as `@` or `:` rest on it.
-/

namespace WaCore.Utf8

/-- `std::str::Utf8Error`: the length of the longest valid beginning, and how
many bytes are wrong after it (none when the input just stops too early). -/
structure Utf8Error where
  validUpTo : Nat
  errorLen : Option Nat
  deriving DecidableEq, Repr

/-- The bytes of a string. -/
def ofString (s : String) : Bytes := s.toByteArray.data.toList

/-- The bytes are the encoding of some list of characters. -/
def Valid (bs : Bytes) : Prop := (ByteArray.mk bs.toArray).IsValidUTF8

instance (bs : Bytes) : Decidable (Valid bs) :=
  inferInstanceAs (Decidable (ByteArray.mk bs.toArray).IsValidUTF8)

/-- The continuation bytes are `0x80` to `0xBF`. -/
def isContinuation (b : UInt8) : Bool := 0x80 ≤ b && b ≤ 0xBF

/-- The second byte that may follow a lead byte of a three- or four-byte
character. -/
def secondByteOk (first second : UInt8) : Bool :=
  if first = 0xE0 then 0xA0 ≤ second && second ≤ 0xBF
  else if first = 0xED then 0x80 ≤ second && second ≤ 0x9F
  else if first = 0xF0 then 0x90 ≤ second && second ≤ 0xBF
  else if first = 0xF4 then 0x80 ≤ second && second ≤ 0x8F
  else isContinuation second

/-- One step of `run_utf8_validation`: the width of the first character, or
the `error_len` of the error found there. -/
def charWidth : Bytes → Except (Option Nat) Nat
  | [] => .ok 0
  | first :: rest =>
    if first < 0x80 then .ok 1
    else if 0xC2 ≤ first ∧ first ≤ 0xDF then
      match rest with
      | [] => .error none
      | b :: _ => if isContinuation b then .ok 2 else .error (some 1)
    else if 0xE0 ≤ first ∧ first ≤ 0xEF then
      match rest with
      | [] => .error none
      | b :: tail =>
        if secondByteOk first b then
          match tail with
          | [] => .error none
          | c :: _ => if isContinuation c then .ok 3 else .error (some 2)
        else .error (some 1)
    else if 0xF0 ≤ first ∧ first ≤ 0xF4 then
      match rest with
      | [] => .error none
      | b :: tail =>
        if secondByteOk first b then
          match tail with
          | [] => .error none
          | c :: tail' =>
            if isContinuation c then
              match tail' with
              | [] => .error none
              | d :: _ => if isContinuation d then .ok 4 else .error (some 3)
            else .error (some 2)
        else .error (some 1)
    else .error (some 1)

/-- The error `std::str::from_utf8` reports, found by walking the characters.
The first argument bounds the number of characters. -/
def errorFrom : Nat → Nat → Bytes → Utf8Error
  | 0, offset, _ => ⟨offset, none⟩
  | fuel + 1, offset, bs =>
    match charWidth bs with
    | .error len => ⟨offset, len⟩
    | .ok width => errorFrom fuel (offset + width) (bs.drop width)

/-- `std::str::from_utf8`. -/
def fromUtf8 (bs : Bytes) : Except Utf8Error String :=
  if h : Valid bs then .ok (String.fromUTF8 ⟨bs.toArray⟩ h)
  else .error (errorFrom bs.length 0 bs)

/-! ## Strings and their bytes -/

theorem valid_iff (bs : Bytes) :
    Valid bs ↔ ∃ chars : List Char, bs = chars.flatMap String.utf8EncodeChar := by
  constructor
  · rintro ⟨chars, h⟩
    refine ⟨chars, ?_⟩
    have hdata := congrArg (fun b => b.data.toList) h
    simpa [List.utf8Encode] using hdata
  · rintro ⟨chars, rfl⟩
    exact ⟨chars, by apply ByteArray.ext; simp [List.utf8Encode]⟩

theorem valid_ofString (s : String) : Valid (ofString s) := s.isValidUTF8

@[simp] theorem ofString_empty : ofString "" = [] := rfl

@[simp] theorem ofString_append (s t : String) :
    ofString (s ++ t) = ofString s ++ ofString t := by
  simp [ofString]

theorem ofString_injective {s t : String} (h : ofString s = ofString t) : s = t := by
  rw [← String.toByteArray_inj]
  exact ByteArray.ext (Array.toList_inj.mp h)

@[simp] theorem ofString_inj {s t : String} : ofString s = ofString t ↔ s = t :=
  ⟨ofString_injective, fun h => h ▸ rfl⟩

/-- Reading the bytes of a string gives the string back. -/
@[simp] theorem fromUtf8_ofString (s : String) : fromUtf8 (ofString s) = .ok s := by
  rw [fromUtf8, dif_pos (valid_ofString s)]
  rfl

/-- Valid bytes are the bytes of a string. -/
theorem Valid.exists_string {bs : Bytes} (h : Valid bs) : ∃ s, ofString s = bs :=
  ⟨String.fromUTF8 ⟨bs.toArray⟩ h, rfl⟩

/-- The string with these bytes. -/
def strOf (bs : Bytes) : String := (fromUtf8 bs).toOption.getD ""

@[simp] theorem strOf_ofString (s : String) : strOf (ofString s) = s := by
  simp [strOf, Except.toOption]

theorem ofString_strOf {bs : Bytes} (h : Valid bs) : ofString (strOf bs) = bs := by
  obtain ⟨s, rfl⟩ := h.exists_string
  rw [strOf_ofString]

theorem strOf_eq_empty {bs : Bytes} (h : Valid bs) : strOf bs = "" ↔ bs = [] := by
  rw [← ofString_inj, ofString_strOf h, ofString_empty]

theorem valid_nil : Valid [] := valid_ofString ""

theorem Valid.append {a b : Bytes} (ha : Valid a) (hb : Valid b) : Valid (a ++ b) := by
  obtain ⟨s, rfl⟩ := ha.exists_string
  obtain ⟨t, rfl⟩ := hb.exists_string
  rw [← ofString_append]
  exact valid_ofString _

/-! ## Characters below `0x80` -/

private theorem not_ofNat_lt {n : Nat} (hlo : 128 ≤ n) (hhi : n < 256) :
    ¬ UInt8.ofNat n < 0x80 := by
  rw [UInt8.lt_iff_toNat_lt, UInt8.toNat_ofNat', Nat.mod_eq_of_lt hhi]
  exact Nat.not_lt.mpr hlo

/-- A character's encoding is a single byte, or has no byte below `0x80`. -/
private theorem encodeChar_ascii (c : Char) :
    (∃ b, String.utf8EncodeChar c = [b]) ∨ ∀ b ∈ String.utf8EncodeChar c, ¬ b < 0x80 := by
  fun_cases String.utf8EncodeChar c with
  | case1 => exact .inl ⟨_, rfl⟩
  | case2 | case3 | case4 =>
    right
    simp only [List.mem_cons, List.not_mem_nil, or_false]
    rintro b (rfl | rfl | rfl | rfl) <;> exact not_ofNat_lt (by omega) (by omega)

private theorem valid_encodeChar (c : Char) : Valid (String.utf8EncodeChar c) :=
  (valid_iff _).mpr ⟨[c], by simp⟩

/-- Valid bytes split into two valid parts around a byte below `0x80`. -/
theorem Valid.split {a c : Bytes} {b : UInt8} (h : Valid (a ++ b :: c)) (hb : b < 0x80) :
    Valid a ∧ Valid c := by
  obtain ⟨chars, hchars⟩ := (valid_iff _).mp h
  clear h
  induction chars generalizing a with
  | nil => simp at hchars
  | cons ch chars ih =>
    rcases List.append_eq_append_iff.mp hchars with ⟨l, hl, hr⟩ | ⟨l, hl, hr⟩
    · rcases List.cons_eq_append_iff.mp hr with ⟨rfl, hc⟩ | ⟨xs, rfl, hc⟩
      · -- the first character is exactly `a`
        rw [List.append_nil] at hl
        exact ⟨hl ▸ valid_encodeChar ch, (ih (a := []) hc.symm).2⟩
      · -- it contains `b`, so it is `b` alone
        rcases encodeChar_ascii ch with ⟨b', hone⟩ | hnone
        · obtain ⟨rfl, -, rfl⟩ : a = [] ∧ b' = b ∧ xs = [] := by
            cases a <;> simp_all
          exact ⟨valid_nil, (valid_iff c).mpr ⟨chars, hc⟩⟩
        · exact absurd hb (hnone b (by simp [hl]))
    · -- it lies inside `a`
      obtain ⟨hvl, hvc⟩ := ih hr.symm
      exact ⟨hl ▸ (valid_encodeChar ch).append hvl, hvc⟩

/-- Bytes below `0x80` are valid. -/
theorem valid_of_ascii {bs : Bytes} (h : ∀ b ∈ bs, b < 0x80) : Valid bs := by
  induction bs with
  | nil => exact valid_nil
  | cons b bs ih =>
    have hb : b.toNat < 128 := UInt8.lt_iff_toNat_lt.mp (h b List.mem_cons_self)
    have hval : (Char.ofNat b.toNat).val.toNat = b.toNat := by
      rw [Char.ofNat, dif_pos (Or.inl (by omega))]
      rfl
    have hone : String.utf8EncodeChar (Char.ofNat b.toNat) = [b] := by
      rw [String.utf8EncodeChar, hval, if_pos (by omega), UInt8.ofNat_toNat]
    exact (hone ▸ valid_encodeChar _ : Valid [b]).append
      (ih fun x hx => h x (List.mem_cons_of_mem _ hx))

end WaCore.Utf8
