import WaCore.Lib.Utf8

/-!
# Wire tokens

The tag bytes of the binary node format (`token.rs`) and the dictionaries of
strings that are sent as one or two bytes.  The dictionaries are generated by
the build, so they are a parameter here: `TokenTables` carries the two tables,
the lookup from a string to its token, and the facts the format needs from
them.  `Tag.ofByte` is the case split that every reader of the decoder makes
on a tag byte.
-/

namespace WaCore.Binary

open Utf8

def LIST_EMPTY : UInt8 := 0
def DICTIONARY_0 : UInt8 := 236
def DICTIONARY_3 : UInt8 := 239
def INTEROP_JID : UInt8 := 245
def FB_JID : UInt8 := 246
def AD_JID : UInt8 := 247
def LIST_8 : UInt8 := 248
def LIST_16 : UInt8 := 249
def JID_PAIR : UInt8 := 250
def HEX_8 : UInt8 := 251
def BINARY_8 : UInt8 := 252
def BINARY_20 : UInt8 := 253
def BINARY_32 : UInt8 := 254
def NIBBLE_8 : UInt8 := 255

/-- Longest string that may be packed two characters to a byte. -/
def PACKED_MAX : Nat := 127

/-! ## Errors -/

/-- The errors of the codec (`error.rs`) that reading and writing nodes can
raise. -/
inductive BinaryError where
  | invalidToken (token : UInt8)
  | invalidNode
  | nonStringKey
  | attrParse (message : String)
  | invalidUtf8 (error : Utf8Error)
  | zlib (message : String)
  | unexpectedEof
  | emptyData
  | leftoverData (bytes : Nat)
  | maxDepthExceeded
  | planMismatch
  | unexpectedFormatByte (byte : UInt8)
  deriving DecidableEq, Repr

/-- How a run of the codec ends without a result: the error it returns, or one
of the two ways it can bring the thread down. -/
inductive Fault where
  | error (e : BinaryError)
  | panic (message : String)
  | stackOverflow
  deriving DecidableEq, Repr

/-! ## Dictionaries -/

inductive TokenKind where
  | single (token : UInt8)
  | double (dict token : UInt8)
  deriving DecidableEq, Repr

/-- The generated dictionaries.  The two `index_of_token` fields say that the
lookup and the tables are inverse to each other; index `0` holds the empty
string, which is what keeps the token `LIST_EMPTY` free. -/
structure TokenTables where
  singleByteTokens : List String
  doubleByteTokens : List (List String)
  indexOfToken : Bytes → Option TokenKind
  single_length : singleByteTokens.length ≤ 236
  double_length : doubleByteTokens.length ≤ 4
  single_zero : ∀ s, singleByteTokens[0]? = some s → s = ""
  indexOfToken_single : ∀ bs i, indexOfToken bs = some (.single i) ↔
    bs ≠ [] ∧ ∃ s, singleByteTokens[i.toNat]? = some s ∧ ofString s = bs
  indexOfToken_double : ∀ bs dict i, indexOfToken bs = some (.double dict i) ↔
    bs ≠ [] ∧ ∃ s, (doubleByteTokens[dict.toNat]?.bind (·[i.toNat]?)) = some s ∧ ofString s = bs

namespace TokenTables

variable (T : TokenTables)

def getSingleToken (index : UInt8) : Option String := T.singleByteTokens[index.toNat]?

def getDoubleToken (dict index : UInt8) : Option String :=
  T.doubleByteTokens[dict.toNat]?.bind (·[index.toNat]?)

/-- A single-byte token reads back, and its byte is below the dictionaries. -/
theorem getSingleToken_of_index {s : String} {i : UInt8}
    (h : T.indexOfToken (ofString s) = some (.single i)) :
    T.getSingleToken i = some s ∧ i ≠ 0 ∧ i.toNat < 236 := by
  obtain ⟨hne, t, ht, heq⟩ := (T.indexOfToken_single _ _).mp h
  obtain rfl := ofString_injective heq
  refine ⟨ht, ?_, lt_of_lt_of_le (List.getElem?_eq_some_iff.mp ht).1 T.single_length⟩
  rintro rfl
  exact hne (by rw [T.single_zero t ht, ofString_empty])

/-- A double-byte token reads back from one of the four dictionaries. -/
theorem getDoubleToken_of_index {s : String} {dict i : UInt8}
    (h : T.indexOfToken (ofString s) = some (.double dict i)) :
    T.getDoubleToken dict i = some s ∧ dict.toNat < 4 := by
  obtain ⟨-, t, ht, heq⟩ := (T.indexOfToken_double _ _ _).mp h
  obtain rfl := ofString_injective heq
  refine ⟨ht, ?_⟩
  cases hd : T.doubleByteTokens[dict.toNat]? with
  | none => rw [hd] at ht; simp at ht
  | some d => exact lt_of_lt_of_le (List.getElem?_eq_some_iff.mp hd).1 T.double_length

end TokenTables

/-- The lookup of `sampleTables`. -/
def sampleIndex (bs : Bytes) : Option TokenKind :=
  if bs = ofString "iq" then some (.single 1)
  else if bs = ofString "read-self" then some (.double 0 0)
  else none

private theorem sampleIndex_single (bs : Bytes) (i : UInt8) :
    sampleIndex bs = some (.single i) ↔ bs ≠ [] ∧
      ∃ s, ["", "iq"][i.toNat]? = some s ∧ ofString s = bs := by
  constructor
  · intro h
    unfold sampleIndex at h
    split at h
    · rename_i hbs
      simp only [Option.some.injEq, TokenKind.single.injEq] at h
      subst h hbs
      exact ⟨by decide, "iq", rfl, rfl⟩
    · split at h <;> simp at h
  · rintro ⟨hne, s, hs, rfl⟩
    match hi : i.toNat with
    | 0 =>
      rw [hi] at hs
      obtain rfl : "" = s := by simpa using hs
      exact absurd rfl hne
    | 1 =>
      rw [hi] at hs
      obtain rfl : "iq" = s := by simpa using hs
      obtain rfl : i = 1 := UInt8.toNat_inj.mp hi
      rfl
    | k + 2 =>
      rw [hi] at hs
      simp at hs

private theorem sampleIndex_double (bs : Bytes) (dict i : UInt8) :
    sampleIndex bs = some (.double dict i) ↔ bs ≠ [] ∧
      ∃ s, ([["read-self"]][dict.toNat]?.bind (·[i.toNat]?)) = some s ∧ ofString s = bs := by
  constructor
  · intro h
    unfold sampleIndex at h
    split at h
    · simp at h
    · split at h
      · rename_i hbs
        obtain ⟨rfl, rfl⟩ := h
        subst hbs
        exact ⟨by decide, "read-self", rfl, rfl⟩
      · simp at h
  · rintro ⟨-, s, hs, rfl⟩
    match hd : dict.toNat, hi : i.toNat with
    | 0, 0 =>
      rw [hd, hi] at hs
      obtain rfl : "read-self" = s := by simpa using hs
      obtain rfl : dict = 0 := UInt8.toNat_inj.mp hd
      obtain rfl : i = 0 := UInt8.toNat_inj.mp hi
      decide
    | 0, k + 1 =>
      rw [hd, hi] at hs
      simp at hs
    | k + 1, _ =>
      rw [hd] at hs
      simp at hs

/-- Dictionaries with one token each, to run the codec on. -/
def sampleTables : TokenTables where
  singleByteTokens := ["", "iq"]
  doubleByteTokens := [["read-self"]]
  indexOfToken := sampleIndex
  single_length := by decide
  double_length := by decide
  single_zero s h := by simpa using h.symm
  indexOfToken_single := sampleIndex_single
  indexOfToken_double := sampleIndex_double

/-! ## Tags -/

/-- The three widths of a length field. -/
inductive BinaryWidth where
  | binary8
  | binary20
  | binary32
  deriving DecidableEq, Repr

/-- The four JID tokens. -/
inductive JidForm where
  | pair
  | ad
  | interop
  | fb
  deriving DecidableEq, Repr

/-- The two packed alphabets. -/
inductive Packing where
  | nibble
  | hex
  deriving DecidableEq, Repr

/-- What a tag byte announces. -/
inductive Tag where
  | listEmpty
  | list8
  | list16
  | binary (width : BinaryWidth)
  | jid (form : JidForm)
  | packed (packing : Packing)
  | dictionary (dict : UInt8)
  | single (token : UInt8)
  deriving DecidableEq, Repr

def Tag.ofByte (tag : UInt8) : Tag :=
  if tag = LIST_EMPTY then .listEmpty
  else if tag = LIST_8 then .list8
  else if tag = LIST_16 then .list16
  else if tag = BINARY_8 then .binary .binary8
  else if tag = BINARY_20 then .binary .binary20
  else if tag = BINARY_32 then .binary .binary32
  else if tag = JID_PAIR then .jid .pair
  else if tag = AD_JID then .jid .ad
  else if tag = INTEROP_JID then .jid .interop
  else if tag = FB_JID then .jid .fb
  else if tag = NIBBLE_8 then .packed .nibble
  else if tag = HEX_8 then .packed .hex
  else if DICTIONARY_0 ≤ tag ∧ tag ≤ DICTIONARY_3 then .dictionary (tag - DICTIONARY_0)
  else .single tag

theorem Tag.ofByte_ne_listEmpty (tag : UInt8) (h : tag ≠ LIST_EMPTY) :
    Tag.ofByte tag ≠ .listEmpty := by
  revert tag
  exact forall_byte (by decide +kernel)

end WaCore.Binary
