import WaCore.Binary.DecoderStack

/-!
# Skipping agrees with reading

The streaming decoder walks past nodes it does not want with `skip_node_at`,
a second implementation of every token form that builds no values.  This
module shows that it is `read_node_ref_at` with the result dropped: the two
succeed on the same inputs, stop at the same place and fail with the same
error.

The proof goes method by method.  A skipper is an equation
`skip = dropped read`, so the monad laws carry it from the tokens up to the
nodes, and the nodes are an induction on how far the depth is from its cap.
-/

namespace WaCore.Binary

open Utf8 ListParser

/-! ## Packed strings -/

theorem nibbleGlyph_ascii (b : UInt8) (h : nibbleGlyph b ≠ NIBBLE_INVALID) :
    nibbleGlyph b < 0x80 := by
  revert b
  exact forall_byte (by decide +kernel)

theorem hexGlyph_ascii (b : UInt8) (h : b < 16) : hexGlyph b < 0x80 := by
  revert b
  exact forall_byte (by decide +kernel)

theorem high_nibble_eq (b : UInt8) : (b &&& 0xF0) >>> 4 = b >>> 4 := by
  revert b
  exact forall_byte (by decide +kernel)

theorem shiftRight_lt_sixteen (b : UInt8) : b >>> 4 < 16 := by
  revert b
  exact forall_byte (by decide +kernel)

theorem and_fifteen_lt_sixteen (b : UInt8) : b &&& 0x0F < 16 := by
  revert b
  exact forall_byte (by decide +kernel)

/-- `unpack_nibble` is the table with its holes as errors. -/
theorem unpackNibble_eq (value : UInt8) :
    unpackNibble value =
      if nibbleGlyph value = NIBBLE_INVALID then fail (.invalidToken value)
      else pure (nibbleGlyph value) := by
  have hdigit : value ≤ 9 → 48 + value ≠ NIBBLE_INVALID := by
    revert value
    exact forall_byte (by decide +kernel)
  unfold unpackNibble nibbleGlyph
  repeat' split
  all_goals first | rfl | simp_all [NIBBLE_INVALID]

/-- A byte with a hole in it is reported. -/
theorem reportNibbles_of_invalid {byte : UInt8} (h : hasInvalidNibble byte) :
    ∃ e, reportNibbles byte = throw e := by
  simp only [hasInvalidNibble, nibblePair, List.mem_cons, List.not_mem_nil, or_false,
    decide_eq_true_eq] at h
  unfold reportNibbles
  rw [high_nibble_eq, unpackNibble_eq, unpackNibble_eq]
  by_cases hhigh : nibbleGlyph (byte >>> 4) = NIBBLE_INVALID
  · exact ⟨.error (.invalidToken (byte >>> 4)), by simp only [hhigh]; rfl⟩
  · have hlow : nibbleGlyph (byte &&& 0x0F) = NIBBLE_INVALID := by
      rcases h with h | h
      · exact absurd h.symm hhigh
      · exact h.symm
    exact ⟨.error (.invalidToken (byte &&& 0x0F)), by simp only [hhigh, hlow]; rfl⟩

/-- Without a hole the nibbles decode to their glyphs. -/
theorem decodePackedNibble_of_valid {packed : Bytes}
    (h : packed.find? hasInvalidNibble = none) :
    decodePackedNibble packed = pure (packed.flatMap nibblePair) := by
  induction packed with
  | nil => rfl
  | cons byte packed ih =>
    rw [List.find?_cons] at h
    cases hbyte : hasInvalidNibble byte with
    | true => simp [hbyte] at h
    | false =>
      simp only [hbyte] at h
      simp [decodePackedNibble, hbyte, ih h]

/-- The first byte with a hole stops the decoding. -/
theorem decodePackedNibble_of_invalid {packed : Bytes} {byte : UInt8}
    (h : packed.find? hasInvalidNibble = some byte) :
    ∃ e, reportNibbles byte = throw e ∧ decodePackedNibble packed = throw e := by
  induction packed with
  | nil => simp at h
  | cons b packed ih =>
    rw [List.find?_cons] at h
    cases hbyte : hasInvalidNibble b with
    | true =>
      simp only [hbyte, Option.some.injEq] at h
      subst h
      obtain ⟨e, he⟩ := reportNibbles_of_invalid hbyte
      refine ⟨e, he, ?_⟩
      simp only [decodePackedNibble, hbyte, he]
      rfl
    | false =>
      simp only [hbyte] at h
      obtain ⟨e, he, htail⟩ := ih h
      refine ⟨e, he, ?_⟩
      simp only [decodePackedNibble, hbyte, htail]
      rfl

/-- The decoded characters are below `0x80`, so the final check of
`read_packed` cannot fail. -/
theorem dropped_packedString {buf : Bytes} (half : Bool) (h : ∀ b ∈ buf, b < 0x80) :
    dropped (packedString half buf) = pure () := by
  have hvalid : Valid (if half then buf.dropLast else buf) := by
    apply valid_of_ascii
    cases half with
    | true => exact fun b hb => h b (List.mem_of_mem_dropLast hb)
    | false => exact h
  obtain ⟨s, hs⟩ := hvalid.exists_string
  unfold packedString
  rw [← hs, fromUtf8_ofString]
  rfl

theorem decodePackedHex_ascii (packed : Bytes) : ∀ b ∈ decodePackedHex packed, b < 0x80 := by
  intro b hb
  obtain ⟨byte, -, hpair⟩ := List.mem_flatMap.mp hb
  simp only [hexPair, List.mem_cons, List.not_mem_nil, or_false] at hpair
  rcases hpair with rfl | rfl
  · exact hexGlyph_ascii _ (shiftRight_lt_sixteen byte)
  · exact hexGlyph_ascii _ (and_fifteen_lt_sixteen byte)

theorem nibblePairs_ascii {packed : Bytes} (h : packed.find? hasInvalidNibble = none) :
    ∀ b ∈ packed.flatMap nibblePair, b < 0x80 := by
  intro b hb
  obtain ⟨byte, hbyte, hpair⟩ := List.mem_flatMap.mp hb
  have hvalid : NIBBLE_INVALID ∉ nibblePair byte := by
    simpa [hasInvalidNibble] using List.find?_eq_none.mp h byte hbyte
  simp only [nibblePair, List.mem_cons, List.not_mem_nil, or_false, not_or] at hpair hvalid
  rcases hpair with rfl | rfl
  · exact nibbleGlyph_ascii _ (Ne.symm hvalid.1)
  · exact nibbleGlyph_ascii _ (Ne.symm hvalid.2)

/-- After the length byte, decoding and only looking for holes agree. -/
theorem dropped_decodePacked (packing : Packing) (half : Bool) (packed : Bytes) :
    dropped (decodePacked packing packed >>= packedString half) =
      match packing, packed.find? hasInvalidNibble with
      | .nibble, some byte => reportNibbles byte
      | _, _ => pure () := by
  cases packing with
  | hex => exact dropped_packedString half (decodePackedHex_ascii packed)
  | nibble =>
    cases hfind : packed.find? hasInvalidNibble with
    | none =>
      rw [decodePacked, decodePackedNibble_of_valid hfind]
      exact dropped_packedString half (nibblePairs_ascii hfind)
    | some byte =>
      obtain ⟨e, he, htail⟩ := decodePackedNibble_of_invalid hfind
      simp only [decodePacked, htail, he]
      rfl

theorem readBytes_zero : readBytes 0 = pure [] := by
  funext input
  simp [readBytes, pure_apply]

theorem skipPacked_eq (packing : Packing) : skipPacked packing = dropped (readPacked packing) := by
  unfold skipPacked readPacked
  rw [dropped_bind]
  apply bind_congr
  intro lenByte
  dsimp only
  split
  · rename_i hlen
    rw [hlen, readBytes_zero, pure_bind]
    cases packing <;> rfl
  · rw [dropped_bind]
    apply bind_congr
    intro packed
    refine Eq.trans ?_ (dropped_decodePacked packing _ packed).symm
    cases packing <;> cases packed.find? hasInvalidNibble <;> rfl

/-! ## Values -/

section Full

variable (T : TokenTables)

theorem skipValueFromTag_eq (tag : UInt8) :
    (fullDecoder T).skipValueFromTag tag =
      dropped (readValueAsStringFromTag T (fullDecoder T) tag) := by
  rw [full_skipValueFromTag]
  unfold skipValueFromTag readValueAsStringFromTag
  cases Tag.ofByte tag with
  | listEmpty => exact (dropped_pure _).symm
  | binary width =>
    simp only [dropped_bind, dropped_map]
  | jid form => simp only [dropped_map]
  | packed packing => simp only [dropped_map, skipPacked_eq]
  | dictionary dict =>
    simp only [dropped_map, readDoubleToken, dropped_bind]
    apply bind_congr
    intro index
    cases T.getDoubleToken dict index with
    | some s => exact (dropped_pure s).symm
    | none => rfl
  | list8 | list16 | single =>
    simp only [readSingleToken]
    cases T.getSingleToken tag with
    | some s => exact (dropped_pure s).symm
    | none => rfl

theorem skipValue_eq : (fullDecoder T).skipValue = dropped (fullDecoder T).readValue := by
  rw [full_skipValue, full_readValue]
  unfold skipValue readValue
  rw [dropped_bind]
  apply bind_congr
  intro tag
  rw [skipValueFromTag_eq]
  unfold readValueAsStringFromTag
  cases Tag.ofByte tag with
  | listEmpty => rfl
  | _ => simp only [dropped_bind, dropped_map]

/-- Only the tag `LIST_EMPTY` stands for a missing string. -/
theorem readValueAsStringFromTag_eq_some {tag : UInt8} (h : tag ≠ LIST_EMPTY) (d : Decoder) :
    ∃ p, readValueAsStringFromTag T d tag = some <$> p := by
  unfold readValueAsStringFromTag
  cases hof : Tag.ofByte tag with
  | listEmpty => exact absurd hof (Tag.ofByte_ne_listEmpty tag h)
  | binary width =>
    exact ⟨readSize width >>= readString, by simp only [map_eq_pure_bind, bind_assoc]⟩
  | jid form => exact ⟨jidRefToCompact <$> d.readJid form, by simp⟩
  | packed packing => exact ⟨_, rfl⟩
  | dictionary dict => exact ⟨_, rfl⟩
  | list8 | list16 | single => exact ⟨_, rfl⟩

/-! ## Nodes -/

/-- Reading a string that must be there: its tag is looked at first. -/
theorem required_eq (e : BinaryError) :
    required e (fullDecoder T).readValueAsString =
      readU8 >>= fun tag =>
        if tag = LIST_EMPTY then fail e
        else (·.getD "") <$> readValueAsStringFromTag T (fullDecoder T) tag := by
  rw [full_readValueAsString, readValueAsString, required, bind_assoc]
  apply bind_congr
  intro tag
  split
  · rename_i h
    subst h
    rfl
  · rename_i h
    obtain ⟨p, hp⟩ := readValueAsStringFromTag_eq_some T h (fullDecoder T)
    simp only [hp, map_eq_pure_bind, bind_assoc, pure_bind, Option.getD_some]

theorem skipAttribute_eq :
    skipAttribute (fullDecoder T) = dropped (readAttribute (fullDecoder T)) := by
  unfold skipAttribute readAttribute
  rw [required_eq, dropped_bind, bind_assoc]
  apply bind_congr
  intro tag
  split
  · rfl
  · simp only [skipValueFromTag_eq, skipValue_eq]
    simp only [dropped, bind_assoc, pure_bind, map_eq_pure_bind]

/-- How many children a head announces. -/
def OpenContent.childCount : OpenContent → Nat
  | .children count => count
  | _ => 0

theorem skipOpenContent_eq :
    skipOpenContent (fullDecoder T) =
      OpenContent.childCount <$> readOpenContent T (fullDecoder T) := by
  unfold skipOpenContent readOpenContent
  rw [map_bind]
  apply bind_congr
  intro tag
  simp only [full_skipScalarContent, skipScalarContent, skipValueFromTag_eq]
  unfold readContentFromTag
  cases htag : Tag.ofByte tag with
  | listEmpty => rfl
  | list8 | list16 => simp [OpenContent.childCount]
  | binary width =>
    simp [dropped, OpenContent.childCount]
  | jid | packed | dictionary | single =>
    simp only [dropped, map_bind, bind_assoc]
    apply bind_congr
    intro s
    cases s <;> simp [OpenContent.childCount]

theorem skipNodeOpen_eq :
    (fullDecoder T).skipNodeOpen =
      (fun head => head.content.childCount) <$> readNodeOpen T (fullDecoder T) := by
  rw [full_skipNodeOpen]
  unfold skipNodeOpen readNodeOpen
  rw [map_bind]
  apply bind_congr
  intro tag
  rw [map_bind]
  apply bind_congr
  intro listSize
  split
  · rfl
  · rw [required_eq, bind_assoc, map_bind]
    apply bind_congr
    intro tagToken
    split
    · rfl
    · rw [skipValueFromTag_eq, skipAttribute_eq, ← dropped_times, skipOpenContent_eq]
      simp only [dropped, map_eq_pure_bind, bind_assoc, pure_bind]
      apply bind_congr
      intro tag
      apply bind_congr
      intro attrs
      by_cases hparity : listSize % 2 = 0
      · simp only [hparity, ne_eq, not_true_eq_false, ↓reduceIte]
      · simp only [hparity, ne_eq, ↓reduceIte]
        rfl

/-- The skipper of nodes is the reader with its result dropped. -/
theorem skipNodeAt_eq (depth : Nat) :
    (fullDecoder T).skipNodeAt depth = dropped ((fullDecoder T).readNodeRefAt depth) := by
  -- the depth grows towards its cap, so the induction is on what is left of it
  induction hgap : MAX_NODE_DEPTH - depth generalizing depth with
  | zero =>
    have hcap : MAX_NODE_DEPTH ≤ depth := by omega
    rw [full_skipNodeAt, full_readNodeRefAt, skipNodeAt, readNodeRefAt, if_pos hcap, if_pos hcap]
    rfl
  | succ gap ih =>
    have hcap : ¬ MAX_NODE_DEPTH ≤ depth := by omega
    rw [full_skipNodeAt, full_readNodeRefAt, skipNodeAt, readNodeRefAt, if_neg hcap, if_neg hcap,
      skipNodeOpen_eq, ih (depth + 1) (by omega), dropped_bind]
    simp only [map_eq_pure_bind, bind_assoc, pure_bind]
    apply bind_congr
    intro head
    cases head.content with
    | none | scalar => rfl
    | children count =>
      rw [← dropped_times, dropped_bind]
      rfl

end Full

/-! ## Positions -/

/-- What a method gives when the decoder stands at `position` of `data`: its
result and the position it leaves the decoder at. -/
def runAt {α : Type} (p : Dec α) (data : Bytes) (position : Nat) : Except Fault (α × Nat) :=
  (p (data.drop position)).map fun r => (r.1, data.length - r.2.length)

theorem runAt_map {α β : Type} (f : α → β) (p : Dec α) (data : Bytes) (position : Nat) :
    runAt (f <$> p) data position = (runAt p data position).map fun r => (f r.1, r.2) := by
  unfold runAt
  rw [map_eq_pure_bind, bind_apply]
  cases p (data.drop position) <;> rfl

/-- For every byte string, start position and depth, `skip_node_at` succeeds
exactly when `read_node_ref_at` does, stops at the same position, and fails
with the same error; and `skip_node_open` reports the child count of the head
that `read_node_open` returns. -/
theorem skipNodeAt_agrees_readNodeRefAt (T : TokenTables) (data : Bytes) (position depth : Nat) :
    runAt ((fullDecoder T).skipNodeAt depth) data position =
        (runAt ((fullDecoder T).readNodeRefAt depth) data position).map (fun r => ((), r.2)) ∧
      runAt (fullDecoder T).skipNodeOpen data position =
        (runAt (readNodeOpen T (fullDecoder T)) data position).map
          (fun r => (r.1.content.childCount, r.2)) := by
  constructor
  · have hdropped : dropped ((fullDecoder T).readNodeRefAt depth) =
        (fun _ => ()) <$> (fullDecoder T).readNodeRefAt depth := by
      rw [dropped, map_eq_pure_bind]
    rw [skipNodeAt_eq, hdropped, runAt_map]
  · rw [skipNodeOpen_eq, runAt_map]

end WaCore.Binary
