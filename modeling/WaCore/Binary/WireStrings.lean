import WaCore.Binary.ExactMarshal
import WaCore.Binary.Received
import WaCore.Binary.SkipAgree

/-!
# Strings over the wire

The writers of the encoder against the readers of the decoder, on the stack it
needs.  `Carried ok write p r` says that the writer succeeds exactly when `ok`
holds, and that the reader `p` then uses exactly what was written and gives `r`
(a value, or a failure), whatever follows.  The rules for it are followed by
the strings in each of their forms: `carried_writeString` says that a string
arrives as `arrival` has it.
-/

namespace WaCore.Binary

open Utf8 ListParser

/-- The writer succeeds exactly when `ok` holds, and the reader then makes `r`
of its bytes. -/
def Carried {α : Type} (ok : Prop) (write : Enc Unit) (p : Dec α) (r : Option α) : Prop :=
  ∃ out, Appends none none write out ∧ ((∃ bytes, out = .ok bytes) ↔ ok) ∧
    ∀ bytes, out = .ok bytes → Reads p bytes r

section Rules

variable {α β : Type} {ok ok' : Prop} {write write' : Enc Unit} {p : Dec α} {f : α → Dec β}

variable {r : Option α}

theorem carried_raw {bytes : Bytes} (h : Reads p bytes r) :
    Carried True (writeRawBytes bytes) p r := by
  refine ⟨.ok bytes, appends_writeRawBytes none bytes, ⟨fun _ => trivial, fun _ => ⟨bytes, rfl⟩⟩, ?_⟩
  rintro _ ⟨⟩
  exact h

theorem writeRawBytes_append (a b : Bytes) :
    (writeRawBytes a >>= fun _ => writeRawBytes b) = writeRawBytes (a ++ b) := by
  funext enc
  show Except.ok ((), { enc with writer := enc.writer ++ a ++ b }) = _
  rw [List.append_assoc]
  rfl

theorem carried_pure (h : Reads p [] r) : Carried True (pure ()) p r := by
  refine ⟨.ok [], appends_pure none, ⟨fun _ => trivial, fun _ => ⟨[], rfl⟩⟩, ?_⟩
  rintro _ ⟨⟩
  exact h

theorem carried_throw {e : Fault} (h : ¬ ok) : Carried ok (throw e) p r := by
  refine ⟨.error e, appends_throw none none e, ⟨?_, fun hok => absurd hok h⟩, ?_⟩
  · rintro ⟨bytes, hbytes⟩
    cases hbytes
  · rintro bytes ⟨⟩

theorem Carried.congr {r r' : Option α} (h : Carried ok write p r) (hok : ok ↔ ok')
    (hr : r = r') : Carried ok' write p r' := by
  obtain ⟨out, hwrite, hout, hread⟩ := h
  exact ⟨out, hwrite, hout.trans hok, hr ▸ hread⟩

theorem andThen_ok_iff {out out' : Except Fault Bytes} :
    (∃ bytes, andThen out out' = .ok bytes) ↔ (∃ b, out = .ok b) ∧ ∃ b', out' = .ok b' := by
  constructor
  · rintro ⟨bytes, h⟩
    obtain ⟨b, b', hb, hb', -⟩ := andThen_eq_ok h
    exact ⟨⟨b, hb⟩, ⟨b', hb'⟩⟩
  · rintro ⟨⟨b, rfl⟩, ⟨b', rfl⟩⟩
    exact ⟨b ++ b', rfl⟩

/-- Two writers after each other, the second read after the value of the first
one. -/
theorem Carried.bind_some {a : α} {r : Option β} (h : Carried ok write p (some a))
    (h' : Carried ok' write' (f a) r) :
    Carried (ok ∧ ok') (write >>= fun _ => write') (p >>= f) r := by
  obtain ⟨out, hwrite, hout, hread⟩ := h
  obtain ⟨out', hwrite', hout', hread'⟩ := h'
  refine ⟨_, hwrite.bind hwrite', andThen_ok_iff.trans (and_congr hout hout'), ?_⟩
  intro bytes hbytes
  obtain ⟨b, b', hb, hb', rfl⟩ := andThen_eq_ok hbytes
  exact (hread b hb).bind (hread' b' hb')

/-- The same when the first value may be missing. -/
theorem Carried.bind [Nonempty α] {g : α → Option β} (h : Carried ok write p r)
    (h' : ∀ a, Carried ok' write' (f a) (g a)) :
    Carried (ok ∧ ok') (write >>= fun _ => write') (p >>= f) (r.bind g) := by
  cases r with
  | some a => exact h.bind_some (h' a)
  | none =>
    obtain ⟨out, hwrite, hout, hread⟩ := h
    obtain ⟨out', hwrite', hout', -⟩ := h' (Classical.arbitrary α)
    refine ⟨_, hwrite.bind hwrite', andThen_ok_iff.trans (and_congr hout hout'), ?_⟩
    intro bytes hbytes
    obtain ⟨b, b', hb, hb', rfl⟩ := andThen_eq_ok hbytes
    exact (hread b hb).bind_none

/-- Bytes in front. -/
theorem Carried.raw {bytes : Bytes} {a : α} {r : Option β} (h : Reads p bytes (some a))
    (h' : Carried ok write (f a) r) :
    Carried ok (writeRawBytes bytes >>= fun _ => write) (p >>= f) r :=
  ((carried_raw h).bind_some h').congr (by rw [true_and]) rfl

/-- On an input that begins with the tag, `p` is `q` on the rest. -/
def AfterTag (p : Dec α) (tag : UInt8) (q : Dec α) : Prop := ∀ input, p (tag :: input) = q input

theorem Carried.tag {tag : UInt8} {q : Dec α} (hp : AfterTag p tag q) (h : Carried ok write q r) :
    Carried ok (writeU8 tag >>= fun _ => write) p r := by
  obtain ⟨out, hwrite, hout, hread⟩ := h
  refine ⟨_, (appends_writeRawBytes none [tag]).bind hwrite, ?_, ?_⟩
  · rw [andThen_ok_iff, hout]
    exact ⟨And.right, fun hok => ⟨⟨_, rfl⟩, hok⟩⟩
  · intro bytes hbytes
    obtain ⟨b, b', hb, hb', rfl⟩ := andThen_eq_ok hbytes
    cases hb
    cases r with
    | some a => exact fun rest => (hp _).trans (hread b' hb' rest)
    | none =>
      intro rest
      obtain ⟨e, he⟩ := hread b' hb' rest
      exact ⟨e, (hp _).trans he⟩

/-- A reader that goes on without reading. -/
theorem Carried.post {g : α → Option β} (h : Carried ok write p r)
    (h' : ∀ a, r = some a → Reads (f a) [] (g a)) : Carried ok write (p >>= f) (r.bind g) := by
  obtain ⟨out, hwrite, hout, hread⟩ := h
  exact ⟨out, hwrite, hout, fun bytes hbytes => (hread bytes hbytes).post h'⟩

theorem Carried.map (k : α → β) (h : Carried ok write p r) :
    Carried ok write (k <$> p) (r.map k) := by
  obtain ⟨out, hwrite, hout, hread⟩ := h
  exact ⟨out, hwrite, hout, fun bytes hbytes => (hread bytes hbytes).map k⟩

end Rules

/-! ## Lengths -/

theorem reads_readU8 (b : UInt8) : Reads readU8 [b] (some b) := fun _ => rfl

theorem reads_readU16Be (v : UInt16) :
    Reads readU16Be [(v >>> 8).toUInt8, v.toUInt8] (some v) := by
  intro rest
  show Except.ok (_, rest) = _
  rw [uint16_of_bytes]

theorem reads_readU20Be {v : UInt32} (h : v.toNat < 2 ^ 20) :
    Reads readU20Be [((v >>> 16) &&& 0x0F).toUInt8, ((v >>> 8) &&& 0xFF).toUInt8,
      (v &&& 0xFF).toUInt8] (some v) := by
  intro rest
  show Except.ok (_, rest) = _
  rw [uint20_of_bytes v h]

theorem reads_readU32Be (v : UInt32) :
    Reads readU32Be [(v >>> 24).toUInt8, (v >>> 16).toUInt8, (v >>> 8).toUInt8, v.toUInt8]
      (some v) := by
  intro rest
  show Except.ok (_, rest) = _
  rw [uint32_of_bytes]

theorem reads_readBytes (b : Bytes) : Reads (readBytes b.length) b (some b) := by
  intro rest
  simp [readBytes]

theorem reads_readString (s : String) :
    Reads (readString (ofString s).length) (ofString s) (some s) := by
  refine (reads_readBytes (ofString s)).post (g := fun _ => some s) ?_
  rintro _ ⟨⟩
  rw [fromUtf8_ofString]
  exact reads_pure s

/-- The length prefix of `write_bytes_with_len` is a binary tag and a length
that reads back, below `2^32`. -/
theorem binaryLen_reads {len : Nat} (h : len < 2 ^ 32) :
    ∃ tag lenBytes width, writeBinaryLen len = (do writeU8 tag; writeRawBytes lenBytes) ∧
      Tag.ofByte tag = .binary width ∧ Reads (readSize width) lenBytes (some len) := by
  unfold writeBinaryLen
  split_ifs with h8 h20
  · refine ⟨_, _, .binary8, rfl, by decide, ?_⟩
    have hread := (reads_readU8 (UInt8.ofNat len)).map UInt8.toNat
    rwa [Option.map_some, UInt8.toNat_ofNat_of_lt' h8] at hread
  · refine ⟨_, _, .binary20, rfl, by decide, ?_⟩
    have hlen : (UInt32.ofNat len).toNat = len := UInt32.toNat_ofNat_of_lt' h
    have hread := (reads_readU20Be (by rwa [hlen])).map UInt32.toNat
    rwa [Option.map_some, hlen] at hread
  · refine ⟨_, _, .binary32, rfl, by decide, ?_⟩
    have hread := (reads_readU32Be (UInt32.ofNat len)).map UInt32.toNat
    rwa [Option.map_some, UInt32.toNat_ofNat_of_lt' h] at hread

/-- A byte string of less than `2^32` bytes: its tag, its length, its bytes. -/
theorem carried_writeBytesWithLen {α : Type} {b : Bytes} {p : Dec α} {r : Option α}
    (h : b.length < 2 ^ 32)
    (hp : ∀ tag width, Tag.ofByte tag = .binary width →
      ∃ k, AfterTag p tag (readSize width >>= k) ∧ Reads (k b.length) b r) :
    Carried True (writeBytesWithLen b) p r := by
  obtain ⟨tag, lenBytes, width, hwrite, htag, hread⟩ := binaryLen_reads h
  obtain ⟨k, hk, hbytes⟩ := hp tag width htag
  rw [writeBytesWithLen, hwrite]
  exact .tag hk (.raw hread (carried_raw hbytes))

/-! ## Readers of strings

Strings are read in three places: where a string is wanted, as the value of an
attribute and as the content of a node.  The readers differ only in what they
make of the form in which a string arrives. -/

/-- The reader makes `k a` of a string that arrives as `a`. -/
structure ReadsArrivals {α : Type} (T : TokenTables) (d : Decoder) (p : Dec α)
    (k : Arrival → α) : Prop where
  jid : ∀ tag form, Tag.ofByte tag = .jid form →
    AfterTag p tag ((fun j => k (.jid j)) <$> d.readJid form)
  packed : ∀ tag packing, Tag.ofByte tag = .packed packing →
    AfterTag p tag ((fun s => k (.text s)) <$> readPacked packing)
  dictionary : ∀ tag dict, Tag.ofByte tag = .dictionary dict →
    AfterTag p tag ((fun s => k (.text s)) <$> readDoubleToken T tag dict)
  single : ∀ tag token, Tag.ofByte tag = .single token →
    AfterTag p tag ((fun s => k (.text s)) <$> readSingleToken T tag)
  binary : ∀ tag width, Tag.ofByte tag = .binary width →
    ∃ q, AfterTag p tag (readSize width >>= q) ∧
      ∀ s, Reads (q (ofString s).length) (ofString s) (some (k (.raw s)))

section Readers

variable (T : TokenTables) (d : Decoder)

theorem readsArrivals_readValueAsString :
    ReadsArrivals T d (readValueAsString T d) fun a => some a.asText := by
  refine
    { jid := fun tag form htag input => ?_, packed := fun tag packing htag input => ?_,
      dictionary := fun tag dict htag input => ?_, single := fun tag token htag input => ?_,
      binary := fun tag width htag => ⟨fun size => some <$> readString size, fun input => by
        rw [readValueAsString, readU8_bind, readValueAsStringFromTag, htag],
        fun s => (reads_readString s).map _⟩ }
  all_goals
    rw [readValueAsString, readU8_bind, readValueAsStringFromTag, htag]
    rfl

theorem readsArrivals_readValue :
    ReadsArrivals T d (readValue T d) fun a => some a.asValue := by
  refine
    { jid := fun tag form htag input => ?_, packed := fun tag packing htag input => ?_,
      dictionary := fun tag dict htag input => ?_, single := fun tag token htag input => ?_,
      binary := fun tag width htag => ⟨fun size => (fun s => some (.string s)) <$> readString size,
        fun input => by rw [readValue, readU8_bind, htag], fun s => (reads_readString s).map _⟩ }
  all_goals
    rw [readValue, readU8_bind, htag]
    rfl

end Readers

/-! ## Packed strings -/

/-- The two halves of a byte come apart as they were put together. -/
theorem nibbles_of_pack {hi lo : UInt8} (hhi : hi < 16) (hlo : lo < 16) :
    (hi <<< 4 ||| lo) >>> 4 = hi ∧ (hi <<< 4 ||| lo) &&& 0x0F = lo := by
  have hhi' : hi.toNat < 16 := UInt8.lt_iff_toNat_lt.mp hhi
  have hlo' : lo.toNat < 16 := UInt8.lt_iff_toNat_lt.mp hlo
  have hbyte : (hi <<< 4 ||| lo).toNat = 2 ^ 4 * hi.toNat + lo.toNat := by
    simp only [UInt8.toNat_or, UInt8.toNat_shiftLeft, UInt8.reduceToNat, Nat.reduceMod,
      Nat.shiftLeft_eq]
    rw [Nat.mod_eq_of_lt (by omega), Nat.mul_comm]
    exact (Nat.two_pow_add_eq_or_of_lt hlo' _).symm
  have hmask (n : Nat) : n &&& 15 = n % 2 ^ 4 := Nat.and_two_pow_sub_one_eq_mod n 4
  constructor
  · apply UInt8.toNat_inj.mp
    simp only [UInt8.toNat_shiftRight, UInt8.reduceToNat, Nat.reduceMod]
    omega
  · apply UInt8.toNat_inj.mp
    simp only [UInt8.toNat_and, UInt8.reduceToNat, hmask]
    omega

/-- The row of a packing's table of pairs. -/
def pairOf : Packing → UInt8 → Bytes
  | .hex => hexPair
  | .nibble => nibblePair

/-- The character of a nibble. -/
def glyphOf : Packing → UInt8 → UInt8
  | .hex => hexGlyph
  | .nibble => nibbleGlyph

theorem glyphOf_packTable (packing : Packing) (c : UInt8) (h : packsChar packing c) :
    glyphOf packing (packTable packing c) = c := by
  revert c
  cases packing <;> exact forall_byte (by decide +kernel)

theorem ne_invalid_of_packsChar (packing : Packing) (c : UInt8) (h : packsChar packing c) :
    c ≠ NIBBLE_INVALID := by
  revert c
  cases packing <;> exact forall_byte (by decide +kernel)

theorem pairOf_pack (packing : Packing) {hi lo : UInt8} (hhi : hi < 16) (hlo : lo < 16) :
    pairOf packing (hi <<< 4 ||| lo) = [glyphOf packing hi, glyphOf packing lo] := by
  obtain ⟨hhigh, hlow⟩ := nibbles_of_pack hhi hlo
  cases packing with
  | hex => rw [pairOf, hexPair, hhigh, hlow]; rfl
  | nibble => rw [pairOf, nibblePair, hhigh, hlow]; rfl

/-- What an odd string has too much when it is unpacked. -/
def padOf (packing : Packing) (len : Nat) : Bytes :=
  if len % 2 = 0 then [] else [glyphOf packing 15]

variable {packing : Packing} {s : Bytes}

theorem flatMap_packPairs (h : ∀ b ∈ s, packsChar packing b) :
    (packPairs (packTable packing) s).flatMap (pairOf packing) = s ++ padOf packing s.length := by
  induction s using packPairs.induct with
  | case1 => rfl
  | case2 last =>
    have hlast := h last (by simp)
    rw [packPairs, packTable_zero, List.flatMap_cons,
      pairOf_pack packing (packTable_lt _ _ hlast) (by decide), glyphOf_packTable _ _ hlast]
    rfl
  | case3 hi lo rest ih =>
    have hhi := h hi (by simp)
    have hlo := h lo (by simp)
    have hpad : padOf packing (hi :: lo :: rest).length = padOf packing rest.length := by
      simp [padOf, Nat.add_assoc]
    rw [packPairs, List.flatMap_cons, ih fun b hb => h b (by simp [hb]),
      pairOf_pack packing (packTable_lt _ _ hhi) (packTable_lt _ _ hlo), glyphOf_packTable _ _ hhi,
      glyphOf_packTable _ _ hlo, hpad]
    rfl

theorem decodePacked_packPairs (h : ∀ b ∈ s, packsChar packing b) :
    decodePacked packing (packPairs (packTable packing) s) =
      pure (s ++ padOf packing s.length) := by
  have hpairs := flatMap_packPairs h
  cases packing with
  | hex => exact congrArg pure hpairs
  | nibble =>
    have hvalid : (packPairs (packTable .nibble) s).find? hasInvalidNibble = none := by
      rw [List.find?_eq_none]
      intro byte hbyte hinvalid
      have hmem : NIBBLE_INVALID ∈ s ++ padOf .nibble s.length := by
        rw [← hpairs]
        exact List.mem_flatMap.mpr ⟨byte, hbyte, of_decide_eq_true hinvalid⟩
      rcases List.mem_append.mp hmem with hs | hpad
      · exact ne_invalid_of_packsChar _ _ (h _ hs) rfl
      · revert hpad
        unfold padOf
        split <;> decide
    rw [decodePacked, decodePackedNibble_of_valid hvalid]
    exact congrArg pure hpairs

theorem packedLenByte_spec : ∀ len ≤ PACKED_MAX,
    (packedLenByte len &&& 0x7F).toNat = (len + 1) / 2 ∧
      (packedLenByte len &&& 0x80 ≠ 0 ↔ len % 2 ≠ 0) := by
  decide +kernel

/-- The end of `read_packed` drops the pad. -/
theorem packedString_pad {half : Bool} (packing : Packing) (hs : Valid s)
    (hhalf : half = true ↔ s.length % 2 ≠ 0) :
    packedString half (s ++ padOf packing s.length) = pure (strOf s) := by
  have hdrop : (if half then (s ++ padOf packing s.length).dropLast
      else s ++ padOf packing s.length) = s := by
    unfold padOf
    by_cases hodd : s.length % 2 = 0
    · have hfalse : half = false := by
        cases half with
        | true => exact absurd hodd (hhalf.mp rfl)
        | false => rfl
      simp [hodd, hfalse]
    · simp [hodd, hhalf.mpr hodd]
  obtain ⟨str, rfl⟩ := hs.exists_string
  unfold packedString
  rw [hdrop, fromUtf8_ofString, strOf_ofString]

/-- A packed string reads back. -/
theorem reads_readPacked (hs : Valid s) (hne : s ≠ []) (h : Packable packing s) :
    Reads (readPacked packing)
      (packedLenByte s.length :: packPairs (packTable packing) s) (some (strOf s)) := by
  obtain ⟨hlen, hodd⟩ := packedLenByte_spec s.length h.1
  have hpos : 0 < s.length := List.length_pos_iff.mpr hne
  refine (reads_readU8 _).bind ?_
  rw [hlen, if_neg (by omega), ← length_packPairs (packTable packing)]
  refine (reads_readBytes _).post (g := fun _ => some (strOf s)) ?_
  rintro _ ⟨⟩
  rw [decodePacked_packPairs h.2, pure_bind,
    packedString_pad packing hs (by rw [decide_eq_true_eq]; exact hodd)]
  exact reads_pure _

/-! ## Strings -/

section Strings

variable (T : TokenTables)

theorem Tag.ofByte_of_lt (tag : UInt8) (h0 : tag ≠ 0) (h : tag.toNat < 236) :
    Tag.ofByte tag = .single tag := by
  revert tag
  exact forall_byte (by decide +kernel)

theorem Tag.ofByte_dictionary (dict : UInt8) (h : dict.toNat < 4) :
    Tag.ofByte (DICTIONARY_0 + dict) = .dictionary dict := by
  revert dict
  exact forall_byte (by decide +kernel)

theorem Tag.ofByte_packedTag (packing : Packing) :
    Tag.ofByte (packedTag packing) = .packed packing := by
  cases packing <;> decide

variable {T} {d : Decoder}

section Forms

variable {α : Type} {p : Dec α} {k : Arrival → α} (hp : ReadsArrivals T d p k) {s : String}
include hp

theorem carried_singleToken {token : UInt8}
    (h : T.indexOfToken (ofString s) = some (.single token)) :
    Carried True (writeU8 token) p (some (k (.text s))) := by
  obtain ⟨hget, hne, hlt⟩ := T.getSingleToken_of_index h
  have hread : Reads (readSingleToken T token) [] (some s) := by
    rw [readSingleToken, hget]
    exact reads_pure s
  have hdone := Carried.tag (hp.single token token (Tag.ofByte_of_lt token hne hlt))
    (carried_pure (hread.map fun s => k (.text s)))
  rwa [bind_pure_unit] at hdone

theorem carried_doubleToken {dict token : UInt8}
    (h : T.indexOfToken (ofString s) = some (.double dict token)) :
    Carried True (do writeU8 (DICTIONARY_0 + dict); writeU8 token) p (some (k (.text s))) := by
  obtain ⟨hget, hlt⟩ := T.getDoubleToken_of_index h
  refine .tag (hp.dictionary _ dict (Tag.ofByte_dictionary dict hlt)) (carried_raw ?_)
  have hread : Reads (readDoubleToken T (DICTIONARY_0 + dict) dict) [token] (some s) := by
    refine (reads_readU8 token).post (g := fun _ => some s) ?_
    rintro _ ⟨⟩
    rw [hget]
    exact reads_pure s
  exact hread.map _

theorem carried_packed (hne : ofString s ≠ []) (h : Packable packing (ofString s)) :
    Carried True (writePackedBytes (ofString s) packing) p (some (k (.text s))) := by
  have hread := reads_readPacked (valid_ofString s) hne h
  rw [strOf_ofString] at hread
  rw [writePackedBytes_of_packable h]
  refine .tag (hp.packed _ packing (Tag.ofByte_packedTag packing)) ?_
  show Carried True (writeRawBytes _ >>= fun _ => writeRawBytes _) _ _
  rw [writeRawBytes_append]
  exact carried_raw (hread.map _)

theorem carried_rawString (h : (ofString s).length < 2 ^ 32) :
    Carried True (writeBytesWithLen (ofString s)) p (some (k (.raw s))) := by
  refine carried_writeBytesWithLen h fun tag width htag => ?_
  obtain ⟨q, hq, hread⟩ := hp.binary tag width htag
  exact ⟨q, hq, hread s⟩

/-- The empty string is a byte string of no bytes. -/
theorem carried_emptyString :
    Carried True (do writeU8 BINARY_8; writeU8 0) p (some (k (.raw ""))) := by
  obtain ⟨q, hq, hread⟩ := hp.binary BINARY_8 .binary8 (by decide)
  have hsize : Reads (readSize .binary8) [0] (some 0) := (reads_readU8 0).map UInt8.toNat
  exact .tag hq (carried_raw (hsize.bind (hread "")))

end Forms

/-- Without a tape a string is written with its own hint. -/
theorem writeStringAt_plain (n : Nat) (s written : Bytes) :
    writeStringAt T (n + 1) s ⟨written, none⟩ =
      writeStringWithHint (writeStringAt T n) s (hintOf T s) ⟨written, none⟩ := by
  rw [← writeStringUncached_eq]
  rfl

theorem Carried.of_hint {α : Type} {ok : Prop} {n : Nat} {p : Dec α} {r : Option α}
    (h : Carried ok (writeStringWithHint (writeStringAt T n) s (hintOf T s)) p r) :
    Carried ok (writeStringAt T (n + 1) s) p r := by
  obtain ⟨out, hwrite, hout, hread⟩ := h
  refine ⟨out, fun written => ?_, hout, hread⟩
  rw [writeStringAt_plain]
  exact hwrite written

/-- The server of an `AD_JID` comes back from its domain byte. -/
theorem adServer_serverToDomainType (server : Server) (h : serverSupportsAdJid server) :
    adServer (serverToDomainType server) = some server := by
  cases server <;> first | rfl | cases h

section Jids

variable {ok ok' : Prop} {writeUser' writeServer : Enc Unit}

/-- A `JID_PAIR` after its tag: the user and the server, read as strings. -/
theorem carried_readJidPair {user server : Option (Option String)}
    (huser : Carried ok writeUser' d.readValueAsString user)
    (hserver : Carried ok' writeServer d.readValueAsString server) :
    Carried (ok ∧ ok') (writeUser' >>= fun _ => writeServer) (readJidPair d)
      ((user.map (·.getD "")).bind fun u => (server.map (·.getD "")).bind fun s =>
        (Server.parseKnown (ofString s)).map fun k => ⟨u, k, 0, 0, 0⟩) := by
  rw [Option.bind_map]
  refine huser.bind fun u => ?_
  dsimp only [Function.comp]
  rw [Option.bind_map]
  refine hserver.post fun s _ => ?_
  dsimp only [Function.comp]
  cases hknown : Server.parseKnown (ofString (s.getD "")) with
  | none => exact reads_throw _
  | some k => exact reads_pure _

/-- A string where one is required. -/
theorem Carried.required {e : BinaryError} {write : Enc Unit} {p : Dec (Option String)}
    {r : Option String} (h : Carried ok write p (r.map some)) :
    Carried ok write (required e p) r := by
  refine (h.post (g := fun u => u) ?_).congr Iff.rfl (by cases r <;> rfl)
  rintro u hu
  obtain ⟨u, -, rfl⟩ := Option.map_eq_some_iff.mp hu
  exact reads_pure u

/-- An `AD_JID` after its tag: domain, device and user. -/
theorem carried_readAdJid {server : Server} {device : UInt8} (user : Option String)
    (had : serverSupportsAdJid server)
    (huser : Carried ok writeUser' d.readValueAsString (user.map some)) :
    Carried ok (do writeU8 (serverToDomainType server); writeU8 device; writeUser') (readAdJid d)
      (user.map fun u => ⟨u, server, 0, device.toUInt16, 0⟩) := by
  refine .raw (reads_readU8 _) (.raw (reads_readU8 _) ?_)
  rw [Option.map_eq_bind]
  refine huser.required.post fun u _ => ?_
  rw [adServer_serverToDomainType server had]
  exact reads_pure _

/-- A JID where strings are read, after the rest of it. -/
theorem carried_jid {α : Type} {p : Dec α} {k : Arrival → α} {form : JidForm} {tag : UInt8}
    {r : Option Jid} {write : Enc Unit} (hp : ReadsArrivals T (fullDecoder T) p k)
    (htag : Tag.ofByte tag = .jid form)
    (h : Carried ok write (readJidForm (fullDecoder T) form) r) :
    Carried ok (writeU8 tag >>= fun _ => write) p (r.map fun j => k (.jid j)) := by
  have hread := hp.jid tag form htag
  rw [full_readJid] at hread
  exact .tag hread (h.map _)

end Jids

/-- The user of a `JID_PAIR`, an empty one as `LIST_EMPTY`. -/
theorem carried_user (empty : Prop) [Decidable empty] {write : Enc Unit} (user : Option String)
    (h : Carried True write (fullDecoder T).readValueAsString (user.map some))
    (hempty : empty → user = some "") :
    ∃ u, u.map (·.getD "") = user ∧
      Carried True (if empty then writeU8 LIST_EMPTY else write)
        (fullDecoder T).readValueAsString u := by
  split
  · rename_i hyes
    refine ⟨some none, (hempty hyes).symm, carried_raw ?_⟩
    exact fun _ => rfl
  · exact ⟨user.map some, by cases user <;> rfl, h⟩

theorem length_splitJidFromMeta (s : Bytes) (info : ParsedJidMeta) :
    (splitJidFromMeta s info).1.length ≤ s.length ∧
      (splitJidFromMeta s info).2.length ≤ s.length + 14 := by
  constructor
  · exact List.length_take_le' _ _
  · unfold splitJidFromMeta
    cases info.server with
    | none =>
      show (s.drop _).length ≤ _
      rw [List.length_drop]
      omega
    | some server => exact server.length_asStr_le.trans (Nat.le_add_left _ _)

/-- The decoder reads a string where one is wanted. -/
theorem readsArrivals_full (T : TokenTables) :
    ReadsArrivals T (fullDecoder T) (fullDecoder T).readValueAsString fun a => some a.asText := by
  rw [full_readValueAsString]
  exact readsArrivals_readValueAsString T _

section JidStrings

variable {α : Type} {p : Dec α} {k : Arrival → α} (hp : ReadsArrivals T (fullDecoder T) p k)
  {n : Nat} {s : Bytes} {info : ParsedJidMeta}
include hp

/-- A JID string written as a `JID_PAIR`, when its pieces arrive. -/
theorem carried_pairFromMeta (hdevice : info.device = none) (hs : Valid s)
    (hparse : parseJidMeta s = some info)
    (huser : Carried True (writeStringAt T n (splitJidFromMeta s info).1)
      (fullDecoder T).readValueAsString (some (some (strOf (splitJidFromMeta s info).1))))
    (hserver : Carried True (writeStringAt T n (splitJidFromMeta s info).2)
      (fullDecoder T).readValueAsString
      ((arrivalAt T n (splitJidFromMeta s info).2).map fun a => some a.asText)) :
    Carried True (writeJidFromMeta (writeStringAt T n) s info) p
      (((arrivalAt T n (splitJidFromMeta s info).2).bind Arrival.asServer).map fun server =>
        k (.jid ⟨strOf (splitJidFromMeta s info).1, server, 0, 0, 0⟩)) := by
  have hvalid := (valid_splitJidFromMeta hs hparse).1
  obtain ⟨u, hu, hwriteUser⟩ := carried_user ((splitJidFromMeta s info).1 = [])
    (some (strOf (splitJidFromMeta s info).1)) huser
    fun hempty => by rw [(strOf_eq_empty hvalid).mpr hempty]
  have htag : Tag.ofByte JID_PAIR = .jid .pair := by decide
  unfold writeJidFromMeta
  rw [hdevice]
  refine (carried_jid hp htag (carried_readJidPair hwriteUser hserver)).congr and_self_iff ?_
  rw [hu, Option.map_map]
  cases arrivalAt T n (splitJidFromMeta s info).2 with
  | none => rfl
  | some b => exact Option.map_map _ _ b.asServer

/-- A JID string arrives when its pieces do. -/
theorem carried_writeJidFromMeta (hs : Valid s) (hparse : parseJidMeta s = some info)
    (hhint : hintOf T s = .jid info) (hn : s.count 64 < n + 1)
    (ih : ∀ t : Bytes, Valid t → t.length ≤ s.length + 14 → t.count 64 < n →
      Carried True (writeStringAt T n t) (fullDecoder T).readValueAsString
        ((arrivalAt T n t).map fun a => some a.asText)) :
    Carried True (writeJidFromMeta (writeStringAt T n) s info) p
      ((arrivalAt T (n + 1) s).map k) := by
  obtain ⟨hvalidUser, hvalidServer⟩ := valid_splitJidFromMeta hs hparse
  obtain ⟨hlenUser, hlenServer⟩ := length_splitJidFromMeta s info
  obtain ⟨hcountUser, hcountServer⟩ := count_splitJidFromMeta hparse
  obtain ⟨m, rfl⟩ : ∃ m, n = m + 1 := ⟨n - 1, by omega⟩
  obtain ⟨a, ha, hatext, -⟩ := asText_arrivalAt_of_no_at (n := m)
    (at_not_mem_splitJidFromMeta hparse)
  have huser := ih _ hvalidUser (by omega) (by omega)
  rw [ha, Option.map_some, hatext] at huser
  rw [arrivalAt_jid hhint, Option.map_map]
  cases hdevice : info.device with
  | none =>
    exact carried_pairFromMeta hp hdevice hs hparse huser
      (ih _ hvalidServer hlenServer (by omega))
  | some device =>
    obtain ⟨-, -, -, -, -, -, hany⟩ := parseJidMeta_eq_some hparse
    obtain ⟨server, hserver, had⟩ : ∃ server, info.server = some server ∧
        serverSupportsAdJid server := by
      simpa [Option.any_eq_true] using hany (by rw [hdevice]; rfl)
    obtain ⟨b, hb, hbtext, -⟩ := asText_arrivalAt_of_no_at (n := m)
      server.at_not_mem_asStr
    have hsecond : (splitJidFromMeta s info).2 = ofString server.asStr := by
      rw [splitJidFromMeta, hserver]
      rfl
    rw [hsecond, hb, Option.bind_some, Arrival.asServer, hbtext, strOf_ofString,
      Server.parseKnown_asStr]
    have htag : Tag.ofByte AD_JID = .jid .ad := by decide
    have hdomain : info.domainType = serverToDomainType server := by
      rw [ParsedJidMeta.domainType, hserver]
      rfl
    unfold writeJidFromMeta
    rw [hdevice, hdomain]
    exact carried_jid hp htag (carried_readAdJid (some _) had huser)

end JidStrings

/-- A string arrives as `arrivalAt` says, wherever it is read. -/
theorem carried_writeStringAt {α : Type} {p : Dec α} {k : Arrival → α}
    (hp : ReadsArrivals T (fullDecoder T) p k) (n : Nat) (s : Bytes) (hs : Valid s)
    (hlen : s.length < 2 ^ 32) (hn : s.count 64 < n) :
    Carried True (writeStringAt T n s) p ((arrivalAt T n s).map k) := by
  induction n generalizing s α p k with
  | zero => omega
  | succ n ih =>
    refine .of_hint ?_
    have hspec := hintSpec_hintOf T s
    obtain ⟨str, rfl⟩ := hs.exists_string
    by_cases hjid : ∃ info, hintOf T (ofString str) = .jid info
    · obtain ⟨info, hhint⟩ := hjid
      rw [hhint] at hspec ⊢
      cases hspec with
      | jid hshort hparse =>
        exact carried_writeJidFromMeta hp hs hparse hhint hn fun t ht htlen htn =>
          ih (readsArrivals_full T) t ht (by omega) htn
    · rw [arrivalAt, strOf_ofString]
      generalize hintOf T (ofString str) = hint at hspec hjid ⊢
      cases hspec with
      | empty hempty =>
        obtain rfl : str = "" := ofString_injective hempty
        exact carried_emptyString hp
      | singleToken _ _ hindex => exact carried_singleToken hp hindex
      | doubleToken _ _ hindex => exact carried_doubleToken hp hindex
      | packedNibble hne hvalid => exact carried_packed hp hne (packable_nibble hvalid)
      | packedHex hne hvalid => exact carried_packed hp hne (packable_hex hvalid)
      | jid _ _ => exact absurd ⟨_, rfl⟩ hjid
      | rawBytes _ => exact carried_rawString hp hlen

theorem carried_writeString {α : Type} {p : Dec α} {k : Arrival → α}
    (hp : ReadsArrivals T (fullDecoder T) p k) {s : String} (hlen : (ofString s).length < 2 ^ 32) :
    Carried True (writeString T s) p ((arrival T s).map k) := by
  have hcount := (ofString s).count_le_length (a := 64)
  exact carried_writeStringAt hp _ _ (valid_ofString s) hlen (by omega)

end Strings

end WaCore.Binary
