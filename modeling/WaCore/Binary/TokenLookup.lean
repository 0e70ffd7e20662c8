import WaCore.Binary.TokenBuild

/-!
# Token lookup is exact

A key is accepted by the entry that describes a token exactly if it is the bytes
of that token.  A false match of a key, which may be a signature shared by two
tokens or a short key that is the signature of a long one, is not accepted, and
the search goes on.  So `lookup_bytes` ends, with the kind of a token for its
bytes and with nothing for any other.
-/

namespace WaCore.Binary

open Utf8

/-! ## Keys -/

theorem u32FromLeBytes_inj {a b c d a' b' c' d' : UInt8}
    (h : u32FromLeBytes a b c d = u32FromLeBytes a' b' c' d') :
    a = a' ∧ b = b' ∧ c = c' ∧ d = d' := by
  have ha := a.toNat_lt
  have hb := b.toNat_lt
  have hc := c.toNat_lt
  have hd := d.toNat_lt
  have ha' := a'.toNat_lt
  have hb' := b'.toNat_lt
  have hc' := c'.toNat_lt
  have hd' := d'.toNat_lt
  rw [u32FromLeBytes, u32FromLeBytes, ← UInt32.toNat_inj, UInt32.toNat_ofNat', UInt32.toNat_ofNat']
    at h
  refine ⟨UInt8.toNat_inj.mp ?_, UInt8.toNat_inj.mp ?_, UInt8.toNat_inj.mp ?_,
    UInt8.toNat_inj.mp ?_⟩ <;> omega

namespace TokenMaps

theorem tokenKey_eq_tokenSignature {b : Bytes} (h : 4 < b.length) :
    tokenKey b = tokenSignature b := by
  rcases b with _ | ⟨a, _ | ⟨b, _ | ⟨c, _ | ⟨d, _ | ⟨e, rest⟩⟩⟩⟩⟩
  all_goals first | rfl | simp at h

theorem tokenKey_eq_shortWord {b : Bytes} (hpos : 0 < b.length) (h : b.length ≤ 4) :
    tokenKey b = shortWord b := by
  rcases b with _ | ⟨a, _ | ⟨b, _ | ⟨c, _ | ⟨d, _ | ⟨e, rest⟩⟩⟩⟩⟩
  · simp at hpos
  all_goals first | rfl | (simp only [List.length_cons] at h; omega)

/-- Short keys of one length are told apart by their words. -/
theorem shortWord_inj {key b : Bytes} (hpos : 0 < key.length) (h : key.length ≤ 4)
    (hlength : key.length = b.length) (heq : shortWord key = shortWord b) : key = b := by
  rcases key with _ | ⟨k₁, _ | ⟨k₂, _ | ⟨k₃, _ | ⟨k₄, _ | ⟨k₅, rest⟩⟩⟩⟩⟩
  · simp at hpos
  · obtain ⟨a, rfl⟩ := List.length_eq_one_iff.mp hlength.symm
    rw [UInt8.toUInt32_inj.mp heq]
  · obtain ⟨a, b, rfl⟩ := List.length_eq_two.mp hlength.symm
    obtain ⟨rfl, rfl, -⟩ := u32FromLeBytes_inj heq
    rfl
  · obtain ⟨a, b, c, rfl⟩ := List.length_eq_three.mp hlength.symm
    obtain ⟨rfl, rfl, rfl, -⟩ := u32FromLeBytes_inj heq
    rfl
  · rcases b with _ | ⟨a, tail⟩
    · cases hlength
    · obtain ⟨b, c, d, rfl⟩ := List.length_eq_three.mp (Nat.succ.inj hlength).symm
      obtain ⟨rfl, rfl, rfl, rfl⟩ := u32FromLeBytes_inj heq
      rfl
  · simp only [List.length_cons] at h
    omega

/-! ## What a slot accepts -/

/-- The two parts of the word of an entry. -/
theorem info_parts {kind : Nat} (h : kind < 2 ^ 11) (tag : Nat) :
    (kind ||| (tag <<< 11)) >>> 11 = tag ∧ (kind ||| (tag <<< 11)) &&& 0x7FF = kind := by
  have hsum : kind ||| (tag <<< 11) = tag <<< 11 + kind := by
    rw [Nat.or_comm, Nat.shiftLeft_add_eq_or_of_lt h]
  rw [hsum, show (0x7FF : Nat) = 2 ^ 11 - 1 from rfl, Nat.and_two_pow_sub_one_eq_mod,
    Nat.shiftLeft_eq]
  omega

section Slots

variable {maps : TokenMaps} {e : TokenEntry} {key b : Bytes} {s kind : Nat}

theorem entryAt_eq_some {t : TokenSlots} (h : t.entryAt s = some e) :
    t.keys[s]? = some e.x ∧ t.info[s]? = some e.info ∧ t.off[s]? = some e.off ∧ e.x ≠ 0 := by
  obtain ⟨x, hx, h⟩ := Option.bind_eq_some_iff.mp h
  obtain ⟨info, hinfo, h⟩ := Option.bind_eq_some_iff.mp h
  obtain ⟨off, hoff, h⟩ := Option.bind_eq_some_iff.mp h
  split at h
  · cases h
  · rename_i hne
    cases h
    exact ⟨hx, hinfo, hoff, hne⟩

theorem index_eq_ok {α : Type} {l : List α} {i : Nat} {a : α} (h : l[i]? = some a) :
    index l i = .ok a := by
  rw [index, h, okOr_some]

/-- A short key is accepted by its own token only. -/
theorem acceptShort_eq (h : maps.slots.entryAt s = some e)
    (hd : Describes maps.tokBlob e b kind) (hb : 0 < b.length) (hpos : 0 < key.length)
    (hkey : key.length ≤ 4) (hx : e.x = shortWord key) :
    maps.acceptShort key.length s = .ok (if b = key then some (decodeKind kind) else none) := by
  obtain ⟨-, hinfo, -, -⟩ := entryAt_eq_some h
  rw [acceptShort, index_eq_ok hinfo, ok_bind]
  by_cases hshort : b.length ≤ 4
  · obtain ⟨htag, hkind⟩ := info_parts hd.kind_lt (b.length - 1)
    rw [hd.short hshort, htag, hkind]
    by_cases hlength : b.length - 1 = key.length - 1
    · have heq : shortWord key = shortWord b := by
        rw [← hx, hd.x_eq, tokenKey_eq_shortWord hb hshort]
      rw [if_pos hlength, if_pos (shortWord_inj hpos hkey (by omega) heq).symm]
      rfl
    · rw [if_neg hlength, if_neg fun hsame => hlength (by rw [hsame])]
      rfl
  · obtain ⟨htag, -⟩ := info_parts hd.kind_lt 31
    rw [(hd.long (by omega)).1, if_neg (by omega),
      if_neg fun hsame : b = key => hshort (hsame ▸ hkey)]
    rfl

theorem all_zip_eq_true {a key : Bytes} (hlength : a.length = key.length) :
    ((a.zip key).all fun (x, y) => x = y) = true ↔ a = key := by
  induction a generalizing key with
  | nil => cases key <;> simp_all
  | cons x a ih =>
    cases key with
    | nil => cases hlength
    | cons y key => simp [ih (Nat.succ.inj hlength)]

/-- A long key is compared with the bytes of the token. -/
theorem acceptLong_eq (h : maps.slots.entryAt s = some e)
    (hd : Describes maps.tokBlob e b kind) (hb : 0 < b.length) (hlt : b.length < 256)
    (hkey : 4 < key.length) :
    maps.acceptLong key s = .ok (if b = key then some (decodeKind kind) else none) := by
  obtain ⟨-, hinfo, hoff, -⟩ := entryAt_eq_some h
  rw [acceptLong, index_eq_ok hinfo, ok_bind]
  by_cases hshort : b.length ≤ 4
  · obtain ⟨htag, -⟩ := info_parts hd.kind_lt (b.length - 1)
    rw [hd.short hshort, if_neg (by omega), if_neg fun hsame => by subst hsame; omega]
    rfl
  · obtain ⟨hword, rest, hrest⟩ := hd.long (by omega)
    obtain ⟨htag, hkind⟩ := info_parts hd.kind_lt 31
    have hlen : maps.tokBlob[e.off]? = some (UInt8.ofNat b.length) := by
      rw [← Nat.add_zero e.off, ← List.getElem?_drop, hrest]
      rfl
    have hbytes : maps.tokBlob.drop (e.off + 1) = b ++ rest := by
      rw [← List.drop_drop, hrest]
      rfl
    have hroom := congrArg List.length hbytes
    rw [List.length_drop, List.length_append] at hroom
    have hnat : (UInt8.ofNat b.length).toNat = b.length := by
      rw [UInt8.toNat_ofNat']
      omega
    rw [hword, htag, if_pos rfl, index_eq_ok hoff, ok_bind, index_eq_ok hlen, ok_bind, hnat, hkind]
    by_cases hlength : b.length = key.length
    · rw [if_pos hlength, if_neg (by omega), hbytes, ← hlength, List.take_left]
      by_cases hsame : b = key
      · rw [if_pos ((all_zip_eq_true hlength).mpr hsame), if_pos hsame]
        rfl
      · rw [if_neg fun hall => hsame ((all_zip_eq_true hlength).mp hall), if_neg hsame]
        rfl
    · rw [if_neg hlength, if_neg fun hsame => hlength (congrArg List.length hsame)]
      rfl

end Slots

/-! ## The lookup -/

section Lookup

variable {tokens : Tokens} {maps : TokenMaps} {values : List (String × Nat)}
  {entries : List TokenEntry} {k : Nat} {key : Bytes}

/-- The answer for a key: the kind of the token with these bytes. -/
def Answers (values : List (String × Nat)) (key : Bytes) (r : Option TokenKind) : Prop :=
  ∀ kind, r = some kind ↔ ∃ value ∈ values, ofString value.1 = key ∧ decodeKind value.2 = kind

variable {value : String × Nat}

/-- There is one token with some bytes. -/
theorem eq_of_ofString_eq (h : Collected tokens values) {value' : String × Nat}
    (hvalue : value ∈ values) (hvalue' : value' ∈ values)
    (heq : ofString value.1 = ofString value'.1) : value = value' :=
  List.inj_on_of_nodup_map h.distinct.1 hvalue hvalue' (ofString_injective heq)

theorem answers_some (h : Collected tokens values) (hvalue : value ∈ values)
    (hkey : ofString value.1 = key) : Answers values key (some (decodeKind value.2)) := by
  intro kind
  rw [Option.some.injEq]
  constructor
  · rintro rfl
    exact ⟨value, hvalue, hkey, rfl⟩
  · rintro ⟨value', hvalue', hkey', rfl⟩
    rw [eq_of_ofString_eq h hvalue hvalue' (hkey.trans hkey'.symm)]

theorem answers_none (h : ∀ value ∈ values, ofString value.1 ≠ key) : Answers values key none := by
  intro kind
  refine ⟨nofun, ?_⟩
  rintro ⟨value, hvalue, hkey, -⟩
  exact absurd hkey (h value hvalue)

section Probe

variable (g : Generated tokens maps values entries k)
  {accept : Nat → Except LookupFault (Option TokenKind)}
  (haccept : ∀ s e, ∀ value ∈ values, maps.slots.entryAt s = some e → e.x = tokenKey key →
    Describes maps.tokBlob e (ofString value.1) value.2 →
      accept s = .ok (if ofString value.1 = key then some (decodeKind value.2) else none))
include g haccept

/-- The loop of a lookup is a search for the entry of a token with these bytes. -/
theorem searches_probe (kind : TokenKind)
    (hkind : ∀ value ∈ values, ofString value.1 = key → decodeKind value.2 = kind) :
    Probing.Searches (2 ^ k) maps.slots.entryAt
      (fun e => ∃ value ∈ values, ofString value.1 = key
        ∧ Describes maps.tokBlob e (ofString value.1) value.2)
      (.ok (some kind)) (.ok none) (maps.probe (tokenKey key) accept) := by
  have hnext : ∀ h, (h + 1) &&& maps.tokMask = (h + 1) % 2 ^ k := fun h => by
    rw [g.mask_eq, Nat.and_two_pow_sub_one_eq_mod]
  refine ⟨fun hh hslot => ?_, fun {_ h e} _ hslot hstop => ?_, fun {_ h e} _ hslot hstop => ?_⟩
  · rw [probe, index_eq_ok ((TokenSlots.entryAt_eq_none_iff g.holds hh).mp hslot)]
    rfl
  · obtain ⟨hx, -, -, hne⟩ := entryAt_eq_some hslot
    obtain ⟨value, hvalue, hkey, hd⟩ := hstop
    have hkeyx : e.x = tokenKey key := hkey ▸ hd.x_eq
    rw [probe, index_eq_ok hx, ok_bind, if_neg hne, if_pos hkeyx,
      haccept h e value hvalue hslot hkeyx hd, if_pos hkey, hkind value hvalue hkey]
    rfl
  · obtain ⟨hx, -, -, hne⟩ := entryAt_eq_some hslot
    rw [probe, index_eq_ok hx, ok_bind, if_neg hne, hnext]
    by_cases hkeyx : e.x = tokenKey key
    · obtain ⟨value, hvalue, hd⟩ := g.known e (g.holds.known h e hslot)
      rw [if_pos hkeyx, haccept h e value hvalue hslot hkeyx hd,
        if_neg fun hkey => hstop ⟨value, hvalue, hkey, hd⟩]
      rfl
    · rw [if_neg hkeyx]

/-- It gives the answer. -/
theorem probe_answers {fuel : Nat} (hfuel : 2 ^ k ≤ fuel) :
    ∃ r, maps.probe (tokenKey key) accept fuel
        (homeSlot maps.tokMul maps.tokShift (tokenKey key)) = .ok r ∧ Answers values key r := by
  have hfree := g.holds.exists_free g.length_lt
  by_cases hmem : ∃ value ∈ values, ofString value.1 = key
  · obtain ⟨value, hvalue, hkey⟩ := hmem
    obtain ⟨e, he, hd⟩ := g.described value hvalue
    have hreach := g.holds.reaches e he
    rw [show e.x = tokenKey key from hkey ▸ hd.x_eq] at hreach
    have hsearch := searches_probe g haccept (decodeKind value.2) fun value' hvalue' hkey' => by
      rw [eq_of_ofString_eq g.collected hvalue' hvalue (hkey'.trans hkey.symm)]
    exact ⟨_, hsearch.eq_found hfree (g.home_lt _) hfuel hreach ⟨value, hvalue, hkey, hd⟩,
      answers_some g.collected hvalue hkey⟩
  · have hnone : ∀ value ∈ values, ofString value.1 ≠ key :=
      fun value hvalue hkey => hmem ⟨value, hvalue, hkey⟩
    have hsearch := searches_probe g haccept (.single 0) fun value hvalue hkey =>
      absurd hkey (hnone value hvalue)
    refine ⟨_, hsearch.eq_missing hfree (g.home_lt _) hfuel ?_, answers_none hnone⟩
    rintro s e - ⟨value, hvalue, hkey, -⟩
    exact hnone value hvalue hkey

end Probe

theorem length_pos_of_mem (h : Collected tokens values) (hvalue : value ∈ values) :
    0 < (ofString value.1).length := by
  refine List.length_pos_of_ne_nil fun hnil => h.distinct.2 value hvalue ?_
  exact ofString_injective (hnil.trans ofString_empty.symm)

theorem lookupBytes_answers (g : Generated tokens maps values entries k) {fuel : Nat}
    (hfuel : 2 ^ k ≤ fuel) (key : Bytes) :
    ∃ r, maps.lookupBytes fuel key = .ok r ∧ Answers values key r := by
  have hmax := g.maxLen_lt
  rw [lookupBytes]
  split
  · refine ⟨none, rfl, answers_none fun value hvalue hkey => ?_⟩
    have hpos := length_pos_of_mem g.collected hvalue
    have hle := g.le_maxLen value hvalue
    rw [hkey] at hpos hle
    omega
  · split
    · rename_i hshort
      rw [← tokenKey_eq_shortWord (by omega) hshort]
      refine probe_answers g (fun s e value hvalue hslot hx hd => ?_) hfuel
      rw [tokenKey_eq_shortWord (by omega) hshort] at hx
      exact acceptShort_eq hslot hd (length_pos_of_mem g.collected hvalue) (by omega) hshort hx
    · rw [← tokenKey_eq_tokenSignature (by omega)]
      refine probe_answers g (fun s e value hvalue hslot _ hd => ?_) hfuel
      exact acceptLong_eq hslot hd (length_pos_of_mem g.collected hvalue)
        (Nat.lt_of_le_of_lt (g.le_maxLen value hvalue) hmax) (by omega)

end Lookup

section Built

variable {tokens : Tokens} {maps : TokenMaps} {fuel : Nat}

/-- A lookup gives the kind that is declared for the token with these bytes. -/
theorem lookupBytes_declares (hne : tokens.all ≠ []) (h : generate tokens = .ok maps)
    (key : Bytes) (hfuel : maps.slots.keys.length ≤ fuel) :
    ∃ r, maps.lookupBytes fuel key = .ok r
      ∧ ∀ kind, r = some kind ↔ ∃ token, ofString token = key ∧ tokens.Declares token kind := by
  obtain ⟨values, entries, k, g⟩ := generate_eq_ok hne h
  obtain ⟨r, hr, hanswers⟩ := lookupBytes_answers g (g.holds.keys_length ▸ hfuel) key
  refine ⟨r, hr, fun kind => (hanswers kind).trans ⟨?_, ?_⟩⟩
  · rintro ⟨value, hvalue, hkey, hkind⟩
    exact ⟨value.1, hkey, (g.collected.declares_iff _ _).mpr ⟨value.2, hvalue, hkind⟩⟩
  · rintro ⟨token, hkey, hdeclares⟩
    obtain ⟨kind', hmem, hkind⟩ := (g.collected.declares_iff _ _).mp hdeclares
    exact ⟨_, hmem, hkey, hkind⟩

/-- The tokens are those with a kind. -/
theorem exists_declares_iff (hne : tokens.all ≠ []) (h : generate tokens = .ok maps)
    (token : String) : (∃ kind, tokens.Declares token kind) ↔ token ∈ tokens.all := by
  obtain ⟨values, entries, k, g⟩ := generate_eq_ok hne h
  constructor
  · rintro ⟨kind, hdeclares⟩
    obtain ⟨kind', hmem, -⟩ := (g.collected.declares_iff _ _).mp hdeclares
    exact g.collected.mem_all_iff.mpr ⟨_, hmem⟩
  · intro hmem
    obtain ⟨kind, hkind⟩ := g.collected.mem_all_iff.mp hmem
    exact ⟨_, (g.collected.declares_iff _ _).mpr ⟨kind, hkind, rfl⟩⟩

/-- For every list of tokens the build accepts, a lookup of any bytes ends within
as many probes as there are slots.  It gives the kind that is declared for the
token with these bytes, and nothing exactly if there is no such token. -/
theorem lookupBytes_exact (hne : tokens.all ≠ []) (h : generate tokens = .ok maps) (key : Bytes)
    (hfuel : maps.slots.keys.length ≤ fuel) :
    ∃ r, maps.lookupBytes fuel key = .ok r
      ∧ (∀ kind, r = some kind ↔ ∃ token, ofString token = key ∧ tokens.Declares token kind)
      ∧ (r = none ↔ ∀ token ∈ tokens.all, ofString token ≠ key) := by
  obtain ⟨r, hr, hkind⟩ := lookupBytes_declares hne h key hfuel
  refine ⟨r, hr, hkind, ?_, ?_⟩
  · rintro rfl token htoken hkey
    obtain ⟨kind, hdeclares⟩ := (exists_declares_iff hne h token).mpr htoken
    cases (hkind kind).mpr ⟨token, hkey, hdeclares⟩
  · intro hnone
    refine Option.eq_none_iff_forall_ne_some.mpr fun kind hr => ?_
    obtain ⟨token, hkey, hdeclares⟩ := (hkind kind).mp hr
    exact hnone token ((exists_declares_iff hne h token).mp ⟨kind, hdeclares⟩) hkey

/-- A few tokens of each sort. -/
def fewTokens : Tokens := ⟨["", "to", "message"], [["bye"]]⟩

theorem lookupBytes_fewTokens :
    ∃ maps, generate fewTokens = .ok maps
      ∧ ∃ r, maps.lookupBytes 8 (ofString "message") = .ok r
        ∧ (∀ kind, r = some kind
          ↔ ∃ token, ofString token = ofString "message" ∧ fewTokens.Declares token kind)
        ∧ (r = none ↔ ∀ token ∈ fewTokens.all, ofString token ≠ ofString "message") :=
  ⟨_, rfl, lookupBytes_exact (by decide) rfl _ (by decide)⟩

/-- `index_of_token`, for the bytes of a string. -/
def indexOfToken (maps : TokenMaps) (key : Bytes) : Option TokenKind :=
  (maps.lookupBytes maps.slots.keys.length key).toOption.join

theorem indexOfToken_eq_some (hne : tokens.all ≠ []) (h : generate tokens = .ok maps) (key : Bytes)
    (kind : TokenKind) :
    maps.indexOfToken key = some kind
      ↔ ∃ token, ofString token = key ∧ tokens.Declares token kind := by
  obtain ⟨r, hr, hkind⟩ := lookupBytes_declares hne h key (Nat.le_refl _)
  rw [indexOfToken, hr]
  exact hkind kind

theorem ofString_ne_nil {token : String} : ofString token ≠ [] ↔ token ≠ "" :=
  not_congr (ofString_inj (t := ""))

/-- The tables of the codec, from a build: the lookup is the inverse of the
dictionaries, as the format needs it. -/
def tables (tokens : Tokens) (maps : TokenMaps) (hne : tokens.all ≠ [])
    (h : generate tokens = .ok maps) (hsingle : tokens.singleByte.length ≤ 236)
    (hdouble : tokens.doubleByte.length ≤ 4)
    (hzero : ∀ s, tokens.singleByte[0]? = some s → s = "") : TokenTables where
  singleByteTokens := tokens.singleByte
  doubleByteTokens := tokens.doubleByte
  indexOfToken := maps.indexOfToken
  single_length := hsingle
  double_length := hdouble
  single_zero := hzero
  indexOfToken_single key i := by
    rw [indexOfToken_eq_some hne h]
    constructor
    · rintro ⟨token, rfl, hne, hi⟩
      exact ⟨ofString_ne_nil.mpr hne, token, hi, rfl⟩
    · rintro ⟨hne, token, hi, rfl⟩
      exact ⟨token, rfl, ofString_ne_nil.mp hne, hi⟩
  indexOfToken_double key dict i := by
    rw [indexOfToken_eq_some hne h]
    constructor
    · rintro ⟨token, rfl, hne, hi⟩
      exact ⟨ofString_ne_nil.mpr hne, token, hi, rfl⟩
    · rintro ⟨hne, token, hi, rfl⟩
      exact ⟨token, rfl, ofString_ne_nil.mp hne, hi⟩

end Built

end TokenMaps

end WaCore.Binary
