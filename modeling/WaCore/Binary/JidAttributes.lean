import WaCore.Binary.JidRoundTrip
import WaCore.Binary.RoundTrip

/-!
# JID attributes as strings and as values

A JID attribute reaches the encoder as its rendered text or as a typed value.
The text is classified and taken apart by `parse_jid_meta`; the value goes
through `write_jid_owned` or `write_jid_ref`.  For the JIDs of accounts and
groups, users of digits, the two ways write the same bytes: `parse_jid_meta`
finds in the text the user, the server and the device that the value has
(`parseJidMeta_display`).

The encoder has no tape here.  With one, the strings are written with the hints
of the size plan, which are the ones computed here.
-/

namespace WaCore.Binary

open Utf8

/-- No dictionary token has an `@` in it.  The dictionaries of the build have
none. -/
def TokenTables.NoAt (T : TokenTables) : Prop :=
  ∀ bs, (64 : UInt8) ∈ bs → T.indexOfToken bs = none

namespace Jid

/-- The JIDs that have one form on the wire: a user of digits, the numbers that
an `AD_JID` has room for, and a text that is taken for a JID. -/
structure Addressable (j : Jid) : Prop where
  user : j.user ≠ ""
  digits : ∀ b ∈ ofString j.user, isAsciiDigit b = true
  integrator : j.integrator = 0
  device : j.device.toNat ≤ 255
  agent : j.agent = 0 ∨ j.server.rendersAgent = false
  short : (ofString (jidRefToCompact j)).length ≤ 48

end Jid

/-! ## Numbers -/

theorem not_mem_of_digits {s : Bytes} {c : UInt8} (hs : ∀ b ∈ s, isAsciiDigit b = true)
    (hc : isAsciiDigit c = false) : c ∉ s := by
  intro hmem
  rw [hs c hmem] at hc
  cases hc

theorem parseU8_of_digits {s : Bytes} (hne : s ≠ []) (hs : ∀ b ∈ s, isAsciiDigit b = true)
    (hvalue : Decimal.value s < 256) : parseU8 s = some (UInt8.ofNat (Decimal.value s)) := by
  unfold parseU8
  split
  · exact absurd List.mem_cons_self (not_mem_of_digits hs (by decide))
  · exact if_pos ⟨hne, List.all_eq_true.mpr hs, hvalue⟩

/-- A rendered device is read back, where it fits a byte. -/
theorem parseU8_toString {n : Nat} (h : n < 256) :
    parseU8 (ofString (toString n)) = some (UInt8.ofNat n) := by
  have hread := parseU8_of_digits (Decimal.ofString_toString_ne_nil n)
    (fun b hb => isAsciiDigit_of_mem_toString hb) (by rwa [Decimal.value_ofString_toString])
  rwa [Decimal.value_ofString_toString] at hread

/-! ## The pieces of a rendered JID -/

/-- A user of digits ends at no separator. -/
theorem userEndOf_of_digits (server : Option Server) {s : Bytes}
    (hs : ∀ b ∈ s, isAsciiDigit b = true) : userEndOf server s = s.length := by
  have hunder : underscoreEnd s = s.length := by
    rw [underscoreEnd, findByte_of_not_mem (not_mem_of_digits hs (by decide))]
  have hdot : dotEnd s s.length = s.length := by
    rw [dotEnd, List.take_length, rfindByte_of_not_mem (not_mem_of_digits hs (by decide))]
  rw [userEndOf, hunder, hdot, ite_self]

/-- The metadata of a text with a known server. -/
theorem parseJidMeta_append {u srv : Bytes} {server : Server} (hu : (64 : UInt8) ∉ u)
    (hserver : Server.parseKnown srv = some server) (hlen : u.length < 255) :
    parseJidMeta (u ++ 64 :: srv) = some
      { userEnd := UInt8.ofNat (userEndOf (some server) (splitDevice u).1)
        serverStart := UInt8.ofNat (u.length + 1)
        device := if serverSupportsAdJid server then (splitDevice u).2 else none
        server := some server } := by
  have hsrv : (u ++ 64 :: srv).drop (u.length + 1) = srv := by
    rw [← List.drop_drop, List.drop_left]
    rfl
  have huser := userEndOf_le (some server) (splitDevice u).1
  have hpiece := (splitDevice_prefix_of u).length_le
  rw [parseJidMeta, findByte_append hu]
  simp only [Option.bind_eq_bind, Option.bind_some]
  rw [hsrv, hserver, List.take_left, if_pos ⟨by omega, by omega⟩]
  rfl

namespace Jid

variable {j : Jid}

/-- The device as the text has it. -/
def renderedDevice (j : Jid) : Option UInt8 :=
  if 0 < j.device then some j.device.toUInt8 else none

theorem ofNat_toNat_device (device : UInt16) : UInt8.ofNat device.toNat = device.toUInt8 := by
  apply UInt8.toNat_inj.mp
  rw [UInt8.toNat_ofNat', UInt16.toNat_toUInt8]

theorem splitDevice_of_digits (hs : ∀ b ∈ ofString j.user, isAsciiDigit b = true)
    (hdevice : j.device.toNat ≤ 255) :
    splitDevice (ofString j.user ++ j.deviceText) = (ofString j.user, j.renderedDevice) := by
  have hcolon : (58 : UInt8) ∉ ofString j.user := not_mem_of_digits hs (by decide)
  rw [deviceText, renderedDevice]
  by_cases hpos : 0 < j.device
  · rw [if_pos hpos, if_pos hpos, splitDevice, findByte_append hcolon]
    dsimp only
    have hdigits : (ofString j.user ++ 58 :: ofString (toString j.device.toNat)).drop
        ((ofString j.user).length + 1) = ofString (toString j.device.toNat) := by
      rw [← List.drop_drop, List.drop_left]
      rfl
    rw [hdigits, parseU8_toString (by omega), List.take_left, ofNat_toNat_device]
  · rw [if_neg hpos, if_neg hpos, List.append_nil, splitDevice, findByte_of_not_mem hcolon]

theorem Addressable.text (h : j.Addressable) :
    ofString (jidRefToCompact j)
      = ofString j.user ++ j.deviceText ++ 64 :: ofString j.server.asStr := by
  rw [ofString_display h.user, agentText_of_not_rendered (not_rendered_iff.mpr h.agent),
    List.append_nil]

theorem Addressable.length_le (h : j.Addressable) :
    (ofString j.user ++ j.deviceText).length < 48 := by
  have hshort := h.short
  rw [h.text, List.length_append, List.length_cons] at hshort
  omega

theorem Addressable.length_user_le (h : j.Addressable) : (ofString j.user).length < 48 := by
  have hlen := h.length_le
  rw [List.length_append] at hlen
  omega

/-- What `parse_jid_meta` finds in the text of an addressable JID. -/
theorem parseJidMeta_display (h : j.Addressable) :
    ∃ info, parseJidMeta (ofString (jidRefToCompact j)) = some info
      ∧ info.server = some j.server
      ∧ info.device = (if serverSupportsAdJid j.server then j.renderedDevice else none)
      ∧ splitJidFromMeta (ofString (jidRefToCompact j)) info
        = (ofString j.user, ofString j.server.asStr) := by
  have hat : (64 : UInt8) ∉ ofString j.user ++ j.deviceText := by
    rw [List.mem_append]
    rintro (huser | hdevice)
    · exact not_mem_of_digits h.digits (by decide) huser
    · exact not_mem_deviceText j (by decide) (by decide) hdevice
  have huser : (ofString j.user).length < 256 := h.length_user_le.trans (by decide)
  have hparse := parseJidMeta_append hat (Server.parseKnown_asStr j.server)
    (h.length_le.trans (by decide))
  rw [splitDevice_of_digits h.digits h.device, userEndOf_of_digits _ h.digits] at hparse
  rw [h.text]
  refine ⟨_, hparse, rfl, rfl, ?_⟩
  rw [splitJidFromMeta, UInt8.toNat_ofNat_of_lt' huser, List.append_assoc, List.take_left]
  rfl

end Jid

/-! ## The two ways to write it -/

section Tables

variable {T : TokenTables}

/-- A text with an `@` that can be taken apart is written as a JID. -/
theorem hintOf_of_at (hT : T.NoAt) {s : Bytes} {info : ParsedJidMeta} (hat : (64 : UInt8) ∈ s)
    (hlen : s.length ≤ 48) (hparse : parseJidMeta s = some info) : hintOf T s = .jid info := by
  have hne : s ≠ [] := List.ne_nil_of_mem hat
  have hnibble : ¬ validateNibble s = true := by
    intro hvalid
    have := List.all_eq_true.mp (Bool.and_eq_true_iff.mp hvalid).2 64 hat
    exact absurd this (by decide)
  have hhex : ¬ validateHex s = true := by
    intro hvalid
    have := List.all_eq_true.mp (Bool.and_eq_true_iff.mp hvalid).2 64 hat
    exact absurd this (by decide)
  have hshort : ¬ PACKED_MAX < s.length := by
    unfold PACKED_MAX
    omega
  rw [hintOf, if_neg hshort, classifyStringHint, if_neg hne, hT s hat]
  rw [if_neg hnibble, if_neg hhex, if_pos hlen, hparse]
  rfl

/-- A string without an `@` is written alike on every stack. -/
theorem exists_appends_of_no_at {s : String} (h : (64 : UInt8) ∉ ofString s)
    (hlen : (ofString s).length < 2 ^ 32) :
    ∃ bytes, ∀ n, Appends none none (writeStringAt T (n + 1) (ofString s)) (.ok bytes) := by
  obtain ⟨out, hwrite, hok, -⟩ := carried_writeString (readsArrivals_full T) hlen
  obtain ⟨bytes, rfl⟩ := hok.mpr trivial
  refine ⟨bytes, fun n written => ?_⟩
  rw [← hwrite written, writeString, writeStringAt_plain, writeStringAt_plain]
  cases hhint : hintOf T (ofString s) with
  | jid info => exact absurd (at_mem_of_hintOf_jid hhint).1 h
  | _ => rfl

/-- What a writer appends is determined. -/
theorem Appends.unique {tape tape' : Option StringHintCache} {write : Enc Unit} {b b' : Bytes}
    (h : Appends tape tape' write (.ok b)) (h' : Appends tape tape' write (.ok b')) : b = b' := by
  have heq := (h []).symm.trans (h' [])
  simpa [Except.map] using heq

theorem appends_adJid {write : Enc Unit} {domain device : UInt8} {user : Bytes}
    (h : Appends none none write (.ok user)) :
    Appends none none (do writeU8 AD_JID; writeU8 domain; writeU8 device; write)
      (.ok ([AD_JID] ++ ([domain] ++ ([device] ++ user)))) :=
  (appends_writeRawBytes none _).bind
    ((appends_writeRawBytes none _).bind ((appends_writeRawBytes none _).bind h))

theorem appends_jidPair {writeUser' writeServer : Enc Unit} {user server : Bytes}
    (huser : Appends none none writeUser' (.ok user))
    (hserver : Appends none none writeServer (.ok server)) :
    Appends none none (do writeU8 JID_PAIR; writeUser'; writeServer)
      (.ok ([JID_PAIR] ++ (user ++ server))) :=
  (appends_writeRawBytes none _).bind (huser.bind hserver)

/-- Without a tape, a JID string is written from its metadata. -/
theorem appends_of_hintOf_jid {s : String} {info : ParsedJidMeta} {out : Except Fault Bytes}
    (hhint : hintOf T (ofString s) = .jid info)
    (h : Appends none none
      (writeJidFromMeta (writeStringAt T (ofString s).length) (ofString s) info) out) :
    Appends none none (writeString T s) out := by
  intro written
  rw [writeString, writeStringAt_plain, hhint]
  exact h written

namespace Jid

variable {j : Jid}

/-- The bytes of an addressable JID, in either form. -/
theorem exists_appends_of_addressable (hT : T.NoAt) (h : j.Addressable) :
    ∃ bytes, Appends none none (writeString T (jidRefToCompact j)) (.ok bytes)
      ∧ Appends none none (writeJid T j) (.ok bytes) := by
  obtain ⟨info, hparse, hserver, hdevice, hsplit⟩ := parseJidMeta_display h
  have hat := at_mem_jidRefToCompact h.user
  have hhint := hintOf_of_at hT hat h.short hparse
  have huser : ofString j.user ≠ [] :=
    fun hnil => h.user (ofString_injective (hnil.trans ofString_empty.symm))
  have hnoAt : (64 : UInt8) ∉ ofString j.user := not_mem_of_digits h.digits (by decide)
  have hlenUser : (ofString j.user).length < 2 ^ 32 := h.length_user_le.trans (by decide)
  have hlenServer := j.server.length_asStr_le
  obtain ⟨userBytes, hwriteUser⟩ := exists_appends_of_no_at hnoAt hlenUser
  obtain ⟨serverBytes, hwriteServer⟩ :=
    exists_appends_of_no_at j.server.at_not_mem_asStr (by omega)
  obtain ⟨room, hroom⟩ : ∃ room, (ofString (jidRefToCompact j)).length = room + 1 :=
    ⟨_, (Nat.succ_pred_eq_of_pos (List.length_pos_of_mem hat)).symm⟩
  have hinterop : ¬ needsInteropJid j.server j.integrator = true := by
    simp [needsInteropJid, h.integrator]
  by_cases had : 0 < j.device ∧ serverSupportsAdJid j.server = true
  · have hdev : info.device = some j.device.toUInt8 := by
      rw [hdevice, if_pos had.2, renderedDevice, if_pos had.1]
    refine ⟨[AD_JID] ++ ([serverToDomainType j.server] ++ ([j.device.toUInt8] ++ userBytes)),
      appends_of_hintOf_jid hhint ?_, ?_⟩
    · rw [writeJidFromMeta, hsplit, hroom, hdev, ParsedJidMeta.domainType, hserver]
      exact appends_adJid (hwriteUser room)
    · rw [writeJid, if_neg hinterop, if_pos had, if_pos (Nat.lt_succ_of_le h.device)]
      exact appends_adJid (hwriteUser _)
  · have hdev : info.device = none := by
      rw [hdevice, renderedDevice]
      by_cases hserver : serverSupportsAdJid j.server = true
      · rw [if_pos hserver, if_neg fun hpos => had ⟨hpos, hserver⟩]
      · rw [if_neg hserver]
    refine ⟨[JID_PAIR] ++ (userBytes ++ serverBytes), appends_of_hintOf_jid hhint ?_, ?_⟩
    · rw [writeJidFromMeta, hsplit, hroom, hdev]
      dsimp only
      rw [writeUser, if_neg huser]
      exact appends_jidPair (hwriteUser room) (hwriteServer room)
    · rw [writeJid, if_neg hinterop, if_neg had, if_neg h.user]
      exact appends_jidPair (hwriteUser _) (hwriteServer _)

/-- The text of an addressable JID and the JID itself, owned or borrowed, are
written as the same bytes, and they are read as the JID, less the device where
the server has no `AD_JID` form. -/
theorem writeString_display_eq_writeJid (hT : T.NoAt) (h : j.Addressable) :
    ∃ bytes, Appends none none (writeString T (jidRefToCompact j)) (.ok bytes)
      ∧ Appends none none (writeJidOwned T j) (.ok bytes)
      ∧ Appends none none (writeJidRef T j) (.ok bytes)
      ∧ ∃ j', ListParser.Reads (fullDecoder T).readValue bytes (some (some (.jid j')))
        ∧ j'.same { j with device := if serverSupportsAdJid j.server then j.device else 0 }
          = true := by
  obtain ⟨bytes, hstring, hjid⟩ := exists_appends_of_addressable hT h
  refine ⟨bytes, hstring, hjid, hjid, ?_⟩
  have hinterop : ¬ needsInteropJid j.server j.integrator = true := by
    simp [needsInteropJid, h.integrator]
  have hnoAt : (64 : UInt8) ∉ ofString j.user := not_mem_of_digits h.digits (by decide)
  obtain ⟨out, hwrite, hok, hread⟩ := carried_writeJid (readsArrivals_fullValue T) hinterop
    (h.length_user_le.trans (by decide))
  obtain ⟨bytes', rfl⟩ := hok.mpr fun _ => h.device
  obtain rfl := hjid.unique hwrite
  obtain ⟨a, ha, htext, -⟩ := asText_arrivalAt_of_no_at
    hnoAt
  have hjid' := hread bytes rfl
  rw [receivedJid, arrival, ha] at hjid'
  refine ⟨_, hjid', ?_⟩
  dsimp only
  rw [htext]
  rcases h.agent with hagent | hagent
  · simp [same, h.integrator, hagent]
  · simp [same, h.integrator, identityAgent, hagent]

end Jid

end Tables

theorem noAt_sampleTables : sampleTables.NoAt := by
  intro bs hat
  have hiq : bs ≠ ofString "iq" := by
    rintro rfl
    exact absurd hat (by decide)
  have hself : bs ≠ ofString "read-self" := by
    rintro rfl
    exact absurd hat (by decide)
  show sampleIndex bs = none
  rw [sampleIndex, if_neg hiq, if_neg hself]

/-- A companion device, whose text has a device and whose agent is not rendered. -/
def companionJid : Jid := ⟨"12345", .lid, 1, 7, 0⟩

theorem companionJid_addressable : companionJid.Addressable where
  user := by decide
  digits := List.all_eq_true.mp (by decide)
  integrator := rfl
  device := by decide
  agent := .inr rfl
  short := by decide

theorem writeString_companionJid :
    ∃ bytes, Appends none none (writeString sampleTables (jidRefToCompact companionJid)) (.ok bytes)
      ∧ Appends none none (writeJidOwned sampleTables companionJid) (.ok bytes)
      ∧ Appends none none (writeJidRef sampleTables companionJid) (.ok bytes)
      ∧ ∃ j', ListParser.Reads (fullDecoder sampleTables).readValue bytes (some (some (.jid j')))
        ∧ j'.same { companionJid with
          device := if serverSupportsAdJid companionJid.server then companionJid.device else 0 }
          = true :=
  Jid.writeString_display_eq_writeJid noAt_sampleTables companionJid_addressable

end WaCore.Binary
