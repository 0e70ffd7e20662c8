import WaCore.Signal.FastForward
import WaCore.Signal.RecordBytes

/-!
# Records are read as they were written

The three readers of a record agree on the bytes that the library writes: each of
them goes over the same fields.  What they make of it is the record that was
written, up to the lease and the sender chain it covers.
-/

namespace WaCore.Signal

open Wire

/-! ## The local fields -/

variable {f : Field} {fields : List Field}

section LocalFields

variable {ε : Type} {skipGroup : Nat → Bytes → Option Bytes} {onErr : ε}

/-- One field of the scan, read from the field itself. -/
def applyLocalField (skipGroup : Nat → Bytes → Option Bytes) (onErr : ε) (scan : LocalFieldScan)
    (f : Field) : Except ε LocalFieldScan :=
  (decodeLocalRecordField skipGroup COUNTER_RESERVATION_FIELD onErr scan f.tag f.body).map Prod.fst

theorem decodeLocalRecordField_body (hf : f.Fits) (scan : LocalFieldScan) (rest : Bytes) :
    decodeLocalRecordField skipGroup COUNTER_RESERVATION_FIELD onErr scan f.tag (f.body ++ rest)
      = (applyLocalField skipGroup onErr scan f).map (·, rest) := by
  have hskip : ∀ rest, skipField skipGroup f.tag (f.body ++ rest) = some rest := skipField_body hf
  have hskip' := hskip []
  rw [List.append_nil] at hskip'
  rw [applyLocalField, decodeLocalRecordField, decodeLocalRecordField]
  split
  · split
    · rfl
    · cases f with
      | varint number value =>
        have hvarint := decodeVarint_encodeVarint hf.2
        have hvarint' := hvarint []
        rw [List.append_nil] at hvarint'
        simp only [Field.body, hvarint, hvarint', okOr_some, ok_bind]
        split <;> rfl
      | lengthDelimited number payload =>
        rename_i hvarint
        exact absurd (Or.inl (by simp [Field.tag])) hvarint
  · split
    · split
      · cases f with
        | varint number value =>
          rename_i hlength
          exact absurd hlength (by simp [Field.tag])
        | lengthDelimited number payload =>
          have hpayload := takePayload_body hf.2
          have hpayload' := hpayload []
          rw [List.append_nil] at hpayload'
          simp only [Field.body, hpayload, hpayload']
          rfl
      · rw [hskip, hskip']
        rfl
    · rw [hskip, hskip']
      rfl

/-- A field of the message itself is passed over. -/
theorem applyLocalField_other (hf : f.Fits)
    (hreservation : f.tag.number ≠ COUNTER_RESERVATION_FIELD)
    (hincarnation : f.tag.number ≠ STORE_INCARNATION_FIELD) (scan : LocalFieldScan) :
    applyLocalField skipGroup onErr scan f = .ok scan := by
  have hskip : skipField skipGroup f.tag (f.body ++ []) = some [] := skipField_body hf []
  rw [List.append_nil] at hskip
  rw [applyLocalField, decodeLocalRecordField, if_neg hreservation, if_neg hincarnation, hskip]
  rfl

theorem foldlM_applyLocalField_others (hfits : ∀ f ∈ fields, f.Fits)
    (hothers : ∀ f ∈ fields, f.tag.number ≠ COUNTER_RESERVATION_FIELD ∧ f.tag.number ≠
      STORE_INCARNATION_FIELD)
    (scan : LocalFieldScan) : fields.foldlM (applyLocalField skipGroup onErr) scan = .ok scan := by
  induction fields with
  | nil => rfl
  | cons f fields ih =>
    rw [List.forall_mem_cons] at hfits hothers
    rw [List.foldlM_cons, applyLocalField_other hfits.1 hothers.1.1 hothers.1.2]
    exact ih hfits.2 hothers.2

theorem applyLocalField_reservation (reserved : UInt32) (scan : LocalFieldScan)
    (hscan : scan.reservation = none) :
    applyLocalField skipGroup onErr scan (.varint COUNTER_RESERVATION_FIELD reserved.toNat)
      = .ok { scan with reservation := some reserved } := by
  have hlt := reserved.toNat_lt
  have hvarint := decodeVarint_encodeVarint (v := reserved.toNat) (by omega) []
  rw [List.append_nil] at hvarint
  simp [applyLocalField, decodeLocalRecordField, Field.tag, Field.body, hscan, hvarint, hlt,
    Except.map, pure, Except.pure]

theorem applyLocalField_incarnation (incarnation : FixedBytes 16) (reservation : Option UInt32) :
    applyLocalField skipGroup onErr ⟨reservation, none, true⟩
        (.lengthDelimited STORE_INCARNATION_FIELD incarnation.val)
      = .ok ⟨reservation, some incarnation, true⟩ := by
  have hshort : incarnation.val.length < 2 ^ 64 := by
    omega
  have hpayload := takePayload_body hshort []
  rw [List.append_nil] at hpayload
  simp [applyLocalField, decodeLocalRecordField, Field.tag, Field.body, hpayload,
    COUNTER_RESERVATION_FIELD, STORE_INCARNATION_FIELD, Except.map]

/-- What is known of the local fields. -/
theorem mem_localFields {reserved : UInt32} {incarnation : Option (FixedBytes 16)}
    (hf : f ∈ localFields reserved incarnation) : f.Fits
      ∧ (f.tag.number = COUNTER_RESERVATION_FIELD ∨ f.tag.number = STORE_INCARNATION_FIELD) := by
  rcases List.mem_append.mp hf with hf | hf
  · split at hf
    · obtain rfl := List.mem_singleton.mp hf
      have hlt := reserved.toNat_lt
      exact ⟨⟨by simp [Field.tag, Tag.Fits, COUNTER_RESERVATION_FIELD],
        show reserved.toNat < 2 ^ 64 by omega⟩, .inl rfl⟩
    · cases hf
  · obtain ⟨i, -, rfl⟩ := Option.map_eq_some_iff.mp (Option.mem_toList.mp hf)
    exact ⟨⟨by simp [Field.tag, Tag.Fits, STORE_INCARNATION_FIELD],
      show i.val.length < 2 ^ 64 by rw [i.property]; omega⟩, .inr rfl⟩

/-- The local fields behind the fields of a message. -/
theorem decodeLocalRecordFields_encode (hfits : ∀ f ∈ fields, f.Fits)
    (hothers : ∀ f ∈ fields, f.tag.number ≠ COUNTER_RESERVATION_FIELD ∧ f.tag.number ≠
      STORE_INCARNATION_FIELD)
    (reserved : UInt32) (incarnation : Option (FixedBytes 16)) :
    decodeLocalRecordFields skipGroup COUNTER_RESERVATION_FIELD onErr
        ((fields ++ localFields reserved incarnation).flatMap Field.encode)
      = .ok ⟨reserved, incarnation.filter fun _ => 0 < reserved⟩ := by
  have hall : ∀ f ∈ fields ++ localFields reserved incarnation, f.Fits :=
    List.forall_mem_append.mpr ⟨hfits, fun _ hf => (mem_localFields hf).1⟩
  rw [decodeLocalRecordFields,
    scanFields_encode hall fun f hf scan rest => decodeLocalRecordField_body (hall f hf) scan rest,
    List.foldlM_append, foldlM_applyLocalField_others hfits hothers, ok_bind, localFields]
  by_cases hpos : 0 < reserved
  · rw [if_pos hpos, List.foldlM_append, List.foldlM_cons, applyLocalField_reservation _ _ rfl]
    cases incarnation with
    | none => rfl
    | some i =>
      have hsome : ((some i).filter fun _ => decide (0 < reserved)) = some i := by simp [hpos]
      rw [hsome]
      simp only [Option.map_some, Option.toList_some, List.foldlM_cons, List.foldlM_nil, pure,
        Except.pure, ok_bind, applyLocalField_incarnation, if_true, Option.getD_some]
  · obtain rfl := eq_zero_of_not_pos hpos
    have hnone : (incarnation.filter fun _ => decide ((0 : UInt32) < 0)) = none := by
      cases incarnation <;> rfl
    rw [hnone]
    rfl

end LocalFields

/-! ## The archived sessions -/

section Archived

variable {codec : SessionCodec} {limit : Nat}

/-- One field of the scan, read from the field itself. -/
def applyArchivedField (limit : Nat) (out : List Bytes) : Field → Except String (List Bytes)
  | .lengthDelimited number payload =>
    .ok (if number = PREVIOUS_SESSIONS_FIELD ∧ out.length < limit then out ++ [payload] else out)
  | .varint _ _ => .ok out

theorem archivedSessionSlice_body (hf : f.Fits) (out : List Bytes) (rest : Bytes) :
    archivedSessionSlice codec limit out f.tag (f.body ++ rest)
      = (applyArchivedField limit out f).map (·, rest) := by
  have hskip : skipField codec.skipGroup f.tag (f.body ++ rest) = some rest := skipField_body hf rest
  rw [archivedSessionSlice]
  cases f with
  | varint number value =>
    rw [if_neg fun h => absurd h.2 (by simp [Field.tag]), hskip]
    rfl
  | lengthDelimited number payload =>
    by_cases hnumber : number = PREVIOUS_SESSIONS_FIELD
    · rw [Field.body, takePayload_body hf.2, applyArchivedField]
      simp only [hnumber, true_and]
      rfl
    · rw [if_neg fun h => hnumber h.1, hskip, applyArchivedField, if_neg fun h => hnumber h.1]
      rfl

/-- The scan collects the payloads of the archived sessions, up to the limit. -/
theorem foldlM_applyArchivedField (fields : List Field) (out : List Bytes) :
    fields.foldlM (applyArchivedField limit) out
      = .ok (out ++ (payloads PREVIOUS_SESSIONS_FIELD fields).take (limit - out.length)) := by
  induction fields generalizing out with
  | nil => simp [payloads, pure, Except.pure]
  | cons f fields ih =>
    rw [List.foldlM_cons]
    cases f with
    | varint number value => exact ih out
    | lengthDelimited number payload =>
      rw [applyArchivedField, ok_bind, ih]
      by_cases hnumber : number = PREVIOUS_SESSIONS_FIELD
      · rcases Nat.lt_or_ge out.length limit with hlt | hge
        · have hone : limit - out.length = limit - (out ++ [payload]).length + 1 := by
            rw [List.length_append, List.length_singleton]
            omega
          rw [if_pos ⟨hnumber, hlt⟩, hone]
          simp [payloads, hnumber]
        · simp [hnumber, Nat.not_lt.mpr hge, Nat.sub_eq_zero_of_le hge]
      · simp [payloads, hnumber]

end Archived

/-! ## One session -/

namespace SkippedKey

theorem toPb_fromPb (pb : SessionStructure.MessageKey) : (fromPb pb).toPb = pb := by
  obtain ⟨index, cipherKey, macKey, iv, seed⟩ := pb
  rw [fromPb]
  split
  · rename_i index material hindex hmaterial
    split
    · rename_i hnone
      obtain ⟨bytes, rfl, hbytes⟩ := Option.bind_eq_some_iff.mp hmaterial
      simp only [Bool.and_eq_true, Option.isNone_iff_eq_none] at hnone hindex
      obtain ⟨⟨rfl, rfl⟩, rfl⟩ := hnone
      rw [toPb, hindex, FixedBytes.val_of_ofBytes hbytes]
    · rfl
  · rfl

/-- What is read is canonical. -/
theorem canonical_fromPb (pb : SessionStructure.MessageKey) : (fromPb pb).Canonical := by
  rw [Canonical, toPb_fromPb]

end SkippedKey

/-- The skipped keys of the chain are canonical. -/
def SessionStructure.Chain.Canonical (chain : SessionStructure.Chain) : Prop :=
  ∀ key ∈ chain.skipped, key.Canonical

theorem SessionStructure.Chain.fromMessage_toMessage {chain : SessionStructure.Chain}
    (h : chain.Canonical) : Chain.fromMessage chain.toMessage = chain := by
  obtain ⟨key, privateKey, chainKey, skipped⟩ := chain
  have hkeys : (skipped.map SkippedKey.toPb).map SkippedKey.fromPb = skipped := by
    rw [List.map_map]
    exact (List.map_congr_left fun key hkey => h key hkey).trans (List.map_id _)
  simp only [Chain.fromMessage, Chain.toMessage, hkeys]

/-- The skipped keys of the state are canonical, as those that the library makes are. -/
structure SessionState.Canonical (s : SessionState) : Prop where
  sender : ∀ chain ∈ s.senderChain, chain.Canonical
  receivers : ∀ chain ∈ s.receiverChains, chain.Canonical

theorem SessionState.fromSessionStructure_toProtobuf {s : SessionState} (h : s.Canonical) :
    fromSessionStructure s.toProtobuf = s := by
  have hreceivers : (s.receiverChains.map (·.toMessage)).map SessionStructure.Chain.fromMessage
      = s.receiverChains := by
    rw [List.map_map]
    exact (List.map_congr_left fun chain hchain =>
      SessionStructure.Chain.fromMessage_toMessage (h.receivers chain hchain)).trans (List.map_id _)
  have hsender : (s.senderChain.map (·.toMessage)).map SessionStructure.Chain.fromMessage
      = s.senderChain := by
    cases hchain : s.senderChain with
    | none => rfl
    | some chain =>
      rw [Option.map_some, Option.map_some,
        SessionStructure.Chain.fromMessage_toMessage (h.sender chain hchain)]
  simp only [fromSessionStructure, toProtobuf, hreceivers, hsender]

/-! ## Session records -/

/-- The fields of a `RecordStructure`, from the encodings of its sessions. -/
def recordFields (current : Option Bytes) (previous : List Bytes) : List Field :=
  (current.map (Field.lengthDelimited CURRENT_SESSION_FIELD)).toList
    ++ previous.map (Field.lengthDelimited PREVIOUS_SESSIONS_FIELD)

theorem payloads_recordFields (current : Option Bytes) (previous : List Bytes)
    {unknown : List Field} (h : ∀ f ∈ unknown, f.tag.number ≠ CURRENT_SESSION_FIELD
      ∧ f.tag.number ≠ PREVIOUS_SESSIONS_FIELD) :
    payloads CURRENT_SESSION_FIELD (recordFields current previous ++ unknown) = current.toList
      ∧ payloads PREVIOUS_SESSIONS_FIELD (recordFields current previous ++ unknown) = previous := by
  have hcurrent : ∀ f ∈ current.toList.map (Field.lengthDelimited CURRENT_SESSION_FIELD),
      f.tag.number ≠ PREVIOUS_SESSIONS_FIELD := by
    simp only [List.mem_map, forall_exists_index, and_imp, forall_apply_eq_imp_iff₂]
    exact fun _ _ => (by decide : CURRENT_SESSION_FIELD ≠ PREVIOUS_SESSIONS_FIELD)
  have hprevious : ∀ f ∈ previous.map (Field.lengthDelimited PREVIOUS_SESSIONS_FIELD),
      f.tag.number ≠ CURRENT_SESSION_FIELD := by
    simp only [List.mem_map, forall_exists_index, and_imp, forall_apply_eq_imp_iff₂]
    exact fun _ _ => (by decide : PREVIOUS_SESSIONS_FIELD ≠ CURRENT_SESSION_FIELD)
  rw [recordFields, Option.toList_map]
  simp only [payloads_append]
  rw [payloads_map, payloads_map, payloads_of_ne hcurrent, payloads_of_ne hprevious,
    payloads_of_ne fun f hf => (h f hf).1, payloads_of_ne fun f hf => (h f hf).2]
  simp

/-- The generated code reads what it has written, field by field, and passes over
fields that it does not know. -/
structure SessionCodec.RoundTrips (codec : SessionCodec) : Prop where
  session : ∀ session, ∃ view, codec.decodeView (codec.encodeMessage session) = some view
    ∧ codec.toOwnedMessage view = some session
  record : ∀ (current : Option Bytes) (previous : List Bytes) (unknown : List Field)
    (currentView : Option codec.View) (previousViews : List codec.View),
    (∀ f ∈ recordFields current previous ++ unknown, f.Fits) →
    (∀ f ∈ unknown, f.tag.number ≠ CURRENT_SESSION_FIELD
      ∧ f.tag.number ≠ PREVIOUS_SESSIONS_FIELD) →
    current.mapM codec.decodeView = some currentView →
    previous.mapM codec.decodeView = some previousViews →
    codec.decodeRecordView ((recordFields current previous ++ unknown).flatMap Field.encode)
      = some (currentView, previousViews)

namespace StoredRecord

/-- What the readers need of a record: the archive is bounded, its sessions were encoded or
have been read before, and no encoding is longer than memory. -/
structure Readable (codec : SessionCodec) (r : StoredRecord) : Prop where
  length_le : r.previousSessions.length ≤ ARCHIVED_STATES_MAX_LENGTH
  archived : ∀ bytes ∈ r.previousSessions, ∃ session, decodeArchived codec bytes = .ok session
  fits : ∀ f ∈ r.fields codec none, f.Fits

/-- A readable record whose skipped keys are in the form in which they are read. -/
structure WellFormed (codec : SessionCodec) (r : StoredRecord) : Prop extends Readable codec r where
  canonical : ∀ s ∈ r.currentSession, s.Canonical

variable {codec : SessionCodec} {r : StoredRecord}

theorem fields_eq (i : Option (FixedBytes 16)) :
    r.fields codec i = recordFields (r.currentSession.map fun s => codec.encodeMessage s.toProtobuf)
      r.previousSessions ++ localFields r.lease.ceiling i := by
  rw [recordFields, Option.map_map]
  rfl

theorem Readable.fits_recordFields (h : r.Readable codec) :
    ∀ f ∈ recordFields (r.currentSession.map fun s => codec.encodeMessage s.toProtobuf)
      r.previousSessions, f.Fits := by
  intro f hf
  refine h.fits f ?_
  rw [fields_eq]
  exact List.mem_append_left _ hf

theorem Readable.fits_fields (h : r.Readable codec) (i : Option (FixedBytes 16)) :
    ∀ f ∈ r.fields codec i, f.Fits := by
  rw [fields_eq]
  exact List.forall_mem_append.mpr ⟨h.fits_recordFields, fun _ hf => (mem_localFields hf).1⟩

theorem number_recordFields {current : Option Bytes} {previous : List Bytes}
    (hf : f ∈ recordFields current previous) :
    f.tag.number = CURRENT_SESSION_FIELD ∨ f.tag.number = PREVIOUS_SESSIONS_FIELD := by
  rcases List.mem_append.mp hf with hf | hf
  · obtain ⟨bytes, -, rfl⟩ := Option.map_eq_some_iff.mp (Option.mem_toList.mp hf)
    exact .inl rfl
  · obtain ⟨bytes, -, rfl⟩ := List.mem_map.mp hf
    exact .inr rfl

theorem number_localFields {reserved : UInt32} {i : Option (FixedBytes 16)}
    (hf : f ∈ localFields reserved i) :
    f.tag.number ≠ CURRENT_SESSION_FIELD ∧ f.tag.number ≠ PREVIOUS_SESSIONS_FIELD := by
  rcases (mem_localFields hf).2 with h | h <;> rw [h] <;> decide

/-- The archived sessions are found where they were written. -/
theorem archivedSessionSlices_fields (h : r.Readable codec) (i : Option (FixedBytes 16)) :
    archivedSessionSlices codec (r.serializeIntoInner codec i) ARCHIVED_STATES_MAX_LENGTH
      = .ok r.previousSessions := by
  have hfits := h.fits_fields i
  rw [archivedSessionSlices, serializeIntoInner,
    scanFields_encode hfits fun f hf out rest => archivedSessionSlice_body (hfits f hf) out rest,
    foldlM_applyArchivedField, fields_eq,
    (payloads_recordFields _ _ fun _ => number_localFields).2, List.length_nil]
  exact congrArg _ (List.take_of_length_le h.length_le)

theorem decodeArchived_eq_ok {bytes : Bytes} {session : SessionStructure} :
    decodeArchived codec bytes = .ok session
      ↔ ∃ view, codec.decodeView bytes = some view ∧ codec.toOwnedMessage view = some session := by
  rw [decodeArchived, bind_eq_ok]
  simp only [okOr_eq_ok]

/-- What the readers make of a written record, before its skipped keys are known to be
in the form they are read in. -/
theorem deserializeInner_of_readable (hcodec : codec.RoundTrips) (h : r.Readable codec)
    (C : Crypto) (i j : Option (FixedBytes 16)) :
    deserializeInner codec C (r.serializeIntoInner codec i) j
      = fastForwardUntrusted C
          { currentSession := (r.currentSession.map (·.toProtobuf)).map .fromSessionStructure
            previousSessions := r.previousSessions
            lease := .fromPersistedCeiling r.lease.ceiling }
          (j.isSome && (i.filter fun _ => 0 < r.lease.ceiling) == j) := by
  obtain ⟨views, hviews, howned⟩ : ∃ views, r.previousSessions.mapM codec.decodeView = some views
      ∧ ∀ view ∈ views, ∃ session, codec.toOwnedMessage view = some session := by
    refine exists_mapM fun bytes hbytes => ?_
    obtain ⟨session, hsession⟩ := h.archived bytes hbytes
    obtain ⟨view, hview, howned⟩ := decodeArchived_eq_ok.mp hsession
    exact ⟨view, hview, session, howned⟩
  have hcurrent : ∃ view, (r.currentSession.map fun s => codec.encodeMessage s.toProtobuf).mapM
      codec.decodeView = some view ∧ view.mapM (fun v => okOr (codec.toOwnedMessage v)
        "failed to decode current session protobuf") = .ok (r.currentSession.map (·.toProtobuf)) := by
    cases r.currentSession with
    | none => exact ⟨none, rfl, rfl⟩
    | some s =>
      obtain ⟨view, hview, howned⟩ := hcodec.session s.toProtobuf
      refine ⟨some view, ?_, ?_⟩
      · simp [hview]
      · simp [howned]
  obtain ⟨view, hview, hcurrent⟩ := hcurrent
  have hall := h.fits_fields i
  rw [fields_eq] at hall
  have hrecord := hcodec.record _ _ _ _ _ hall
    (fun _ => number_localFields) hview hviews
  rw [← fields_eq] at hrecord
  have hlocal : decodeLocalRecordFields codec.skipGroup COUNTER_RESERVATION_FIELD
      "invalid local session metadata" (r.serializeIntoInner codec i)
      = .ok ⟨r.lease.ceiling, i.filter fun _ => 0 < r.lease.ceiling⟩ := by
    rw [serializeIntoInner, fields_eq]
    exact decodeLocalRecordFields_encode h.fits_recordFields
      (fun f hf => by rcases number_recordFields hf with h | h <;> rw [h] <;> decide) _ _
  obtain ⟨sessions, hsessions, -⟩ : ∃ sessions, (views.take ARCHIVED_STATES_MAX_LENGTH).mapM
      (fun v => okOr (codec.toOwnedMessage v) "failed to decode archived session protobuf")
        = .ok sessions ∧ ∀ session ∈ sessions, True := by
    refine exists_mapM fun view hview => ?_
    obtain ⟨session, hsession⟩ := howned view (List.mem_of_mem_take hview)
    exact ⟨session, okOr_eq_ok.mpr hsession, trivial⟩
  have hslices := archivedSessionSlices_fields h i
  rw [deserializeInner]
  simp only [hslices, hlocal, invalidSession, Except.mapError]
  rw [serializeIntoInner, hrecord]
  simp only [okOr_some, ok_bind, hsessions, hcurrent]

/-- The record that is read: the one that was written, with no flush pending, and
advanced if it is not the store's own. -/
theorem deserializeInner_serializeIntoInner (hcodec : codec.RoundTrips) (h : r.WellFormed codec)
    (C : Crypto) (i j : Option (FixedBytes 16)) :
    deserializeInner codec C (r.serializeIntoInner codec i) j
      = fastForwardUntrusted C { r with lease := .fromPersistedCeiling r.lease.ceiling }
          (j.isSome && (i.filter fun _ => 0 < r.lease.ceiling) == j) := by
  have hback : (r.currentSession.map (·.toProtobuf)).map SessionState.fromSessionStructure
      = r.currentSession := by
    cases hsession : r.currentSession with
    | none => rfl
    | some s =>
      rw [Option.map_some, Option.map_some,
        SessionState.fromSessionStructure_toProtobuf (h.canonical s hsession)]
  rw [deserializeInner_of_readable hcodec h.toReadable, hback]

end StoredRecord

/-! ## Sender-key records -/

def SENDER_KEY_STATES_FIELD : Nat := 1

/-- The generated code writes fields, reads what it has written, and passes over
fields that it does not know. -/
structure SenderKeyRecordCodec.RoundTrips (codec : SenderKeyRecordCodec) : Prop where
  fields : ∀ states, (codec.senderKeyRecordToVec states).length < 2 ^ 64 →
    ∃ fields : List Field, codec.senderKeyRecordToVec states = fields.flatMap Field.encode
      ∧ (∀ f ∈ fields, f.Fits) ∧ ∀ f ∈ fields, f.tag.number = SENDER_KEY_STATES_FIELD
  decode : ∀ (states : List SenderKeyStateStructure) (unknown : List Field),
    (codec.senderKeyRecordToVec states).length < 2 ^ 64 →
    (∀ f ∈ unknown, f.Fits ∧ f.tag.number ≠ SENDER_KEY_STATES_FIELD) →
    codec.senderKeyRecordDecode
      (codec.senderKeyRecordToVec states ++ unknown.flatMap Field.encode) = some states

variable {codec : SenderKeyRecordCodec}

/-- A row is read as it was written. -/
theorem SenderKeyRow.decode_encode (hcodec : codec.RoundTrips) {row : SenderKeyRow}
    (hshort : (codec.senderKeyRecordToVec row.senderKeyStates).length < 2 ^ 64) :
    decode codec (row.encode codec)
      = .ok ⟨row.senderKeyStates, some (row.reservation.getD 0),
          row.incarnation.filter fun _ => 0 < row.reservation.getD 0⟩ := by
  have hstates := hcodec.decode row.senderKeyStates
    (localFields (row.reservation.getD 0) row.incarnation) hshort fun f hf =>
      ⟨(mem_localFields hf).1, by
        rcases (mem_localFields hf).2 with h | h <;> rw [h] <;> decide⟩
  obtain ⟨fields, hfields, hfits, hnumbers⟩ := hcodec.fields row.senderKeyStates hshort
  have hlocal : decodeLocalRecordFields codec.skipGroup COUNTER_RESERVATION_FIELD
      SignalProtocolError.invalidProtobufEncoding (row.encode codec)
      = .ok ⟨row.reservation.getD 0, row.incarnation.filter fun _ => 0 < row.reservation.getD 0⟩ := by
    rw [encode, hfields, ← List.flatMap_append]
    exact decodeLocalRecordFields_encode hfits
      (fun f hf => by rw [hnumbers f hf]; decide) _ _
  rw [decode, hlocal, encode, hstates]
  rfl

/-- What holds of every sender-key record in memory. -/
structure SenderKeyRecord.WellFormed (codec : SenderKeyRecordCodec) (r : SenderKeyRecord) : Prop where
  length_le : r.states.length ≤ MAX_SENDER_KEY_STATES
  fits : (codec.senderKeyRecordToVec (r.states.map (·.asProtobuf))).length < 2 ^ 64

theorem SenderKeyRecord.deserializeBytes_serializeBytes (hcodec : codec.RoundTrips)
    {r : SenderKeyRecord} (h : r.WellFormed codec) (C : Crypto) (i j : Option (FixedBytes 16)) :
    deserializeBytes codec C (r.serializeBytes codec i) j
      = if j.isSome && (i.filter fun _ => 0 < r.lease.ceiling) == j then
          .ok ⟨r.states, .fromPersistedCeiling r.lease.ceiling⟩
        else fastForward C ⟨r.states, .fromPersistedCeiling r.lease.ceiling⟩ r.lease.ceiling := by
  have hreservation := reservation_serializeInner r i
  have hincarnation : ((r.serializeInner i).incarnation.filter fun _ => 0 < r.lease.ceiling)
      = i.filter fun _ => 0 < r.lease.ceiling := by
    rw [serializeInner]
    by_cases hpos : 0 < r.lease.ceiling <;> simp [hpos]
  rw [deserializeBytes, serializeBytes, SenderKeyRow.decode_encode hcodec h.fits, hreservation,
    hincarnation]
  refine (deserializeInner_asProtobuf C r.states _ _ j).trans ?_
  rw [List.take_of_length_le h.length_le]
  rfl

/-! ## Reloads -/

/-- How a record that was written under one incarnation is read under another: the
same under its own, and else advanced past its reservation, or refused if that is too
far ahead. -/
structure Reloads {ρ : Type} (reload : FixedBytes 16 → Option (FixedBytes 16) →
    Except SignalProtocolError ρ) (same : ρ) (withinReach : Prop) (advanced : ρ → Prop) : Prop where
  own : ∀ i, reload i (some i) = .ok same
  other : ∀ i j, j ≠ some i → withinReach → ∃ r, reload i j = .ok r ∧ advanced r
  refused : ∀ i j, j ≠ some i → ¬ withinReach → ∃ e, reload i j = .error e

theorem trusted_own (i : FixedBytes 16) (p : FixedBytes 16 → Bool) :
    ((some i).isSome && ((some i).filter p) == some i) = p i := by
  cases hp : p i <;> simp [hp]

theorem trusted_other {i : FixedBytes 16} {j : Option (FixedBytes 16)} (h : j ≠ some i)
    (p : FixedBytes 16 → Bool) : (j.isSome && ((some i).filter p) == j) = false := by
  cases j with
  | none => rfl
  | some j =>
    have hne : i ≠ j := fun heq => h (by rw [heq])
    cases hp : p i <;> simp [hne]

namespace StoredRecord

variable {C : Crypto} {r : StoredRecord} {trusted : Bool}

theorem fastForwardUntrusted_of_zero (h : r.lease.ceiling = 0) :
    r.fastForwardUntrusted C trusted = .ok r := by
  rw [fastForwardUntrusted, h, if_neg (by simp)]
  rfl

theorem fastForwardUntrusted_of_pos (h : 0 < r.lease.ceiling) {s : SessionState}
    (hcurrent : r.currentSession = some s) :
    r.fastForwardUntrusted C false = (s.fastForwardSenderChain C r.lease.ceiling).map
      fun s => { r with currentSession := some s } := by
  rw [fastForwardUntrusted, if_pos (by simp [h]), hcurrent]
  rfl

theorem fastForwardUntrusted_of_withinReach
    (h : ∀ s ∈ r.currentSession, s.WithinReach r.lease.ceiling) :
    ∃ current, r.fastForwardUntrusted C false = .ok { r with currentSession := current }
      ∧ Option.Rel (fun s s' => s.Advanced C r.lease.ceiling s') r.currentSession current := by
  cases hcurrent : r.currentSession with
  | none =>
    have hsame : r.fastForwardUntrusted C false = .ok r := by
      rw [fastForwardUntrusted]
      split
      · rw [hcurrent]
        rfl
      · rfl
    exact ⟨none, by rw [hsame, ← hcurrent], .none⟩
  | some s =>
    by_cases hpos : 0 < r.lease.ceiling
    · obtain ⟨s', hs', hadvanced⟩ :=
        SessionState.fastForwardSenderChain_of_withinReach (h s hcurrent)
      refine ⟨some s', ?_, .some hadvanced⟩
      rw [fastForwardUntrusted_of_pos hpos hcurrent, hs']
      rfl
    · have hzero := eq_zero_of_not_pos hpos
      refine ⟨some s, ?_, .some ?_⟩
      · rw [fastForwardUntrusted_of_zero hzero, ← hcurrent]
      · rw [hzero]
        exact s.advanced_zero C

theorem fastForwardUntrusted_of_not_withinReach
    (h : ¬ ∀ s ∈ r.currentSession, s.WithinReach r.lease.ceiling) :
    ∃ e, r.fastForwardUntrusted C false = .error e := by
  simp only [not_forall] at h
  obtain ⟨s, hcurrent, hfar⟩ := h
  have hpos : 0 < r.lease.ceiling := by
    by_contra hzero
    rw [eq_zero_of_not_pos hzero] at hfar
    exact hfar s.withinReach_zero
  obtain ⟨e, he⟩ := SessionState.fastForwardSenderChain_of_not_withinReach hfar
  exact ⟨e, by rw [fastForwardUntrusted_of_pos hpos hcurrent, he]; rfl⟩

end StoredRecord

/-- The first state is advanced, if there is one. -/
inductive SenderKeyState.FrontAdvanced (C : Crypto) (target : UInt32) :
    List SenderKeyState → List SenderKeyState → Prop where
  | nil : FrontAdvanced C target [] []
  | cons {s s' : SenderKeyState} (h : s.Advanced C target s') (states : List SenderKeyState) :
    FrontAdvanced C target (s :: states) (s' :: states)

namespace SenderKeyRecord

variable {C : Crypto} {r : SenderKeyRecord} {target : UInt32}

theorem fastForward_cons (h : 0 < target) (s : SenderKeyState) (states : List SenderKeyState)
    (lease : CounterLease) :
    fastForward C ⟨s :: states, lease⟩ target
      = (s.fastForwardSenderChain C target).map fun s => ⟨s :: states, lease⟩ := by
  rw [fastForward, if_pos h]
  rfl

theorem fastForward_of_withinReach (h : ∀ s ∈ r.states.head?, s.WithinReach target) :
    ∃ states, r.fastForward C target = .ok { r with states }
      ∧ SenderKeyState.FrontAdvanced C target r.states states := by
  obtain ⟨states, lease⟩ := r
  cases states with
  | nil =>
    refine ⟨[], ?_, .nil⟩
    rw [fastForward]
    split <;> rfl
  | cons s states =>
    by_cases hpos : 0 < target
    · obtain ⟨s', hs', hadvanced⟩ :=
        SenderKeyState.fastForwardSenderChain_of_withinReach (h s rfl)
      refine ⟨s' :: states, ?_, .cons hadvanced states⟩
      rw [fastForward_cons hpos, hs']
      rfl
    · obtain rfl := eq_zero_of_not_pos hpos
      exact ⟨s :: states, by rw [fastForward, if_neg hpos], .cons (s.advanced_zero C) states⟩

theorem fastForward_of_not_withinReach (h : ¬ ∀ s ∈ r.states.head?, s.WithinReach target) :
    ∃ e, r.fastForward C target = .error e := by
  obtain ⟨states, lease⟩ := r
  simp only [not_forall] at h
  obtain ⟨s, hfront, hfar⟩ := h
  cases states with
  | nil => cases hfront
  | cons front states =>
    cases hfront
    have hpos : 0 < target := by
      by_contra hzero
      rw [eq_zero_of_not_pos hzero] at hfar
      exact hfar s.withinReach_zero
    obtain ⟨e, he⟩ := SenderKeyState.fastForwardSenderChain_of_not_withinReach hfar
    exact ⟨e, by rw [fastForward_cons hpos, he]; rfl⟩

end SenderKeyRecord

/-- Session records. -/
theorem StoredRecord.reloads {codec : SessionCodec} (hcodec : codec.RoundTrips) {r : StoredRecord}
    (h : r.WellFormed codec) (C : Crypto) :
    Reloads (fun i j => deserializeInner codec C (r.serializeIntoInner codec (some i)) j)
      { r with lease := .fromPersistedCeiling r.lease.ceiling }
      (∀ s ∈ r.currentSession, s.WithinReach r.lease.ceiling)
      (fun r' => Option.Rel (fun s s' => s.Advanced C r.lease.ceiling s') r.currentSession
          r'.currentSession
        ∧ r'.previousSessions = r.previousSessions
        ∧ r'.lease = .fromPersistedCeiling r.lease.ceiling) where
  own i := by
    rw [deserializeInner_serializeIntoInner hcodec h, trusted_own]
    by_cases hpos : 0 < r.lease.ceiling
    · rw [decide_eq_true hpos]
      rfl
    · exact fastForwardUntrusted_of_zero (eq_zero_of_not_pos hpos)
  other i j hne hreach := by
    rw [deserializeInner_serializeIntoInner hcodec h, trusted_other hne]
    obtain ⟨current, hcurrent, hadvanced⟩ := fastForwardUntrusted_of_withinReach
      (r := { r with lease := .fromPersistedCeiling r.lease.ceiling }) hreach
    exact ⟨_, hcurrent, hadvanced, rfl, rfl⟩
  refused i j hne hfar := by
    rw [deserializeInner_serializeIntoInner hcodec h, trusted_other hne]
    exact fastForwardUntrusted_of_not_withinReach
      hfar

/-- Sender-key records. -/
theorem SenderKeyRecord.reloads (hcodec : codec.RoundTrips) {r : SenderKeyRecord}
    (h : r.WellFormed codec) (C : Crypto) :
    Reloads (fun i j => deserializeBytes codec C (r.serializeBytes codec (some i)) j)
      { r with lease := .fromPersistedCeiling r.lease.ceiling }
      (∀ s ∈ r.states.head?, s.WithinReach r.lease.ceiling)
      (fun r' => SenderKeyState.FrontAdvanced C r.lease.ceiling r.states r'.states
        ∧ r'.lease = .fromPersistedCeiling r.lease.ceiling) where
  own i := by
    rw [deserializeBytes_serializeBytes hcodec h, trusted_own]
    by_cases hpos : 0 < r.lease.ceiling
    · rw [decide_eq_true hpos]
      rfl
    · rw [eq_zero_of_not_pos hpos]
      rfl
  other i j hne hreach := by
    rw [deserializeBytes_serializeBytes hcodec h, trusted_other hne]
    obtain ⟨states, hstates, hadvanced⟩ := fastForward_of_withinReach
      (r := ⟨r.states, .fromPersistedCeiling r.lease.ceiling⟩) hreach
    exact ⟨_, hstates, hadvanced, rfl⟩
  refused i j hne hfar := by
    rw [deserializeBytes_serializeBytes hcodec h, trusted_other hne]
    exact fastForward_of_not_withinReach
      hfar

end WaCore.Signal
