import WaCore.Lib.Wire

/-!
# The content of a reporting token

`reporting_token.rs` takes the fields of an encoded message that a whitelist names and
puts them together in the order of their numbers.  A field with a list of its own is
taken apart in the same way; the list of a message that is inside another one is the
whole whitelist again.

The loop over the fields adds a declared length to a position, and on overflow the sum
wraps around.  The position then goes back, so the loop need not end; a slice whose end
is before its start panics.
-/

namespace WaCore.Send.ReportingToken

/-! ## The whitelist -/

structure ReportingField where
  fieldNumber : Nat
  subfields : Option (List ReportingField)
  isMessage : Bool

namespace ReportingField

def new (fieldNumber : Nat) : ReportingField := ⟨fieldNumber, none, false⟩

def withSubfields (fieldNumber : Nat) (subfields : List ReportingField) : ReportingField :=
  ⟨fieldNumber, some subfields, false⟩

def message (fieldNumber : Nat) : ReportingField := ⟨fieldNumber, none, true⟩

end ReportingField

open ReportingField

def CONTEXT_INFO_SUBFIELDS := [new 21, new 22]

def FUTURE_PROOF_SUBFIELDS := [message 1]

def IMAGE_MESSAGE_SUBFIELDS :=
  [new 2, new 3, new 8, new 11, withSubfields 17 CONTEXT_INFO_SUBFIELDS, new 25]

def CONTACT_MESSAGE_SUBFIELDS := [new 1, new 16, withSubfields 17 CONTEXT_INFO_SUBFIELDS]

def LOCATION_MESSAGE_SUBFIELDS :=
  [new 3, new 4, new 5, new 16, withSubfields 17 CONTEXT_INFO_SUBFIELDS]

def EXTENDED_TEXT_MESSAGE_SUBFIELDS := [new 1, withSubfields 17 CONTEXT_INFO_SUBFIELDS, new 30]

def DOCUMENT_MESSAGE_SUBFIELDS :=
  [new 2, new 7, new 10, withSubfields 17 CONTEXT_INFO_SUBFIELDS, new 20]

def AUDIO_MESSAGE_SUBFIELDS :=
  [new 2, new 7, new 9, withSubfields 17 CONTEXT_INFO_SUBFIELDS, new 21]

def VIDEO_MESSAGE_SUBFIELDS :=
  [new 2, new 6, new 7, new 13, withSubfields 17 CONTEXT_INFO_SUBFIELDS, new 20]

def PROTOCOL_MESSAGE_SUBFIELDS := [new 1, new 2, message 14, new 15]

def LIVE_LOCATION_MESSAGE_SUBFIELDS := [new 6, new 16, withSubfields 17 CONTEXT_INFO_SUBFIELDS]

def STICKER_MESSAGE_SUBFIELDS :=
  [new 4, new 5, new 8, new 13, withSubfields 17 CONTEXT_INFO_SUBFIELDS]

def GROUP_INVITE_MESSAGE_SUBFIELDS :=
  [new 1, new 2, new 4, new 5, new 6, withSubfields 7 CONTEXT_INFO_SUBFIELDS]

def POLL_OPTION_SUBFIELDS := [new 1, new 2]

def POLL_CREATION_MESSAGE_SUBFIELDS :=
  [new 2, withSubfields 3 POLL_OPTION_SUBFIELDS, withSubfields 5 CONTEXT_INFO_SUBFIELDS,
    withSubfields 8 POLL_OPTION_SUBFIELDS]

def POLL_RESULT_OPTION_SUBFIELDS := [new 1]

def POLL_RESULT_SUBFIELDS :=
  [new 1, withSubfields 2 POLL_RESULT_OPTION_SUBFIELDS, withSubfields 3 CONTEXT_INFO_SUBFIELDS]

def REPORTING_FIELDS : List ReportingField :=
  [new 1, withSubfields 3 IMAGE_MESSAGE_SUBFIELDS, withSubfields 4 CONTACT_MESSAGE_SUBFIELDS,
    withSubfields 5 LOCATION_MESSAGE_SUBFIELDS, withSubfields 6 EXTENDED_TEXT_MESSAGE_SUBFIELDS,
    withSubfields 7 DOCUMENT_MESSAGE_SUBFIELDS, withSubfields 8 AUDIO_MESSAGE_SUBFIELDS,
    withSubfields 9 VIDEO_MESSAGE_SUBFIELDS, withSubfields 12 PROTOCOL_MESSAGE_SUBFIELDS,
    withSubfields 18 LIVE_LOCATION_MESSAGE_SUBFIELDS, withSubfields 26 STICKER_MESSAGE_SUBFIELDS,
    withSubfields 28 GROUP_INVITE_MESSAGE_SUBFIELDS, withSubfields 37 FUTURE_PROOF_SUBFIELDS,
    withSubfields 49 POLL_CREATION_MESSAGE_SUBFIELDS, withSubfields 53 FUTURE_PROOF_SUBFIELDS,
    withSubfields 55 FUTURE_PROOF_SUBFIELDS, withSubfields 58 FUTURE_PROOF_SUBFIELDS,
    withSubfields 59 FUTURE_PROOF_SUBFIELDS, withSubfields 60 POLL_CREATION_MESSAGE_SUBFIELDS,
    withSubfields 64 POLL_CREATION_MESSAGE_SUBFIELDS, withSubfields 66 VIDEO_MESSAGE_SUBFIELDS,
    withSubfields 74 FUTURE_PROOF_SUBFIELDS, withSubfields 87 FUTURE_PROOF_SUBFIELDS,
    withSubfields 88 POLL_RESULT_SUBFIELDS, withSubfields 92 FUTURE_PROOF_SUBFIELDS,
    withSubfields 93 FUTURE_PROOF_SUBFIELDS, withSubfields 94 FUTURE_PROOF_SUBFIELDS]

/-- The list that a field's payload is taken apart by. -/
def ReportingField.descends (entry : ReportingField) : Option (List ReportingField) :=
  if entry.isMessage then some REPORTING_FIELDS else entry.subfields

/-! ## One field -/

/-- The bits above the 64th are shifted out. -/
def decodeVarint (data : Bytes) : Option (Nat × Nat) :=
  (Wire.decodeGroups 10 data).map fun (value, rest) => (value % 2 ^ 64, data.length - rest.length)

/-- What is at a position. -/
inductive Scan where
  /-- No message goes on like this. -/
  | bad
  /-- The field is not complete. -/
  | cut
  /-- A field that ends at `stop`; `value` is where its payload starts, and the length
  that is declared for it. -/
  | field (tag : Nat) (value : Option (Nat × Nat)) (stop : Nat)
  deriving DecidableEq, Repr

def scanFixed (data : Bytes) (tag pos size : Nat) : Scan :=
  if data.length < pos + size then .cut else .field tag none (pos + size)

/-- What a round of the loop reads. -/
def scanField (data : Bytes) (pos : Nat) : Scan :=
  match decodeVarint (data.drop pos) with
  | none => .bad
  | some (tag, tagLen) =>
    let pos := pos + tagLen
    if data.length < pos then .cut
    else
      match tag % 8 with
      | 0 =>
        match decodeVarint (data.drop pos) with
        | none => .bad
        | some (_, valLen) => .field tag none (pos + valLen)
      | 1 => scanFixed data tag pos 8
      | 5 => scanFixed data tag pos 4
      | 2 =>
        match decodeVarint (data.drop pos) with
        | none => .bad
        | some (len, lenSize) =>
          let valueStart := pos + lenSize
          let valueEnd := (valueStart + len) % 2 ^ 64
          if data.length < valueEnd then .cut else .field tag (some (valueStart, len)) valueEnd
      | _ => .bad

/-! ## The loop -/

inductive Piece where
  | borrowed (start stop : Nat)
  | owned (bytes : Bytes)
  deriving DecidableEq, Repr

inductive Fault where
  | outOfFuel
  | sliceOutOfRange
  deriving DecidableEq, Repr

/-- `&data[start..stop]`. -/
def slice (data : Bytes) (start stop : Nat) : Except Fault Bytes :=
  if stop < start ∨ data.length < stop then .error .sliceOutOfRange
  else .ok ((data.take stop).drop start)

def Piece.bytes (data : Bytes) : Piece → Except Fault Bytes
  | borrowed start stop => slice data start stop
  | owned bytes => .ok bytes

/-- The list's entry for the number of a tag. -/
def entryOf (whitelist : List ReportingField) (tag : Nat) : Option ReportingField :=
  whitelist.find? (·.fieldNumber = tag / 8 % 2 ^ 32)

/-- The list that the payload of a field is taken apart by, if it has one. -/
def nestedList (whitelist : List ReportingField) (tag : Nat) : Option (Nat × Nat) →
    Option (List ReportingField)
  | none => none
  | some _ => (entryOf whitelist tag).bind (·.descends)

/-- A nested field under a fresh tag and length. -/
def reframe (tag : Nat) (nested : Bytes) : Bytes :=
  Wire.encodeVarint tag ++ Wire.encodeVarint nested.length ++ nested

/-- Pieces with their field numbers, in ascending order; `sort_by_key` is stable. -/
def sortPieces (pieces : List (Nat × Piece)) : List (Nat × Piece) :=
  pieces.insertionSort fun a b => a.1 ≤ b.1

/-- What the loop ends with. -/
def finish (extracted : List (Nat × Piece)) : Option (List (Nat × Piece)) :=
  if extracted = [] then none else some (sortPieces extracted)

mutual

/-- `collect_reporting_token_pieces`, from a position on. -/
def collect : Nat → List ReportingField → Bytes → Nat → List (Nat × Piece) →
    Except Fault (Option (List (Nat × Piece)))
  | 0, _, _, _, _ => .error .outOfFuel
  | fuel + 1, whitelist, data, pos, extracted =>
    if data.length ≤ pos then .ok (finish extracted)
    else
      match scanField data pos with
      | .bad => .ok none
      | .cut => .ok (finish extracted)
      | .field tag value stop => do
        let number := tag / 8 % 2 ^ 32
        match entryOf whitelist tag, value, nestedList whitelist tag value with
        | none, _, _ => collect fuel whitelist data stop extracted
        | some _, some (valueStart, _), some sub =>
          let nested ← extract fuel sub (← slice data valueStart stop)
          let piece := (nested.filter (· ≠ [])).map fun n => (number, .owned (reframe tag n))
          collect fuel whitelist data stop (extracted ++ piece.toList)
        | some _, _, _ =>
          collect fuel whitelist data stop (extracted ++ [(number, .borrowed pos stop)])

/-- `extract_reporting_token_content`. -/
def extract : Nat → List ReportingField → Bytes → Except Fault (Option Bytes)
  | 0, _, _ => .error .outOfFuel
  | fuel + 1, whitelist, data => do
    match ← collect fuel whitelist data 0 [] with
    | none => pure none
    | some pieces =>
      let bytes ← pieces.mapM (·.2.bytes data)
      pure (some bytes.flatten)

end

/-! ## Where the loop goes -/

/-- The rounds that a loop comes to, in its message and in those it descends into. -/
inductive Visits : List ReportingField → Bytes → Nat → List ReportingField → Bytes → Nat → Prop where
  | here {whitelist data pos} : Visits whitelist data pos whitelist data pos
  | next {whitelist data pos tag value stop whitelist' data' pos'} (hpos : pos < data.length)
    (hscan : scanField data pos = .field tag value stop)
    (hrest : Visits whitelist data stop whitelist' data' pos') :
    Visits whitelist data pos whitelist' data' pos'
  | nested {whitelist data pos tag value len stop sub payload whitelist' data' pos'}
    (hpos : pos < data.length) (hscan : scanField data pos = .field tag (some (value, len)) stop)
    (hsub : nestedList whitelist tag (some (value, len)) = some sub)
    (hslice : slice data value stop = .ok payload)
    (hrest : Visits sub payload 0 whitelist' data' pos') :
    Visits whitelist data pos whitelist' data' pos'

/-- A round moves the position forward and not beyond the end, and it can descend. -/
def MovesForward (whitelist : List ReportingField) (data : Bytes) (pos : Nat) : Prop :=
  ∀ tag value stop, pos < data.length → scanField data pos = .field tag value stop →
    pos < stop ∧ stop ≤ data.length
      ∧ ∀ start len, value = some (start, len) → nestedList whitelist tag value ≠ none → start ≤ stop

/-- The length of the field does not overflow, or the sum wraps to a place inside the
field's own tag and length, and the loop does not descend there. -/
def Fits (whitelist : List ReportingField) (data : Bytes) (pos : Nat) : Prop :=
  ∀ tag start len stop, pos < data.length → scanField data pos = .field tag (some (start, len)) stop →
    start + len < 2 ^ 64
      ∨ (pos + 2 ^ 64 < start + len ∧ nestedList whitelist tag (some (start, len)) = none)

variable {data : Bytes} {pos tag stop : Nat} {whitelist : List ReportingField}

theorem decodeVarint_eq_some {value n : Nat} (h : decodeVarint data = some (value, n)) :
    (value < 2 ^ 64 ∧ value < 128 ^ data.length) ∧ 0 < n ∧ n ≤ data.length := by
  obtain ⟨⟨v, rest⟩, hgroups, heq⟩ := Option.map_eq_some_iff.mp h
  have hlt := Wire.decodeGroups_lt hgroups
  obtain ⟨used, hne, rfl, -⟩ := Wire.decodeGroups_eq_some hgroups
  have hpos := List.length_pos_of_ne_nil hne
  cases heq
  refine ⟨⟨Nat.mod_lt _ (by decide), (Nat.mod_le _ _).trans_lt hlt⟩, ?_, Nat.sub_le _ _⟩
  rw [List.length_append]
  omega

theorem scanFixed_eq_field {size tag' : Nat} {value : Option (Nat × Nat)}
    (h : scanFixed data tag' pos size = .field tag value stop) :
    value = none ∧ stop = pos + size ∧ stop ≤ data.length := by
  rw [scanFixed] at h
  split at h
  · cases h
  · cases h
    exact ⟨rfl, rfl, by omega⟩

/-- Where a field ends. -/
theorem scanField_eq_field {value : Option (Nat × Nat)}
    (h : scanField data pos = .field tag value stop) :
    stop ≤ data.length ∧ (value = none → pos < stop) ∧ ∀ start len, value = some (start, len) →
      pos < start ∧ start ≤ data.length ∧ (len < 2 ^ 64 ∧ len < 128 ^ data.length)
        ∧ stop = (start + len) % 2 ^ 64 := by
  rw [scanField] at h
  split at h
  · cases h
  · rename_i tag' tagLen htag
    obtain ⟨-, htagLen, htagLe⟩ := decodeVarint_eq_some htag
    rw [List.length_drop] at htagLe
    dsimp only at h
    split at h
    · cases h
    · split at h
      · split at h
        · cases h
        · rename_i valLen hval
          obtain ⟨-, -, hvalLe⟩ := decodeVarint_eq_some hval
          rw [List.length_drop] at hvalLe
          cases h
          exact ⟨by omega, fun _ => by omega, by rintro _ _ ⟨⟩⟩
      · obtain ⟨rfl, rfl, hle⟩ := scanFixed_eq_field h
        exact ⟨hle, fun _ => by omega, by rintro _ _ ⟨⟩⟩
      · obtain ⟨rfl, rfl, hle⟩ := scanFixed_eq_field h
        exact ⟨hle, fun _ => by omega, by rintro _ _ ⟨⟩⟩
      · split at h
        · cases h
        · rename_i len lenSize hlen
          obtain ⟨⟨hlt, hbits⟩, -, hlenLe⟩ := decodeVarint_eq_some hlen
          have hmore := Nat.pow_le_pow_right (by decide : 0 < 128) (List.drop_sublist (pos + tagLen) data).length_le
          rw [List.length_drop] at hlenLe
          split at h
          · cases h
          · rename_i hstop
            cases h
            refine ⟨Nat.le_of_not_lt hstop, by rintro ⟨⟩, ?_⟩
            rintro _ _ ⟨⟩
            exact ⟨by omega, by omega, ⟨hlt, hbits.trans_le hmore⟩, rfl⟩
      · cases h

/-- With no overflow the position moves forward, and the other way round. -/
theorem movesForward_iff_fits (hlen : data.length < 2 ^ 64) :
    MovesForward whitelist data pos ↔ Fits whitelist data pos := by
  constructor
  · intro h tag start len stop hpos hscan
    obtain ⟨hforward, -, hslice⟩ := h tag _ stop hpos hscan
    obtain ⟨-, -, hvalue⟩ := scanField_eq_field hscan
    obtain ⟨hstart, hle, hlenLt, hstop⟩ := hvalue start len rfl
    by_cases hover : start + len < 2 ^ 64
    · exact .inl hover
    · refine .inr ⟨by omega, ?_⟩
      by_contra hnested
      have := hslice start len rfl hnested
      omega
  · intro h tag value stop hpos hscan
    obtain ⟨hstopLe, hnone, hvalue⟩ := scanField_eq_field hscan
    cases value with
    | none => exact ⟨hnone rfl, hstopLe, by rintro _ _ ⟨⟩⟩
    | some value =>
      obtain ⟨hstart, hle, hlenLt, hstop⟩ := hvalue value.1 value.2 rfl
      have hfits := h tag value.1 value.2 stop hpos hscan
      refine ⟨by omega, hstopLe, ?_⟩
      rintro start len ⟨⟩ hnested
      have := hfits.resolve_right fun h => hnested h.2
      dsimp only at hstop
      omega

theorem slice_eq_ok {start : Nat} {payload : Bytes} (h : slice data start stop = .ok payload) :
    start ≤ stop ∧ stop ≤ data.length ∧ payload.length = stop - start := by
  rw [slice] at h
  split at h
  · cases h
  · cases h
    rw [List.length_drop, List.length_take]
    omega

theorem Visits.length_le {whitelist' : List ReportingField} {data' : Bytes} {pos' : Nat}
    (h : Visits whitelist data pos whitelist' data' pos') : data'.length ≤ data.length := by
  induction h with
  | here => exact Nat.le_refl _
  | next _ _ _ ih => exact ih
  | nested _ _ _ hslice _ ih =>
    obtain ⟨-, hle, hlength⟩ := slice_eq_ok hslice
    omega

/-! ## The extraction returns -/

theorem mapM_ok {α β ε : Type} {f : α → Except ε β} {l : List α} (h : ∀ a ∈ l, ∃ b, f a = .ok b) :
    ∃ bs, l.mapM f = .ok bs := by
  induction l with
  | nil => exact ⟨[], rfl⟩
  | cons a l ih =>
    obtain ⟨b, hb⟩ := h a List.mem_cons_self
    obtain ⟨bs, hbs⟩ := ih fun a ha => h a (List.mem_cons_of_mem _ ha)
    exact ⟨b :: bs, by rw [List.mapM_cons, hb, hbs]; rfl⟩

/-- The pieces are in range. -/
def InRange (data : Bytes) (pieces : List (Nat × Piece)) : Prop :=
  ∀ piece ∈ pieces, ∃ bytes, piece.2.bytes data = .ok bytes

theorem inRange_finish {extracted pieces : List (Nat × Piece)} (h : InRange data extracted)
    (hfinish : finish extracted = some pieces) : InRange data pieces := by
  rw [finish] at hfinish
  split at hfinish
  · cases hfinish
  · cases hfinish
    exact fun piece hpiece => h piece ((List.perm_insertionSort _ _).mem_iff.mp hpiece)

theorem InRange.append {pieces pieces' : List (Nat × Piece)} (h : InRange data pieces)
    (h' : InRange data pieces') : InRange data (pieces ++ pieces') :=
  List.forall_mem_append.mpr ⟨h, h'⟩

/-- What a loop ends with, if its pieces are in range. -/
def Returns (data : Bytes) (r : Except Fault (Option (List (Nat × Piece)))) : Prop :=
  ∃ pieces, r = .ok pieces ∧ ∀ l, pieces = some l → InRange data l

theorem extract_returns {fuel : Nat} (h : Returns data (collect fuel whitelist data 0 [])) :
    ∃ r, extract (fuel + 1) whitelist data = .ok r := by
  obtain ⟨pieces, hcollect, hrange⟩ := h
  rw [extract, hcollect, ok_bind]
  cases pieces with
  | none => exact ⟨none, rfl⟩
  | some pieces =>
    obtain ⟨bytes, hbytes⟩ := mapM_ok (hrange pieces rfl)
    dsimp only
    rw [hbytes]
    exact ⟨some bytes.flatten, rfl⟩

/-- A loop whose rounds move forward ends, with pieces that are in range. -/
theorem collect_returns {fuel : Nat} {extracted : List (Nat × Piece)}
    (hforward : ∀ {whitelist' data' pos'}, Visits whitelist data pos whitelist' data' pos' →
      MovesForward whitelist' data' pos')
    (hfuel : 2 * (data.length - pos) < fuel) (hrange : InRange data extracted) :
    Returns data (collect fuel whitelist data pos extracted) := by
  induction fuel using Nat.strong_induction_on generalizing whitelist data pos extracted with
  | _ fuel ih =>
    obtain ⟨fuel, rfl⟩ := Nat.exists_eq_succ_of_ne_zero (Nat.ne_of_gt (Nat.zero_lt_of_lt hfuel))
    rw [collect]
    by_cases hpos : data.length ≤ pos
    · rw [if_pos hpos]
      exact ⟨_, rfl, fun pieces => inRange_finish hrange⟩
    · rw [if_neg hpos]
      cases hscan : scanField data pos with
      | bad => exact ⟨none, rfl, by rintro _ ⟨⟩⟩
      | cut => exact ⟨_, rfl, fun pieces => inRange_finish hrange⟩
      | field tag value stop =>
        obtain ⟨hstop, hle, hslice⟩ := hforward .here tag value stop (by omega) hscan
        have hnext : ∀ more, InRange data more → Returns data
            (collect fuel whitelist data stop (extracted ++ more)) := fun _ hmore =>
          ih fuel (Nat.lt_succ_self _) (fun hvisits => hforward (.next (by omega) hscan hvisits))
            (by omega) (hrange.append hmore)
        have hborrowed : InRange data [(tag / 8 % 2 ^ 32, .borrowed pos stop)] := by
          refine List.forall_mem_singleton.mpr ⟨(data.take stop).drop pos, ?_⟩
          rw [Piece.bytes, slice, if_neg (by omega)]
        dsimp only
        cases entryOf whitelist tag with
        | none => simpa using hnext [] (List.forall_mem_nil _)
        | some entry =>
          cases hnested : nestedList whitelist tag value with
          | none => cases value <;> exact hnext _ hborrowed
          | some sub =>
            cases value with
            | none => cases hnested
            | some value =>
              obtain ⟨start, len⟩ := value
              have hstart := hslice start len rfl (by simp [hnested])
              obtain ⟨payload, hpayload⟩ : ∃ payload, slice data start stop = .ok payload :=
                ⟨_, by rw [slice, if_neg (by omega)]⟩
              obtain ⟨hstart', -, hlength⟩ := slice_eq_ok hpayload
              have hpast := (scanField_eq_field hscan).2.2 start len rfl
              obtain ⟨fuel, rfl⟩ : ∃ fuel', fuel = fuel' + 1 := ⟨fuel - 1, by omega⟩
              obtain ⟨nested, hextract⟩ := extract_returns (ih fuel (by omega)
                (fun hvisits => hforward (.nested (by omega) hscan hnested hpayload hvisits))
                (by omega) (List.forall_mem_nil _))
              dsimp only
              rw [hpayload, ok_bind, hextract]
              refine hnext _ fun piece hpiece => ?_
              obtain ⟨n, -, rfl⟩ := Option.map_eq_some_iff.mp (Option.mem_toList.mp hpiece)
              exact ⟨_, rfl⟩

/-- The extraction returns, and every round that it comes to moves forward. -/
def Total (data : Bytes) : Prop :=
  (∀ {whitelist data' pos}, Visits REPORTING_FIELDS data 0 whitelist data' pos →
      MovesForward whitelist data' pos)
    ∧ ∃ fuel r, extract fuel REPORTING_FIELDS data = .ok r

def LengthsFit (data : Bytes) : Prop :=
  ∀ {whitelist data' pos}, Visits REPORTING_FIELDS data 0 whitelist data' pos →
    Fits whitelist data' pos

/-- The extraction moves forward at every level and returns, exactly if every length that
it comes to fits. -/
theorem extract_total_iff (hlen : data.length < 2 ^ 64) : Total data ↔ LengthsFit data := by
  have hiff : ∀ {whitelist' data' pos'}, Visits REPORTING_FIELDS data 0 whitelist' data' pos' →
      (MovesForward whitelist' data' pos' ↔ Fits whitelist' data' pos') := fun hvisits =>
    movesForward_iff_fits (Nat.lt_of_le_of_lt hvisits.length_le hlen)
  constructor
  · exact fun h _ _ _ hvisits => (hiff hvisits).mp (h.1 hvisits)
  · intro h
    have hforward : ∀ {whitelist' data' pos'},
        Visits REPORTING_FIELDS data 0 whitelist' data' pos' →
        MovesForward whitelist' data' pos' := fun hvisits => (hiff hvisits).mpr (h hvisits)
    exact ⟨hforward, _, extract_returns (collect_returns hforward (Nat.lt_succ_self _)
      (List.forall_mem_nil _))⟩

/-- No length in a message of at most eight bytes is large enough to overflow. -/
theorem lengthsFit_of_short (h : data.length ≤ 8) : LengthsFit data := by
  intro whitelist data' pos hvisits tag start len stop hpos hscan
  have hle := hvisits.length_le
  obtain ⟨-, hstart, ⟨-, hlen⟩, -⟩ := (scanField_eq_field hscan).2.2 start len rfl
  have hpow := Nat.pow_le_pow_right (by decide : 0 < 128) (hle.trans h)
  exact .inl (by omega)

/-- A text message: field 6, with field 1 in it. -/
def textMessage : Bytes := [0x32, 3, 0x0A, 1, 0x68]

/-- A field that no list names, with a length that wraps to its own first byte. -/
def wrappedField : Bytes := [0x12, 0xF5, 0xFF, 0xFF, 0xFF, 0xFF, 0xFF, 0xFF, 0xFF, 0xFF, 0x01]

theorem collect_wrappedField (fuel : Nat) :
    collect fuel REPORTING_FIELDS wrappedField 0 [] = .error .outOfFuel := by
  induction fuel with
  | zero => rw [collect]
  | succ fuel ih =>
    have hscan : scanField wrappedField 0 = .field 18 (some (11, 2 ^ 64 - 11)) 0 := by decide
    have hentry : entryOf REPORTING_FIELDS 18 = none := rfl
    rw [collect, hscan]
    dsimp only
    rw [hentry]
    exact ih

theorem not_total_wrappedField : ¬ ∃ fuel r, extract fuel REPORTING_FIELDS wrappedField = .ok r := by
  rintro ⟨fuel, r, h⟩
  cases fuel with
  | zero =>
    rw [extract] at h
    cases h
  | succ fuel =>
    rw [extract, collect_wrappedField] at h
    cases h

theorem extract_wrappedField_never_returns :
    wrappedField.length < 2 ^ 64
      ∧ ¬ ∃ fuel r, extract fuel REPORTING_FIELDS wrappedField = .ok r :=
  ⟨by decide, not_total_wrappedField⟩

/-- The lengths of the one fit, and those of the other do not. -/
theorem extract_total_textMessage :
    LengthsFit textMessage ∧ Total textMessage ∧ ¬ LengthsFit wrappedField := by
  have hfit : LengthsFit textMessage := lengthsFit_of_short (by decide)
  refine ⟨hfit, (extract_total_iff (by decide)).mpr hfit, fun h => not_total_wrappedField ?_⟩
  exact ((extract_total_iff (by decide)).mpr h).2

end WaCore.Send.ReportingToken
