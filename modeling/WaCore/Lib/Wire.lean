import WaCore.Lib.Bytes
import WaCore.Lib.Effect

/-!
# The wire format of protocol buffers

Varints, tags and fields, and the loop that goes over the fields of a message one
by one.  A loop that keeps to a message's fields is run on the fields themselves
(`scanFields_encode`).

How a group is passed over is left open: nothing here writes one.
-/

namespace WaCore.Wire

/-! ## Varints -/

/-- Groups of seven bits, the lowest first; the last group has the top bit clear. -/
def encodeGroups : Nat → Nat → Bytes
  | 0, _ => []
  | rounds + 1, v =>
    if v < 128 then [.ofNat v] else .ofNat (v % 128 + 128) :: encodeGroups rounds (v / 128)

/-- A varint of 64 bits has at most ten groups. -/
def encodeVarint (v : Nat) : Bytes := encodeGroups 10 v

def decodeGroups : Nat → Bytes → Option (Nat × Bytes)
  | rounds + 1, b :: bytes =>
    if b.toNat < 128 then some (b.toNat, bytes)
    else (decodeGroups rounds bytes).map fun r => (b.toNat % 128 + 128 * r.1, r.2)
  | _, _ => none

def decodeVarint (bytes : Bytes) : Option (Nat × Bytes) :=
  (decodeGroups 10 bytes).filter (·.1 < 2 ^ 64)

theorem decodeGroups_encodeGroups {rounds v : Nat} (hv : v < 128 ^ (rounds + 1)) (rest : Bytes) :
    decodeGroups (rounds + 1) (encodeGroups (rounds + 1) v ++ rest) = some (v, rest) := by
  induction rounds generalizing v with
  | zero =>
    have hsmall : v < 128 := by simpa using hv
    have htoNat : (UInt8.ofNat v).toNat = v := by
      rw [UInt8.toNat_ofNat']
      omega
    rw [encodeGroups, if_pos hsmall, List.singleton_append, decodeGroups, htoNat, if_pos hsmall]
  | succ rounds ih =>
    rw [encodeGroups]
    split
    · rename_i hsmall
      have htoNat : (UInt8.ofNat v).toNat = v := by
        rw [UInt8.toNat_ofNat']
        omega
      rw [List.singleton_append, decodeGroups, htoNat, if_pos hsmall]
    · have htoNat : (UInt8.ofNat (v % 128 + 128)).toNat = v % 128 + 128 := by
        rw [UInt8.toNat_ofNat']
        omega
      have hdiv : v / 128 < 128 ^ (rounds + 1) := by
        omega
      rw [List.cons_append, decodeGroups, if_neg (by omega), ih hdiv]
      simp only [Option.map_some, Option.some.injEq, Prod.mk.injEq, and_true]
      omega

/-- A varint that is read has bytes of its own, and what follows them does not matter. -/
theorem decodeGroups_eq_some {rounds v : Nat} {bytes rest : Bytes}
    (h : decodeGroups rounds bytes = some (v, rest)) :
    ∃ used, used ≠ [] ∧ bytes = used ++ rest
      ∧ ∀ rest', decodeGroups rounds (used ++ rest') = some (v, rest') := by
  induction rounds generalizing bytes v with
  | zero => cases h
  | succ rounds ih =>
    cases bytes with
    | nil => cases h
    | cons b bytes =>
      rw [decodeGroups] at h
      split at h
      · rename_i hlast
        cases h
        exact ⟨[b], List.cons_ne_nil _ _, rfl, fun rest' => if_pos hlast⟩
      · rename_i hmore
        obtain ⟨⟨v', rest'⟩, hrest, heq⟩ := Option.map_eq_some_iff.mp h
        cases heq
        obtain ⟨used, -, rfl, hused⟩ := ih hrest
        refine ⟨b :: used, List.cons_ne_nil _ _, rfl, fun rest' => ?_⟩
        rw [List.cons_append, decodeGroups, if_neg hmore, hused]
        rfl

theorem decodeGroups_lt {rounds v : Nat} {bytes rest : Bytes}
    (h : decodeGroups rounds bytes = some (v, rest)) : v < 128 ^ bytes.length := by
  induction rounds generalizing bytes v with
  | zero => cases h
  | succ rounds ih =>
    cases bytes with
    | nil => cases h
    | cons b bytes =>
      have hpos := Nat.pow_pos (n := bytes.length) (by decide : 0 < 128)
      rw [decodeGroups] at h
      rw [List.length_cons, Nat.pow_succ]
      split at h
      · cases h
        omega
      · obtain ⟨⟨v', rest'⟩, hrest, heq⟩ := Option.map_eq_some_iff.mp h
        cases heq
        have hlt := ih hrest
        omega

theorem decodeVarint_encodeVarint {v : Nat} (hv : v < 2 ^ 64) (rest : Bytes) :
    decodeVarint (encodeVarint v ++ rest) = some (v, rest) := by
  rw [decodeVarint, encodeVarint, decodeGroups_encodeGroups (by omega), Option.filter_some,
    if_pos (decide_eq_true hv)]

theorem encodeVarint_ne_nil (v : Nat) : encodeVarint v ≠ [] := by
  rw [encodeVarint, encodeGroups]
  split <;> simp

/-! ## Tags -/

inductive WireType where
  | varint
  | fixed64
  | lengthDelimited
  | startGroup
  | endGroup
  | fixed32
  deriving DecidableEq, Repr

namespace WireType

def toNat : WireType → Nat
  | varint => 0
  | fixed64 => 1
  | lengthDelimited => 2
  | startGroup => 3
  | endGroup => 4
  | fixed32 => 5

def ofNat? : Nat → Option WireType
  | 0 => some varint
  | 1 => some fixed64
  | 2 => some lengthDelimited
  | 3 => some startGroup
  | 4 => some endGroup
  | 5 => some fixed32
  | _ => none

theorem toNat_lt (w : WireType) : w.toNat < 8 := by cases w <;> decide

theorem ofNat?_toNat (w : WireType) : ofNat? w.toNat = some w := by cases w <;> rfl

end WireType

structure Tag where
  number : Nat
  wireType : WireType
  deriving DecidableEq, Repr

namespace Tag

/-- The numbers that a field can have. -/
def Fits (tag : Tag) : Prop := 0 < tag.number ∧ tag.number < 2 ^ 29

def encode (tag : Tag) : Bytes := encodeVarint (tag.number * 8 + tag.wireType.toNat)

def decode (bytes : Bytes) : Option (Tag × Bytes) := do
  let (v, bytes) ← decodeVarint bytes
  if v < 2 ^ 32 ∧ 0 < v / 8 then
    let wireType ← WireType.ofNat? (v % 8)
    pure (⟨v / 8, wireType⟩, bytes)
  else none

theorem decode_encode {tag : Tag} (h : tag.Fits) (rest : Bytes) :
    decode (tag.encode ++ rest) = some (tag, rest) := by
  obtain ⟨hpos, hlt⟩ := h
  have hwire := tag.wireType.toNat_lt
  have hdiv : (tag.number * 8 + tag.wireType.toNat) / 8 = tag.number := by omega
  have hmod : (tag.number * 8 + tag.wireType.toNat) % 8 = tag.wireType.toNat := by omega
  rw [decode, encode, decodeVarint_encodeVarint (by omega)]
  simp only [Option.bind_eq_bind, Option.bind_some]
  rw [if_pos ⟨by omega, by omega⟩, hmod, hdiv, WireType.ofNat?_toNat]
  rfl

end Tag

/-! ## Fields -/

/-- A field of one of the two wire types that are written. -/
inductive Field where
  | varint (number value : Nat)
  | lengthDelimited (number : Nat) (payload : Bytes)
  deriving DecidableEq, Repr

namespace Field

def tag : Field → Tag
  | varint number _ => ⟨number, .varint⟩
  | lengthDelimited number _ => ⟨number, .lengthDelimited⟩

/-- What stands behind the tag. -/
def body : Field → Bytes
  | varint _ value => encodeVarint value
  | lengthDelimited _ payload => encodeVarint payload.length ++ payload

def encode (f : Field) : Bytes := f.tag.encode ++ f.body

/-- The field's number and length can be written. -/
def Fits (f : Field) : Prop :=
  f.tag.Fits ∧ match f with
    | varint _ value => value < 2 ^ 64
    | lengthDelimited _ payload => payload.length < 2 ^ 64

instance (f : Field) : Decidable f.Fits := by
  cases f <;> exact inferInstanceAs (Decidable ((_ ∧ _) ∧ _))

end Field

/-- The bytes of a field with a length, and what follows. -/
def takePayload (bytes : Bytes) : Option (Bytes × Bytes) := do
  let (length, bytes) ← decodeVarint bytes
  if bytes.length < length then none else pure (bytes.take length, bytes.drop length)

theorem takePayload_body {payload : Bytes} (h : payload.length < 2 ^ 64) (rest : Bytes) :
    takePayload (encodeVarint payload.length ++ payload ++ rest) = some (payload, rest) := by
  rw [takePayload, List.append_assoc, decodeVarint_encodeVarint h]
  simp

/-- Pass over what stands behind a tag. -/
def skipField (skipGroup : Nat → Bytes → Option Bytes) (tag : Tag) (bytes : Bytes) : Option Bytes :=
  match tag.wireType with
  | .varint => (decodeVarint bytes).map Prod.snd
  | .fixed64 => if bytes.length < 8 then none else some (bytes.drop 8)
  | .lengthDelimited => (takePayload bytes).map Prod.snd
  | .startGroup => skipGroup tag.number bytes
  | .endGroup => none
  | .fixed32 => if bytes.length < 4 then none else some (bytes.drop 4)

theorem skipField_body {skipGroup : Nat → Bytes → Option Bytes} {f : Field} (h : f.Fits)
    (rest : Bytes) : skipField skipGroup f.tag (f.body ++ rest) = some rest := by
  cases f with
  | varint number value =>
    rw [skipField, Field.body, decodeVarint_encodeVarint h.2]
    rfl
  | lengthDelimited number payload =>
    rw [skipField, Field.body, takePayload_body h.2]
    rfl

/-! ## A loop over fields -/

variable {fields : List Field}

section Scan

variable {σ ε : Type} (badTag : ε) (step : σ → Tag → Bytes → Except ε (σ × Bytes))

/-- One field after another, until no byte is left.  A round uses at least one byte. -/
def scanRounds : Nat → σ → Bytes → Except ε σ
  | rounds + 1, s, b :: bytes => do
    let (tag, bytes) ← okOr (Tag.decode (b :: bytes)) badTag
    let (s, bytes) ← step s tag bytes
    scanRounds rounds s bytes
  | _, s, _ => .ok s

def scanFields (s : σ) (bytes : Bytes) : Except ε σ := scanRounds badTag step bytes.length s bytes

variable {badTag step}

theorem scanRounds_of_decode {bytes rest : Bytes} {tag : Tag} (h : Tag.decode bytes = some (tag, rest))
    (rounds : Nat) (s : σ) :
    scanRounds badTag step (rounds + 1) s bytes
      = step s tag rest >>= fun r => scanRounds badTag step rounds r.1 r.2 := by
  cases bytes with
  | nil => cases h
  | cons b bytes =>
    rw [scanRounds, h, okOr_some, ok_bind]

theorem scanRounds_encode {apply : σ → Field → Except ε σ} (hfits : ∀ f ∈ fields, f.Fits)
    (hstep : ∀ f ∈ fields, ∀ s rest, step s f.tag (f.body ++ rest) = (apply s f).map (·, rest))
    {rounds : Nat} (hrounds : (fields.flatMap Field.encode).length ≤ rounds) (s : σ) :
    scanRounds badTag step rounds s (fields.flatMap Field.encode) = fields.foldlM apply s := by
  induction fields generalizing rounds s with
  | nil => cases rounds <;> rfl
  | cons f fields ih =>
    rw [List.forall_mem_cons] at hfits hstep
    have htag : 0 < f.tag.encode.length := List.length_pos_of_ne_nil (encodeVarint_ne_nil _)
    have hlength : ((f :: fields).flatMap Field.encode).length
        = f.tag.encode.length + f.body.length + (fields.flatMap Field.encode).length := by
      rw [List.flatMap_cons, List.length_append, Field.encode, List.length_append]
    cases rounds with
    | zero => omega
    | succ rounds =>
      rw [List.flatMap_cons, Field.encode, List.append_assoc,
        scanRounds_of_decode (Tag.decode_encode hfits.1.1 _), hstep.1, List.foldlM_cons]
      cases apply s f with
      | error e => rfl
      | ok s' => exact ih hfits.2 hstep.2 (by omega) s'

/-- On the encoding of some fields the loop is a loop over them. -/
theorem scanFields_encode {apply : σ → Field → Except ε σ} (hfits : ∀ f ∈ fields, f.Fits)
    (hstep : ∀ f ∈ fields, ∀ s rest, step s f.tag (f.body ++ rest) = (apply s f).map (·, rest))
    (s : σ) : scanFields badTag step s (fields.flatMap Field.encode) = fields.foldlM apply s :=
  scanRounds_encode hfits hstep (Nat.le_refl _) s

end Scan

/-! ## The messages of a field -/

section Messages

variable {α : Type} (skipGroup : Nat → Bytes → Option Bytes) (number : Nat)
  (decode : Bytes → Option α)

def messageStep (out : List α) (tag : Tag) (bytes : Bytes) : Except Unit (List α × Bytes) :=
  if tag.number = number ∧ tag.wireType = .lengthDelimited then do
    let (payload, bytes) ← okOr (takePayload bytes) ()
    let a ← okOr (decode payload) ()
    pure (out ++ [a], bytes)
  else do
    let bytes ← okOr (skipField skipGroup tag bytes) ()
    pure (out, bytes)

/-- A repeated message: all fields with its number, whatever else there is. -/
def messages (bytes : Bytes) : Option (List α) :=
  (scanFields () (messageStep skipGroup number decode) [] bytes).toOption

/-- The payloads of the fields with a number. -/
def payloads (fields : List Field) : List Bytes :=
  fields.filterMap fun
    | .lengthDelimited n payload => if n = number then some payload else none
    | .varint _ _ => none

/-- One field of the scan, read from the field itself. -/
def applyMessage (out : List α) : Field → Except Unit (List α)
  | .lengthDelimited n payload =>
    if n = number then (okOr (decode payload) ()).map fun a => out ++ [a] else .ok out
  | .varint _ _ => .ok out

variable {skipGroup number decode}

theorem messageStep_body {f : Field} (hf : f.Fits) (out : List α) (rest : Bytes) :
    messageStep skipGroup number decode out f.tag (f.body ++ rest)
      = (applyMessage number decode out f).map (·, rest) := by
  have hskip : skipField skipGroup f.tag (f.body ++ rest) = some rest := skipField_body hf rest
  rw [messageStep]
  cases f with
  | varint n value =>
    rw [if_neg fun h => absurd h.2 (by simp [Field.tag]), hskip]
    rfl
  | lengthDelimited n payload =>
    by_cases hn : n = number
    · rw [if_pos ⟨hn, rfl⟩, Field.body, takePayload_body hf.2, applyMessage, if_pos hn, okOr_some]
      change (okOr (decode payload) () >>= fun a => pure (out ++ [a], rest)) = _
      cases decode payload <;> rfl
    · rw [if_neg fun h => hn h.1, hskip, applyMessage, if_neg hn]
      rfl

theorem foldlM_applyMessage (fields : List Field) (out : List α) :
    (fields.foldlM (applyMessage number decode) out).toOption
      = ((payloads number fields).mapM decode).map (out ++ ·) := by
  induction fields generalizing out with
  | nil => simp [payloads, pure, Except.pure, Except.toOption]
  | cons f fields ih =>
    rw [List.foldlM_cons]
    cases f with
    | varint n value => exact ih out
    | lengthDelimited n payload =>
      by_cases hn : n = number
      · have hpayloads : payloads number (.lengthDelimited n payload :: fields)
            = payload :: payloads number fields := by simp [payloads, hn]
        rw [applyMessage, if_pos hn, hpayloads, List.mapM_cons]
        cases decode payload with
        | none => rfl
        | some a =>
          refine (ih _).trans ?_
          cases (payloads number fields).mapM decode <;> simp
      · have hpayloads : payloads number (.lengthDelimited n payload :: fields)
            = payloads number fields := by simp [payloads, hn]
        rw [applyMessage, if_neg hn, ok_bind, ih, hpayloads]

/-- On the encoding of some fields, the messages are those in the fields. -/
theorem messages_encode (hfits : ∀ f ∈ fields, f.Fits) :
    messages skipGroup number decode (fields.flatMap Field.encode)
      = (payloads number fields).mapM decode := by
  rw [messages,
    scanFields_encode hfits fun f hf out rest => messageStep_body (hfits f hf) out rest,
    foldlM_applyMessage]
  simp

theorem payloads_append (fields fields' : List Field) :
    payloads number (fields ++ fields') = payloads number fields ++ payloads number fields' :=
  List.filterMap_append

theorem payloads_of_ne (h : ∀ f ∈ fields, f.tag.number ≠ number) : payloads number fields = [] := by
  refine List.filterMap_eq_nil_iff.mpr fun f hf => ?_
  cases f with
  | varint n value => rfl
  | lengthDelimited n payload => exact if_neg (h _ hf)

theorem payloads_map (number : Nat) (ps : List Bytes) :
    payloads number (ps.map (Field.lengthDelimited number)) = ps := by
  rw [payloads]
  simp

end Messages

end WaCore.Wire
