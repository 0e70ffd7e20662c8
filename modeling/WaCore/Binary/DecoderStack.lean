import WaCore.Binary.Decoder

/-!
# How much stack the decoder uses

`decoder T stack` gives up when its calls nest deeper than `stack`.  This
module relates the runs on different stacks:

* `decoder_extends`: a larger stack does not change a run that fits;
* `room_decoder`: how much stack is enough for each method, given the number
  of bytes it may read;
* `fullDecoder`: the decoder on a stack that is large enough for any input.
  It satisfies the source's recursive equations (`fullDecoder_eq_step`), so
  what the decoder computes can be proved without mentioning the stack.

A JID token costs two calls (the reader of the token and the reader of the
value inside it) for every byte, which is where the factor two in all the
bounds comes from.
-/

namespace WaCore.Binary

open Utf8 ListParser

/-! ## What holds of every reader -/

/-- A relation between readers that holds of the reads of which they are made, and that
sequencing keeps.  A property of one reader is a relation that does not look at the
other. -/
structure Compositional (R : {α : Type} → Dec α → Dec α → Prop) : Prop extends Congruent R where
  throw {α : Type} {e : Fault} (he : e ≠ .stackOverflow) : R (throw e : Dec α) (throw e)
  readU8 : R readU8 readU8
  readBytes (len : Nat) : R (readBytes len) (readBytes len)

namespace Compositional

variable {R : {α : Type} → Dec α → Dec α → Prop} (hR : Compositional R)
include hR

theorem fail {α : Type} (e : BinaryError) : R (Binary.fail e : Dec α) (Binary.fail e) :=
  hR.throw (by simp)

theorem readU16Be : R Binary.readU16Be Binary.readU16Be :=
  hR.bind hR.readU8 fun _ => hR.bind hR.readU8 fun _ => hR.pure _

theorem readSize (width : BinaryWidth) : R (Binary.readSize width) (Binary.readSize width) := by
  cases width with
  | binary8 => exact hR.map _ hR.readU8
  | binary20 =>
    exact hR.map _ (hR.bind hR.readU8 fun _ => hR.bind hR.readU8 fun _ =>
      hR.bind hR.readU8 fun _ => hR.pure _)
  | binary32 =>
    exact hR.map _ (hR.bind hR.readU8 fun _ => hR.bind hR.readU8 fun _ =>
      hR.bind hR.readU8 fun _ => hR.bind hR.readU8 fun _ => hR.pure _)

theorem readListSize (tag : UInt8) : R (Binary.readListSize tag) (Binary.readListSize tag) := by
  unfold Binary.readListSize
  cases Tag.ofByte tag with
  | listEmpty => exact hR.pure _
  | list8 => exact hR.map _ hR.readU8
  | list16 => exact hR.map _ hR.readU16Be
  | _ => exact hR.fail _

theorem readString (len : Nat) : R (Binary.readString len) (Binary.readString len) := by
  refine hR.bind (hR.readBytes len) fun bytes => ?_
  split
  · exact hR.pure _
  · exact hR.fail _

theorem reportNibbles (byte : UInt8) : R (Binary.reportNibbles byte) (Binary.reportNibbles byte) := by
  have hunpack (value : UInt8) : R (unpackNibble value) (unpackNibble value) := by
    unfold unpackNibble
    repeat' split
    all_goals first | exact hR.pure _ | exact hR.fail _
  exact hR.bind (hunpack _) fun _ => hR.bind (hunpack _) fun _ => hR.pure _

theorem decodePackedNibble (packed : Bytes) :
    R (Binary.decodePackedNibble packed) (Binary.decodePackedNibble packed) := by
  induction packed with
  | nil => exact hR.pure _
  | cons byte packed ih =>
    unfold Binary.decodePackedNibble
    split
    · exact hR.bind (hR.reportNibbles byte) fun _ => hR.bind ih fun _ => hR.pure _
    · exact hR.bind ih fun _ => hR.pure _

theorem readPacked (packing : Packing) : R (Binary.readPacked packing) (Binary.readPacked packing) := by
  refine hR.bind hR.readU8 fun lenByte => ?_
  dsimp only
  split
  · exact hR.pure _
  · refine hR.bind (hR.readBytes _) fun data => hR.bind ?_ fun buf => ?_
    · cases packing with
      | hex => exact hR.pure _
      | nibble => exact hR.decodePackedNibble data
    · unfold packedString
      split
      · exact hR.pure _
      · exact hR.throw (by simp)

theorem skipPacked (packing : Packing) : R (Binary.skipPacked packing) (Binary.skipPacked packing) := by
  refine hR.bind hR.readU8 fun lenByte => hR.bind (hR.readBytes _) fun data => ?_
  split
  · exact hR.reportNibbles _
  · exact hR.pure _

theorem readDoubleToken (T : TokenTables) (tag dict : UInt8) :
    R (Binary.readDoubleToken T tag dict) (Binary.readDoubleToken T tag dict) := by
  refine hR.bind hR.readU8 fun index => ?_
  split
  · exact hR.pure _
  · exact hR.fail _

theorem readSingleToken (T : TokenTables) (tag : UInt8) :
    R (Binary.readSingleToken T tag) (Binary.readSingleToken T tag) := by
  unfold Binary.readSingleToken
  split
  · exact hR.pure _
  · exact hR.fail _

theorem required {p q : Dec (Option String)} (error : BinaryError) (hp : R p q) :
    R (Binary.required error p) (Binary.required error q) := by
  refine hR.bind hp fun s => ?_
  cases s with
  | none => exact hR.fail error
  | some s => exact hR.pure s

variable {T : TokenTables} {d e : Decoder}

theorem readJidForm (hvalue : R d.readValueAsString e.readValueAsString) (form : JidForm) :
    R (Binary.readJidForm d form) (Binary.readJidForm e form) := by
  have huser := hR.required .invalidNode hvalue
  cases form with
  | pair =>
    refine hR.bind hvalue fun user => hR.bind hvalue fun server => ?_
    dsimp only
    split
    · exact hR.pure _
    · exact hR.fail _
  | ad =>
    refine hR.bind hR.readU8 fun agent => hR.bind hR.readU8 fun device =>
      hR.bind huser fun user => ?_
    split
    · exact hR.pure _
    · exact hR.fail _
  | interop =>
    refine hR.bind huser fun user => hR.bind hR.readU16Be fun device =>
      hR.bind hR.readU16Be fun integrator => hR.bind hvalue fun server => ?_
    dsimp only
    split
    · exact hR.fail _
    · exact hR.pure _
  | fb =>
    refine hR.bind huser fun user => hR.bind hR.readU16Be fun device =>
      hR.bind hvalue fun server => ?_
    dsimp only
    split
    · exact hR.fail _
    · exact hR.pure _

theorem readValueAsStringFromTag (hjid : ∀ form, R (d.readJid form) (e.readJid form)) (tag : UInt8) :
    R (Binary.readValueAsStringFromTag T d tag) (Binary.readValueAsStringFromTag T e tag) := by
  unfold Binary.readValueAsStringFromTag
  cases Tag.ofByte tag with
  | listEmpty => exact hR.pure _
  | binary width => exact hR.bind (hR.readSize width) fun size => hR.map _ (hR.readString size)
  | jid form => exact hR.map _ (hjid form)
  | packed packing => exact hR.map _ (hR.readPacked packing)
  | dictionary dict => exact hR.map _ (hR.readDoubleToken T tag dict)
  | list8 | list16 | single => exact hR.map _ (hR.readSingleToken T tag)

theorem skipValueFromTag (hjid : ∀ form, R (d.readJid form) (e.readJid form)) (tag : UInt8) :
    R (Binary.skipValueFromTag T d tag) (Binary.skipValueFromTag T e tag) := by
  unfold Binary.skipValueFromTag
  cases Tag.ofByte tag with
  | listEmpty => exact hR.pure _
  | binary width =>
    exact hR.bind (hR.readSize width) fun size =>
      hR.bind (hR.readString size) fun _ => hR.pure _
  | jid form => exact hR.bind (hjid form) fun _ => hR.pure _
  | packed packing => exact hR.skipPacked packing
  | dictionary dict =>
    refine hR.bind hR.readU8 fun index => ?_
    split
    · exact hR.pure _
    · exact hR.fail _
  | list8 | list16 | single =>
    dsimp only
    split
    · exact hR.pure _
    · exact hR.fail _

theorem skipScalarContent (tag : UInt8) (hskip : R (d.skipValueFromTag tag) (e.skipValueFromTag tag)) :
    R (Binary.skipScalarContent d tag) (Binary.skipScalarContent e tag) := by
  unfold Binary.skipScalarContent
  cases Tag.ofByte tag with
  | binary width =>
    exact hR.bind (hR.readSize width) fun len => hR.bind (hR.readBytes len) fun _ => hR.pure _
  | _ => exact hskip

theorem readContentFromTag (hjid : ∀ form, R (d.readJid form) (e.readJid form)) (tag : UInt8)
    (depth : Nat) (hnode : R (d.readNodeRefAt (depth + 1)) (e.readNodeRefAt (depth + 1))) :
    R (Binary.readContentFromTag T d tag depth) (Binary.readContentFromTag T e tag depth) := by
  unfold Binary.readContentFromTag
  cases Tag.ofByte tag with
  | listEmpty => exact hR.pure _
  | list8 | list16 =>
    exact hR.bind (hR.readListSize tag) fun size => hR.bind (hR.times hnode size) fun _ => hR.pure _
  | binary width =>
    exact hR.bind (hR.readSize width) fun len => hR.bind (hR.readBytes len) fun _ => hR.pure _
  | jid | packed | dictionary | single =>
    refine hR.bind (hR.readValueAsStringFromTag hjid tag) fun s => ?_
    cases s <;> exact hR.pure _

theorem readAttribute (hkey : R d.readValueAsString e.readValueAsString)
    (hvalue : R d.readValue e.readValue) : R (Binary.readAttribute d) (Binary.readAttribute e) :=
  hR.bind (hR.required _ hkey) fun _ => hR.bind hvalue fun _ => hR.pure _

variable (h : ∀ method, R (d method) (e method))
include h

theorem readValue : R (Binary.readValue T d) (Binary.readValue T e) := by
  refine hR.bind hR.readU8 fun tag => ?_
  cases Tag.ofByte tag with
  | listEmpty => exact hR.pure _
  | binary width => exact hR.bind (hR.readSize width) fun size => hR.map _ (hR.readString size)
  | jid form => exact hR.map _ (h (.readJid form))
  | packed packing => exact hR.map _ (hR.readPacked packing)
  | dictionary dict => exact hR.map _ (hR.readDoubleToken T tag dict)
  | list8 | list16 | single => exact hR.map _ (hR.readSingleToken T tag)

theorem readNodeOpen : R (Binary.readNodeOpen T d) (Binary.readNodeOpen T e) := by
  have hcontent : R (readOpenContent T d) (readOpenContent T e) := by
    refine hR.bind hR.readU8 fun tag => ?_
    cases Tag.ofByte tag with
    | listEmpty => exact hR.pure _
    | list8 | list16 => exact hR.map _ (hR.readListSize tag)
    | binary | jid | packed | dictionary | single =>
      refine hR.bind (hR.readContentFromTag (fun form => h (.readJid form)) tag 0
        (h (.readNodeRefAt 1))) fun content => ?_
      cases content <;> exact hR.pure _
  refine hR.bind hR.readU8 fun tag => hR.bind (hR.readListSize tag) fun listSize => ?_
  split
  · exact hR.fail _
  · refine hR.bind (hR.required _ (h .readValueAsString)) fun name =>
      hR.bind (hR.times (hR.readAttribute (h .readValueAsString) (h .readValue)) _) fun attrs =>
        hR.bind ?_ fun _ => hR.pure _
    split
    · exact hcontent
    · exact hR.pure _

theorem readNodeRefAt (depth : Nat) :
    R (Binary.readNodeRefAt T d depth) (Binary.readNodeRefAt T e depth) := by
  unfold Binary.readNodeRefAt
  split
  · exact hR.fail _
  · refine hR.bind (hR.readNodeOpen h) fun head => ?_
    cases head.content with
    | none | scalar => exact hR.pure _
    | children count =>
      exact hR.bind (hR.times (h (.readNodeRefAt (depth + 1))) count) fun _ => hR.pure _

theorem skipNodeOpen : R (Binary.skipNodeOpen d) (Binary.skipNodeOpen e) := by
  have hattr : R (skipAttribute d) (skipAttribute e) := by
    refine hR.bind hR.readU8 fun key => ?_
    split
    · exact hR.fail _
    · exact hR.bind (h (.skipValueFromTag key)) fun _ => h .skipValue
  have hcontent : R (skipOpenContent d) (skipOpenContent e) := by
    refine hR.bind hR.readU8 fun tag => ?_
    cases Tag.ofByte tag with
    | listEmpty => exact hR.pure _
    | list8 | list16 => exact hR.readListSize tag
    | binary | jid | packed | dictionary | single =>
      exact hR.bind (h (.skipScalarContent tag)) fun _ => hR.pure _
  refine hR.bind hR.readU8 fun tag => hR.bind (hR.readListSize tag) fun listSize => ?_
  split
  · exact hR.fail _
  · refine hR.bind hR.readU8 fun tagToken => ?_
    split
    · exact hR.fail _
    · refine hR.bind (h (.skipValueFromTag tagToken)) fun _ => hR.bind (hR.repeated hattr _) fun _ => ?_
      split
      · exact hR.pure _
      · exact hcontent

/-- Running every body once keeps the relation. -/
theorem step (method : Method) : R (d.step T method) (e.step T method) := by
  cases method with
  | readJid form => exact hR.readJidForm (h .readValueAsString) form
  | readValueAsString =>
    exact hR.bind hR.readU8 fun tag => hR.readValueAsStringFromTag (fun form => h (.readJid form)) tag
  | readValue => exact hR.readValue h
  | readNodeRefAt depth => exact hR.readNodeRefAt h depth
  | skipValueFromTag tag => exact hR.skipValueFromTag (fun form => h (.readJid form)) tag
  | skipValue => exact hR.bind hR.readU8 fun tag => h (.skipValueFromTag tag)
  | skipScalarContent tag => exact hR.skipScalarContent tag (h (.skipValueFromTag tag))
  | skipNodeOpen => exact hR.skipNodeOpen h
  | skipNodeAt depth =>
    change R (Binary.skipNodeAt d depth) (Binary.skipNodeAt e depth)
    unfold Binary.skipNodeAt
    split
    · exact hR.fail _
    · exact hR.bind (h .skipNodeOpen) fun children => hR.repeated (h (.skipNodeAt (depth + 1))) children

end Compositional

/-! ## A larger stack changes nothing else -/

/-- Every method of `e` does what the method of `d` does, unless that one ran
out of stack. -/
def Decoder.Extends (d e : Decoder) : Prop :=
  ∀ method, ListParser.Extends .stackOverflow (d method) (e method)

theorem grows : Compositional (ListParser.Extends .stackOverflow) where
  pure _ := .refl _
  throw _ := .refl _
  bind := Extends.bind
  readU8 := .refl _
  readBytes _ := .refl _

/-- One more call on the stack does not change a run that fits. -/
theorem decoder_extends (T : TokenTables) (stack : Nat) :
    (decoder T stack).Extends (decoder T (stack + 1)) := by
  induction stack with
  | zero => exact fun _ => extends_throw _
  | succ stack ih => exact grows.step ih

/-! ## How much stack is enough -/

/-- With `n` bytes the parser does not run out of stack, and it uses `c` of them. -/
abbrev Fits {α : Type} (n c : Nat) (p : Dec α) : Prop := Bounded .stackOverflow n c p

section Primitives

variable {α : Type} {n : Nat}

theorem bounded_fail (n c : Nat) (e : BinaryError) : Fits n c (fail e : Dec α) :=
  bounded_throw n c (by simp)

theorem bounded_readU8 (n : Nat) : Fits n 1 readU8 := by
  intro input _
  cases input with
  | nil => simp [readU8]
  | cons b rest => simp [readU8]

/-- After a byte was read, one byte less is left. -/
theorem bounded_readU8_bind {c : Nat} {f : UInt8 → Dec α}
    (h : ∀ m, n = m + 1 → ∀ b, Fits m c (f b)) : Fits n (1 + c) (readU8 >>= f) :=
  (bounded_readU8 n).bind h

theorem fits_readU8_bind {f : UInt8 → Dec α} (h : ∀ m, n = m + 1 → ∀ b, Fits m 0 (f b)) :
    Fits n 0 (readU8 >>= f) :=
  (bounded_readU8_bind h).mono (Nat.le_refl n) (Nat.zero_le _)

/-- The readers that leave the rest of the bytes to the next one. -/
theorem fits (n : Nat) : Compositional (fun p _ => Fits n 0 p) where
  pure := bounded_pure n
  throw := bounded_throw n 0
  bind := Bounded.bind_zero
  readU8 := (bounded_readU8 n).mono (Nat.le_refl n) (Nat.zero_le _)
  readBytes len := by
    intro input _
    unfold readBytes
    split
    · refine ⟨by simp, fun a rest h => ?_⟩
      cases h
      simp
    · simp

theorem bounded_readU16Be (n : Nat) : Fits n 1 readU16Be :=
  bounded_readU8_bind fun m _ _ => (fits m).readU8.bind_zero fun _ => bounded_pure _ _

/-- A list header that announces elements takes a byte after the tag. -/
theorem bounded_readListSize_bind {c k : Nat} {tag : UInt8} {f : Nat → Dec α} (hc : c ≤ 1 + k)
    (hzero : Fits n c (f 0)) (hsucc : ∀ m, n = m + 1 → ∀ size, Fits m k (f size)) :
    Fits n c (readListSize tag >>= f) := by
  unfold readListSize
  cases Tag.ofByte tag with
  | listEmpty => simpa using hzero
  | list8 => exact (((bounded_readU8 n).map _).bind hsucc).mono (Nat.le_refl n) hc
  | list16 => exact (((bounded_readU16Be n).map _).bind hsucc).mono (Nat.le_refl n) hc
  | _ => exact bounded_fail n c _

end Primitives

/-- Calls that are enough for a method that is given `n` bytes. -/
def Method.need : Method → Nat → Nat
  | readJid _, n => 2 * n + 2
  | readValueAsString, n => 2 * n + 1
  | readValue, n => 2 * n + 1
  | readNodeRefAt _, n => max 1 (2 * n - 2)
  | skipValueFromTag _, n => 2 * n + 3
  | skipValue, n => 2 * n + 2
  | skipScalarContent _, n => 2 * n + 4
  | skipNodeOpen, n => max 1 (2 * n - 2)
  | skipNodeAt _, n => max 2 (2 * n - 1)

/-- Bytes that a method uses at least: a node's head has three. -/
def Method.uses : Method → Nat
  | skipNodeOpen => 3
  | _ => 0

/-- The methods of `d` fit on a stack with room for `stack` calls. -/
def Decoder.Room (d : Decoder) (stack : Nat) : Prop :=
  ∀ method n, method.need n ≤ stack → Bounded .stackOverflow n method.uses (d method)

section Room

variable {T : TokenTables} {d : Decoder} {stack n : Nat} (h : d.Room stack)
include h

theorem Decoder.Room.readJid (n : Nat) (form : JidForm)
    (hn : 2 * n + 2 ≤ stack) : Fits n 0 (d.readJid form) := h _ n hn

theorem Decoder.Room.readValueAsString (n : Nat) (hn : 2 * n + 1 ≤ stack) :
    Fits n 0 d.readValueAsString := h .readValueAsString n hn

theorem Decoder.Room.readValue (n : Nat) (hn : 2 * n + 1 ≤ stack) :
    Fits n 0 d.readValue := h .readValue n hn

theorem Decoder.Room.readNodeRefAt (n depth : Nat) (hstack : 1 ≤ stack)
    (hn : 2 * n ≤ stack + 2) : Fits n 0 (d.readNodeRefAt depth) :=
  h (.readNodeRefAt depth) n (max_le hstack (by omega))

theorem Decoder.Room.skipValueFromTag (n : Nat) (tag : UInt8)
    (hn : 2 * n + 3 ≤ stack) : Fits n 0 (d.skipValueFromTag tag) := h _ n hn

theorem Decoder.Room.skipValue (n : Nat) (hn : 2 * n + 2 ≤ stack) :
    Fits n 0 d.skipValue := h .skipValue n hn

theorem Decoder.Room.skipScalarContent (n : Nat) (tag : UInt8)
    (hn : 2 * n + 4 ≤ stack) : Fits n 0 (d.skipScalarContent tag) := h _ n hn

theorem Decoder.Room.skipNodeOpen (n : Nat) (hstack : 1 ≤ stack)
    (hn : 2 * n ≤ stack + 2) : Fits n 3 d.skipNodeOpen :=
  h .skipNodeOpen n (max_le hstack (by omega))

theorem Decoder.Room.skipNodeAt (n depth : Nat) (hstack : 2 ≤ stack)
    (hn : 2 * n ≤ stack + 1) : Fits n 0 (d.skipNodeAt depth) :=
  h (.skipNodeAt depth) n (max_le hstack (by omega))

theorem bounded_readValue (hn : 2 * n ≤ stack) :
    Fits n 0 (readValue T d) := by
  refine fits_readU8_bind fun m hm tag => ?_
  cases Tag.ofByte tag with
  | listEmpty => exact bounded_pure m _
  | binary width => exact ((fits m).readSize width).bind_zero fun size => ((fits m).readString size).map _
  | jid form => exact (h.readJid m form (by omega)).map _
  | packed packing => exact ((fits m).readPacked packing).map _
  | dictionary dict => exact ((fits m).readDoubleToken T tag dict).map _
  | list8 | list16 | single => exact ((fits m).readSingleToken T tag).map _

theorem bounded_readValueAsString (hn : 2 * n ≤ stack) :
    Fits n 0 (readValueAsString T d) :=
  fits_readU8_bind fun m _ tag =>
    (fits m).readValueAsStringFromTag (e := d) (fun form => h.readJid m form (by omega)) tag

theorem bounded_readAttributes (size : Nat) (hn : 2 * n + 1 ≤ stack) :
    Fits n 0 (readAttributes d size) := by
  exact (fits n).times (q := readAttribute d)
    ((fits n).readAttribute (e := d) (h.readValueAsString n hn) (h.readValue n hn)) size

theorem bounded_readOpenContent (hn : 2 * n ≤ stack) :
    Fits n 0 (readOpenContent T d) := by
  refine fits_readU8_bind fun m hm tag => ?_
  have hscalar : Fits m 0 (readContentFromTag T d tag 0) :=
    (fits m).readContentFromTag (e := d) (fun form => h.readJid m form (by omega)) tag 0
      (h.readNodeRefAt m 1 (by omega) (by omega))
  cases Tag.ofByte tag with
  | listEmpty => exact bounded_pure m _
  | list8 | list16 => exact ((fits m).readListSize tag).map _
  | binary | jid | packed | dictionary | single =>
    refine hscalar.bind_zero fun scalar => ?_
    cases scalar <;> exact bounded_pure m _

theorem bounded_readNodeOpen (hn : 2 * n ≤ stack + 3) :
    Fits n 2 (readNodeOpen T d) := by
  refine bounded_readU8_bind fun m hm tag =>
    bounded_readListSize_bind (k := 0) (Nat.le_refl 1) (bounded_fail m 1 _) fun k hk listSize => ?_
  split
  · exact bounded_fail k 0 _
  · refine ((fits k).required (q := d.readValueAsString) _ (h.readValueAsString k (by omega))).bind_zero
      fun name =>
      (bounded_readAttributes h _ (by omega)).bind_zero fun attrs =>
        Bounded.bind_zero ?_ fun content => bounded_pure k _
    split
    · exact bounded_readOpenContent h (by omega)
    · exact bounded_pure k _

theorem bounded_readNodeRefAt (depth : Nat) (hn : 2 * n ≤ stack + 3) :
    Fits n 0 (readNodeRefAt T d depth) := by
  unfold readNodeRefAt
  split
  · exact bounded_fail n 0 _
  · refine ((bounded_readNodeOpen h hn).bind (k := 0) fun m hm head => ?_).mono (Nat.le_refl n)
      (Nat.zero_le _)
    cases head.content with
    | none | scalar => exact bounded_pure m _
    | children count =>
      exact ((fits m).times (q := d.readNodeRefAt (depth + 1))
        (h.readNodeRefAt m (depth + 1) (by omega) (by omega)) count).bind_zero
          fun nodes => bounded_pure m _

theorem bounded_skipAttribute (hn : 2 * n + 1 ≤ stack) :
    Fits n 0 (skipAttribute d) := by
  refine fits_readU8_bind fun m hm key => ?_
  split
  · exact bounded_fail m 0 _
  · exact (h.skipValueFromTag m key (by omega)).bind_zero fun _ => h.skipValue m (by omega)

theorem bounded_skipOpenContent (hn : 2 * n + 2 ≤ stack) :
    Fits n 0 (skipOpenContent d) := by
  refine fits_readU8_bind fun m hm tag => ?_
  cases Tag.ofByte tag with
  | listEmpty => exact bounded_pure m _
  | list8 | list16 => exact (fits m).readListSize tag
  | binary | jid | packed | dictionary | single =>
    exact (h.skipScalarContent m tag (by omega)).bind_zero fun _ => bounded_pure m _

theorem bounded_skipNodeOpen (hn : 2 * n ≤ stack + 3) :
    Fits n 3 (skipNodeOpen d) := by
  refine bounded_readU8_bind fun m hm tag =>
    bounded_readListSize_bind (k := 1) (Nat.le_refl 2) (bounded_fail m 2 _) fun k hk listSize => ?_
  split
  · exact bounded_fail k 1 _
  · refine bounded_readU8_bind (c := 0) fun j hj tagToken => ?_
    split
    · exact bounded_fail j 0 _
    · refine (h.skipValueFromTag j tagToken (by omega)).bind_zero fun _ =>
        ((fits j).repeated (q := skipAttribute d) (bounded_skipAttribute h (by omega)) _).bind_zero
          fun _ => ?_
      split
      · exact bounded_pure j _
      · exact bounded_skipOpenContent h (by omega)

theorem bounded_skipNodeAt (depth : Nat) (hstack : 1 ≤ stack)
    (hn : 2 * n ≤ stack + 2) : Fits n 0 (skipNodeAt d depth) := by
  unfold skipNodeAt
  split
  · exact bounded_fail n 0 _
  · refine ((h.skipNodeOpen n hstack hn).bind (k := 0) fun m hm children => ?_).mono
      (Nat.le_refl n) (Nat.zero_le _)
    exact (fits m).repeated (q := d.skipNodeAt (depth + 1))
      (h.skipNodeAt m (depth + 1) (by omega) (by omega)) children

/-- Each method takes one call off the stack. -/
theorem room_step : (d.step T).Room (stack + 1) := by
  intro method n hn
  cases method with
  | readJid form =>
    simp only [Method.need] at hn
    exact (fits n).readJidForm (e := d) (h.readValueAsString n (by omega)) form
  | readValueAsString =>
    simp only [Method.need] at hn
    exact bounded_readValueAsString h (by omega)
  | readValue =>
    simp only [Method.need] at hn
    exact bounded_readValue h (by omega)
  | readNodeRefAt depth =>
    simp only [Method.need] at hn
    exact bounded_readNodeRefAt h depth (by omega)
  | skipValueFromTag tag =>
    simp only [Method.need] at hn
    exact (fits n).skipValueFromTag (e := d) (fun form => h.readJid n form (by omega)) tag
  | skipValue =>
    simp only [Method.need] at hn
    exact fits_readU8_bind fun m hm tag => h.skipValueFromTag m tag (by omega)
  | skipScalarContent tag =>
    simp only [Method.need] at hn
    exact (fits n).skipScalarContent (e := d) tag (h.skipValueFromTag n tag (by omega))
  | skipNodeOpen =>
    simp only [Method.need] at hn
    exact bounded_skipNodeOpen h (by omega)
  | skipNodeAt depth =>
    simp only [Method.need] at hn
    exact bounded_skipNodeAt h depth (by omega) (by omega)

end Room

theorem Method.need_pos (method : Method) (n : Nat) : 0 < method.need n := by
  cases method <;> simp only [Method.need] <;> omega

/-- `Method.need` is enough on every stack. -/
theorem room_decoder (T : TokenTables) (stack : Nat) : (decoder T stack).Room stack := by
  induction stack with
  | zero => exact fun method n hn => absurd hn (Nat.not_le.mpr (method.need_pos n))
  | succ stack ih => exact room_step ih

/-! ## Stack enough for everything -/

/-- The decoder that never runs out of stack. -/
def fullDecoder (T : TokenTables) : Decoder := fun method =>
  ample method.need fun stack => decoder T stack method

section Full

variable (T : TokenTables)

theorem bounded_need (method : Method) (n : Nat) :
    Bounded .stackOverflow n 0 (decoder T (method.need n) method) :=
  (room_decoder T (method.need n) method n (Nat.le_refl _)).mono (Nat.le_refl n) (Nat.zero_le _)

/-- A run that fits on its stack is a run of the full decoder. -/
theorem decoder_extends_full (stack : Nat) : (decoder T stack).Extends (fullDecoder T) :=
  fun method => extends_ample (fun stack => decoder_extends T stack method)
    (bounded_need T method) stack

/-- The full decoder satisfies the recursive equations of the source. -/
theorem fullDecoder_eq_step : fullDecoder T = (fullDecoder T).step T := by
  funext method
  refine ample_eq (bounded_need T method) fun n => ?_
  obtain ⟨stack, hstack⟩ := Nat.exists_eq_succ_of_ne_zero (method.need_pos n).ne'
  rw [hstack]
  exact grows.step (decoder_extends_full T stack) method

theorem full_readJid (form : JidForm) :
    (fullDecoder T).readJid form = readJidForm (fullDecoder T) form :=
  congrFun (fullDecoder_eq_step T) (.readJid form)

theorem full_readValueAsString :
    (fullDecoder T).readValueAsString = readValueAsString T (fullDecoder T) :=
  congrFun (fullDecoder_eq_step T) .readValueAsString

theorem full_readValue : (fullDecoder T).readValue = readValue T (fullDecoder T) :=
  congrFun (fullDecoder_eq_step T) .readValue

theorem full_readNodeRefAt (depth : Nat) :
    (fullDecoder T).readNodeRefAt depth = readNodeRefAt T (fullDecoder T) depth :=
  congrFun (fullDecoder_eq_step T) (.readNodeRefAt depth)

theorem full_skipValueFromTag (tag : UInt8) :
    (fullDecoder T).skipValueFromTag tag = skipValueFromTag T (fullDecoder T) tag :=
  congrFun (fullDecoder_eq_step T) (.skipValueFromTag tag)

theorem full_skipValue : (fullDecoder T).skipValue = skipValue (fullDecoder T) :=
  congrFun (fullDecoder_eq_step T) .skipValue

theorem full_skipScalarContent (tag : UInt8) :
    (fullDecoder T).skipScalarContent tag = skipScalarContent (fullDecoder T) tag :=
  congrFun (fullDecoder_eq_step T) (.skipScalarContent tag)

theorem full_skipNodeOpen : (fullDecoder T).skipNodeOpen = skipNodeOpen (fullDecoder T) :=
  congrFun (fullDecoder_eq_step T) .skipNodeOpen

theorem full_skipNodeAt (depth : Nat) :
    (fullDecoder T).skipNodeAt depth = skipNodeAt (fullDecoder T) depth :=
  congrFun (fullDecoder_eq_step T) (.skipNodeAt depth)

end Full

end WaCore.Binary
