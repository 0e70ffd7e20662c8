import WaCore.Lib.Parser
import WaCore.Binary.Node

/-!
# The node decoder

The readers of `decoder.rs` and their `skip_*` twins.  The source's decoder is
a slice with a position; here a reader takes the bytes after the position and
gives back what it left of them (`Dec`).

The methods of the decoder call each other, a JID token holding values and a
list holding nodes.  A `Decoder` is that set of methods, and each method body
below is written against it, as the source writes it against `self`.  `Decoder.step`
runs every body once, so `decoder T stack` is the decoder on a thread whose stack
has room for `stack` calls of these methods: a call past the end of the stack is the
fault `stackOverflow`.  The helpers
that the source inlines or that do not recurse by themselves (`read_u8`,
`read_packed`, `read_attributes`, ..) are not counted as calls.
-/

namespace WaCore.Binary

open Utf8 ListParser

/-- A reader of the decoder. -/
abbrev Dec := ListParser UInt8 Fault

/-- Return a `BinaryError`. -/
def fail {α : Type} (e : BinaryError) : Dec α := throw (.error e)

/-- `let Some(s) = p()? else { return Err(e) }`. -/
def required (e : BinaryError) (p : Dec (Option String)) : Dec String := do
  match ← p with
  | none => fail e
  | some s => pure s

/-! ## Bytes and numbers -/

def readU8 : Dec UInt8
  | [] => .error (.error .unexpectedEof)
  | b :: rest => .ok (b, rest)

theorem readU8_bind {α : Type} (f : UInt8 → Dec α) (b : UInt8) (rest : Bytes) :
    (readU8 >>= f) (b :: rest) = f b rest := rfl

def readU16Be : Dec UInt16 := do
  let hi ← readU8
  let lo ← readU8
  pure (hi.toUInt16 <<< 8 ||| lo.toUInt16)

def readU20Be : Dec UInt32 := do
  let a ← readU8
  let b ← readU8
  let c ← readU8
  pure ((a.toUInt32 &&& 0x0F) <<< 16 ||| b.toUInt32 <<< 8 ||| c.toUInt32)

def readU32Be : Dec UInt32 := do
  let a ← readU8
  let b ← readU8
  let c ← readU8
  let d ← readU8
  pure (a.toUInt32 <<< 24 ||| b.toUInt32 <<< 16 ||| c.toUInt32 <<< 8 ||| d.toUInt32)

def readBytes (len : Nat) : Dec Bytes := fun bs =>
  if len ≤ bs.length then .ok (bs.take len, bs.drop len) else .error (.error .unexpectedEof)

def readString (len : Nat) : Dec String := do
  let bytes ← readBytes len
  match fromUtf8 bytes with
  | .ok s => pure s
  | .error e => fail (.invalidUtf8 e)

/-- The length field after a `BINARY_8`, `BINARY_20` or `BINARY_32` tag. -/
def readSize : BinaryWidth → Dec Nat
  | .binary8 => UInt8.toNat <$> readU8
  | .binary20 => UInt32.toNat <$> readU20Be
  | .binary32 => UInt32.toNat <$> readU32Be

def readListSize (tag : UInt8) : Dec Nat :=
  match Tag.ofByte tag with
  | .listEmpty => pure 0
  | .list8 => UInt8.toNat <$> readU8
  | .list16 => UInt16.toNat <$> readU16Be
  | _ => fail (.invalidToken tag)

/-! ## Packed strings -/

/-- A hexadecimal digit, upper case. -/
def hexGlyph (nibble : UInt8) : UInt8 := if nibble < 10 then 48 + nibble else 55 + nibble

/-- A row of `HEX_PAIRS`: the two characters of a byte. -/
def hexPair (byte : UInt8) : Bytes := [hexGlyph (byte >>> 4), hexGlyph (byte &&& 0x0F)]

def NIBBLE_INVALID : UInt8 := 0xFF

/-- The character of a nibble: a digit, `-` or `.`; `15` pads an odd string. -/
def nibbleGlyph (nibble : UInt8) : UInt8 :=
  if nibble ≤ 9 then 48 + nibble
  else if nibble = 10 then 45
  else if nibble = 11 then 46
  else if nibble = 15 then 0
  else NIBBLE_INVALID

/-- A row of `NIBBLE_PAIRS`. -/
def nibblePair (byte : UInt8) : Bytes := [nibbleGlyph (byte >>> 4), nibbleGlyph (byte &&& 0x0F)]

def unpackNibble (value : UInt8) : Dec UInt8 :=
  if value ≤ 9 then pure (48 + value)
  else if value = 10 then pure 45
  else if value = 11 then pure 46
  else if value = 15 then pure 0
  else fail (.invalidToken value)

/-- The byte holds a nibble that encodes no character. -/
def hasInvalidNibble (byte : UInt8) : Bool := NIBBLE_INVALID ∈ nibblePair byte

/-- Report the bad half of a byte, in the order the byte carries them. -/
def reportNibbles (byte : UInt8) : Dec Unit := do
  let _ ← unpackNibble ((byte &&& 0xF0) >>> 4)
  let _ ← unpackNibble (byte &&& 0x0F)
  pure ()

def decodePackedHex (packedData : Bytes) : Bytes := packedData.flatMap hexPair

def decodePackedNibble : Bytes → Dec Bytes
  | [] => pure []
  | byte :: packedData => do
    if hasInvalidNibble byte then reportNibbles byte
    let tail ← decodePackedNibble packedData
    pure (nibblePair byte ++ tail)

/-- The match on the tag inside `read_packed`. -/
def decodePacked : Packing → Bytes → Dec Bytes
  | .hex, packedData => pure (decodePackedHex packedData)
  | .nibble, packedData => decodePackedNibble packedData

/-- The end of `read_packed`: an odd string has a pad to drop. -/
def packedString (isHalfByte : Bool) (buf : Bytes) : Dec String :=
  match fromUtf8 (if isHalfByte then buf.dropLast else buf) with
  | .ok s => pure s
  | .error _ => throw (.panic "packed decode produced non-ASCII")

def readPacked (packing : Packing) : Dec String := do
  let packedLenByte ← readU8
  let isHalfByte : Bool := packedLenByte &&& 0x80 ≠ 0
  let len := (packedLenByte &&& 0x7F).toNat
  if len = 0 then
    pure ""
  else
    let packedData ← readBytes len
    let buf ← decodePacked packing packedData
    packedString isHalfByte buf

/-! ## The decoder's methods -/

/-- What follows a node's attributes on the wire. -/
inductive OpenContent where
  | none
  | children (count : Nat)
  | scalar (content : NodeContentRef)

/-- A node's head, its children left in the input. -/
structure NodeOpen where
  tag : String
  attrs : List (String × ValueRef)
  content : OpenContent

/-- The methods that call each other, with their arguments. -/
inductive Method where
  | readJid (form : JidForm)
  | readValueAsString
  | readValue
  | readNodeRefAt (depth : Nat)
  | skipValueFromTag (tag : UInt8)
  | skipValue
  | skipScalarContent (tag : UInt8)
  | skipNodeOpen
  | skipNodeAt (depth : Nat)

/-- What a method returns. -/
@[reducible] def Method.Result : Method → Type
  | readJid _ => Jid
  | readValueAsString => Option String
  | readValue => Option ValueRef
  | readNodeRefAt _ => NodeRef
  | skipValueFromTag _ => Unit
  | skipValue => Unit
  | skipScalarContent _ => Unit
  | skipNodeOpen => Nat
  | skipNodeAt _ => Unit

/-- A decoder: its methods, as their callers see them. -/
def Decoder := (method : Method) → Dec method.Result

namespace Decoder

variable (self : Decoder)

def readJid (form : JidForm) : Dec Jid := self (.readJid form)
def readValueAsString : Dec (Option String) := self .readValueAsString
def readValue : Dec (Option ValueRef) := self .readValue
def readNodeRefAt (depth : Nat) : Dec NodeRef := self (.readNodeRefAt depth)
def skipValueFromTag (tag : UInt8) : Dec Unit := self (.skipValueFromTag tag)
def skipValue : Dec Unit := self .skipValue
def skipScalarContent (tag : UInt8) : Dec Unit := self (.skipScalarContent tag)
def skipNodeOpen : Dec Nat := self .skipNodeOpen
def skipNodeAt (depth : Nat) : Dec Unit := self (.skipNodeAt depth)

end Decoder

section Methods

variable (T : TokenTables) (self : Decoder)

/-! ### JIDs -/

def readJidPair : Dec Jid := do
  let user := (← self.readValueAsString).getD ""
  let serverStr := (← self.readValueAsString).getD ""
  match Server.parseKnown (ofString serverStr) with
  | some server => pure ⟨user, server, 0, 0, 0⟩
  | none => fail (.attrParse ("JID_PAIR unknown server: " ++ serverStr))

/-- The server that the domain byte of an `AD_JID` stands for. -/
def adServer (agent : UInt8) : Option Server :=
  if agent = 0 then some .pn
  else if agent = 1 then some .lid
  else if agent = 128 then some .hosted
  else if agent = 129 then some .hostedLid
  else if agent &&& 128 ≠ 0 ∧ agent &&& 1 = 0 then some .hosted
  else none

def readAdJid : Dec Jid := do
  let agent ← readU8
  let device ← readU8
  let user ← required .invalidNode self.readValueAsString
  match adServer agent with
  | some server => pure ⟨user, server, 0, device.toUInt16, 0⟩
  | none =>
    fail (.attrParse ("read_ad_jid - Invalid domain type encoding " ++ toString agent.toNat))

def readInteropJid : Dec Jid := do
  let user ← required .invalidNode self.readValueAsString
  let device ← readU16Be
  let integrator ← readU16Be
  let serverStr := (← self.readValueAsString).getD ""
  if serverStr ≠ Server.interop.asStr then
    fail .invalidNode
  else
    pure ⟨user, .interop, 0, device, integrator⟩

def readFbJid : Dec Jid := do
  let user ← required .invalidNode self.readValueAsString
  let device ← readU16Be
  let serverStr := (← self.readValueAsString).getD ""
  if serverStr ≠ Server.messenger.asStr then
    fail .invalidNode
  else
    pure ⟨user, .messenger, 0, device, 0⟩

/-- The reader of each JID token. -/
def readJidForm : JidForm → Dec Jid
  | .pair => readJidPair self
  | .ad => readAdJid self
  | .interop => readInteropJid self
  | .fb => readFbJid self

/-! ### Values -/

def readDoubleToken (tag dict : UInt8) : Dec String := do
  let index ← readU8
  match T.getDoubleToken dict index with
  | some s => pure s
  | none => fail (.invalidToken tag)

def readSingleToken (tag : UInt8) : Dec String :=
  match T.getSingleToken tag with
  | some s => pure s
  | none => fail (.invalidToken tag)

def readValueAsStringFromTag (tag : UInt8) : Dec (Option String) :=
  match Tag.ofByte tag with
  | .listEmpty => pure none
  | .binary width => do
    let size ← readSize width
    some <$> readString size
  | .jid form => (fun j => some (jidRefToCompact j)) <$> self.readJid form
  | .packed packing => some <$> readPacked packing
  | .dictionary dict => some <$> readDoubleToken T tag dict
  | _ => some <$> readSingleToken T tag

def readValueAsString : Dec (Option String) := do
  let tag ← readU8
  readValueAsStringFromTag T self tag

def readValue : Dec (Option ValueRef) := do
  let tag ← readU8
  match Tag.ofByte tag with
  | .listEmpty => pure none
  | .binary width => do
    let size ← readSize width
    (fun s => some (.string s)) <$> readString size
  | .jid form => (fun j => some (.jid j)) <$> self.readJid form
  | .packed packing => (fun s => some (.string s)) <$> readPacked packing
  | .dictionary dict => (fun s => some (.string s)) <$> readDoubleToken T tag dict
  | _ => (fun s => some (.string s)) <$> readSingleToken T tag

/-! ### Nodes -/

/-- One round of the loop of `read_attributes`. -/
def readAttribute : Dec (String × ValueRef) := do
  let key ← required .nonStringKey self.readValueAsString
  let value := (← self.readValue).getD (.string "")
  pure (key, value)

def readAttributes (size : Nat) : Dec (List (String × ValueRef)) :=
  times (readAttribute self) size

def readContentFromTag (tag : UInt8) (depth : Nat) : Dec (Option NodeContentRef) :=
  match Tag.ofByte tag with
  | .listEmpty => pure none
  | .list8 | .list16 => do
    let size ← readListSize tag
    let nodes ← times (self.readNodeRefAt (depth + 1)) size
    pure (some (.nodes nodes))
  | .binary width => do
    let len ← readSize width
    let bytes ← readBytes len
    pure (some (.bytes bytes))
  | _ => do
    match ← readValueAsStringFromTag T self tag with
    | some s => pure (some (.string s))
    | none => pure none

/-- The content part of `read_node_open`. -/
def readOpenContent : Dec OpenContent := do
  let contentTag ← readU8
  match Tag.ofByte contentTag with
  | .listEmpty => pure .none
  | .list8 | .list16 => .children <$> readListSize contentTag
  | _ =>
    match ← readContentFromTag T self contentTag 0 with
    | some scalar => pure (.scalar scalar)
    | none => pure .none

def readNodeOpen : Dec NodeOpen := do
  let tag ← readU8
  let listSize ← readListSize tag
  if listSize = 0 then
    fail .invalidNode
  else
    let tag ← required .invalidNode self.readValueAsString
    let attrs ← readAttributes self ((listSize - 1) / 2)
    let content ← (if listSize % 2 = 0 then readOpenContent T self else pure .none)
    pure ⟨tag, attrs, content⟩

/-- Node-nesting cap. -/
def MAX_NODE_DEPTH : Nat := 128

def readNodeRefAt (depth : Nat) : Dec NodeRef :=
  if MAX_NODE_DEPTH ≤ depth then
    fail .maxDepthExceeded
  else do
    let head ← readNodeOpen T self
    match head.content with
    | .none => pure ⟨head.tag, head.attrs, none⟩
    | .scalar scalar => pure ⟨head.tag, head.attrs, some scalar⟩
    | .children count =>
      let nodes ← times (self.readNodeRefAt (depth + 1)) count
      pure ⟨head.tag, head.attrs, some (.nodes nodes)⟩

/-! ### Skipping -/

/-- The packed case of `skip_value_from_tag`: only nibbles have holes. -/
def skipPacked (packing : Packing) : Dec Unit := do
  let lenByte ← readU8
  let packed ← readBytes (lenByte &&& 0x7F).toNat
  match packing, packed.find? hasInvalidNibble with
  | .nibble, some byte => reportNibbles byte
  | _, _ => pure ()

def skipValueFromTag (tag : UInt8) : Dec Unit :=
  match Tag.ofByte tag with
  | .listEmpty => pure ()
  | .binary width => do
    let size ← readSize width
    dropped (readString size)
  | .jid form => dropped (self.readJid form)
  | .packed packing => skipPacked packing
  | .dictionary dict => do
    let index ← readU8
    match T.getDoubleToken dict index with
    | some _ => pure ()
    | none => fail (.invalidToken tag)
  | _ =>
    match T.getSingleToken tag with
    | some _ => pure ()
    | none => fail (.invalidToken tag)

def skipValue : Dec Unit := do
  let tag ← readU8
  self.skipValueFromTag tag

def skipScalarContent (tag : UInt8) : Dec Unit :=
  match Tag.ofByte tag with
  | .binary width => do
    let len ← readSize width
    dropped (readBytes len)
  | _ => self.skipValueFromTag tag

/-- One round of the attribute loop of `skip_node_open`. -/
def skipAttribute : Dec Unit := do
  let keyToken ← readU8
  if keyToken = LIST_EMPTY then
    fail .nonStringKey
  else
    self.skipValueFromTag keyToken
    self.skipValue

/-- The content part of `skip_node_open`. -/
def skipOpenContent : Dec Nat := do
  let contentTag ← readU8
  match Tag.ofByte contentTag with
  | .listEmpty => pure 0
  | .list8 | .list16 => readListSize contentTag
  | _ => do
    self.skipScalarContent contentTag
    pure 0

def skipNodeOpen : Dec Nat := do
  let tag ← readU8
  let listSize ← readListSize tag
  if listSize = 0 then
    fail .invalidNode
  else
    let tagToken ← readU8
    if tagToken = LIST_EMPTY then
      fail .invalidNode
    else
      self.skipValueFromTag tagToken
      repeated (skipAttribute self) ((listSize - 1) / 2)
      if listSize % 2 ≠ 0 then pure 0 else skipOpenContent self

def skipNodeAt (depth : Nat) : Dec Unit :=
  if MAX_NODE_DEPTH ≤ depth then
    fail .maxDepthExceeded
  else do
    let children ← self.skipNodeOpen
    repeated (self.skipNodeAt (depth + 1)) children

end Methods

/-! ## Calls on a stack -/

/-- Every method runs its body, calling the methods of `self`. -/
def Decoder.step (T : TokenTables) (self : Decoder) : Decoder
  | .readJid form => readJidForm self form
  | .readValueAsString => Binary.readValueAsString T self
  | .readValue => Binary.readValue T self
  | .readNodeRefAt depth => Binary.readNodeRefAt T self depth
  | .skipValueFromTag tag => Binary.skipValueFromTag T self tag
  | .skipValue => Binary.skipValue self
  | .skipScalarContent tag => Binary.skipScalarContent self tag
  | .skipNodeOpen => Binary.skipNodeOpen self
  | .skipNodeAt depth => Binary.skipNodeAt self depth

/-- The decoder on a stack with room for `stack` nested calls. -/
def decoder (T : TokenTables) : Nat → Decoder
  | 0 => fun _ => throw .stackOverflow
  | stack + 1 => (decoder T stack).step T

/-! ## Frames -/

def unmarshalRef (self : Decoder) (data : Bytes) : Except Fault NodeRef :=
  match self.readNodeRefAt 0 data with
  | .ok (node, []) => .ok node
  | .ok (_, rest) => .error (.error (.leftoverData rest.length))
  | .error e => .error e

def FORMAT_PLAIN : UInt8 := 0

def checkPlainPayload : Bytes → Except Fault Unit
  | [] => .error (.error .emptyData)
  | format :: nodeBytes =>
    if format ≠ FORMAT_PLAIN then .error (.error (.unexpectedFormatByte format))
    else if nodeBytes = [] then .error (.error .emptyData)
    else .ok ()

def unmarshalPackedRef (self : Decoder) (data : Bytes) : Except Fault NodeRef := do
  checkPlainPayload data
  unmarshalRef self (data.drop 1)

end WaCore.Binary
