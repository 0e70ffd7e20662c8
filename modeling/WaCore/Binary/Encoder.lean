import WaCore.Binary.Decoder
import WaCore.Binary.SizePlan

/-!
# The node encoder

The writers of `encoder.rs` and the entry points of `marshal.rs`.  A writer
appends to the output and may take hints from a tape; `writeStringAt n` has
room for `n` nested calls, as the plan's `stringEncodedSizeAt` has.
-/

namespace WaCore.Binary

open Utf8

/-! ## Writing bytes -/

structure Encoder where
  writer : Bytes
  stringHints : Option StringHintCache
  deriving DecidableEq, Repr

/-- A method of the encoder.  An error drops the output, as every entry point
does. -/
abbrev Enc := StateT Encoder (Except Fault)

def writeRawBytes (bytes : Bytes) : Enc Unit :=
  modify fun enc => { enc with writer := enc.writer ++ bytes }

def writeU8 (val : UInt8) : Enc Unit := writeRawBytes [val]

def writeU16Be (val : UInt16) : Enc Unit := writeRawBytes [(val >>> 8).toUInt8, val.toUInt8]

def writeU32Be (val : UInt32) : Enc Unit :=
  writeRawBytes [(val >>> 24).toUInt8, (val >>> 16).toUInt8, (val >>> 8).toUInt8, val.toUInt8]

def writeU20Be (value : UInt32) : Enc Unit :=
  writeRawBytes [((value >>> 16) &&& 0x0F).toUInt8, ((value >>> 8) &&& 0xFF).toUInt8,
    (value &&& 0xFF).toUInt8]

/-- The length prefix of `write_bytes_with_len`; `as u32` truncates. -/
def writeBinaryLen (len : Nat) : Enc Unit :=
  if len < 256 then do
    writeU8 BINARY_8
    writeU8 (UInt8.ofNat len)
  else if len < 2 ^ 20 then do
    writeU8 BINARY_20
    writeU20Be (UInt32.ofNat len)
  else do
    writeU8 BINARY_32
    writeU32Be (UInt32.ofNat len)

def writeBytesWithLen (bytes : Bytes) : Enc Unit := do
  writeBinaryLen bytes.length
  writeRawBytes bytes

def writeListStart (len : Nat) : Enc Unit :=
  if len = 0 then writeU8 LIST_EMPTY
  else if len < 256 then do
    writeU8 LIST_8
    writeU8 (UInt8.ofNat len)
  else if len ≤ 65535 then do
    writeU8 LIST_16
    writeU16Be (UInt16.ofNat len)
  else throw (.error .invalidNode)

/-! ## Packing -/

/-- Marks a byte that a packed encoding does not accept. -/
def PACK_INVALID : UInt8 := 0xFF

/-- `HEX_ENC`. -/
def hexEnc (c : UInt8) : UInt8 :=
  if isAsciiDigit c then c - 48
  else if 65 ≤ c && c ≤ 70 then 10 + (c - 65)
  else if c = 0 then 15
  else PACK_INVALID

/-- `NIBBLE_ENC`. -/
def nibbleEnc (c : UInt8) : UInt8 :=
  if isAsciiDigit c then c - 48
  else if c = 45 then 10
  else if c = 46 then 11
  else if c = 0 then 15
  else PACK_INVALID

def packTable : Packing → UInt8 → UInt8
  | .hex => hexEnc
  | .nibble => nibbleEnc

/-- The bytes a string is packed into, an odd last character with the pad. -/
def packPairs (table : UInt8 → UInt8) : Bytes → Bytes
  | [] => []
  | [last] => [table last <<< 4 ||| table 0]
  | hi :: lo :: rest => (table hi <<< 4 ||| table lo) :: packPairs table rest

/-- The accumulator `seen`: every table entry that was used, or-ed. -/
def seenEntries (table : UInt8 → UInt8) : Bytes → UInt8
  | [] => 0
  | [last] => table last ||| table 0
  | hi :: lo :: rest => (table hi ||| table lo) ||| seenEntries table rest

def packedLenByte (len : Nat) : UInt8 :=
  if len % 2 = 0 then UInt8.ofNat ((len + 1) / 2) else UInt8.ofNat ((len + 1) / 2) ||| 0x80

def packedTag : Packing → UInt8
  | .hex => HEX_8
  | .nibble => NIBBLE_8

def writePackedBytes (value : Bytes) (packing : Packing) : Enc Unit :=
  if PACKED_MAX < value.length then
    throw (.panic ("String too long to be packed: " ++ toString value.length))
  else do
    writeU8 (packedTag packing)
    writeU8 (packedLenByte value.length)
    if seenEntries (packTable packing) value &&& 0xF0 ≠ 0 then
      throw (.panic "invalid char for packing")
    else
      writeRawBytes (packPairs (packTable packing) value)

/-! ## Writing strings and JIDs -/

section Tables

variable (T : TokenTables)

/-- Take the next hint, when there is a tape. -/
def nextHint : Enc (Option StringHint) := do
  let enc ← get
  match enc.stringHints with
  | none => pure none
  | some cache =>
    set { enc with stringHints := some cache.next.2 }
    pure cache.next.1

section Strings

variable (writeString : Bytes → Enc Unit)

/-- The user of a `JID_PAIR`. -/
def writeUser (user : Bytes) : Enc Unit :=
  if user = [] then writeU8 LIST_EMPTY else writeString user

def writeJidFromMeta (jid : Bytes) (info : ParsedJidMeta) : Enc Unit :=
  let (user, server) := splitJidFromMeta jid info
  match info.device with
  | some device => do
    writeU8 AD_JID
    writeU8 info.domainType
    writeU8 device
    writeString user
  | none => do
    writeU8 JID_PAIR
    writeUser writeString user
    writeString server

def writeStringWithHint (s : Bytes) : StringHint → Enc Unit
  | .empty => do
    writeU8 BINARY_8
    writeU8 0
  | .singleToken token => writeU8 token
  | .doubleToken dict token => do
    writeU8 (DICTIONARY_0 + dict)
    writeU8 token
  | .packedNibble => writePackedBytes s .nibble
  | .packedHex => writePackedBytes s .hex
  | .jid info => writeJidFromMeta writeString s info
  | .rawBytes => writeBytesWithLen s

def writeStringUncached (s : Bytes) : Enc Unit :=
  if PACKED_MAX < s.length then writeBytesWithLen s
  else writeStringWithHint writeString s (classifyStringHint T s)

end Strings

/-- `write_string` with room for `n` nested calls.  The source's debug
assertion on the replayed hint is compiled out of a release build. -/
def writeStringAt : Nat → Bytes → Enc Unit
  | 0, _ => throw .stackOverflow
  | n + 1, s => do
    match ← nextHint with
    | some hint => writeStringWithHint (writeStringAt n) s hint
    | none => writeStringUncached T (writeStringAt n) s

def writeString (s : String) : Enc Unit :=
  writeStringAt T ((ofString s).length + 1) (ofString s)

def writeInteropJid (user : String) (device integrator : UInt16) : Enc Unit := do
  writeU8 INTEROP_JID
  writeString T user
  writeU16Be device
  writeU16Be integrator

/-- The body that `write_jid_ref` and `write_jid_owned` share. -/
def writeJid (jid : Jid) : Enc Unit :=
  if needsInteropJid jid.server jid.integrator then
    writeInteropJid T jid.user jid.device jid.integrator
  else if 0 < jid.device ∧ serverSupportsAdJid jid.server then
    if jid.device.toNat < 256 then do
      writeU8 AD_JID
      writeU8 (serverToDomainType jid.server)
      writeU8 jid.device.toUInt8
      writeString T jid.user
    else
      throw (.error (.attrParse
        ("AD_JID device id out of range: " ++ toString jid.device.toNat)))
  else do
    writeU8 JID_PAIR
    (if jid.user = "" then writeU8 LIST_EMPTY else writeString T jid.user)
    writeString T jid.server.asStr

def writeJidRef (jid : Jid) : Enc Unit := writeJid T jid

def writeJidOwned (jid : Jid) : Enc Unit := writeJid T jid

/-! ## Writing nodes -/

/-- `encode_attrs`. -/
def encodeAttrs {α : Type} (writeValue : α → Enc Unit) : List (String × α) → Enc Unit
  | [] => pure ()
  | (k, v) :: attrs => do
    writeString T k
    writeValue v
    encodeAttrs writeValue attrs

def NodeValue.write : NodeValue → Enc Unit
  | .string s => writeString T s
  | .jid j => writeJidOwned T j

def ValueRef.write : ValueRef → Enc Unit
  | .string s => writeString T s
  | .jid j => writeJidRef T j

mutual

/-- `write_node` of an owned node. -/
def writeNode : Node → Enc Unit
  | ⟨tag, attrs, content⟩ => do
    writeListStart (nodeListLen attrs.length content.isSome)
    writeString T tag
    encodeAttrs T (NodeValue.write T) attrs
    encodeContent content

def encodeContent : Option NodeContent → Enc Unit
  | none => pure ()
  | some (.string s) => writeString T s
  | some (.bytes b) => writeBytesWithLen b
  | some (.nodes nodes) => do
    writeListStart nodes.length
    writeNodes nodes

def writeNodes : List Node → Enc Unit
  | [] => pure ()
  | node :: nodes => do
    writeNode node
    writeNodes nodes

end

mutual

/-- `write_node` of a borrowed node. -/
def writeNodeRef : NodeRef → Enc Unit
  | ⟨tag, attrs, content⟩ => do
    writeListStart (nodeListLen attrs.length content.isSome)
    writeString T tag
    encodeAttrs T (ValueRef.write T) attrs
    encodeContentRef content

def encodeContentRef : Option NodeContentRef → Enc Unit
  | none => pure ()
  | some (.string s) => writeString T s
  | some (.bytes b) => writeBytesWithLen b
  | some (.nodes nodes) => do
    writeListStart nodes.length
    writeNodeRefs nodes

def writeNodeRefs : List NodeRef → Enc Unit
  | [] => pure ()
  | node :: nodes => do
    writeNodeRef node
    writeNodeRefs nodes

end

/-! ## Marshalling -/

/-- An encoder over an empty buffer, with the format byte written. -/
def newVecWithHints (stringHints : Option StringHintCache) : Encoder :=
  ⟨[FORMAT_PLAIN], stringHints⟩

def marshalToVec (write : Enc Unit) : Except Fault Bytes := do
  let (_, enc) ← write.run (newVecWithHints none)
  pure enc.writer

def marshal (node : Node) : Except Fault Bytes := marshalToVec (writeNode T node)

def marshalRef (node : NodeRef) : Except Fault Bytes := marshalToVec (writeNodeRef T node)

/-- The body that `marshal_exact` and `marshal_ref_exact` share. -/
def marshalPlanned (plan : MarshaledSizePlan) (write : Enc Unit) : Except Fault Bytes := do
  let (_, enc) ← write.run (newVecWithHints (some plan.hints))
  if enc.writer.length ≠ plan.size ∨ ¬ enc.stringHints.all (·.fullyConsumed) then
    throw (.error .planMismatch)
  else
    pure enc.writer

def marshalExact (node : Node) : Except Fault Bytes :=
  marshalPlanned (buildMarshaledNodePlan T node) (writeNode T node)

def marshalRefExact (node : NodeRef) : Except Fault Bytes :=
  marshalPlanned (buildMarshaledNodeRefPlan T node) (writeNodeRef T node)

end Tables

/-! ## What a writer appends -/

/-- The writer appends the bytes of `out`, or fails with its fault, and takes
the tape from one state to the other. -/
def Appends (tape tape' : Option StringHintCache) (write : Enc Unit)
    (out : Except Fault Bytes) : Prop :=
  ∀ written, write ⟨written, tape⟩ = out.map fun bytes => ((), ⟨written ++ bytes, tape'⟩)

/-- The output of two writers after each other. -/
def andThen (out out' : Except Fault Bytes) : Except Fault Bytes := do
  let bytes ← out
  let bytes' ← out'
  pure (bytes ++ bytes')

theorem andThen_eq_ok {out out' : Except Fault Bytes} {bytes : Bytes}
    (h : andThen out out' = .ok bytes) :
    ∃ b b', out = .ok b ∧ out' = .ok b' ∧ bytes = b ++ b' := by
  rcases out with e | b
  · exact absurd h (by simp [andThen, bind, Except.bind])
  rcases out' with e | b'
  · exact absurd h (by simp [andThen, bind, Except.bind])
  have hbytes : b ++ b' = bytes := by simpa [andThen, bind, Except.bind, pure, Except.pure] using h
  exact ⟨b, b', rfl, rfl, hbytes.symm⟩

theorem appends_pure (tape : Option StringHintCache) : Appends tape tape (pure ()) (.ok []) := by
  intro written
  show Except.ok ((), (⟨written, tape⟩ : Encoder)) = .ok ((), ⟨written ++ [], tape⟩)
  rw [List.append_nil]

theorem appends_throw (tape tape' : Option StringHintCache) (e : Fault) :
    Appends tape tape' (throw e) (.error e) := fun _ => rfl

theorem appends_writeRawBytes (tape : Option StringHintCache) (bytes : Bytes) :
    Appends tape tape (writeRawBytes bytes) (.ok bytes) := fun _ => rfl

theorem Appends.bind {tape₀ tape₁ tape₂ : Option StringHintCache} {write write' : Enc Unit}
    {out out' : Except Fault Bytes} (hw : Appends tape₀ tape₁ write out)
    (hw' : Appends tape₁ tape₂ write' out') :
    Appends tape₀ tape₂ (write >>= fun _ => write') (andThen out out') := by
  intro written
  show (write ⟨written, tape₀⟩ >>= fun r => write' r.2) = _
  rw [hw]
  rcases out with e | b
  · rfl
  show write' ⟨written ++ b, tape₁⟩ = _
  rw [hw']
  rcases out' with e | b'
  · rfl
  show Except.ok ((), (⟨written ++ b ++ b', tape₂⟩ : Encoder)) =
    .ok ((), ⟨written ++ (b ++ b'), tape₂⟩)
  rw [List.append_assoc]

end WaCore.Binary
