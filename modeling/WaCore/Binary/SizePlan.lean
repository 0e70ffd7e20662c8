import WaCore.Binary.Node

/-!
# Strings on the wire, and the size plan

The first half of `encoder.rs`: how a string is classified (a dictionary token,
packed digits, a JID, raw bytes), and the pass of the exact marshaller that
computes the size of a node and records the classification of every string it
meets on a tape.  Strings are given as their UTF-8 bytes, which is all the
encoder looks at.

A string that looks like a JID is sized as one, its user and its server as
strings again, so `string_encoded_size_with_cache` calls itself.
`stringEncodedSizeAt n` has room for `n` nested calls; the size of a string
starts with one more than its length, and it needs no more than one for each
`@` in it, and one.
-/

namespace WaCore.Binary

open Utf8

/-! ## JID strings -/

/-- The position of the first byte `c`. -/
def findByte (c : UInt8) (s : Bytes) : Option Nat := s.findIdx? (· = c)

/-- The position of the last byte `c`. -/
def rfindByte (c : UInt8) (s : Bytes) : Option Nat :=
  (s.reverse.findIdx? (· = c)).map fun i => s.length - 1 - i

def isAsciiDigit (b : UInt8) : Bool := 48 ≤ b && b ≤ 57

/-- `str::parse::<u8>`: decimal digits, after an optional `+`. -/
def parseU8 (s : Bytes) : Option UInt8 :=
  let digits : Bytes := match s with
    | 43 :: d :: ds => d :: ds
    | _ => s
  let value : Nat := digits.foldl (fun n b => 10 * n + (b.toNat - 48)) 0
  if digits ≠ [] ∧ digits.all isAsciiDigit ∧ value < 256 then some (UInt8.ofNat value) else none

/-- Servers whose domain byte the decoder maps back. -/
def serverSupportsAdJid : Server → Bool
  | .pn | .lid | .hosted | .hostedLid => true
  | _ => false

def serverToDomainType : Server → UInt8
  | .pn => 0
  | .lid => 1
  | .hosted => 128
  | .hostedLid => 129
  | _ => 0

/-- Whether a JID needs the `INTEROP_JID` token. -/
def needsInteropJid (server : Server) (integrator : UInt16) : Bool :=
  server = .interop && integrator ≠ 0

structure ParsedJidMeta where
  userEnd : UInt8
  serverStart : UInt8
  device : Option UInt8
  server : Option Server
  deriving DecidableEq, Repr

def ParsedJidMeta.domainType (info : ParsedJidMeta) : UInt8 :=
  info.server.elim 0 serverToDomainType

/-- The user with its agent, and the device after a `:`. -/
def splitDevice (userCombined : Bytes) : Bytes × Option UInt8 :=
  match findByte 58 userCombined with
  | none => (userCombined, none)
  | some colonIdx =>
    match parseU8 (userCombined.drop (colonIdx + 1)) with
    | some device => (userCombined.take colonIdx, some device)
    | none => (userCombined, none)

/-- Where the user ends when an agent follows a `_`. -/
def underscoreEnd (userAgent : Bytes) : Nat :=
  match findByte 95 userAgent with
  | none => userAgent.length
  | some underscoreIdx =>
    if (parseU8 (userAgent.drop (underscoreIdx + 1))).isSome then underscoreIdx
    else userAgent.length

/-- Where the user ends when a dotted agent is dropped from it. -/
def dotEnd (userAgent : Bytes) (userEnd : Nat) : Nat :=
  match rfindByte 46 (userAgent.take userEnd) with
  | none => userEnd
  | some dotIdx =>
    if (parseU8 ((userAgent.take userEnd).drop (dotIdx + 1))).isSome then dotIdx else userEnd

/-- Servers on which a dotted agent is inert. -/
def dropsDottedAgent : Option Server → Bool
  | some .pn | some .hosted | some .hostedLid => true
  | _ => false

/-- Where the user ends, on its server. -/
def userEndOf (serverKind : Option Server) (userAgent : Bytes) : Nat :=
  if dropsDottedAgent serverKind then dotEnd userAgent (underscoreEnd userAgent)
  else underscoreEnd userAgent

def parseJidMeta (input : Bytes) : Option ParsedJidMeta := do
  let sepIdx ← findByte 64 input
  let serverStart := sepIdx + 1
  let serverKind := Server.parseKnown (input.drop serverStart)
  let (userAgent, device) := splitDevice (input.take sepIdx)
  let userEnd := userEndOf serverKind userAgent
  if userEnd < 256 ∧ serverStart < 256 then
    some
      { userEnd := UInt8.ofNat userEnd
        serverStart := UInt8.ofNat serverStart
        device := if serverKind.any serverSupportsAdJid then device else none
        server := serverKind }
  else
    none

/-- `split_jid_from_meta`, with the server's canonical spelling when it is a
known one: the user and the server that are written. -/
def splitJidFromMeta (input : Bytes) (info : ParsedJidMeta) : Bytes × Bytes :=
  (input.take info.userEnd.toNat,
    info.server.elim (input.drop info.serverStart.toNat) fun s => ofString s.asStr)

/-! ## Hints -/

inductive StringHint where
  | empty
  | singleToken (token : UInt8)
  | doubleToken (dict token : UInt8)
  | packedNibble
  | packedHex
  | jid (info : ParsedJidMeta)
  | rawBytes
  deriving DecidableEq, Repr

def validateNibble (value : Bytes) : Bool :=
  value.length ≤ PACKED_MAX && value.all fun b => isAsciiDigit b || b = 45 || b = 46

def validateHex (value : Bytes) : Bool :=
  value.length ≤ PACKED_MAX && value.all fun b => isAsciiDigit b || (65 ≤ b && b ≤ 70)

/-- The replay tape of the exact marshaller. -/
structure StringHintCache where
  hints : List StringHint
  cursor : Nat
  deriving DecidableEq, Repr

namespace StringHintCache

def default : StringHintCache := ⟨[], 0⟩

/-- The hint under the cursor, and the tape with the cursor moved past it. -/
def next (cache : StringHintCache) : Option StringHint × StringHintCache :=
  match cache.hints[cache.cursor]? with
  | some hint => (some hint, { cache with cursor := cache.cursor + 1 })
  | none => (none, cache)

def fullyConsumed (cache : StringHintCache) : Bool := cache.cursor = cache.hints.length

end StringHintCache

section Tables

variable (T : TokenTables)

def classifyStringHint (s : Bytes) : StringHint :=
  if s = [] then .empty
  else
    match T.indexOfToken s with
    | some (.single token) => .singleToken token
    | some (.double dict token) => .doubleToken dict token
    | none =>
      if validateNibble s then .packedNibble
      else if validateHex s then .packedHex
      else if s.length ≤ 48 then (parseJidMeta s).elim .rawBytes .jid
      else .rawBytes

/-- The hint the plan records: long strings are not classified. -/
def hintOf (s : Bytes) : StringHint :=
  if PACKED_MAX < s.length then .rawBytes else classifyStringHint T s

/-! ## The size plan -/

/-- The plan pass: sizes are computed while hints go onto the tape. -/
abbrev Plan := StateM StringHintCache

def record (s : Bytes) : Plan StringHint := do
  let hint := hintOf T s
  modify fun cache => { cache with hints := cache.hints ++ [hint] }
  pure hint

def listStartEncodedSize (len : Nat) : Nat :=
  if len = 0 then 1 else if len < 256 then 2 else 3

def binaryLenPrefixSize (len : Nat) : Nat :=
  if len < 256 then 2 else if len < 2 ^ 20 then 4 else 5

def bytesWithLenEncodedSize (len : Nat) : Nat := binaryLenPrefixSize len + len

def packedEncodedSize (valueLen : Nat) : Nat := 2 + (valueLen + 1) / 2

section Strings

variable (stringSize : Bytes → Plan Nat)

/-- The size of the user of a `JID_PAIR`, which is not a string when empty. -/
def userEncodedSize (user : Bytes) : Plan Nat :=
  if user = [] then pure 1 else stringSize user

def parsedJidEncodedSizeWithCache (jid : Bytes) (info : ParsedJidMeta) : Plan Nat :=
  let (user, server) := splitJidFromMeta jid info
  if info.device.isSome then do
    let size ← stringSize user
    pure (3 + size)
  else do
    let userSize ← userEncodedSize stringSize user
    let serverSize ← stringSize server
    pure (1 + userSize + serverSize)

def stringEncodedSizeFromHintWithCache (s : Bytes) : StringHint → Plan Nat
  | .empty => pure 2
  | .singleToken _ => pure 1
  | .doubleToken _ _ => pure 2
  | .packedNibble | .packedHex => pure (packedEncodedSize s.length)
  | .rawBytes => pure (bytesWithLenEncodedSize s.length)
  | .jid info => parsedJidEncodedSizeWithCache stringSize s info

end Strings

/-- `string_encoded_size_with_cache` with room for `n` nested calls. -/
def stringEncodedSizeAt : Nat → Bytes → Plan Nat
  | 0, _ => pure 0
  | n + 1, s => do
    let hint ← record T s
    stringEncodedSizeFromHintWithCache (stringEncodedSizeAt n) s hint

def stringEncodedSizeWithCache (s : String) : Plan Nat :=
  stringEncodedSizeAt T ((ofString s).length + 1) (ofString s)

def jidEncodedSizeWithCache (user : String) (server : Server) (device integrator : UInt16) :
    Plan Nat :=
  if needsInteropJid server integrator then do
    let size ← stringEncodedSizeWithCache T user
    pure (1 + size + 2 + 2)
  else if 0 < device ∧ serverSupportsAdJid server then do
    let size ← stringEncodedSizeWithCache T user
    pure (3 + size)
  else do
    let userSize ← (if user = "" then pure 1 else stringEncodedSizeWithCache T user)
    let serverSize ← stringEncodedSizeWithCache T server.asStr
    pure (1 + userSize + serverSize)

def ownedJidEncodedSizeWithCache (jid : Jid) : Plan Nat :=
  jidEncodedSizeWithCache T jid.user jid.server jid.device jid.integrator

def jidRefEncodedSizeWithCache (jid : Jid) : Plan Nat :=
  jidEncodedSizeWithCache T jid.user jid.server jid.device jid.integrator

/-- `list_len` of a node: its tag, two entries for each attribute, its content. -/
def nodeListLen (attrsLen : Nat) (hasContent : Bool) : Nat :=
  1 + attrsLen * 2 + hasContent.toNat

/-- The loop over a node's attributes. -/
def attrsEncodedSize {α : Type} (valueSize : α → Plan Nat) : List (String × α) → Plan Nat
  | [] => pure 0
  | (k, v) :: attrs => do
    let keySize ← stringEncodedSizeWithCache T k
    let valueSize' ← valueSize v
    let restSize ← attrsEncodedSize valueSize attrs
    pure (keySize + valueSize' + restSize)

def NodeValue.encodedSize : NodeValue → Plan Nat
  | .string s => stringEncodedSizeWithCache T s
  | .jid j => ownedJidEncodedSizeWithCache T j

def ValueRef.encodedSize : ValueRef → Plan Nat
  | .string s => stringEncodedSizeWithCache T s
  | .jid j => jidRefEncodedSizeWithCache T j

mutual

def nodeEncodedSizeWithCache : Node → Plan Nat
  | ⟨tag, attrs, content⟩ => do
    let tagSize ← stringEncodedSizeWithCache T tag
    let attrsSize ← attrsEncodedSize T (NodeValue.encodedSize T) attrs
    let contentSize ← nodeContentEncodedSize content
    pure (listStartEncodedSize (nodeListLen attrs.length content.isSome) + tagSize + attrsSize +
      contentSize)

/-- The match on `node.content`. -/
def nodeContentEncodedSize : Option NodeContent → Plan Nat
  | none => pure 0
  | some (.string s) => stringEncodedSizeWithCache T s
  | some (.bytes b) => pure (bytesWithLenEncodedSize b.length)
  | some (.nodes nodes) => do
    let size ← nodesEncodedSize nodes
    pure (listStartEncodedSize nodes.length + size)

def nodesEncodedSize : List Node → Plan Nat
  | [] => pure 0
  | node :: nodes => do
    let size ← nodeEncodedSizeWithCache node
    let restSize ← nodesEncodedSize nodes
    pure (size + restSize)

end

mutual

def nodeRefEncodedSizeWithCache : NodeRef → Plan Nat
  | ⟨tag, attrs, content⟩ => do
    let tagSize ← stringEncodedSizeWithCache T tag
    let attrsSize ← attrsEncodedSize T (ValueRef.encodedSize T) attrs
    let contentSize ← nodeRefContentEncodedSize content
    pure (listStartEncodedSize (nodeListLen attrs.length content.isSome) + tagSize + attrsSize +
      contentSize)

/-- The match on `node.content`. -/
def nodeRefContentEncodedSize : Option NodeContentRef → Plan Nat
  | none => pure 0
  | some (.string s) => stringEncodedSizeWithCache T s
  | some (.bytes b) => pure (bytesWithLenEncodedSize b.length)
  | some (.nodes nodes) => do
    let size ← nodeRefsEncodedSize nodes
    pure (listStartEncodedSize nodes.length + size)

def nodeRefsEncodedSize : List NodeRef → Plan Nat
  | [] => pure 0
  | node :: nodes => do
    let size ← nodeRefEncodedSizeWithCache node
    let restSize ← nodeRefsEncodedSize nodes
    pure (size + restSize)

end

structure MarshaledSizePlan where
  size : Nat
  hints : StringHintCache

def buildMarshaledNodePlan (node : Node) : MarshaledSizePlan :=
  let (size, hints) := (nodeEncodedSizeWithCache T node).run .default
  ⟨1 + size, hints⟩

def buildMarshaledNodeRefPlan (node : NodeRef) : MarshaledSizePlan :=
  let (size, hints) := (nodeRefEncodedSizeWithCache T node).run .default
  ⟨1 + size, hints⟩

end Tables

/-! ## What a JID string is made of -/

variable {s : Bytes} {info : ParsedJidMeta}

theorem findByte_eq_some {c : UInt8} {i : Nat} (h : findByte c s = some i) :
    s = s.take i ++ c :: s.drop (i + 1) ∧ c ∉ s.take i ∧ i < s.length := by
  obtain ⟨hi, hc, hbefore⟩ := List.findIdx?_eq_some_iff_getElem.mp h
  have hget : s[i] = c := by simpa using hc
  refine ⟨?_, ?_, hi⟩
  · rw [← hget, List.cons_getElem_drop_succ, List.take_append_drop]
  · intro hmem
    obtain ⟨j, hj, heq⟩ := List.getElem_of_mem hmem
    have hji : j < i := by
      rw [List.length_take] at hj
      omega
    have := hbefore j hji
    rw [List.getElem_take] at heq
    simp [heq] at this

theorem take_eq_take_of_beginning {a : Bytes} {n : Nat} (h : a <+: s) (hn : n ≤ a.length) :
    s.take n = a.take n := by
  obtain ⟨rest, rfl⟩ := h
  exact List.take_append_of_le_length hn

theorem splitDevice_prefix_of (userCombined : Bytes) :
    (splitDevice userCombined).1 <+: userCombined := by
  unfold splitDevice
  split
  · exact List.prefix_rfl
  · split
    · exact List.take_prefix _ _
    · exact List.prefix_rfl

theorem underscoreEnd_le (userAgent : Bytes) : underscoreEnd userAgent ≤ userAgent.length := by
  unfold underscoreEnd
  split
  · exact Nat.le_refl _
  · rename_i idx hfind
    have := (findByte_eq_some hfind).2.2
    split <;> omega

theorem rfindByte_eq_some {c : UInt8} {i : Nat} (h : rfindByte c s = some i) :
    s = s.take i ++ c :: s.drop (i + 1) ∧ i < s.length := by
  obtain ⟨k, hk, rfl⟩ := Option.map_eq_some_iff.mp h
  obtain ⟨hlen, hc, -⟩ := List.findIdx?_eq_some_iff_getElem.mp hk
  rw [List.length_reverse] at hlen
  have hi : s.length - 1 - k < s.length := by omega
  have hget : s[s.length - 1 - k] = c := by
    simpa using hc
  refine ⟨?_, hi⟩
  rw [← hget, List.cons_getElem_drop_succ, List.take_append_drop]

theorem dotEnd_le (userAgent : Bytes) (userEnd : Nat) : dotEnd userAgent userEnd ≤ userEnd := by
  unfold dotEnd
  split
  · exact Nat.le_refl _
  · rename_i dotIdx hfind
    have hlt := (rfindByte_eq_some hfind).2
    rw [List.length_take] at hlt
    split <;> omega

theorem userEndOf_le (serverKind : Option Server) (userAgent : Bytes) :
    userEndOf serverKind userAgent ≤ userAgent.length := by
  have hunder := underscoreEnd_le userAgent
  unfold userEndOf
  split
  · exact (dotEnd_le _ _).trans hunder
  · exact hunder

/-- A string with JID metadata is a user, the first `@` and a suffix.  What is
written is a beginning of the user, and the suffix or the canonical spelling of
the server it names. -/
theorem parseJidMeta_eq_some (h : parseJidMeta s = some info) :
    ∃ userCombined suffix, s = userCombined ++ 64 :: suffix ∧ (64 : UInt8) ∉ userCombined ∧
      info.server = Server.parseKnown suffix ∧
      splitJidFromMeta s info = (
        (splitDevice userCombined).1.take (userEndOf info.server (splitDevice userCombined).1),
        info.server.elim suffix fun server => ofString server.asStr) ∧
      (info.device.isSome → info.server.any serverSupportsAdJid) := by
  unfold parseJidMeta at h
  cases hfind : findByte 64 s with
  | none => rw [hfind] at h; cases h
  | some sepIdx =>
    obtain ⟨hs, hmem, hlt⟩ := findByte_eq_some hfind
    rw [hfind] at h
    simp only [Option.bind_eq_bind, Option.bind_some] at h
    split at h
    · rename_i hfits
      obtain rfl := Option.some_inj.mp h
      refine ⟨s.take sepIdx, s.drop (sepIdx + 1), hs, hmem, rfl, ?_, ?_⟩
      · have huser := userEndOf_le (Server.parseKnown (s.drop (sepIdx + 1)))
          (splitDevice (s.take sepIdx)).1
        have hbegin := (splitDevice_prefix_of (s.take sepIdx)).trans <| List.take_prefix sepIdx s
        simp only [splitJidFromMeta]
        rw [UInt8.toNat_ofNat_of_lt' hfits.1, UInt8.toNat_ofNat_of_lt' hfits.2,
          take_eq_take_of_beginning hbegin huser]
      · split
        · intro _
          assumption
        · intro hnone
          cases hnone
    · cases h

/-- The user of a JID string has no `@`. -/
theorem at_not_mem_splitJidFromMeta (h : parseJidMeta s = some info) :
    (64 : UInt8) ∉ (splitJidFromMeta s info).1 := by
  obtain ⟨userCombined, suffix, -, hmem, -, hsplit, -⟩ := parseJidMeta_eq_some h
  rw [hsplit]
  exact fun hin => hmem ((splitDevice_prefix_of _).mem (List.mem_of_mem_take hin))

/-- The pieces of a JID string have fewer `@` than the string. -/
theorem count_splitJidFromMeta (h : parseJidMeta s = some info) :
    (splitJidFromMeta s info).1.count 64 < s.count 64 ∧
      (splitJidFromMeta s info).2.count 64 < s.count 64 := by
  have huser := List.count_eq_zero.mpr (at_not_mem_splitJidFromMeta h)
  obtain ⟨userCombined, suffix, rfl, -, -, hsplit, -⟩ := parseJidMeta_eq_some h
  rw [huser, hsplit, List.count_append, List.count_cons_self]
  refine ⟨by omega, ?_⟩
  cases info.server with
  | none => exact Nat.lt_of_lt_of_le (Nat.lt_succ_self _) (Nat.le_add_left _ _)
  | some server =>
    show (ofString server.asStr).count 64 < _
    rw [List.count_eq_zero.mpr server.at_not_mem_asStr]
    omega

/-! ## What a hint says -/

/-- The strings that get each hint. -/
inductive HintSpec (T : TokenTables) (s : Bytes) : StringHint → Prop where
  | empty (h : s = []) : HintSpec T s .empty
  | singleToken {token : UInt8} (hne : s ≠ []) (hlen : s.length ≤ PACKED_MAX)
    (h : T.indexOfToken s = some (.single token)) : HintSpec T s (.singleToken token)
  | doubleToken {dict token : UInt8} (hne : s ≠ []) (hlen : s.length ≤ PACKED_MAX)
    (h : T.indexOfToken s = some (.double dict token)) : HintSpec T s (.doubleToken dict token)
  | packedNibble (hne : s ≠ []) (h : validateNibble s) : HintSpec T s .packedNibble
  | packedHex (hne : s ≠ []) (h : validateHex s) : HintSpec T s .packedHex
  | jid {info : ParsedJidMeta} (hlen : s.length ≤ 48) (h : parseJidMeta s = some info) :
    HintSpec T s (.jid info)
  | rawBytes (h : PACKED_MAX < s.length ∨
      (T.indexOfToken s = none ∧ ¬ validateNibble s ∧ ¬ validateHex s)) : HintSpec T s .rawBytes

theorem hintSpec_hintOf (T : TokenTables) (s : Bytes) : HintSpec T s (hintOf T s) := by
  unfold hintOf
  split
  · rename_i hlong
    exact .rawBytes (.inl hlong)
  rename_i hshort
  have hlen := Nat.le_of_not_lt hshort
  unfold classifyStringHint
  split
  · rename_i hempty
    exact .empty hempty
  rename_i hne
  split
  · rename_i hindex
    exact .singleToken hne hlen hindex
  · rename_i hindex
    exact .doubleToken hne hlen hindex
  rename_i hindex
  split
  · rename_i hnibble
    exact .packedNibble hne hnibble
  rename_i hnibble
  split
  · rename_i hhex
    exact .packedHex hne hhex
  rename_i hhex
  split
  · rename_i hlikely
    cases hparse : parseJidMeta s with
    | none => exact .rawBytes (.inr ⟨hindex, hnibble, hhex⟩)
    | some info => exact .jid hlikely hparse
  · exact .rawBytes (.inr ⟨hindex, hnibble, hhex⟩)

end WaCore.Binary
