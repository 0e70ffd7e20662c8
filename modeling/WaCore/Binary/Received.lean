import WaCore.Binary.SizePlan

/-!
# What the receiver gets

A node does not arrive as it was sent: a string may arrive as a JID, a string
content as bytes, and some strings are written in a form that the decoder
rejects.  This module says what arrives, without mention of the wire: `arrival`
for a string, `received` for a whole node, `none` where the receiver fails.

`Resolves` is the condition on a string under which it arrives at all, and
`normalForm` is what arrives when no string has an `@` in it.
-/

namespace WaCore.Binary

open Utf8

/-! ## Strings -/

/-- The forms in which a string can arrive. -/
inductive Arrival where
  | text (s : String)
  | raw (s : String)
  | jid (j : Jid)
  deriving DecidableEq, Repr

namespace Arrival

/-- Read where a string is wanted. -/
def asText : Arrival → String
  | text s => s
  | raw s => s
  | jid j => jidRefToCompact j

/-- Read as the value of an attribute. -/
def asValue : Arrival → ValueRef
  | text s => .string s
  | raw s => .string s
  | jid j => .jid j

/-- Read as the content of a node. -/
def asContent : Arrival → NodeContentRef
  | text s => .string s
  | raw s => .bytes (ofString s)
  | jid j => .string (jidRefToCompact j)

/-- Read as the server of a JID. -/
def asServer (a : Arrival) : Option Server := Server.parseKnown (ofString a.asText)

end Arrival

section Tables

variable (T : TokenTables)

/-- How a string arrives, with room for `n` nested JIDs. -/
def arrivalAt : Nat → Bytes → Option Arrival
  | 0, _ => none
  | n + 1, s =>
    match hintOf T s with
    | .empty | .rawBytes => some (.raw (strOf s))
    | .singleToken _ | .doubleToken _ _ | .packedNibble | .packedHex => some (.text (strOf s))
    | .jid info =>
      ((arrivalAt n (splitJidFromMeta s info).2).bind Arrival.asServer).map fun server =>
        .jid ⟨strOf (splitJidFromMeta s info).1, server, 0, info.device.elim 0 UInt8.toUInt16, 0⟩

def arrival (s : String) : Option Arrival := arrivalAt T ((ofString s).length + 1) (ofString s)

/-- The suffix of a JID string that the decoder takes for a server: a known
one, or a JID string without a user whose own suffix it takes for one. -/
inductive ReadsAsServer : Bytes → Prop where
  | known {suffix : Bytes} (h : (Server.parseKnown suffix).isSome) : ReadsAsServer suffix
  | nested {suffix : Bytes} {info : ParsedJidMeta} (hhint : hintOf T suffix = .jid info)
    (huser : (splitJidFromMeta suffix info).1 = [])
    (h : ReadsAsServer (splitJidFromMeta suffix info).2) : ReadsAsServer suffix

/-- The decoder accepts the string: if it is written as a JID, its suffix is
read as a server. -/
def Resolves (s : String) : Prop :=
  ∀ info, hintOf T (ofString s) = .jid info →
    ReadsAsServer T (splitJidFromMeta (ofString s) info).2

/-! ## Nodes -/

/-- A JID value keeps its user and server, and its device on the servers that
have one on the wire. -/
def receivedJid (j : Jid) : Option Jid :=
  (arrival T j.user).map fun user =>
    ⟨user.asText, j.server, 0, if serverSupportsAdJid j.server then j.device else 0, 0⟩

def receivedValue : NodeValue → Option ValueRef
  | .string s => (arrival T s).map Arrival.asValue
  | .jid j => (receivedJid T j).map ValueRef.jid

def receivedAttrs : List (String × NodeValue) → Option (List (String × ValueRef))
  | [] => some []
  | (k, v) :: attrs => do
    let key ← arrival T k
    let value ← receivedValue T v
    let rest ← receivedAttrs attrs
    some ((key.asText, value) :: rest)

mutual

def received : Node → Option NodeRef
  | ⟨tag, attrs, content⟩ => do
    let tag ← arrival T tag
    let attrs ← receivedAttrs T attrs
    let content ← receivedContent content
    some ⟨tag.asText, attrs, content⟩

def receivedContent : Option NodeContent → Option (Option NodeContentRef)
  | none => some none
  | some (.bytes b) => some (some (.bytes b))
  | some (.string s) => (arrival T s).map fun a => some a.asContent
  | some (.nodes nodes) =>
    (receivedNodes nodes).map fun nodes => if nodes = [] then none else some (.nodes nodes)

def receivedNodes : List Node → Option (List NodeRef)
  | [] => some []
  | node :: nodes => do
    let node ← received node
    let nodes ← receivedNodes nodes
    some (node :: nodes)

end

/-! ## Parts of a node

What a node is made of, listed, so that conditions on its strings, byte
contents, JIDs and wire lists can be stated one by one. -/

inductive Part where
  | text (s : String)
  | blob (b : Bytes)
  | jid (j : Jid)
  | list (len : Nat)

end Tables

def NodeValue.parts : NodeValue → List Part
  | .string s => [.text s]
  | .jid j => [.jid j, .text j.user]

def attrsParts : List (String × NodeValue) → List Part
  | [] => []
  | (k, v) :: attrs => .text k :: (v.parts ++ attrsParts attrs)

mutual

/-- The strings (tags, keys, values, contents, users of JIDs), byte contents,
JIDs and list lengths of a node. -/
def Node.parts : Node → List Part
  | ⟨tag, attrs, content⟩ =>
    .list (nodeListLen attrs.length content.isSome) :: .text tag ::
      (attrsParts attrs ++ contentParts content)

def contentParts : Option NodeContent → List Part
  | none => []
  | some (.bytes b) => [.blob b]
  | some (.string s) => [.text s]
  | some (.nodes nodes) => .list nodes.length :: nodesParts nodes

def nodesParts : List Node → List Part
  | [] => []
  | node :: nodes => node.parts ++ nodesParts nodes

end

/-! ## Which strings arrive -/

section Resolve

variable {T : TokenTables} {s : Bytes}

theorem valid_splitDevice (hs : Valid s) : Valid (splitDevice s).1 := by
  unfold splitDevice
  split
  · exact hs
  · rename_i colonIdx hfind
    split
    · have hcut := (findByte_eq_some hfind).1
      rw [hcut] at hs
      exact (hs.split (by decide)).1
    · exact hs

theorem valid_take_underscoreEnd (hs : Valid s) : Valid (s.take (underscoreEnd s)) := by
  unfold underscoreEnd
  split
  · rwa [List.take_length]
  · rename_i underscoreIdx hfind
    split
    · have hcut := (findByte_eq_some hfind).1
      rw [hcut] at hs
      exact (hs.split (by decide)).1
    · rwa [List.take_length]

theorem valid_take_dotEnd {userEnd : Nat} (hs : Valid (s.take userEnd)) :
    Valid (s.take (dotEnd s userEnd)) := by
  unfold dotEnd
  split
  · exact hs
  · rename_i dotIdx hfind
    obtain ⟨hcut, hlt⟩ := rfindByte_eq_some hfind
    split
    · rw [hcut] at hs
      have hbefore := (hs.split (by decide)).1
      rw [List.length_take] at hlt
      rwa [List.take_take, Nat.min_eq_left (by omega)] at hbefore
    · exact hs

theorem valid_take_userEndOf (server : Option Server) (hs : Valid s) :
    Valid (s.take (userEndOf server s)) := by
  unfold userEndOf
  split
  · exact valid_take_dotEnd (valid_take_underscoreEnd hs)
  · exact valid_take_underscoreEnd hs

variable {info : ParsedJidMeta}

/-- The pieces of a JID string are strings: it is only cut at ASCII characters. -/
theorem valid_splitJidFromMeta (hs : Valid s) (h : parseJidMeta s = some info) :
    Valid (splitJidFromMeta s info).1 ∧ Valid (splitJidFromMeta s info).2 := by
  obtain ⟨userCombined, suffix, rfl, -, -, hsplit, -⟩ := parseJidMeta_eq_some h
  obtain ⟨huser, hsuffix⟩ := hs.split (by decide)
  rw [hsplit]
  refine ⟨valid_take_userEndOf _ (valid_splitDevice huser), ?_⟩
  cases info.server with
  | none => exact hsuffix
  | some server => exact valid_ofString _

/-- Only a string with an `@` is written as a JID. -/
theorem at_mem_of_hintOf_jid (h : hintOf T s = .jid info) :
    (64 : UInt8) ∈ s ∧ parseJidMeta s = some info := by
  have hspec := hintSpec_hintOf T s
  rw [h] at hspec
  cases hspec with
  | jid _ hparse =>
    obtain ⟨userCombined, suffix, rfl, -⟩ := parseJidMeta_eq_some hparse
    exact ⟨by simp, hparse⟩

/-- A string that is not written as a JID is read as what it is. -/
theorem asText_arrivalAt {n : Nat} (hhint : ∀ info, hintOf T s ≠ .jid info) :
    ∃ a, arrivalAt T (n + 1) s = some a ∧ a.asText = strOf s ∧ a.asValue = .string (strOf s) := by
  rw [arrivalAt]
  cases h : hintOf T s with
  | jid info => exact absurd h (hhint info)
  | empty => exact ⟨_, rfl, rfl, rfl⟩
  | rawBytes => exact ⟨_, rfl, rfl, rfl⟩
  | singleToken token => exact ⟨_, rfl, rfl, rfl⟩
  | doubleToken dict token => exact ⟨_, rfl, rfl, rfl⟩
  | packedNibble => exact ⟨_, rfl, rfl, rfl⟩
  | packedHex => exact ⟨_, rfl, rfl, rfl⟩

theorem arrivalAt_jid {n : Nat} (h : hintOf T s = .jid info) :
    arrivalAt T (n + 1) s =
      ((arrivalAt T n (splitJidFromMeta s info).2).bind Arrival.asServer).map fun server =>
        .jid ⟨strOf (splitJidFromMeta s info).1, server, 0, info.device.elim 0 UInt8.toUInt16, 0⟩ := by
  rw [arrivalAt, h]

/-- A string without an `@` is read as what it is. -/
theorem asText_arrivalAt_of_no_at {n : Nat} (h : (64 : UInt8) ∉ s) :
    ∃ a, arrivalAt T (n + 1) s = some a ∧ a.asText = strOf s ∧ a.asValue = .string (strOf s) :=
  asText_arrivalAt fun _ hhint => h (at_mem_of_hintOf_jid hhint).1

/-- A JID string is read as a server only if it has no user. -/
theorem asServer_jid_isSome {j : Jid} : (Arrival.jid j).asServer.isSome ↔ j.user = "" := by
  constructor
  · intro h
    by_contra huser
    obtain ⟨server, hserver⟩ := Option.isSome_iff_exists.mp h
    exact Server.at_not_mem_of_parseKnown hserver (at_mem_jidRefToCompact huser)
  · intro huser
    show (Server.parseKnown (ofString (jidRefToCompact j))).isSome
    rw [jidRefToCompact_of_user_empty huser, Server.parseKnown_asStr]
    rfl

theorem readsAsServer_jid (h : hintOf T s = .jid info) :
    ReadsAsServer T s ↔ (splitJidFromMeta s info).1 = [] ∧
      ReadsAsServer T (splitJidFromMeta s info).2 := by
  constructor
  · intro hread
    cases hread with
    | known hknown =>
      obtain ⟨server, hserver⟩ := Option.isSome_iff_exists.mp hknown
      exact absurd (at_mem_of_hintOf_jid h).1 (Server.at_not_mem_of_parseKnown hserver)
    | nested hhint huser hnested =>
      rw [h] at hhint
      cases hhint
      exact ⟨huser, hnested⟩
  · rintro ⟨huser, hserver⟩
    exact .nested h huser hserver

theorem readsAsServer_of_no_jid (h : ∀ info, hintOf T s ≠ .jid info) :
    ReadsAsServer T s ↔ (Server.parseKnown s).isSome := by
  refine ⟨fun hread => ?_, .known⟩
  cases hread with
  | known hknown => exact hknown
  | nested hhint _ _ => exact absurd hhint (h _)

/-- The strings that arrive as a server are those that `ReadsAsServer` names. -/
theorem isSome_asServer_arrivalAt (n : Nat) (s : Bytes) (hs : Valid s) (hn : s.count 64 < n) :
    ((arrivalAt T n s).bind Arrival.asServer).isSome ↔ ReadsAsServer T s := by
  induction n generalizing s with
  | zero => omega
  | succ n ih =>
    by_cases hjid : ∃ info, hintOf T s = .jid info
    · obtain ⟨info, hinfo⟩ := hjid
      have hparse := (at_mem_of_hintOf_jid hinfo).2
      obtain ⟨hvalidUser, hvalidServer⟩ := valid_splitJidFromMeta hs hparse
      have hinner := ih _ hvalidServer (by have := (count_splitJidFromMeta hparse).2; omega)
      rw [arrivalAt_jid hinfo, readsAsServer_jid hinfo, ← hinner]
      cases (arrivalAt T n (splitJidFromMeta s info).2).bind Arrival.asServer with
      | none => simp
      | some server =>
        simp only [Option.map_some, Option.bind_some, Option.isSome_some, and_true]
        rw [asServer_jid_isSome]
        exact strOf_eq_empty hvalidUser
    · have hno : ∀ info, hintOf T s ≠ .jid info := fun info h => hjid ⟨info, h⟩
      obtain ⟨a, ha, htext, -⟩ := asText_arrivalAt hno
      rw [ha, Option.bind_some, Arrival.asServer, htext, ofString_strOf hs,
        readsAsServer_of_no_jid hno]

/-- A string arrives exactly when it resolves. -/
theorem isSome_arrival (s : String) : (arrival T s).isSome ↔ Resolves T s := by
  unfold arrival Resolves
  have hcount := (ofString s).count_le_length (a := 64)
  by_cases hjid : ∃ info, hintOf T (ofString s) = .jid info
  · obtain ⟨info, hinfo⟩ := hjid
    have hparse := (at_mem_of_hintOf_jid hinfo).2
    have hserver := isSome_asServer_arrivalAt (T := T) (ofString s).length
      (splitJidFromMeta (ofString s) info).2 (valid_splitJidFromMeta (valid_ofString s) hparse).2
      (by have := (count_splitJidFromMeta hparse).2; omega)
    rw [arrivalAt_jid hinfo, Option.isSome_map, hserver]
    constructor
    · rintro hread info' hinfo'
      rw [hinfo] at hinfo'
      cases hinfo'
      exact hread
    · intro hall
      exact hall info hinfo
  · obtain ⟨a, ha, -⟩ := asText_arrivalAt (T := T) (s := ofString s)
      fun info h => hjid ⟨info, h⟩
    rw [ha]
    exact ⟨fun _ info hinfo => absurd ⟨info, hinfo⟩ hjid, fun _ => rfl⟩

end Resolve

/-! ## Which nodes arrive -/

section Nodes

variable (T : TokenTables)

theorem isSome_bind_iff {α β : Type} {o : Option α} {f : α → Option β} {P Q : Prop}
    (ho : o.isSome ↔ P) (hf : ∀ a, (f a).isSome ↔ Q) : (o >>= f).isSome ↔ P ∧ Q := by
  cases o with
  | none => simpa using fun hp : P => absurd (ho.mpr hp) (by simp)
  | some a =>
    have hp : P := ho.mp rfl
    exact (hf a).trans ⟨fun hq => ⟨hp, hq⟩, And.right⟩

theorem isSome_receivedValue (v : NodeValue) :
    (receivedValue T v).isSome ↔ ∀ s, Part.text s ∈ v.parts → Resolves T s := by
  cases v with
  | string s => simp [receivedValue, NodeValue.parts, isSome_arrival]
  | jid j => simp [receivedValue, receivedJid, NodeValue.parts, isSome_arrival]

theorem isSome_receivedAttrs (attrs : List (String × NodeValue)) :
    (receivedAttrs T attrs).isSome ↔ ∀ s, Part.text s ∈ attrsParts attrs → Resolves T s := by
  induction attrs with
  | nil => simp [receivedAttrs, attrsParts]
  | cons attr attrs ih =>
    obtain ⟨k, v⟩ := attr
    have hparts : (receivedAttrs T ((k, v) :: attrs)).isSome ↔
        Resolves T k ∧ (∀ s, Part.text s ∈ v.parts → Resolves T s) ∧
          (∀ s, Part.text s ∈ attrsParts attrs → Resolves T s) ∧ True :=
      isSome_bind_iff (isSome_arrival k) fun _ =>
        isSome_bind_iff (isSome_receivedValue T v) fun _ => isSome_bind_iff ih fun _ => by simp
    rw [hparts]
    simp [attrsParts, or_imp, forall_and]

mutual

/-- A node arrives exactly when all its strings resolve. -/
theorem isSome_received (node : Node) :
    (received T node).isSome ↔ ∀ s, Part.text s ∈ node.parts → Resolves T s := by
  obtain ⟨tag, attrs, content⟩ := node
  have hparts : (received T ⟨tag, attrs, content⟩).isSome ↔
      Resolves T tag ∧ (∀ s, Part.text s ∈ attrsParts attrs → Resolves T s) ∧
        (∀ s, Part.text s ∈ contentParts content → Resolves T s) ∧ True := by
    rw [received]
    exact isSome_bind_iff (isSome_arrival tag) fun _ =>
      isSome_bind_iff (isSome_receivedAttrs T attrs) fun _ =>
        isSome_bind_iff (isSome_receivedContent content) fun _ => by simp
  rw [hparts]
  simp [Node.parts, or_imp, forall_and]

theorem isSome_receivedContent (content : Option NodeContent) :
    (receivedContent T content).isSome ↔
      ∀ s, Part.text s ∈ contentParts content → Resolves T s := by
  match content with
  | none => simp [receivedContent, contentParts]
  | some (.bytes b) => simp [receivedContent, contentParts]
  | some (.string s) => simp [receivedContent, contentParts, isSome_arrival]
  | some (.nodes nodes) =>
    have hnodes := isSome_receivedNodes nodes
    simp only [receivedContent, contentParts, Option.isSome_map, List.mem_cons, reduceCtorEq,
      false_or]
    exact hnodes

theorem isSome_receivedNodes (nodes : List Node) :
    (receivedNodes T nodes).isSome ↔ ∀ s, Part.text s ∈ nodesParts nodes → Resolves T s := by
  match nodes with
  | [] => simp [receivedNodes, nodesParts]
  | node :: nodes =>
    have hparts : (receivedNodes T (node :: nodes)).isSome ↔
        (∀ s, Part.text s ∈ node.parts → Resolves T s) ∧
          (∀ s, Part.text s ∈ nodesParts nodes → Resolves T s) ∧ True := by
      rw [receivedNodes]
      exact isSome_bind_iff (isSome_received node) fun _ =>
        isSome_bind_iff (isSome_receivedNodes nodes) fun _ => by simp
    rw [hparts]
    simp [nodesParts, or_imp, forall_and]

end

end Nodes

/-! ## The normal form -/

section NormalForm

variable (T : TokenTables)

/-- A string content stays a string only when it is a token or packed. -/
def normalString (s : String) : NodeContent :=
  if s = "" ∨ PACKED_MAX < (ofString s).length ∨
      (T.indexOfToken (ofString s) = none ∧ ¬ validateNibble (ofString s) ∧
        ¬ validateHex (ofString s)) then
    .bytes (ofString s)
  else
    .string s

def normalJid (j : Jid) : Jid :=
  ⟨j.user, j.server, 0, if serverSupportsAdJid j.server then j.device else 0, 0⟩

def normalValue : NodeValue → NodeValue
  | .string s => .string s
  | .jid j => .jid (normalJid j)

mutual

def normalForm : Node → Node
  | ⟨tag, attrs, content⟩ =>
    ⟨tag, attrs.map fun (k, v) => (k, normalValue v), normalContent content⟩

def normalContent : Option NodeContent → Option NodeContent
  | none => none
  | some (.bytes b) => some (.bytes b)
  | some (.string s) => some (normalString T s)
  | some (.nodes nodes) => if nodes.isEmpty then none else some (.nodes (normalForms nodes))

def normalForms : List Node → List Node
  | [] => []
  | node :: nodes => normalForm node :: normalForms nodes

end

theorem receivedJid_of_no_at {j : Jid} (h : (64 : UInt8) ∉ ofString j.user) :
    receivedJid T j = some (normalJid j) := by
  obtain ⟨a, ha, htext, -⟩ := asText_arrivalAt_of_no_at (T := T) h
  rw [strOf_ofString] at htext
  rw [receivedJid, arrival, ha, Option.map_some, htext]
  rfl

theorem receivedValue_of_no_at {v : NodeValue}
    (h : ∀ s, Part.text s ∈ v.parts → (64 : UInt8) ∉ ofString s) :
    receivedValue T v = some (normalValue v).asValueRef := by
  cases v with
  | string s =>
    obtain ⟨a, ha, -, hvalue⟩ := asText_arrivalAt_of_no_at (T := T)
      (h s (by simp [NodeValue.parts]))
    rw [strOf_ofString] at hvalue
    rw [receivedValue, arrival, ha, Option.map_some, hvalue]
    rfl
  | jid j =>
    rw [receivedValue, receivedJid_of_no_at T (h j.user (by simp [NodeValue.parts]))]
    rfl

theorem receivedAttrs_of_no_at {attrs : List (String × NodeValue)}
    (h : ∀ s, Part.text s ∈ attrsParts attrs → (64 : UInt8) ∉ ofString s) :
    receivedAttrs T attrs =
      some ((attrs.map fun (k, v) => (k, normalValue v)).map fun (k, v) => (k, v.asValueRef)) := by
  induction attrs with
  | nil => rfl
  | cons attr attrs ih =>
    obtain ⟨k, v⟩ := attr
    simp only [attrsParts, List.mem_cons, List.mem_append] at h
    obtain ⟨a, ha, htext, -⟩ := asText_arrivalAt_of_no_at (T := T)
      (h k (.inl rfl))
    rw [receivedAttrs, arrival, ha, receivedValue_of_no_at T fun s hs => h s (.inr (.inl hs)),
      ih fun s hs => h s (.inr (.inr hs))]
    simp [htext]

theorem normalString_eq_string {s : String} (hne : ofString s ≠ [])
    (hlen : (ofString s).length ≤ PACKED_MAX)
    (h : T.indexOfToken (ofString s) = none → validateNibble (ofString s) ∨
      validateHex (ofString s)) : normalString T s = .string s := by
  refine if_neg ?_
  rintro (rfl | hlong | ⟨hnone, hnibble, hhex⟩)
  · exact hne rfl
  · omega
  · exact (h hnone).elim hnibble hhex

/-- The form in which a string content without an `@` arrives. -/
theorem asContent_arrival_of_no_at {s : String} (h : (64 : UInt8) ∉ ofString s) :
    (arrival T s).map Arrival.asContent = some (normalString T s).asContentRef := by
  have hspec := hintSpec_hintOf T (ofString s)
  have hjid : ∀ info, hintOf T (ofString s) ≠ .jid info :=
    fun info hinfo => h (at_mem_of_hintOf_jid hinfo).1
  rw [arrival, arrivalAt, strOf_ofString]
  generalize hintOf T (ofString s) = hint at hspec hjid ⊢
  cases hspec with
  | empty hempty =>
    have hnormal : normalString T s = .bytes (ofString s) :=
      if_pos (.inl (ofString_injective hempty))
    rw [hnormal]
    rfl
  | singleToken hne hlen hindex =>
    rw [normalString_eq_string T hne hlen fun hnone => by simp [hnone] at hindex]
    rfl
  | doubleToken hne hlen hindex =>
    rw [normalString_eq_string T hne hlen fun hnone => by simp [hnone] at hindex]
    rfl
  | packedNibble hne hvalid =>
    have hlen := of_decide_eq_true ((Bool.and_eq_true _ _).mp hvalid).1
    rw [normalString_eq_string T hne hlen fun _ => .inl hvalid]
    rfl
  | packedHex hne hvalid =>
    have hlen := of_decide_eq_true ((Bool.and_eq_true _ _).mp hvalid).1
    rw [normalString_eq_string T hne hlen fun _ => .inr hvalid]
    rfl
  | jid _ _ => exact absurd rfl (hjid _)
  | rawBytes hraw =>
    have hnormal : normalString T s = .bytes (ofString s) := if_pos (.inr hraw)
    rw [hnormal]
    rfl

mutual

/-- Without an `@` in its strings, a node arrives in its normal form. -/
theorem received_of_no_at (node : Node)
    (h : ∀ s, Part.text s ∈ node.parts → (64 : UInt8) ∉ ofString s) :
    received T node = some (normalForm T node).asNodeRef := by
  obtain ⟨tag, attrs, content⟩ := node
  simp only [Node.parts, List.mem_cons, List.mem_append] at h
  obtain ⟨a, ha, htext, -⟩ := asText_arrivalAt_of_no_at (T := T)
    (h tag (.inr (.inl rfl)))
  rw [strOf_ofString] at htext
  rw [received, arrival, ha, receivedAttrs_of_no_at T fun s hs => h s (.inr (.inr (.inl hs))),
    receivedContent_of_no_at content fun s hs => h s (.inr (.inr (.inr hs))), normalForm,
    Node.asNodeRef]
  simp [htext]

theorem receivedContent_of_no_at (content : Option NodeContent)
    (h : ∀ s, Part.text s ∈ contentParts content → (64 : UInt8) ∉ ofString s) :
    receivedContent T content = some (asContentRef? (normalContent T content)) := by
  match content with
  | none => rfl
  | some (.bytes b) => rfl
  | some (.string s) =>
    have hs := asContent_arrival_of_no_at T (h s (by simp [contentParts]))
    rw [receivedContent, normalContent, asContentRef?]
    cases harrival : arrival T s with
    | none => simp [harrival] at hs
    | some a =>
      rw [harrival, Option.map_some] at hs
      rw [Option.map_some, hs]
  | some (.nodes nodes) =>
    have hnodes := receivedNodes_of_no_at nodes fun s hs => h s (by simp [contentParts, hs])
    rw [receivedContent, hnodes]
    cases nodes with
    | nil => rfl
    | cons node nodes => rfl

theorem receivedNodes_of_no_at (nodes : List Node)
    (h : ∀ s, Part.text s ∈ nodesParts nodes → (64 : UInt8) ∉ ofString s) :
    receivedNodes T nodes = some (asNodeRefs (normalForms T nodes)) := by
  match nodes with
  | [] => rfl
  | node :: nodes =>
    simp only [nodesParts, List.mem_append] at h
    rw [receivedNodes, received_of_no_at node fun s hs => h s (.inl hs),
      receivedNodes_of_no_at nodes fun s hs => h s (.inr hs), normalForms]
    rfl

end

end NormalForm

end WaCore.Binary
