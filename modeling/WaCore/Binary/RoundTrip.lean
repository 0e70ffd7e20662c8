import WaCore.Binary.WireStrings

/-!
# Nodes over the wire

A node that is written and read again arrives as `received` has it: values,
attributes and contents first, then the tree.  The two results for whole frames
follow: a node whose strings have no `@` comes back in its normal form, and
which frames of the encoder the decoder accepts.
-/

namespace WaCore.Binary

open Utf8 ListParser

/-! ## Contents -/

/-- `readOpenContent` reads a string as the content it stands for. -/
theorem readsArrivals_readOpenContent (T : TokenTables) (d : Decoder) :
    ReadsArrivals T d (readOpenContent T d) fun a => .scalar a.asContent := by
  refine
    { jid := fun tag form htag input => ?_, packed := fun tag packing htag input => ?_,
      dictionary := fun tag dict htag input => ?_, single := fun tag token htag input => ?_,
      binary := fun tag width htag =>
        ⟨fun len => (fun b => .scalar (.bytes b)) <$> readBytes len, fun input => by
          rw [readOpenContent, readU8_bind, htag]
          simp only [readContentFromTag, htag, map_eq_pure_bind, bind_assoc, pure_bind],
          fun s => (reads_readBytes (ofString s)).map _⟩ }
  all_goals
    rw [readOpenContent, readU8_bind, htag]
    simp only [readContentFromTag, readValueAsStringFromTag, htag, map_eq_pure_bind, bind_assoc,
      pure_bind]
    rfl

theorem carried_bytesContent (T : TokenTables) (d : Decoder) {b : Bytes} (h : b.length < 2 ^ 32) :
    Carried True (writeBytesWithLen b) (readOpenContent T d) (some (.scalar (.bytes b))) := by
  refine carried_writeBytesWithLen h fun tag width htag => ?_
  refine ⟨fun len => (fun b => .scalar (.bytes b)) <$> readBytes len, fun input => ?_,
    (reads_readBytes b).map _⟩
  rw [readOpenContent, readU8_bind, htag]
  simp only [readContentFromTag, htag, map_eq_pure_bind, bind_assoc, pure_bind]

/-! ## List headers -/

/-- The bytes of a list header, and what they announce. -/
theorem writeListStart_eq {len : Nat} (h : len ≤ 65535) :
    ∃ tag lenBytes, writeListStart len = writeRawBytes (tag :: lenBytes) ∧
      Reads (readListSize tag) lenBytes (some len) ∧
      (Tag.ofByte tag = .listEmpty ∧ len = 0 ∧ lenBytes = [] ∨
        (Tag.ofByte tag = .list8 ∨ Tag.ofByte tag = .list16) ∧ len ≠ 0) := by
  unfold writeListStart
  split_ifs with h0 h8
  · subst h0
    exact ⟨LIST_EMPTY, [], rfl, fun _ => rfl, .inl ⟨by decide, rfl, rfl⟩⟩
  · have hread := (reads_readU8 (UInt8.ofNat len)).map UInt8.toNat
    rw [Option.map_some, UInt8.toNat_ofNat_of_lt' h8] at hread
    exact ⟨LIST_8, _, writeRawBytes_append _ _, hread, .inr ⟨.inl (by decide), h0⟩⟩
  · have hread := (reads_readU16Be (UInt16.ofNat len)).map UInt16.toNat
    rw [Option.map_some, UInt16.toNat_ofNat_of_lt' (Nat.lt_succ_of_le h)] at hread
    exact ⟨LIST_16, _, writeRawBytes_append _ _, hread, .inr ⟨.inr (by decide), h0⟩⟩

theorem writeListStart_throw {len : Nat} (h : ¬ len ≤ 65535) :
    writeListStart len = throw (.error .invalidNode) := by
  unfold writeListStart
  rw [if_neg (by omega), if_neg (by omega), if_neg h]

theorem carried_writeListStart (len : Nat) :
    Carried (len ≤ 65535) (writeListStart len) (readU8 >>= readListSize) (some len) := by
  by_cases h : len ≤ 65535
  · obtain ⟨tag, lenBytes, hwrite, hread, -⟩ := writeListStart_eq h
    rw [hwrite]
    exact (carried_raw ((reads_readU8 tag).bind hread)).congr (iff_of_true trivial h) rfl
  · rw [writeListStart_throw h]
    exact carried_throw h

/-- A list header read as a content; the empty list is no content. -/
theorem carried_listContent (T : TokenTables) (d : Decoder) (len : Nat) :
    Carried (len ≤ 65535) (writeListStart len) (readOpenContent T d)
      (some (if len = 0 then .none else .children len)) := by
  by_cases h : len ≤ 65535
  · obtain ⟨tag, lenBytes, hwrite, hread, hkind⟩ := writeListStart_eq h
    rw [hwrite]
    refine (carried_raw ?_).congr (iff_of_true trivial h) rfl
    refine (reads_readU8 tag).bind ?_
    rcases hkind with ⟨htag, rfl, rfl⟩ | ⟨htag | htag, hne⟩
    · rw [htag]
      exact reads_pure _
    · rw [htag, if_neg hne]
      exact hread.map _
    · rw [htag, if_neg hne]
      exact hread.map _
  · rw [writeListStart_throw h]
    exact carried_throw h

/-! ## Reading nodes -/

/-- The children of a node, after its head. -/
def readChildren (d : Decoder) (depth : Nat) (tag : String) (attrs : List (String × ValueRef)) :
    OpenContent → Dec NodeRef
  | .none => pure ⟨tag, attrs, none⟩
  | .scalar scalar => pure ⟨tag, attrs, some scalar⟩
  | .children count => do
    let nodes ← times (d.readNodeRefAt (depth + 1)) count
    pure ⟨tag, attrs, some (.nodes nodes)⟩

/-- A node after its list header. -/
def readNodeBody (T : TokenTables) (d : Decoder) (depth listSize : Nat) : Dec NodeRef := do
  let tag ← required .invalidNode d.readValueAsString
  let attrs ← readAttributes d ((listSize - 1) / 2)
  let content ← (if listSize % 2 = 0 then readOpenContent T d else pure .none)
  readChildren d depth tag attrs content

theorem readNodeRefAt_eq (T : TokenTables) (d : Decoder) {depth : Nat}
    (h : depth < MAX_NODE_DEPTH) :
    readNodeRefAt T d depth = (readU8 >>= readListSize) >>= fun listSize =>
      if listSize = 0 then fail .invalidNode else readNodeBody T d depth listSize := by
  rw [readNodeRefAt, if_neg (Nat.not_le.mpr h)]
  unfold readNodeOpen
  simp only [bind_assoc]
  refine bind_congr fun tag => bind_congr fun listSize => ?_
  split
  · rfl
  · simp only [readNodeBody, bind_assoc, pure_bind]
    refine bind_congr fun tag => bind_congr fun attrs => bind_congr fun content => ?_
    cases content <;> rfl

/-! ## Values and attributes -/

/-- What the encoder asks of a part of a node; it fails otherwise. -/
def Part.Encodable : Part → Prop
  | .text _ => True
  | .blob _ => True
  | .jid j => serverSupportsAdJid j.server → j.device.toNat ≤ 255
  | .list len => len ≤ 65535

/-- What the wire format asks of a part of a node, which nothing checks: the
four-byte length field, and that an interop JID is not sent to ourselves. -/
def Part.Sendable : Part → Prop
  | .text s => (ofString s).length < 2 ^ 32
  | .blob b => b.length < 2 ^ 32
  | .jid j => ¬ needsInteropJid j.server j.integrator
  | .list _ => True

section Values

variable {T : TokenTables}

theorem toUInt16_toUInt8 {v : UInt16} (h : v.toNat < 256) : v.toUInt8.toUInt16 = v := by
  apply UInt16.toNat_inj.mp
  rw [UInt8.toNat_toUInt16, UInt16.toNat_toUInt8]
  omega

theorem carried_writeJid {α : Type} {p : Dec α} {k : Arrival → α}
    (hp : ReadsArrivals T (fullDecoder T) p k) {j : Jid}
    (hinterop : ¬ needsInteropJid j.server j.integrator)
    (hlen : (ofString j.user).length < 2 ^ 32) :
    Carried (Part.Encodable (.jid j)) (writeJid T j) p
      ((receivedJid T j).map fun j => k (.jid j)) := by
  have huser : Carried True (writeString T j.user) (fullDecoder T).readValueAsString
      (((arrival T j.user).map Arrival.asText).map some) :=
    (carried_writeString (readsArrivals_full T) hlen).congr Iff.rfl (Option.map_map _ _ _).symm
  unfold writeJid
  rw [if_neg hinterop]
  by_cases had : 0 < j.device ∧ serverSupportsAdJid j.server
  · rw [if_pos had]
    by_cases hdevice : j.device.toNat < 256
    · have htag : Tag.ofByte AD_JID = .jid .ad := by decide
      rw [if_pos hdevice]
      refine (carried_jid hp htag (carried_readAdJid _ had.2 huser)).congr
        (iff_of_true trivial fun _ => by omega) ?_
      rw [toUInt16_toUInt8 hdevice, receivedJid, if_pos had.2]
      cases arrival T j.user <;> rfl
    · rw [if_neg hdevice]
      exact carried_throw fun h => hdevice (Nat.lt_succ_of_le (h had.2))
  · have hzero : (if serverSupportsAdJid j.server then j.device else 0) = 0 := by
      split
      · rename_i hserver
        have hpos : ¬ 0 < j.device := fun hpos => had ⟨hpos, hserver⟩
        exact UInt16.le_antisymm (UInt16.not_lt.mp hpos) UInt16.zero_le
      · rfl
    have hok : Part.Encodable (.jid j) := fun hserver => by
      rw [if_pos hserver] at hzero
      rw [hzero]
      decide
    have hlenServer := j.server.length_asStr_le
    have hserver := carried_writeString (readsArrivals_full T) (s := j.server.asStr) (by omega)
    obtain ⟨b, hb, hbtext, -⟩ := asText_arrivalAt_of_no_at (T := T)
      (n := (ofString j.server.asStr).length) j.server.at_not_mem_asStr
    rw [arrival, hb, Option.map_some, hbtext, strOf_ofString] at hserver
    obtain ⟨u, hu, hwriteUser⟩ := carried_user (j.user = "")
      ((arrival T j.user).map Arrival.asText) huser fun hempty => by rw [hempty]; rfl
    have htag : Tag.ofByte JID_PAIR = .jid .pair := by decide
    rw [if_neg had]
    refine (carried_jid hp htag (carried_readJidPair hwriteUser hserver)).congr
      (iff_of_true ⟨trivial, trivial⟩ hok) ?_
    rw [hu, receivedJid, hzero]
    cases arrival T j.user with
    | none => rfl
    | some a => simp

theorem readsArrivals_fullValue (T : TokenTables) :
    ReadsArrivals T (fullDecoder T) (fullDecoder T).readValue fun a => some a.asValue := by
  rw [full_readValue]
  exact readsArrivals_readValue T _

theorem carried_value {v : NodeValue} (h : ∀ part ∈ v.parts, part.Sendable) :
    Carried (∀ part ∈ v.parts, part.Encodable) (v.write T) (fullDecoder T).readValue
      ((receivedValue T v).map some) := by
  cases v with
  | string s =>
    have hs := carried_writeString (readsArrivals_fullValue T) (h (.text s) (by simp [NodeValue.parts]))
    refine hs.congr (by simp [NodeValue.parts, Part.Encodable]) ?_
    exact (Option.map_map _ _ _).symm
  | jid j =>
    have hj := carried_writeJid (readsArrivals_fullValue T) (h (.jid j) (by simp [NodeValue.parts]))
      (h (.text j.user) (by simp [NodeValue.parts]))
    refine hj.congr (by simp [NodeValue.parts, Part.Encodable]) ?_
    exact (Option.map_map _ _ _).symm

/-- A string read where one is required: tags and keys. -/
theorem carried_requiredString (e : BinaryError) {s : String}
    (hlen : (ofString s).length < 2 ^ 32) :
    Carried True (writeString T s) (required e (fullDecoder T).readValueAsString)
      ((arrival T s).map Arrival.asText) := by
  refine ((carried_writeString (readsArrivals_full T) hlen).congr Iff.rfl ?_).required
  exact (Option.map_map _ _ _).symm

theorem carried_attrs {attrs : List (String × NodeValue)}
    (h : ∀ part ∈ attrsParts attrs, part.Sendable) :
    Carried (∀ part ∈ attrsParts attrs, part.Encodable)
      (encodeAttrs T (NodeValue.write T) attrs) (readAttributes (fullDecoder T) attrs.length)
      (receivedAttrs T attrs) := by
  induction attrs with
  | nil => exact (carried_pure (reads_pure [])).congr (by simp [attrsParts]) rfl
  | cons attr attrs ih =>
    obtain ⟨k, v⟩ := attr
    simp only [attrsParts, List.forall_mem_cons, List.forall_mem_append] at h ⊢
    obtain ⟨hk, hv, hrest⟩ := h
    have hread : readAttributes (fullDecoder T) ((k, v) :: attrs).length = (do
        let key ← required .nonStringKey (fullDecoder T).readValueAsString
        let value ← (fullDecoder T).readValue
        let rest ← readAttributes (fullDecoder T) attrs.length
        pure ((key, value.getD (.string "")) :: rest)) := by
      simp only [readAttributes, List.length_cons, times, readAttribute, bind_assoc, pure_bind]
    rw [hread, encodeAttrs]
    have hall := (carried_requiredString (T := T) .nonStringKey hk).bind fun key =>
      (carried_value (T := T) hv).bind fun value => (ih hrest).post fun rest _ =>
        reads_pure ((key, value.getD (.string "")) :: rest)
    refine hall.congr (by rfl) ?_
    rw [receivedAttrs]
    cases arrival T k <;> cases receivedValue T v <;> cases receivedAttrs T attrs <;> rfl

end Values

/-! ## Nodes -/

section Nodes

variable (T : TokenTables)

theorem nodeListLen_spec (attrsLen : Nat) (hasContent : Bool) :
    nodeListLen attrsLen hasContent ≠ 0 ∧
      (nodeListLen attrsLen hasContent - 1) / 2 = attrsLen ∧
      (nodeListLen attrsLen hasContent % 2 = 0 ↔ hasContent = true) := by
  have hbit : hasContent.toNat = if hasContent = true then 1 else 0 := by cases hasContent <;> rfl
  unfold nodeListLen
  rw [hbit]
  split_ifs with hcontent
  · exact ⟨by omega, by omega, iff_of_true (by omega) hcontent⟩
  · exact ⟨by omega, by omega, iff_of_false (by omega) hcontent⟩

instance : Inhabited NodeRef := ⟨⟨"", [], none⟩⟩

mutual

/-- A node arrives as `received` says, at any depth that leaves room for it. -/
theorem carried_writeNode (node : Node) (depth : Nat) (hdepth : depth + node.depth ≤ MAX_NODE_DEPTH)
    (h : ∀ part ∈ node.parts, part.Sendable) :
    Carried (∀ part ∈ node.parts, part.Encodable) (writeNode T node)
      ((fullDecoder T).readNodeRefAt depth) (received T node) := by
  obtain ⟨tag, attrs, content⟩ := node
  obtain ⟨hne, hattrs, hcontent⟩ := nodeListLen_spec attrs.length content.isSome
  rw [Node.depth] at hdepth
  simp only [Node.parts, List.forall_mem_cons, List.forall_mem_append] at h ⊢
  obtain ⟨-, htag, hsendAttrs, hsendContent⟩ := h
  rw [full_readNodeRefAt, readNodeRefAt_eq T _ (by omega), writeNode]
  have hbody := (carried_requiredString (T := T) .invalidNode htag).bind fun tag =>
    (carried_attrs (T := T) hsendAttrs).bind fun attrs =>
      carried_encodeContent content depth tag attrs (by omega) hsendContent
  have hnode := (carried_writeListStart (nodeListLen attrs.length content.isSome)).bind_some
    (f := fun listSize => if listSize = 0 then fail .invalidNode
      else readNodeBody T (fullDecoder T) depth listSize) (r := received T ⟨tag, attrs, content⟩)
    (by
      rw [if_neg hne, readNodeBody, hattrs]
      simp only [hcontent]
      refine hbody.congr Iff.rfl ?_
      rw [received]
      cases arrival T tag <;> cases receivedAttrs T attrs <;> cases receivedContent T content <;>
        rfl)
  exact hnode.congr (by simp [Part.Encodable]) rfl

theorem carried_encodeContent (content : Option NodeContent) (depth : Nat) (tag : String)
    (attrs : List (String × ValueRef))
    (hdepth : depth + 1 + contentDepth content ≤ MAX_NODE_DEPTH)
    (h : ∀ part ∈ contentParts content, part.Sendable) :
    Carried (∀ part ∈ contentParts content, part.Encodable) (encodeContent T content)
      ((if content.isSome then readOpenContent T (fullDecoder T) else pure .none) >>=
        readChildren (fullDecoder T) depth tag attrs)
      ((receivedContent T content).map fun content => ⟨tag, attrs, content⟩) := by
  match content with
  | none => exact (carried_pure (reads_pure _)).congr (by simp [contentParts]) rfl
  | some (.bytes b) =>
    have hb := (carried_bytesContent T (fullDecoder T) (h (.blob b) (by simp [contentParts]))).post
      (f := readChildren (fullDecoder T) depth tag attrs)
      (g := fun _ => some ⟨tag, attrs, some (.bytes b)⟩) (by rintro _ ⟨⟩; exact reads_pure _)
    exact hb.congr (by simp [contentParts, Part.Encodable]) rfl
  | some (.string s) =>
    have hs := (carried_writeString (readsArrivals_readOpenContent T (fullDecoder T))
      (h (.text s) (by simp [contentParts]))).post
      (f := readChildren (fullDecoder T) depth tag attrs)
      (g := fun c => match c with
        | .scalar scalar => some ⟨tag, attrs, some scalar⟩
        | _ => none)
      (by
        intro c hc
        obtain ⟨a, -, rfl⟩ := Option.map_eq_some_iff.mp hc
        exact reads_pure _)
    refine hs.congr (by simp [contentParts, Part.Encodable]) ?_
    rw [receivedContent]
    cases arrival T s <;> rfl
  | some (.nodes nodes) =>
    simp only [contentDepth, NodeContent.depth] at hdepth
    simp only [contentParts, List.forall_mem_cons] at h ⊢
    have hnodes := carried_writeNodes nodes (depth + 1) hdepth h.2
    rw [encodeContent]
    refine (carried_listContent T (fullDecoder T) nodes.length).bind_some ?_
    rw [receivedContent]
    match nodes with
    | [] => exact (carried_pure (reads_pure _)).congr (by simp [nodesParts]) rfl
    | node :: nodes =>
      refine (hnodes.post fun nodes _ =>
        reads_pure (⟨tag, attrs, some (.nodes nodes)⟩ : NodeRef)).congr Iff.rfl ?_
      rw [receivedNodes]
      cases received T node <;> cases receivedNodes T nodes <;> rfl

theorem carried_writeNodes (nodes : List Node) (depth : Nat)
    (hdepth : depth + nodesDepth nodes ≤ MAX_NODE_DEPTH)
    (h : ∀ part ∈ nodesParts nodes, part.Sendable) :
    Carried (∀ part ∈ nodesParts nodes, part.Encodable) (writeNodes T nodes)
      (times ((fullDecoder T).readNodeRefAt depth) nodes.length) (receivedNodes T nodes) := by
  match nodes with
  | [] => exact (carried_pure (reads_pure [])).congr (by simp [nodesParts]) rfl
  | node :: nodes =>
    rw [nodesDepth] at hdepth
    simp only [nodesParts, List.forall_mem_append] at h ⊢
    have hnode := carried_writeNode node depth (by omega) h.1
    have hnodes := carried_writeNodes nodes depth (by omega) h.2
    rw [writeNodes, List.length_cons, times, receivedNodes]
    exact hnode.bind fun node => hnodes.post fun nodes _ => reads_pure (node :: nodes)

end

/-! ## Frames -/

theorem marshalToVec_of_appends {write : Enc Unit} {out : Except Fault Bytes}
    (h : Appends none none write out) : marshalToVec write = out.map (FORMAT_PLAIN :: ·) := by
  show (write ⟨[FORMAT_PLAIN], none⟩ >>= fun r => pure r.2.writer) = _
  rw [h]
  rcases out with e | bytes <;> rfl

/-- Reading a frame that holds exactly one node. -/
theorem unmarshalPackedRef_of_reads {bytes : Bytes} {r : Option NodeRef}
    (h : Reads ((fullDecoder T).readNodeRefAt 0) bytes r) :
    (unmarshalPackedRef (fullDecoder T) (FORMAT_PLAIN :: bytes)).toOption = r := by
  have hnil : (fullDecoder T).readNodeRefAt 0 [] = .error (.error .unexpectedEof) := by
    rw [full_readNodeRefAt]
    rfl
  by_cases hbytes : bytes = []
  · subst hbytes
    cases r with
    | none => rfl
    | some node =>
      have hread := h []
      rw [List.nil_append, hnil] at hread
      cases hread
  · have hcheck : checkPlainPayload (FORMAT_PLAIN :: bytes) = .ok () := by
      simp [checkPlainPayload, hbytes]
    rw [unmarshalPackedRef, hcheck]
    show (unmarshalRef (fullDecoder T) bytes).toOption = r
    rw [unmarshalRef]
    cases r with
    | none =>
      obtain ⟨e, he⟩ := h []
      rw [List.append_nil] at he
      rw [he]
      rfl
    | some node =>
      have hread := h []
      rw [List.append_nil] at hread
      rw [hread]
      rfl

/-- The encoder succeeds exactly on the nodes with encodable parts, and the
decoder then makes of the frame what `received` says. -/
theorem marshal_received {node : Node} (hdepth : node.depth ≤ MAX_NODE_DEPTH)
    (h : ∀ part ∈ node.parts, part.Sendable) :
    ((∃ bytes, marshal T node = .ok bytes) ↔ ∀ part ∈ node.parts, part.Encodable) ∧
      ∀ bytes, marshal T node = .ok bytes →
        (unmarshalPackedRef (fullDecoder T) bytes).toOption = received T node := by
  obtain ⟨out, hwrite, hout, hread⟩ := carried_writeNode T node 0 (by omega) h
  rw [marshal, marshalToVec_of_appends hwrite, ← hout]
  rcases out with e | bytes
  · refine ⟨⟨?_, ?_⟩, ?_⟩
    · rintro ⟨bytes, hbytes⟩
      cases hbytes
    · rintro ⟨bytes, hbytes⟩
      cases hbytes
    · rintro bytes ⟨⟩
  · refine ⟨⟨fun _ => ⟨bytes, rfl⟩, fun _ => ⟨_, rfl⟩⟩, ?_⟩
    rintro _ ⟨⟩
    exact unmarshalPackedRef_of_reads T (hread bytes rfl)

/-- A node without an `@` in its strings comes back in its normal form, as long
as its wire lists and its byte and string lengths fit their fields, and no JID
is one that the encoder or the decoder has no form for. -/
theorem unmarshal_marshal (node : Node) (hdepth : node.depth ≤ 128)
    (hlists : ∀ len, Part.list len ∈ node.parts → len ≤ 65535)
    (hblobs : ∀ b, Part.blob b ∈ node.parts → b.length < 2 ^ 32)
    (htexts : ∀ s, Part.text s ∈ node.parts →
      (ofString s).length < 2 ^ 32 ∧ (64 : UInt8) ∉ ofString s)
    (hjids : ∀ j, Part.jid j ∈ node.parts → ¬ needsInteropJid j.server j.integrator ∧
      (serverSupportsAdJid j.server → j.device.toNat ≤ 255)) :
    ∃ bytes, marshal T node = .ok bytes ∧
      unmarshalPackedRef (fullDecoder T) bytes = .ok (normalForm T node).asNodeRef := by
  have hsendable : ∀ part ∈ node.parts, part.Sendable := by
    rintro (s | b | j | len) hpart
    · exact (htexts s hpart).1
    · exact hblobs b hpart
    · exact (hjids j hpart).1
    · trivial
  have hencodable : ∀ part ∈ node.parts, part.Encodable := by
    rintro (s | b | j | len) hpart
    · trivial
    · trivial
    · exact (hjids j hpart).2
    · exact hlists len hpart
  obtain ⟨hok, hread⟩ := marshal_received T hdepth hsendable
  obtain ⟨bytes, hbytes⟩ := hok.mpr hencodable
  refine ⟨bytes, hbytes, ?_⟩
  have hreceived := hread bytes hbytes
  rw [received_of_no_at T node fun s hs => (htexts s hs).2] at hreceived
  cases hrun : unmarshalPackedRef (fullDecoder T) bytes with
  | error e => rw [hrun] at hreceived; cases hreceived
  | ok ref =>
    rw [hrun] at hreceived
    cases hreceived
    rfl

/-- A node with every kind of content, a JID among its attributes. -/
def sampleNode : Node :=
  ⟨"iq", [("id", .string "12-3"), ("to", .jid ⟨"123", .pn, 2, 5, 0⟩)],
    some (.nodes [⟨"a", [], some (.string "read-self")⟩, ⟨"b", [], some (.string "text")⟩,
      ⟨"c", [], some (.bytes [1, 2])⟩, ⟨"d", [], some (.nodes [])⟩])⟩

theorem unmarshal_marshal_sampleNode :
    ∃ bytes, marshal sampleTables sampleNode = .ok bytes ∧
      unmarshalPackedRef (fullDecoder sampleTables) bytes =
        .ok (normalForm sampleTables sampleNode).asNodeRef := by
  refine unmarshal_marshal sampleTables sampleNode (by decide) ?_ ?_ ?_ ?_
  all_goals
    simp only [sampleNode, Node.parts, attrsParts, contentParts, nodesParts, NodeValue.parts]
    simp
  all_goals decide

/-! ### A length that does not fit

`write_bytes_with_len` writes `len as u32`, so a string of `2^32` bytes goes out
with the length zero. -/

/-- The head of a node without attributes whose tag has the length zero. -/
def zeroTagHead : Bytes := [LIST_8, 1, BINARY_32, 0, 0, 0, 0]

theorem writeBytesWithLen_wraps {b : Bytes} (h : b.length = 2 ^ 32) :
    writeBytesWithLen b = writeRawBytes ([BINARY_32, 0, 0, 0, 0] ++ b) := by
  have hlen : writeBinaryLen (2 ^ 32) = writeRawBytes [BINARY_32, 0, 0, 0, 0] := by
    unfold writeBinaryLen
    rw [if_neg (by decide), if_neg (by decide)]
    exact writeRawBytes_append [BINARY_32] [0, 0, 0, 0]
  rw [writeBytesWithLen, h, hlen, writeRawBytes_append]

theorem appends_longTag {tag : String} (h : (ofString tag).length = 2 ^ 32) :
    Appends none none (writeNode T ⟨tag, [], none⟩) (.ok (zeroTagHead ++ ofString tag)) := by
  have hhint : hintOf T (ofString tag) = .rawBytes := if_pos (by rw [h]; decide)
  have hstring : Appends none none (writeString T tag)
      (.ok ([BINARY_32, 0, 0, 0, 0] ++ ofString tag)) := by
    intro written
    rw [writeString, writeStringAt_plain, hhint]
    show writeBytesWithLen (ofString tag) ⟨written, none⟩ = _
    rw [writeBytesWithLen_wraps h]
    rfl
  have hlist : writeListStart 1 = writeRawBytes [LIST_8, 1] :=
    writeRawBytes_append [LIST_8] [1]
  have hnode : writeNode T ⟨tag, [], none⟩ = (do writeRawBytes [LIST_8, 1]; writeString T tag) := by
    rw [← hlist, writeNode]
    show (writeListStart 1 >>= fun _ => writeString T tag >>= fun _ => pure () >>= fun _ =>
      pure ()) = _
    simp only [bind_pure_unit]
  rw [hnode]
  exact (appends_writeRawBytes none _).bind hstring

/-- The receiver takes the tag to be empty and the bytes of the tag to be left
over. -/
theorem unmarshalRef_zeroTagHead {rest : Bytes} (h : rest ≠ []) :
    unmarshalRef (fullDecoder T) (zeroTagHead ++ rest) =
      .error (.error (.leftoverData rest.length)) := by
  have hsize : Reads (readSize .binary32) [0, 0, 0, 0] (some 0) :=
    (reads_readU32Be 0).map UInt32.toNat
  obtain ⟨q, hq, hread⟩ := (readsArrivals_full T).binary BINARY_32 .binary32 (by decide)
  have htag : Reads (fullDecoder T).readValueAsString [BINARY_32, 0, 0, 0, 0]
      (some (some "")) := fun rest => (hq _).trans ((hsize.bind (hread "")) rest)
  have hlist : Reads (readU8 >>= readListSize) [LIST_8, 1] (some 1) := fun _ => rfl
  have hnode : Reads ((fullDecoder T).readNodeRefAt 0) zeroTagHead (some ⟨"", [], none⟩) := by
    rw [full_readNodeRefAt, readNodeRefAt_eq T _ (by decide)]
    refine hlist.bind ?_
    have hrequired : Reads (required .invalidNode (fullDecoder T).readValueAsString)
        [BINARY_32, 0, 0, 0, 0] (some "") :=
      htag.post (g := fun _ => some "") (by rintro _ ⟨⟩; exact reads_pure "")
    rw [if_neg (by decide), readNodeBody]
    exact hrequired.post (g := fun tag => some (⟨tag, [], none⟩ : NodeRef)) fun tag _ _ => rfl
  have hrun := hnode rest
  rw [unmarshalRef, hrun]
  cases rest with
  | nil => exact absurd rfl h
  | cons b rest => rfl

/-- Bounding the contents of a node is not enough for the round trip: a tag of
`2^32` bytes is written, and the frame is not accepted. -/
theorem longTag_rejected :
    ∃ tag : String, (ofString tag).length = 2 ^ 32 ∧ (64 : UInt8) ∉ ofString tag ∧
      ∃ bytes, marshal sampleTables ⟨tag, [], none⟩ = .ok bytes ∧
        unmarshalPackedRef (fullDecoder sampleTables) bytes =
          .error (.error (.leftoverData (2 ^ 32))) := by
  have hvalid : Valid (List.replicate (2 ^ 32) 97) :=
    valid_of_ascii fun b hb => by rw [List.eq_of_mem_replicate hb]; decide
  obtain ⟨tag, htag⟩ := hvalid.exists_string
  have hlen : (ofString tag).length = 2 ^ 32 := by rw [htag, List.length_replicate]
  have hne : ofString tag ≠ [] := fun hnil => by rw [hnil] at hlen; cases hlen
  refine ⟨tag, hlen, fun hmem => ?_, _,
    marshalToVec_of_appends (appends_longTag sampleTables hlen), ?_⟩
  · rw [htag] at hmem
    exact absurd (List.eq_of_mem_replicate hmem) (by decide)
  · rw [← hlen]
    exact unmarshalRef_zeroTagHead sampleTables hne

/-- Which frames of the encoder the decoder accepts: those of the nodes whose
strings all resolve. -/
theorem marshal_accepted_iff (node : Node) (hdepth : node.depth ≤ 128)
    (hshort : ∀ s, Part.text s ∈ node.parts → (ofString s).length < 2 ^ 32)
    (hblobs : ∀ b, Part.blob b ∈ node.parts → b.length < 2 ^ 32)
    (hjids : ∀ j, Part.jid j ∈ node.parts → ¬ needsInteropJid j.server j.integrator) :
    (∀ bytes, marshal T node = .ok bytes →
        ∃ ref, unmarshalPackedRef (fullDecoder T) bytes = .ok ref) ↔
      ((∀ part ∈ node.parts, part.Encodable) →
        ∀ s, Part.text s ∈ node.parts → Resolves T s) := by
  have hsendable : ∀ part ∈ node.parts, part.Sendable := by
    rintro (s | b | j | len) hpart
    · exact hshort s hpart
    · exact hblobs b hpart
    · exact hjids j hpart
    · trivial
  obtain ⟨hok, hread⟩ := marshal_received T hdepth hsendable
  rw [← hok, ← isSome_received T node]
  constructor
  · rintro haccepted ⟨bytes, hbytes⟩
    obtain ⟨ref, href⟩ := haccepted bytes hbytes
    rw [← hread bytes hbytes, href]
    rfl
  · intro hreceived bytes hbytes
    obtain ⟨ref, href⟩ := Option.isSome_iff_exists.mp (hreceived ⟨bytes, hbytes⟩)
    rw [← hread bytes hbytes] at href
    cases hrun : unmarshalPackedRef (fullDecoder T) bytes with
    | error e => rw [hrun] at href; cases href
    | ok ref' => exact ⟨ref', rfl⟩

end Nodes

theorem resolves_of_no_at (T : TokenTables) {s : String} (h : (64 : UInt8) ∉ ofString s) :
    Resolves T s :=
  fun _ hinfo => absurd (at_mem_of_hintOf_jid hinfo).1 h

/-- A JID attribute in its legacy spelling, and one that names its server
through an empty JID. -/
def knownServerNode : Node := ⟨"iq", [("to", .string "x@c.us"), ("by", .string "x@@lid")], none⟩

theorem knownServerNode_accepted :
    ∃ bytes, marshal sampleTables knownServerNode = .ok bytes ∧
      ∃ ref, unmarshalPackedRef (fullDecoder sampleTables) bytes = .ok ref := by
  have hlegacy : Resolves sampleTables "x@c.us" := by
    have hhint : hintOf sampleTables (ofString "x@c.us") = .jid ⟨1, 2, none, some .pn⟩ := by
      decide +kernel
    intro info hinfo
    cases hhint.symm.trans hinfo
    exact .known (by decide)
  have hnested : Resolves sampleTables "x@@lid" := by
    have hhint : hintOf sampleTables (ofString "x@@lid") = .jid ⟨1, 2, none, none⟩ := by
      decide +kernel
    have hsuffix : hintOf sampleTables (ofString "@lid") = .jid ⟨0, 1, none, some .lid⟩ := by
      decide +kernel
    intro info hinfo
    cases hhint.symm.trans hinfo
    exact .nested hsuffix rfl (.known (by decide))
  obtain ⟨bytes, hbytes⟩ : ∃ bytes, marshal sampleTables knownServerNode = .ok bytes := ⟨_, rfl⟩
  refine ⟨bytes, hbytes, (marshal_accepted_iff sampleTables knownServerNode (by decide)
    ?_ ?_ ?_).mpr ?_ bytes hbytes⟩
  · simp only [knownServerNode, Node.parts, attrsParts, contentParts, NodeValue.parts]
    simp
    decide
  · simp [knownServerNode, Node.parts, attrsParts, contentParts, NodeValue.parts]
  · simp [knownServerNode, Node.parts, attrsParts, contentParts, NodeValue.parts]
  · intro _
    simp only [knownServerNode, Node.parts, attrsParts, contentParts, NodeValue.parts]
    simp [hlegacy, hnested, resolves_of_no_at, show (64 : UInt8) ∉ ofString "iq" by decide,
      show (64 : UInt8) ∉ ofString "to" by decide, show (64 : UInt8) ∉ ofString "by" by decide]

/-- An attribute that is an unknown JID, as in `to="x@y"`. -/
def unknownServerNode : Node := ⟨"iq", [("to", .string "x@y")], none⟩

def unknownServerFrame : Bytes := [0, 248, 3, 1, 252, 2, 116, 111, 250, 252, 1, 120, 252, 1, 121]

/-- The encoder writes it as a JID, and the decoder rejects the frame. -/
theorem unknownServerFrame_rejected :
    marshal sampleTables unknownServerNode = .ok unknownServerFrame ∧
      unmarshalPackedRef (fullDecoder sampleTables) unknownServerFrame =
        .error (.error (.attrParse "JID_PAIR unknown server: y")) := by
  refine ⟨by decide +kernel, ?_⟩
  rfl

end WaCore.Binary
