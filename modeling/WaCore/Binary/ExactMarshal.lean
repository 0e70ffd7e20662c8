import WaCore.Binary.Encoder

/-!
# The exact marshaller agrees with the plain one

`marshal_exact` makes two passes: a plan, which computes the size of the output
and records a hint for each string, and the writers, which then take each hint
from the tape instead of classifying the string again.

`Planned base plan write` relates the two passes over one piece of a node.
Whatever the tape already holds, the plan adds the same hints to it; the writer
does the same with these hints under the cursor as it does without a tape, and
uses up exactly them; and the plan's result is `base` plus the number of bytes
written.  The rules that follow build it up along the two recursions, which
have to visit strings in the same order for them to apply.
-/

namespace WaCore.Binary

open Utf8

/-- Whatever is on the tape, the plan adds these hints and returns this size. -/
def Plans (plan : Plan Nat) (size : Nat) (hints : List StringHint) : Prop :=
  ∀ tape : StringHintCache, plan tape = (size, { tape with hints := tape.hints ++ hints })

/-- The writer appends the same bytes, or fails with the same fault, without a
tape and with exactly these hints under the cursor of one. -/
def Writes (write : Enc Unit) (hints : List StringHint) (out : Except Fault Bytes) : Prop :=
  Appends none none write out ∧
    ∀ before after, Appends (some ⟨before ++ (hints ++ after), before.length⟩)
      (some ⟨before ++ (hints ++ after), before.length + hints.length⟩) write out

/-- The faults a writer can end with. -/
def WriteFault (e : Fault) : Prop :=
  e = .error .invalidNode ∨ ∃ message, e = .error (.attrParse message)

/-- The output has the planned number of bytes, or the fault is an expected one. -/
def AsPlanned (base size : Nat) : Except Fault Bytes → Prop
  | .ok bytes => base + bytes.length = size
  | .error e => WriteFault e

/-- The two passes over one piece of a node agree. -/
def Planned (base : Nat) (plan : Plan Nat) (write : Enc Unit) : Prop :=
  ∃ size hints out, Plans plan size hints ∧ Writes write hints out ∧ AsPlanned base size out

/-! ## The two passes step by step -/

theorem plans_pure (size : Nat) : Plans (pure size) size [] := by
  intro tape
  show (size, tape) = (size, { tape with hints := tape.hints ++ [] })
  rw [List.append_nil]

theorem Plans.bind {plan : Plan Nat} {f : Nat → Plan Nat} {size size' : Nat}
    {hints hints' : List StringHint} (hp : Plans plan size hints)
    (hf : Plans (f size) size' hints') : Plans (plan >>= f) size' (hints ++ hints') := by
  intro tape
  show f (plan tape).1 (plan tape).2 = _
  rw [hp tape]
  rw [hf]
  simp only [List.append_assoc]

theorem writes_pure : Writes (pure ()) [] (.ok []) :=
  ⟨appends_pure _, fun _ _ => appends_pure _⟩

theorem writes_throw (e : Fault) (hints : List StringHint) : Writes (throw e) hints (.error e) :=
  ⟨appends_throw _ _ e, fun _ _ => appends_throw _ _ e⟩

theorem writes_writeRawBytes (bytes : Bytes) : Writes (writeRawBytes bytes) [] (.ok bytes) :=
  ⟨appends_writeRawBytes _ bytes, fun _ _ => appends_writeRawBytes _ bytes⟩

variable {write' : Enc Unit} {s : Bytes} {packing : Packing}

theorem Writes.bind {write : Enc Unit} {hints hints' : List StringHint}
    {out out' : Except Fault Bytes} (hw : Writes write hints out) (hw' : Writes write' hints' out') :
    Writes (write >>= fun _ => write') (hints ++ hints') (andThen out out') := by
  refine ⟨hw.1.bind hw'.1, fun before after => ?_⟩
  have hfirst := hw.2 before (hints' ++ after)
  have hsecond := hw'.2 (before ++ hints) after
  rw [List.length_append, List.append_assoc] at hsecond
  rw [List.append_assoc, List.length_append, ← Nat.add_assoc]
  exact hfirst.bind hsecond

theorem AsPlanned.andThen {base size size' : Nat} {out out' : Except Fault Bytes}
    (h : AsPlanned 0 size out) (h' : AsPlanned (base + size) size' out') :
    AsPlanned base size' (andThen out out') := by
  rcases out with e | b
  · exact h
  rcases out' with e | b'
  · exact h'
  show base + (b ++ b').length = size'
  simp only [AsPlanned] at h h'
  rw [List.length_append]
  omega

/-! ## Rules for the two passes -/

section Rules

variable {base : Nat} {plan : Plan Nat} {write : Enc Unit}

theorem planned_pure {size : Nat} (h : base = size) : Planned base (pure size) (pure ()) :=
  ⟨size, [], .ok [], plans_pure size, writes_pure, h⟩

/-- A writer that fails agrees with a plan that does something. -/
theorem Planned.throw {base' : Nat} {e : Fault} (h : Planned base' plan write') (he : WriteFault e)
    : Planned base plan (throw e) := by
  obtain ⟨size, hints, -, hplan, -, -⟩ := h
  exact ⟨size, hints, .error e, hplan, writes_throw e hints, he⟩

/-- Two pieces after each other, in both passes. -/
theorem Planned.bind {plan' : Nat → Plan Nat} (h : Planned 0 plan write)
    (h' : ∀ size, Planned (base + size) (plan' size) write') :
    Planned base (plan >>= plan') (write >>= fun _ => write') := by
  obtain ⟨size, hints, out, hplan, hwrite, hout⟩ := h
  obtain ⟨size', hints', out', hplan', hwrite', hout'⟩ := h' size
  exact ⟨size', hints ++ hints', _, hplan.bind hplan', hwrite.bind hwrite', hout.andThen hout'⟩

/-- The last piece: the plan adds its size to what it has. -/
theorem Planned.last {f : Nat → Nat} (h : Planned 0 plan write)
    (hf : ∀ size, base + size = f size) :
    Planned base (plan >>= fun size => pure (f size)) write := by
  have hdone : Planned base (plan >>= fun size => pure (f size)) (write >>= fun _ => pure ()) :=
    h.bind fun size => planned_pure (hf size)
  rwa [bind_pure_unit] at hdone

theorem planned_writeRawBytes {bytes : Bytes} {size : Nat} (h : base + bytes.length = size) :
    Planned base (pure size) (writeRawBytes bytes) :=
  ⟨size, [], .ok bytes, plans_pure size, writes_writeRawBytes bytes, h⟩

/-- Bytes that are written without a step of the plan. -/
theorem Planned.raw {bytes : Bytes} (h : Planned (base + bytes.length) plan write) :
    Planned base plan (writeRawBytes bytes >>= fun _ => write) := by
  obtain ⟨size, hints, out, hplan, hwrite, hout⟩ := h
  have hraw : AsPlanned 0 bytes.length (.ok bytes) := Nat.zero_add _
  exact ⟨size, hints, _, hplan, (writes_writeRawBytes bytes).bind hwrite, hraw.andThen hout⟩

/-- A list header, whose size the plan adds elsewhere. -/
theorem Planned.listStart {len : Nat} (h : Planned (base + listStartEncodedSize len) plan write) :
    Planned base plan (writeListStart len >>= fun _ => write) := by
  unfold listStartEncodedSize at h
  unfold writeListStart
  split_ifs at h ⊢
  · exact h.raw
  · exact .raw (.raw h)
  · exact .raw (.raw h)
  · exact h.throw (.inl rfl)

end Rules

/-! ## Byte strings and packed strings -/

theorem planned_writeBytesWithLen (bytes : Bytes) :
    Planned 0 (pure (bytesWithLenEncodedSize bytes.length)) (writeBytesWithLen bytes) := by
  unfold bytesWithLenEncodedSize binaryLenPrefixSize writeBytesWithLen writeBinaryLen
  split_ifs
  all_goals
    exact .raw (.raw (planned_writeRawBytes (by simp)))

theorem length_packPairs (table : UInt8 → UInt8) (s : Bytes) :
    (packPairs table s).length = (s.length + 1) / 2 := by
  induction s using packPairs.induct with
  | case1 => rfl
  | case2 last => simp [packPairs]
  | case3 hi lo rest ih =>
    simp only [packPairs, List.length_cons]
    omega

/-- Whether a packing has a nibble for a character. -/
def packsChar : Packing → UInt8 → Bool
  | .nibble, b => isAsciiDigit b || b = 45 || b = 46
  | .hex, b => isAsciiDigit b || (65 ≤ b && b ≤ 70)

/-- The strings that a packing is chosen for. -/
def Packable (packing : Packing) (s : Bytes) : Prop :=
  s.length ≤ PACKED_MAX ∧ ∀ b ∈ s, packsChar packing b

theorem packable_nibble (h : validateNibble s) : Packable .nibble s := by
  obtain ⟨hlen, hall⟩ := (Bool.and_eq_true _ _).mp h
  exact ⟨of_decide_eq_true hlen, List.all_eq_true.mp hall⟩

theorem packable_hex (h : validateHex s) : Packable .hex s := by
  obtain ⟨hlen, hall⟩ := (Bool.and_eq_true _ _).mp h
  exact ⟨of_decide_eq_true hlen, List.all_eq_true.mp hall⟩

theorem packTable_lt (packing : Packing) (b : UInt8) (h : packsChar packing b) :
    packTable packing b < 16 := by
  revert b
  cases packing <;> exact forall_byte (by decide +kernel)

theorem packTable_zero (packing : Packing) : packTable packing 0 = 15 := by
  cases packing <;> decide

theorem or_lt_sixteen {a b : UInt8} (ha : a < 16) (hb : b < 16) : a ||| b < 16 := by
  exact Nat.or_lt_two_pow (n := 4) (UInt8.lt_iff_toNat_lt.mp ha) (UInt8.lt_iff_toNat_lt.mp hb)

/-- No entry that a packable string uses has its high half set. -/
theorem seenEntries_lt (h : ∀ b ∈ s, packsChar packing b) :
    seenEntries (packTable packing) s < 16 := by
  induction s using seenEntries.induct with
  | case1 => simp only [seenEntries]; decide
  | case2 last =>
    exact or_lt_sixteen (packTable_lt _ _ (h last (by simp))) (by rw [packTable_zero]; decide)
  | case3 hi lo rest ih =>
    have hhi := packTable_lt _ _ (h hi (by simp))
    have hlo := packTable_lt _ _ (h lo (by simp))
    have hrest := ih fun b hb => h b (by simp [hb])
    exact or_lt_sixteen (or_lt_sixteen hhi hlo) hrest

theorem and_high_of_lt (b : UInt8) (h : b < 16) : b &&& 0xF0 = 0 := by
  revert b
  exact forall_byte (by decide +kernel)

/-- Packing a packable string does not panic. -/
theorem writePackedBytes_of_packable (h : Packable packing s) :
    writePackedBytes s packing = (do
      writeU8 (packedTag packing)
      writeU8 (packedLenByte s.length)
      writeRawBytes (packPairs (packTable packing) s)) := by
  have hseen := and_high_of_lt _ (seenEntries_lt h.2)
  unfold writePackedBytes
  rw [if_neg (Nat.not_lt.mpr h.1), if_neg (not_not_intro hseen)]

theorem planned_writePackedBytes (h : Packable packing s) :
    Planned 0 (pure (packedEncodedSize s.length)) (writePackedBytes s packing) := by
  rw [writePackedBytes_of_packable h]
  refine .raw (.raw (planned_writeRawBytes ?_))
  rw [length_packPairs]
  rfl

/-! ## Strings -/

section Strings

variable {size : Bytes → Plan Nat} {write : Bytes → Enc Unit}

theorem planned_writeUser {user : Bytes} (h : Planned 0 (size user) (write user)) :
    Planned 0 (userEncodedSize size user) (writeUser write user) := by
  unfold userEncodedSize writeUser
  split_ifs
  · exact planned_writeRawBytes rfl
  · exact h

theorem planned_writeJidFromMeta {info : ParsedJidMeta}
    (huser : Planned 0 (size (splitJidFromMeta s info).1) (write (splitJidFromMeta s info).1))
    (hserver : Planned 0 (size (splitJidFromMeta s info).2) (write (splitJidFromMeta s info).2)) :
    Planned 0 (parsedJidEncodedSizeWithCache size s info) (writeJidFromMeta write s info) := by
  unfold parsedJidEncodedSizeWithCache writeJidFromMeta
  cases info.device with
  | some device => exact .raw (.raw (.raw (huser.last fun _ => rfl)))
  | none => exact .raw ((planned_writeUser huser).bind fun _ => hserver.last fun _ => rfl)

/-- A string with its hint, when the strings that `write_string` is called on
from there agree. -/
theorem planned_writeStringWithHint {T : TokenTables} {hint : StringHint}
    (hspec : HintSpec T s hint)
    (h : ∀ t : Bytes, t.count 64 < s.count 64 → Planned 0 (size t) (write t)) :
    Planned 0 (stringEncodedSizeFromHintWithCache size s hint)
      (writeStringWithHint write s hint) := by
  cases hspec with
  | empty _ => exact .raw (planned_writeRawBytes rfl)
  | singleToken _ _ _ => exact planned_writeRawBytes rfl
  | doubleToken _ _ _ => exact .raw (planned_writeRawBytes rfl)
  | packedNibble _ hvalid => exact planned_writePackedBytes (packable_nibble hvalid)
  | packedHex _ hvalid => exact planned_writePackedBytes (packable_hex hvalid)
  | jid _ hparse =>
    obtain ⟨huser, hserver⟩ := count_splitJidFromMeta hparse
    exact planned_writeJidFromMeta (h _ huser) (h _ hserver)
  | rawBytes _ => exact planned_writeBytesWithLen s

end Strings

variable (T : TokenTables)

theorem writeStringUncached_eq (write : Bytes → Enc Unit) (s : Bytes) :
    writeStringUncached T write s = writeStringWithHint write s (hintOf T s) := by
  unfold writeStringUncached hintOf
  split <;> rfl

theorem writeStringAt_taped {n : Nat} {written : Bytes} {tape tape' : StringHintCache}
    {hint : StringHint} (h : tape.next = (some hint, tape')) :
    writeStringAt T (n + 1) s ⟨written, some tape⟩ =
      writeStringWithHint (writeStringAt T n) s hint ⟨written, some tape'⟩ := by
  have hrun : nextHint ⟨written, some tape⟩ = .ok (some hint, ⟨written, some tape'⟩) := by
    show Except.ok (tape.next.1, (⟨written, some tape.next.2⟩ : Encoder)) = _
    rw [h]
  show (nextHint ⟨written, some tape⟩ >>= fun r => _) = _
  rw [hrun]
  rfl

/-- Recording a hint on one pass and taking it from the tape on the other. -/
theorem Planned.hinted {n : Nat}
    (h : Planned 0 (stringEncodedSizeFromHintWithCache (stringEncodedSizeAt T n) s (hintOf T s))
      (writeStringWithHint (writeStringAt T n) s (hintOf T s))) :
    Planned 0 (stringEncodedSizeAt T (n + 1) s) (writeStringAt T (n + 1) s) := by
  obtain ⟨size, hints, out, hplan, ⟨hplain, hreplay⟩, hout⟩ := h
  refine ⟨size, hintOf T s :: hints, out, ?_, ⟨?_, ?_⟩, hout⟩
  · intro tape
    show stringEncodedSizeFromHintWithCache (stringEncodedSizeAt T n) s (hintOf T s)
      { tape with hints := tape.hints ++ [hintOf T s] } = _
    rw [hplan, List.append_assoc]
    rfl
  · intro written
    show writeStringUncached T (writeStringAt T n) s ⟨written, none⟩ = _
    rw [writeStringUncached_eq]
    exact hplain written
  · intro before after written
    have hnext : (StringHintCache.mk (before ++ (hintOf T s :: hints ++ after))
        before.length).next = (some (hintOf T s),
          ⟨before ++ (hintOf T s :: hints ++ after), before.length + 1⟩) := by
      simp [StringHintCache.next]
    have htape := hreplay (before ++ [hintOf T s]) after written
    rw [List.append_assoc, List.length_append] at htape
    rw [writeStringAt_taped T hnext, List.length_cons, Nat.add_comm hints.length 1,
      ← Nat.add_assoc]
    exact htape

/-- `write_string` writes what the plan sized, with as much room for nested
calls as the string has `@`. -/
theorem planned_writeStringAt (n : Nat) (s : Bytes) (hn : s.count 64 < n) :
    Planned 0 (stringEncodedSizeAt T n s) (writeStringAt T n s) := by
  induction n generalizing s with
  | zero => omega
  | succ n ih =>
    refine .hinted T (planned_writeStringWithHint (hintSpec_hintOf T s) fun t ht => ?_)
    exact ih t (by omega)

theorem planned_writeString (s : String) :
    Planned 0 (stringEncodedSizeWithCache T s) (writeString T s) := by
  have hcount := (ofString s).count_le_length (a := 64)
  exact planned_writeStringAt T _ _ (by omega)

/-! ## JIDs and nodes -/

theorem planned_writeJid (jid : Jid) :
    Planned 0 (jidEncodedSizeWithCache T jid.user jid.server jid.device jid.integrator)
      (writeJid T jid) := by
  have huser := planned_writeString T jid.user
  unfold jidEncodedSizeWithCache writeJid
  split_ifs with hinterop had hdevice hempty
  · exact .raw (huser.bind fun _ => .raw (planned_writeRawBytes rfl))
  · exact .raw (.raw (.raw (huser.last fun _ => rfl)))
  · exact (huser.last fun _ => rfl).throw (.inr ⟨_, rfl⟩)
  · have hlist : Planned 0 (pure 1) (writeU8 LIST_EMPTY) := planned_writeRawBytes rfl
    exact .raw (hlist.bind fun _ => (planned_writeString T _).last fun _ => rfl)
  · exact .raw (huser.bind fun _ => (planned_writeString T _).last fun _ => rfl)

theorem planned_encodeAttrs {α : Type} {valueSize : α → Plan Nat} {writeValue : α → Enc Unit}
    (h : ∀ v, Planned 0 (valueSize v) (writeValue v)) (attrs : List (String × α)) :
    Planned 0 (attrsEncodedSize T valueSize attrs) (encodeAttrs T writeValue attrs) := by
  induction attrs with
  | nil => exact planned_pure rfl
  | cons attr attrs ih =>
    obtain ⟨k, v⟩ := attr
    refine (planned_writeString T k).bind fun keySize => (h v).bind fun valueSize' => ?_
    exact ih.last fun restSize => by omega

theorem planned_valueRef (v : ValueRef) : Planned 0 (v.encodedSize T) (v.write T) := by
  cases v with
  | string s => exact planned_writeString T s
  | jid j => exact planned_writeJid T j

mutual

theorem planned_writeNodeRef (node : NodeRef) :
    Planned 0 (nodeRefEncodedSizeWithCache T node) (writeNodeRef T node) := by
  obtain ⟨tag, attrs, content⟩ := node
  refine .listStart ((planned_writeString T tag).bind fun tagSize => ?_)
  refine (planned_encodeAttrs T (planned_valueRef T) attrs).bind fun attrsSize => ?_
  exact (planned_encodeContentRef content).last fun contentSize => by omega

theorem planned_encodeContentRef (content : Option NodeContentRef) :
    Planned 0 (nodeRefContentEncodedSize T content) (encodeContentRef T content) := by
  match content with
  | none => exact planned_pure rfl
  | some (.string s) => exact planned_writeString T s
  | some (.bytes b) => exact planned_writeBytesWithLen b
  | some (.nodes nodes) =>
    rw [encodeContentRef]
    exact .listStart ((planned_writeNodeRefs nodes).last fun size => by omega)

theorem planned_writeNodeRefs (nodes : List NodeRef) :
    Planned 0 (nodeRefsEncodedSize T nodes) (writeNodeRefs T nodes) := by
  match nodes with
  | [] => exact planned_pure rfl
  | node :: nodes =>
    rw [writeNodeRefs]
    refine (planned_writeNodeRef node).bind fun size => ?_
    exact (planned_writeNodeRefs nodes).last fun restSize => by omega

end

/-! ## Owned and borrowed nodes -/

theorem encodeAttrs_asValueRef (attrs : List (String × NodeValue)) :
    encodeAttrs T (NodeValue.write T) attrs =
      encodeAttrs T (ValueRef.write T) (attrs.map fun (k, v) => (k, v.asValueRef)) := by
  induction attrs with
  | nil => rfl
  | cons attr attrs ih =>
    obtain ⟨k, v⟩ := attr
    have hvalue : v.write T = v.asValueRef.write T := by cases v <;> rfl
    simp only [encodeAttrs, List.map_cons, hvalue, ih]

theorem attrsEncodedSize_asValueRef (attrs : List (String × NodeValue)) :
    attrsEncodedSize T (NodeValue.encodedSize T) attrs =
      attrsEncodedSize T (ValueRef.encodedSize T) (attrs.map fun (k, v) => (k, v.asValueRef)) := by
  induction attrs with
  | nil => rfl
  | cons attr attrs ih =>
    obtain ⟨k, v⟩ := attr
    have hvalue : v.encodedSize T = v.asValueRef.encodedSize T := by cases v <;> rfl
    simp only [attrsEncodedSize, List.map_cons, hvalue, ih]

theorem isSome_asContentRef? (content : Option NodeContent) :
    (asContentRef? content).isSome = content.isSome := by
  cases content <;> rfl

theorem length_asNodeRefs (nodes : List Node) : (asNodeRefs nodes).length = nodes.length := by
  induction nodes with
  | nil => rfl
  | cons node nodes ih => rw [asNodeRefs, List.length_cons, List.length_cons, ih]

mutual

/-- An owned node is planned and written as the node borrowed from it is. -/
theorem writeNode_eq_writeNodeRef (node : Node) :
    nodeEncodedSizeWithCache T node = nodeRefEncodedSizeWithCache T node.asNodeRef ∧
      writeNode T node = writeNodeRef T node.asNodeRef := by
  obtain ⟨tag, attrs, content⟩ := node
  obtain ⟨hsize, hwrite⟩ := encodeContent_eq_encodeContentRef content
  rw [Node.asNodeRef, nodeEncodedSizeWithCache, nodeRefEncodedSizeWithCache, writeNode,
    writeNodeRef, List.length_map, isSome_asContentRef?, hsize, hwrite,
    attrsEncodedSize_asValueRef, encodeAttrs_asValueRef]
  exact ⟨rfl, rfl⟩

theorem encodeContent_eq_encodeContentRef (content : Option NodeContent) :
    nodeContentEncodedSize T content = nodeRefContentEncodedSize T (asContentRef? content) ∧
      encodeContent T content = encodeContentRef T (asContentRef? content) := by
  match content with
  | none => exact ⟨rfl, rfl⟩
  | some (.string s) => exact ⟨rfl, rfl⟩
  | some (.bytes b) => exact ⟨rfl, rfl⟩
  | some (.nodes nodes) =>
    obtain ⟨hsize, hwrite⟩ := writeNodes_eq_writeNodeRefs nodes
    rw [asContentRef?, NodeContent.asContentRef, nodeContentEncodedSize,
      nodeRefContentEncodedSize, encodeContent, encodeContentRef, length_asNodeRefs, hsize, hwrite]
    exact ⟨rfl, rfl⟩

theorem writeNodes_eq_writeNodeRefs (nodes : List Node) :
    nodesEncodedSize T nodes = nodeRefsEncodedSize T (asNodeRefs nodes) ∧
      writeNodes T nodes = writeNodeRefs T (asNodeRefs nodes) := by
  match nodes with
  | [] => exact ⟨rfl, rfl⟩
  | node :: nodes =>
    obtain ⟨hsize, hwrite⟩ := writeNode_eq_writeNodeRef node
    obtain ⟨hsizes, hwrites⟩ := writeNodes_eq_writeNodeRefs nodes
    rw [asNodeRefs, nodesEncodedSize, writeNodes, hsize, hwrite, hsizes, hwrites]
    exact ⟨rfl, rfl⟩

end

/-! ## Marshalling -/

theorem marshal_eq_marshalRef (node : Node) : marshal T node = marshalRef T node.asNodeRef := by
  rw [marshal, marshalRef, (writeNode_eq_writeNodeRef T node).2]

theorem marshalExact_eq_marshalRefExact (node : Node) :
    marshalExact T node = marshalRefExact T node.asNodeRef := by
  obtain ⟨hsize, hwrite⟩ := writeNode_eq_writeNodeRef T node
  rw [marshalExact, marshalRefExact, buildMarshaledNodePlan, buildMarshaledNodeRefPlan, hsize,
    hwrite]

/-- One run of the writers settles both entry points: the plan's tape is used
up and the plan's size is met, or both fail with one fault. -/
theorem marshalRef_outcome (node : NodeRef) :
    ∃ out : Except Fault Bytes, AsPlanned 0 (buildMarshaledNodeRefPlan T node).size out ∧
      marshalRef T node = out ∧
      (writeNodeRef T node).run (newVecWithHints (some (buildMarshaledNodeRefPlan T node).hints)) =
        out.map fun bytes => ((), ⟨bytes, some ⟨(buildMarshaledNodeRefPlan T node).hints.hints,
          (buildMarshaledNodeRefPlan T node).hints.hints.length⟩⟩) := by
  obtain ⟨size, hints, out, hplan, ⟨hplain, hreplay⟩, hout⟩ := planned_writeNodeRef T node
  have hplanned : buildMarshaledNodeRefPlan T node = ⟨1 + size, ⟨hints, 0⟩⟩ := by
    show MarshaledSizePlan.mk (1 + (nodeRefEncodedSizeWithCache T node .default).1)
      (nodeRefEncodedSizeWithCache T node .default).2 = _
    rw [hplan]
    rfl
  have hreplay' := hreplay [] [] [FORMAT_PLAIN]
  rw [List.append_nil, List.nil_append, List.length_nil, Nat.zero_add] at hreplay'
  refine ⟨out.map (FORMAT_PLAIN :: ·), ?_, ?_, ?_⟩
  · rw [hplanned]
    rcases out with e | bytes
    · exact hout
    · simp only [AsPlanned] at hout
      show 0 + (FORMAT_PLAIN :: bytes).length = 1 + size
      rw [List.length_cons]
      omega
  · show (writeNodeRef T node ⟨[FORMAT_PLAIN], none⟩ >>= fun r => pure r.2.writer) = _
    rw [hplain]
    rcases out with e | bytes <;> rfl
  · rw [hplanned]
    show writeNodeRef T node ⟨[FORMAT_PLAIN], some ⟨hints, 0⟩⟩ = _
    rw [hreplay']
    rcases out with e | bytes <;> rfl

theorem marshalRefExact_eq_marshalRef (node : NodeRef) :
    marshalRefExact T node = marshalRef T node := by
  obtain ⟨out, hout, hplain, hreplay⟩ := marshalRef_outcome T node
  rw [marshalRefExact, marshalPlanned, hreplay, hplain]
  rcases out with e | bytes
  · rfl
  · have hsize : bytes.length = (buildMarshaledNodeRefPlan T node).size := by
      simp only [AsPlanned] at hout
      omega
    show (if _ then _ else _) = _
    rw [if_neg]
    · rfl
    · simp [hsize, StringHintCache.fullyConsumed]

theorem marshalRef_ne_planMismatch (node : NodeRef) :
    marshalRef T node ≠ .error (.error .planMismatch) := by
  obtain ⟨out, hout, hplain, -⟩ := marshalRef_outcome T node
  rw [hplain]
  rintro rfl
  rcases hout with h | ⟨message, h⟩ <;> simp at h

/-- Planning first changes nothing: the four entry points return the same
bytes or the same error for a node and the node borrowed from it, the error is
never a mismatch of the plan, the plan's size is the number of bytes written,
and its tape is used up exactly. -/
theorem marshalExact_agrees :
    (∀ node : Node, marshalExact T node = marshal T node ∧
      marshalRef T node.asNodeRef = marshal T node ∧
      marshalRefExact T node.asNodeRef = marshal T node ∧
      marshalExact T node ≠ .error (.error .planMismatch)) ∧
    ∀ node : NodeRef, marshalRefExact T node = marshalRef T node ∧
      marshalRefExact T node ≠ .error (.error .planMismatch) ∧
      ∀ bytes, marshalRef T node = .ok bytes →
        bytes.length = (buildMarshaledNodeRefPlan T node).size ∧
        ∃ tape, (writeNodeRef T node).run
            (newVecWithHints (some (buildMarshaledNodeRefPlan T node).hints)) =
              .ok ((), ⟨bytes, some tape⟩) ∧
          tape.hints = (buildMarshaledNodeRefPlan T node).hints.hints ∧ tape.fullyConsumed := by
  refine ⟨fun node => ?_, fun node => ?_⟩
  · rw [marshalExact_eq_marshalRefExact, marshal_eq_marshalRef, marshalRefExact_eq_marshalRef]
    exact ⟨rfl, rfl, rfl, marshalRef_ne_planMismatch T _⟩
  · rw [marshalRefExact_eq_marshalRef]
    refine ⟨rfl, marshalRef_ne_planMismatch T node, fun bytes hbytes => ?_⟩
    obtain ⟨out, hout, hplain, hreplay⟩ := marshalRef_outcome T node
    obtain rfl : out = .ok bytes := hplain.symm.trans hbytes
    simp only [AsPlanned] at hout
    exact ⟨by omega, _, hreplay, rfl, by simp [StringHintCache.fullyConsumed]⟩

end WaCore.Binary
