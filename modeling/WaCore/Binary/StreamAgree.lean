import WaCore.Binary.StreamWindow

/-!
# The stream walks the tree

A `NodeStream` is compared with a cursor over the decoded tree
(`CursorCall.onTree`): its levels are the children that are left of each open
node, the innermost first, and its outermost level holds the root until it is
taken.  The stream keeps a number for each level, and `readSlots` is what is
still to be decoded for them.

A call that succeeds hands out what the tree cursor hands out, and leaves bytes
that decode to the levels it leaves; a call that fails does so because the bytes
do not decode (`Outcome`).  `exec_walk` is the induction over the calls.
-/

namespace WaCore.Binary

open ListParser Eff

/-! ## Calls and answers -/

/-- A call of the stream's user, before `finish`. -/
inductive CursorCall where
  | openNode
  | nextChild
  | close
  deriving DecidableEq, Repr

/-- What a call returns. -/
inductive Answer where
  | opened (head : Option OpenNode)
  | child (node : Option NodeRef)
  | closed

def CursorCall.run (T : TokenTables) (self : Decoder) : CursorCall → Stm Answer
  | .openNode => .opened <$> Binary.openNode T self
  | .nextChild => .child <$> Binary.nextChild self
  | .close => (fun _ => .closed) <$> Binary.close self

/-- One call after the other, up to the first that fails. -/
def walk (T : TokenTables) (self : Decoder) : List CursorCall → Stm (List Answer)
  | [] => pure []
  | call :: calls => do
    let answer ← call.run T self
    let answers ← walk T self calls
    pure (answer :: answers)

/-- The calls, and then `finish`. -/
def walkToEnd (T : TokenTables) (self : Decoder) (calls : List CursorCall) : Stm (List Answer) := do
  let answers ← walk T self calls
  finish self
  pure answers

/-! ## The tree cursor -/

/-- A node's head. -/
def NodeRef.head : NodeRef → OpenNode
  | ⟨tag, attrs, none⟩ => ⟨tag, attrs, .none⟩
  | ⟨tag, attrs, some (.nodes nodes)⟩ => ⟨tag, attrs, .children nodes.length⟩
  | ⟨tag, attrs, some scalar⟩ => ⟨tag, attrs, .scalar scalar⟩

def NodeRef.children : NodeRef → List NodeRef
  | ⟨_, _, some (.nodes nodes)⟩ => nodes
  | _ => []

/-- A call of a cursor that walks the tree. -/
def CursorCall.onTree : CursorCall → List (List NodeRef) → Answer × List (List NodeRef)
  | .openNode, (node :: nodes) :: levels =>
    (.opened (some node.head), node.children :: nodes :: levels)
  | .openNode, levels => (.opened none, levels)
  | .nextChild, (node :: nodes) :: levels => (.child (some node), nodes :: levels)
  | .nextChild, levels => (.child none, levels)
  | .close, _ :: level :: levels => (.closed, level :: levels)
  | .close, levels => (.closed, levels)

def walkTree : List CursorCall → List (List NodeRef) → List Answer
  | [], _ => []
  | call :: calls, levels => (call.onTree levels).1 :: walkTree calls (call.onTree levels).2

/-! ## Slots -/

/-- The unread nodes of each level, with the root as the outermost. -/
def NodeStream.slots (s : NodeStream) : List Nat := s.levels ++ [if s.rootDone then 0 else 1]

/-- What is still to be decoded for some slots. -/
def readSlots (T : TokenTables) : List Nat → Dec (List (List NodeRef))
  | [] => pure []
  | n :: slots => do
    let nodes ← times ((fullDecoder T).readNodeRefAt slots.length) n
    let levels ← readSlots T slots
    pure (nodes :: levels)

/-- The bytes decode to the nodes of the slots, and end there. -/
def Readable (T : TokenTables) (slots : List Nat) (rest : Bytes) : Prop :=
  ∃ levels, readSlots T slots rest = .ok (levels, [])

variable {rest' : Bytes}

section Slots

variable {T : TokenTables} {n : Nat} {slots : List Nat} {rest : Bytes}
  {levels : List (List NodeRef)}

/-- There is a level for every slot, with as many nodes. -/
theorem readSlots_cons (h : readSlots T (n :: slots) rest = .ok (levels, rest')) :
    ∃ nodes outer between, nodes.length = n ∧ levels = nodes :: outer
      ∧ readSlots T slots between = .ok (outer, rest') := by
  obtain ⟨nodes, between, hnodes, h⟩ := bind_apply_eq_ok.mp h
  obtain ⟨outer, end', houter, h⟩ := bind_apply_eq_ok.mp h
  cases h
  exact ⟨nodes, outer, between, length_of_times_eq_ok hnodes, rfl, houter⟩

theorem readSlots_zero (h : readSlots T (0 :: slots) rest = .ok (levels, rest')) :
    ∃ outer, levels = [] :: outer := by
  obtain ⟨nodes, outer, -, hnil, rfl, -⟩ := readSlots_cons h
  exact ⟨outer, by rw [List.length_eq_zero_iff.mp hnil]⟩

/-- A node in front of the innermost level. -/
def consNode (node : NodeRef) : List (List NodeRef) → List (List NodeRef)
  | nodes :: levels => (node :: nodes) :: levels
  | [] => []

theorem readSlots_succ (T : TokenTables) (n : Nat) (slots : List Nat) :
    readSlots T ((n + 1) :: slots) = (do
      let node ← (fullDecoder T).readNodeRefAt slots.length
      let levels ← readSlots T (n :: slots)
      pure (consNode node levels)) := by
  simp only [readSlots, times, bind_assoc, pure_bind, consNode]

theorem readable_cons_of_ok {nodes : List NodeRef}
    (hrun : times ((fullDecoder T).readNodeRefAt slots.length) n rest = .ok (nodes, rest')) :
    Readable T (n :: slots) rest ↔ Readable T slots rest' := by
  rw [Readable, readSlots, bind_ok hrun]
  constructor
  · rintro ⟨levels, hlevels⟩
    obtain ⟨outer, end', houter, h⟩ := bind_apply_eq_ok.mp hlevels
    cases h
    exact ⟨outer, houter⟩
  · rintro ⟨outer, houter⟩
    exact ⟨_, bind_ok houter⟩

theorem not_readable_cons_of_error {e : Fault}
    (hrun : times ((fullDecoder T).readNodeRefAt slots.length) n rest = .error e) :
    ¬ Readable T (n :: slots) rest := by
  rintro ⟨levels, hlevels⟩
  cases (bind_error hrun).symm.trans hlevels

theorem readable_nil : Readable T [] rest ↔ rest = [] := by
  constructor
  · rintro ⟨levels, hlevels⟩
    cases hlevels
    rfl
  · rintro rfl
    exact ⟨[], rfl⟩

end Slots

/-! ## A node and its head -/

/-- The node of a head and its children. -/
def NodeOpen.build (head : NodeOpen) (nodes : List NodeRef) : NodeRef :=
  ⟨head.tag, head.attrs, match head.content with
    | .none => none
    | .scalar scalar => some scalar
    | .children _ => some (.nodes nodes)⟩

/-- The content of a head is not a list of nodes. -/
def NodeOpen.IsFlat (head : NodeOpen) : Prop := ∀ nodes, head.content ≠ .scalar (.nodes nodes)

section Head

variable {T : TokenTables} {head : NodeOpen} {nodes : List NodeRef}

theorem head_build (hflat : head.IsFlat) (hcount : nodes.length = head.content.childCount) :
    (head.build nodes).head = head := by
  obtain ⟨tag, attrs, content⟩ := head
  cases content with
  | none => rfl
  | children count => rw [NodeOpen.build, NodeRef.head, hcount]; rfl
  | scalar scalar =>
    cases scalar with
    | bytes b => rfl
    | string s => rfl
    | nodes inner => exact absurd rfl (hflat inner)

theorem children_build (hflat : head.IsFlat) (hcount : nodes.length = head.content.childCount) :
    (head.build nodes).children = nodes := by
  obtain ⟨tag, attrs, content⟩ := head
  have hnil : ∀ {l : List NodeRef}, l.length = 0 → [] = l := fun h =>
    (List.length_eq_zero_iff.mp h).symm
  cases content with
  | none => exact hnil hcount
  | children count => rfl
  | scalar scalar =>
    cases scalar with
    | bytes b => exact hnil hcount
    | string s => exact hnil hcount
    | nodes inner => exact absurd rfl (hflat inner)

variable {d : Decoder}

theorem ne_nodes_of_readContentFromTag {tag : UInt8} {depth : Nat} {rest : Bytes}
    {content : NodeContentRef} (h8 : Tag.ofByte tag ≠ .list8) (h16 : Tag.ofByte tag ≠ .list16)
    (h : readContentFromTag T d tag depth rest = .ok (some content, rest')) :
    content ≠ .nodes nodes := by
  unfold readContentFromTag at h
  cases htag : Tag.ofByte tag with
  | listEmpty =>
    rw [htag] at h
    cases h
  | list8 => exact absurd htag h8
  | list16 => exact absurd htag h16
  | binary width =>
    rw [htag] at h
    obtain ⟨len, between, -, h⟩ := bind_apply_eq_ok.mp h
    obtain ⟨bytes, between', -, h⟩ := bind_apply_eq_ok.mp h
    cases h
    nofun
  | jid | packed | dictionary | single =>
    rw [htag] at h
    obtain ⟨s, between, -, h⟩ := bind_apply_eq_ok.mp h
    cases s with
    | none => cases h
    | some s =>
      cases h
      nofun

theorem ne_nodes_of_readOpenContent {rest : Bytes} {content : OpenContent}
    (h : readOpenContent T d rest = .ok (content, rest')) : content ≠ .scalar (.nodes nodes) := by
  obtain ⟨tag, between, -, h⟩ := bind_apply_eq_ok.mp h
  cases htag : Tag.ofByte tag with
  | listEmpty =>
    rw [htag] at h
    cases h
    nofun
  | list8 | list16 =>
    rw [htag, map_eq_pure_bind] at h
    obtain ⟨size, between', -, h⟩ := bind_apply_eq_ok.mp h
    cases h
    nofun
  | binary | jid | packed | dictionary | single =>
    rw [htag] at h
    obtain ⟨read, between', hread, h⟩ := bind_apply_eq_ok.mp h
    have hflat : ∀ scalar, read = some scalar → scalar ≠ .nodes nodes := fun scalar heq =>
      ne_nodes_of_readContentFromTag (by rw [htag]; nofun) (by rw [htag]; nofun) (heq ▸ hread)
    cases read with
    | none =>
      cases h
      nofun
    | some scalar =>
      cases h
      exact fun heq => hflat scalar rfl (OpenContent.scalar.inj heq)

/-- The content of a head that was read is not a list of nodes. -/
theorem isFlat_of_readNodeOpen {rest : Bytes} (h : readNodeOpen T d rest = .ok (head, rest')) :
    head.IsFlat := by
  obtain ⟨tag, rest₁, -, h⟩ := bind_apply_eq_ok.mp h
  obtain ⟨listSize, rest₂, -, h⟩ := bind_apply_eq_ok.mp h
  split at h
  · cases h
  · obtain ⟨name, rest₃, -, h⟩ := bind_apply_eq_ok.mp h
    obtain ⟨attrs, rest₄, -, h⟩ := bind_apply_eq_ok.mp h
    obtain ⟨content, rest₅, hcontent, h⟩ := bind_apply_eq_ok.mp h
    cases h
    intro nodes heq
    split at hcontent
    · exact ne_nodes_of_readOpenContent hcontent heq
    · cases hcontent
      cases heq

end Head

/-! ## Steps of the stream -/

/-- The stream has `rest` before it, once it has dropped what it last returned;
before the root is taken nothing is open or was returned. -/
structure NodeStream.Stands (s : NodeStream) (rest : Bytes) : Prop where
  delivers : (s.source.consume s.pending).Delivers rest
  fresh : s.rootDone = false → s.levels = [] ∧ s.pending = 0

section Steps

variable {T : TokenTables} {s : NodeStream} {rest : Bytes}

variable {α : Type} {p : Dec α} {n : Nat} {levels : List (List NodeRef)}

theorem NodeStream.Stands.rootDone (h : s.Stands rest) (hlevels : s.levels ≠ []) :
    s.rootDone = true := by
  by_contra hne
  exact hlevels (h.fresh (Bool.eq_false_iff.mpr hne)).1

theorem stands_of_rootDone (h : (s.source.consume s.pending).Delivers rest)
    (hroot : s.rootDone = true) : s.Stands rest :=
  ⟨h, fun hfresh => by cases hroot.symm.trans hfresh⟩

theorem exec_decodeNext_ok {a : α} (hp : StreamsDec p) (h : s.source.Delivers rest)
    (hrun : p rest = .ok (a, rest')) :
    ∃ used source', exec (decodeNext p) s = (.ok (a, used), { s with source := source' })
      ∧ (source'.consume used).Delivers rest' := by
  obtain ⟨source', hexec, hdelivers, hused⟩ := exec_decodeNext hp h
  rw [hrun] at hexec
  refine ⟨rest.length - rest'.length, source', hexec, ?_⟩
  have hconsumed := delivers_consume hdelivers (hused a rest' hrun)
  rwa [hp.drop_eq hrun] at hconsumed

theorem exec_decodeNext_error {e : Fault} (hp : StreamsDec p) (h : s.source.Delivers rest)
    (hrun : p rest = .error e) : ∃ s', exec (decodeNext p) s = (.error e, s') := by
  obtain ⟨source', hexec, -⟩ := exec_decodeNext hp h
  rw [hrun] at hexec
  exact ⟨_, hexec⟩

theorem consume_zero (source : Source) : source.consume 0 = source := by
  cases source <;> rfl

theorem delivers_consume_zero {source : Source} (h : source.Delivers rest) :
    (source.consume 0).Delivers rest := (consume_zero source).symm ▸ h

theorem slots_ne_nil (s : NodeStream) : ∃ n slots, s.slots = n :: slots := by
  rcases hlevels : s.levels with _ | ⟨n, levels⟩
  · exact ⟨_, [], by rw [NodeStream.slots, hlevels, List.nil_append]⟩
  · exact ⟨n, _, by rw [NodeStream.slots, hlevels, List.cons_append]⟩

/-- The innermost level has a node to take, or none. -/
theorem exec_takeSlot {slots : List Nat} (h : s.Stands rest) (hslots : s.slots = n :: slots) :
    ∃ s', exec takeSlot s = (.ok (decide (n ≠ 0)), s') ∧ s'.source.Delivers rest
      ∧ s'.Stands rest ∧ (n ≠ 0 → s'.rootDone = true)
      ∧ s'.slots = (n - 1) :: slots ∧ s'.levels.length = slots.length := by
  obtain ⟨source, pending, levels, rootDone⟩ := s
  have hsettled : ((source.consume pending).consume 0).Delivers rest :=
    delivers_consume_zero h.delivers
  cases levels with
  | nil =>
    cases hslots
    cases rootDone with
    | true => exact ⟨⟨_, 0, [], true⟩, rfl, h.delivers, ⟨hsettled, nofun⟩, fun _ => rfl, rfl, rfl⟩
    | false => exact ⟨⟨_, 0, [], true⟩, rfl, h.delivers, ⟨hsettled, nofun⟩, fun _ => rfl, rfl, rfl⟩
  | cons remaining levels =>
    cases hslots
    obtain rfl : rootDone = true := h.rootDone (List.cons_ne_nil _ _)
    cases n with
    | zero =>
      exact ⟨⟨_, 0, 0 :: levels, true⟩, rfl, h.delivers, ⟨hsettled, nofun⟩, fun _ => rfl, rfl, by simp⟩
    | succ remaining =>
      exact ⟨⟨_, 0, remaining :: levels, true⟩, rfl, h.delivers, ⟨hsettled, nofun⟩, fun _ => rfl, rfl,
        by simp⟩

/-- What a call does to a stream that stands before `rest`: an answer of the
tree cursor, and the bytes that are left decode to the levels it leaves; or an
error, and the bytes do not decode. -/
inductive Outcome (T : TokenTables) (call : CursorCall) (s : NodeStream) (rest : Bytes) : Prop where
  | done (answer : Answer) (s' : NodeStream) (rest' : Bytes)
    (undo : List (List NodeRef) → List (List NodeRef))
    (exec_eq : exec (call.run T (fullDecoder T)) s = (.ok answer, s'))
    (stands : s'.Stands rest')
    (read_eq : readSlots T s.slots rest
      = (do let levels ← readSlots T s'.slots; pure (undo levels)) rest')
    (onTree : ∀ levels, readSlots T s'.slots rest' = .ok (levels, []) →
      call.onTree (undo levels) = (answer, levels))
  | failed (e : Fault) (s' : NodeStream)
    (exec_eq : exec (call.run T (fullDecoder T)) s = (.error e, s'))
    (unreadable : ¬ Readable T s.slots rest)

theorem Outcome.of_slots_eq {call : CursorCall} {answer : Answer} {s' : NodeStream}
    (hexec : exec (call.run T (fullDecoder T)) s = (.ok answer, s')) (hstands : s'.Stands rest)
    (hslots : s'.slots = s.slots)
    (htree : ∀ levels, readSlots T s.slots rest = .ok (levels, []) →
      call.onTree levels = (answer, levels)) : Outcome T call s rest :=
  .done answer s' rest id hexec hstands (by rw [hslots]; exact congrFun (bind_pure _).symm rest)
    (hslots ▸ htree)

theorem outcome_nextChild (h : s.Stands rest) : Outcome T .nextChild s rest := by
  obtain ⟨n, slots, hslots⟩ := slots_ne_nil s
  obtain ⟨s₁, htake, hsource, hstands, hroot, hslots₁, hlen⟩ := exec_takeSlot h hslots
  have hstreams : StreamsDec ((fullDecoder T).readNodeRefAt slots.length) := streams_fullDecoder T _
  cases n with
  | zero =>
    refine .of_slots_eq (?_ : exec _ s = (.ok (.child none), s₁)) hstands
      (hslots₁.trans hslots.symm) ?_
    · simp [CursorCall.run, nextChild, exec_bind, htake]
    · rw [hslots]
      intro levels hlevels
      obtain ⟨outer, rfl⟩ := readSlots_zero hlevels
      rfl
  | succ n =>
    match hrun : (fullDecoder T).readNodeRefAt slots.length rest with
    | .ok (node, rest') =>
      obtain ⟨used, source', hexec, hdelivers⟩ := exec_decodeNext_ok hstreams hsource hrun
      have hslots' : NodeStream.slots { s₁ with source := source', pending := used } = n :: slots :=
        hslots₁
      refine .done (.child (some node)) { s₁ with source := source', pending := used } rest'
        (consNode node) ?_
        (stands_of_rootDone hdelivers (hroot (Nat.succ_ne_zero n))) ?_ ?_
      · simp [CursorCall.run, nextChild, exec_bind, exec_map, Except.map, htake, hlen, hexec]
      · rw [hslots, readSlots_succ, bind_ok hrun, hslots']
      · rw [hslots']
        intro levels hlevels
        obtain ⟨nodes, outer, -, -, rfl, -⟩ := readSlots_cons hlevels
        rfl
    | .error e =>
      obtain ⟨s', hexec⟩ := exec_decodeNext_error hstreams hsource hrun
      refine .failed e s' ?_ ?_
      · simp [CursorCall.run, nextChild, exec_bind, htake, hlen, hexec]
      · rw [hslots, Readable, readSlots_succ, bind_error hrun]
        rintro ⟨levels, ⟨⟩⟩

/-- A head goes with the innermost level, as a node of the next one. -/
def openLevel (head : NodeOpen) : List (List NodeRef) → List (List NodeRef)
  | children :: levels => consNode (head.build children) levels
  | [] => []

/-- Opening a node puts its children before the rest of its level. -/
theorem readSlots_open {slots : List Nat} (hdepth : ¬ MAX_NODE_DEPTH ≤ slots.length) :
    readSlots T ((n + 1) :: slots) = (do
      let head ← readNodeOpen T (fullDecoder T)
      let levels ← readSlots T (head.content.childCount :: n :: slots)
      pure (openLevel head levels)) := by
  rw [readSlots_succ, full_readNodeRefAt, readNodeRefAt, if_neg hdepth, bind_assoc]
  apply bind_congr
  rintro ⟨tag, attrs, content⟩
  cases content <;> simp only [readSlots, bind_assoc, pure_bind, openLevel, List.length_cons] <;> rfl

theorem outcome_openNode (h : s.Stands rest) : Outcome T .openNode s rest := by
  obtain ⟨n, slots, hslots⟩ := slots_ne_nil s
  obtain ⟨s₁, htake, hsource, hstands, hroot, hslots₁, hlen⟩ := exec_takeSlot h hslots
  cases n with
  | zero =>
    refine .of_slots_eq (?_ : exec _ s = (.ok (.opened none), s₁)) hstands
      (hslots₁.trans hslots.symm) ?_
    · simp [CursorCall.run, openNode, exec_bind, htake]
    · rw [hslots]
      intro levels hlevels
      obtain ⟨outer, rfl⟩ := readSlots_zero hlevels
      rfl
  | succ n =>
    by_cases hdepth : MAX_NODE_DEPTH ≤ slots.length
    · refine .failed (.error .maxDepthExceeded) s₁ ?_ ?_
      · simp [CursorCall.run, openNode, exec_bind, htake, hlen, hdepth]
      · rw [hslots, Readable, readSlots_succ, full_readNodeRefAt, readNodeRefAt, if_pos hdepth]
        rintro ⟨levels, ⟨⟩⟩
    cases hrun : readNodeOpen T (fullDecoder T) rest with
    | ok r =>
      obtain ⟨head, rest'⟩ := r
      obtain ⟨used, source', hexec, hdelivers⟩ :=
        exec_decodeNext_ok (streams_readNodeOpen T) hsource hrun
      have hslots' : NodeStream.slots ⟨source', used, head.content.childCount :: s₁.levels,
          s₁.rootDone⟩ = head.content.childCount :: n :: slots := congrArg _ hslots₁
      refine .done (.opened (some head)) ⟨source', used, head.content.childCount :: s₁.levels,
        s₁.rootDone⟩ rest' (openLevel head) ?_
        (stands_of_rootDone hdelivers (hroot (Nat.succ_ne_zero n))) ?_ ?_
      · cases hcontent : head.content
        all_goals simp [CursorCall.run, openNode, exec_bind, exec_map, Except.map, htake, hlen,
          hdepth, hexec, hcontent, OpenContent.childCount]
      · rw [hslots, readSlots_open hdepth, bind_ok hrun, hslots']
      · rw [hslots']
        intro levels hlevels
        obtain ⟨children, outer, between, hcount, rfl, houter⟩ := readSlots_cons hlevels
        obtain ⟨nodes, outer', -, -, rfl, -⟩ := readSlots_cons houter
        have hflat := isFlat_of_readNodeOpen hrun
        rw [openLevel, consNode, CursorCall.onTree, head_build hflat hcount,
          children_build hflat hcount]
    | error e =>
      obtain ⟨s', hexec⟩ :=
        exec_decodeNext_error (streams_readNodeOpen T) hsource hrun
      refine .failed e s' ?_ ?_
      · simp [CursorCall.run, openNode, exec_bind, htake, hlen, hdepth, hexec]
      · rw [hslots, Readable, readSlots_open hdepth, bind_error hrun]
        rintro ⟨levels, ⟨⟩⟩

/-- The program drops from the source what the reader reads. -/
structure Skips {α : Type} (m : Stm Unit) (p : Dec α) : Prop where
  ok {s : NodeStream} {rest rest' : Bytes} {a : α} (h : s.source.Delivers rest)
    (hrun : p rest = .ok (a, rest')) :
    ∃ source', exec m s = (.ok (), { s with source := source' }) ∧ source'.Delivers rest'
  error {s : NodeStream} {rest : Bytes} {e : Fault} (h : s.source.Delivers rest)
    (hrun : p rest = .error e) : ∃ s', exec m s = (.error e, s')

theorem skips_skipNode (depth : Nat) :
    Skips (skipNode (fullDecoder T) depth) ((fullDecoder T).readNodeRefAt depth) := by
  have hstreams : StreamsDec ((fullDecoder T).skipNodeAt depth) := by
    rw [skipNodeAt_eq]
    exact (streams_fullDecoder T (.readNodeRefAt depth)).bind fun _ => streams_pure ()
  constructor
  · intro s rest rest' node h hrun
    have hskip : (fullDecoder T).skipNodeAt depth rest = .ok ((), rest') := by
      rw [skipNodeAt_eq]
      exact bind_apply_eq_ok.mpr ⟨node, rest', hrun, rfl⟩
    obtain ⟨used, source', hexec, hdelivers⟩ := exec_decodeNext_ok hstreams h hskip
    exact ⟨source'.consume used, by simp [skipNode, skipNext, consumeSource, exec_bind, hexec],
      hdelivers⟩
  · intro s rest e h hrun
    have hskip : (fullDecoder T).skipNodeAt depth rest = .error e := by
      rw [skipNodeAt_eq]
      exact bind_error hrun
    obtain ⟨s', hexec⟩ := exec_decodeNext_error hstreams h hskip
    exact ⟨s', by simp [skipNode, skipNext, exec_bind, hexec]⟩

theorem Skips.seq {β : Type} {m m' : Stm Unit} {f : α → Dec β} (hm : Skips m p)
    (hm' : ∀ a, Skips m' (f a)) : Skips (do m; m') (p >>= f) := by
  constructor
  · intro s rest rest' b h hrun
    obtain ⟨a, between, ha, hb⟩ := bind_apply_eq_ok.mp hrun
    obtain ⟨source₁, hexec, hdelivers⟩ := hm.ok h ha
    rw [exec_bind_ok hexec]
    exact (hm' a).ok hdelivers hb
  · intro s rest e h hrun
    match ha : p rest with
    | .error e' =>
      obtain ⟨s', hexec⟩ := hm.error h ha
      cases (bind_error ha).symm.trans hrun
      exact ⟨s', exec_bind_error hexec⟩
    | .ok (a, between) =>
      obtain ⟨source₁, hexec, hdelivers⟩ := hm.ok h ha
      rw [bind_apply, ha] at hrun
      rw [exec_bind_ok hexec]
      exact (hm' a).error hdelivers hrun

theorem skips_pure (a : α) : Skips (pure ()) (pure a : Dec α) where
  ok {s _ _ _} h hrun := by
    cases hrun
    exact ⟨s.source, rfl, h⟩
  error _ hrun := nomatch hrun

theorem Skips.map {β : Type} {m : Stm Unit} (hm : Skips m p) (f : α → β) :
    Skips m (do let a ← p; pure (f a)) := by
  have hseq := hm.seq fun a => skips_pure (f a)
  rwa [bind_pure_unit] at hseq

theorem skips_skipRemaining (depth n : Nat) :
    Skips (skipRemaining (fullDecoder T) depth n) (times ((fullDecoder T).readNodeRefAt depth) n) := by
  induction n with
  | zero => exact skips_pure []
  | succ n ih => exact (skips_skipNode depth).seq fun node => ih.map (node :: ·)

/-- Closing a node drops its unread children. -/
theorem exec_close {levels : List Nat} (h : s.Stands rest) (hlevels : s.levels = n :: levels) :
    ∃ slots, s.slots = n :: slots ∧
      ((∃ nodes s' rest', times ((fullDecoder T).readNodeRefAt slots.length) n rest = .ok (nodes, rest')
        ∧ exec (close (fullDecoder T)) s = (.ok (), s') ∧ s'.Stands rest'
        ∧ s'.levels = levels ∧ s'.slots = slots) ∨
      ∃ e s', times ((fullDecoder T).readNodeRefAt slots.length) n rest = .error e
        ∧ exec (close (fullDecoder T)) s = (.error e, s')) := by
  obtain ⟨source, pending, levels', rootDone⟩ := s
  cases hlevels
  have hroot : rootDone = true := h.rootDone (List.cons_ne_nil _ _)
  let s₁ : NodeStream := ⟨source.consume pending, 0, n :: levels, rootDone⟩
  have hskips := skips_skipRemaining (T := T) (levels.length + 1) n
  have hclose : exec (close (fullDecoder T)) ⟨source, pending, n :: levels, rootDone⟩
      = exec (do
          skipRemaining (fullDecoder T) (levels.length + 1) n
          modify fun s => { s with levels := s.levels.tail }) s₁ := rfl
  refine ⟨levels ++ [if rootDone then 0 else 1], rfl, ?_⟩
  rw [hclose, List.length_append, List.length_singleton]
  match hrun : times ((fullDecoder T).readNodeRefAt (levels.length + 1)) n rest with
  | .ok (nodes, rest') =>
    obtain ⟨source', hexec, hdelivers⟩ := hskips.ok (s := s₁) h.delivers hrun
    refine .inl ⟨nodes, ⟨source', 0, levels, rootDone⟩, rest', rfl, ?_,
      stands_of_rootDone (delivers_consume_zero hdelivers) hroot, rfl, rfl⟩
    rw [exec_bind_ok hexec]
    rfl
  | .error e =>
    obtain ⟨s', hexec⟩ := hskips.error (s := s₁) h.delivers hrun
    exact .inr ⟨e, s', rfl, exec_bind_error hexec⟩

theorem slots_nil (hlevels : s.levels = []) : s.slots = [if s.rootDone then 0 else 1] := by
  rw [NodeStream.slots, hlevels, List.nil_append]

theorem exec_close_root (hlevels : s.levels = []) :
    exec (close (fullDecoder T)) s
      = (.ok (), { s with source := s.source.consume s.pending, pending := 0 }) := by
  obtain ⟨source, pending, levels, rootDone⟩ := s
  cases hlevels
  rfl

theorem outcome_close (h : s.Stands rest) : Outcome T .close s rest := by
  cases hlevels : s.levels with
  | nil =>
    refine .of_slots_eq (?_ : exec _ s
        = (.ok .closed, { s with source := s.source.consume s.pending, pending := 0 }))
      ⟨delivers_consume_zero h.delivers, fun hfresh => ⟨(h.fresh hfresh).1, rfl⟩⟩ rfl ?_
    · rw [CursorCall.run, exec_map, exec_close_root hlevels, Except.map]
    · rw [slots_nil hlevels]
      intro levels hread
      obtain ⟨nodes, outer, between, -, rfl, houter⟩ := readSlots_cons hread
      cases houter
      rfl
  | cons n levels =>
    obtain ⟨slots, hslots, ⟨nodes, s', rest', hrun, hexec, hstands, -, hslots'⟩ |
      ⟨e, s', hrun, hexec⟩⟩ := exec_close h hlevels
    · refine .done .closed s' rest' (nodes :: ·) ?_ hstands ?_ ?_
      · rw [CursorCall.run, exec_map, hexec, Except.map]
      · rw [hslots, readSlots, bind_ok hrun, hslots']
      · intro read hread
        obtain ⟨m, slots, hslots⟩ := slots_ne_nil s'
        rw [hslots] at hread
        obtain ⟨level, outer, -, -, rfl, -⟩ := readSlots_cons hread
        rfl
    · refine .failed e s' ?_ ?_
      · rw [CursorCall.run, exec_map, hexec, Except.map]
      · rw [hslots]
        exact not_readable_cons_of_error hrun

theorem outcome (call : CursorCall) (h : s.Stands rest) : Outcome T call s rest := by
  cases call with
  | openNode => exact outcome_openNode h
  | nextChild => exact outcome_nextChild h
  | close => exact outcome_close h

/-! ## The end of the stream -/

theorem exec_closeAll (h : s.Stands rest) :
    (∃ s' rest', exec (closeAll (fullDecoder T) s.levels.length) s = (.ok (), s') ∧ s'.Stands rest'
      ∧ s'.levels = [] ∧ (Readable T s.slots rest ↔ Readable T s'.slots rest')) ∨
    ∃ e s', exec (closeAll (fullDecoder T) s.levels.length) s = (.error e, s')
      ∧ ¬ Readable T s.slots rest := by
  induction hlen : s.levels.length generalizing s rest with
  | zero => exact .inl ⟨s, rest, rfl, h, List.length_eq_zero_iff.mp hlen, Iff.rfl⟩
  | succ k ih =>
    obtain ⟨n, levels, hlevels⟩ := List.exists_cons_of_length_eq_add_one hlen
    obtain ⟨slots, hslots, ⟨nodes, s₁, rest₁, hrun, hexec, hstands, hlevels₁, rfl⟩ |
      ⟨e, s', hrun, hexec⟩⟩ := exec_close h hlevels
    all_goals rw [closeAll, hslots]
    · have hlen₁ : s₁.levels.length = k := by
        rw [hlevels, List.length_cons] at hlen
        rw [hlevels₁]
        omega
      rw [exec_bind_ok hexec, readable_cons_of_ok hrun]
      exact ih hstands hlen₁
    · exact .inr ⟨e, s', exec_bind_error hexec, not_readable_cons_of_error hrun⟩

/-- The source is finished if it has nothing left. -/
theorem exec_finishSource (h : s.source.Delivers rest) :
    (exec finishSource s).1 = .ok () ↔ rest = [] := by
  obtain ⟨source, pending, levels, rootDone⟩ := s
  cases source with
  | plain data =>
    have hdata : data = rest := h.1
    rw [exec_finishSource_plain, hdata]
  | inflate reader =>
    obtain ⟨filled, source', hexec, hensured⟩ := exec_ensureSource h 1
    obtain ⟨extra, hextra⟩ := available_append_of_delivers hensured.delivers
    cases filled with
    | true =>
      have hne : source'.available ≠ [] := List.ne_nil_of_length_pos (hensured.filled_iff.mp rfl)
      have hfail := exec_finishSource_filled rfl hexec
      simp [hfail, hextra, hne]
    | false =>
      have hlen : ¬ 1 ≤ source'.available.length := fun hle => nomatch hensured.filled_iff.mpr hle
      have hnil : rest = [] := by
        rw [← hensured.whole rfl]
        exact List.length_eq_zero_iff.mp (by omega)
      have hdone := exec_finishSource_drained rfl hexec (by
        rintro reader' rfl
        exact hensured.delivers.2.2)
      simp [hdone, hnil]

theorem exec_finishRoot (h : s.Stands rest) (hlevels : s.levels = []) :
    (exec (do finishRoot (fullDecoder T); settle; finishSource) s).1 = .ok ()
      ↔ Readable T s.slots rest := by
  obtain ⟨source, pending, levels, rootDone⟩ := s
  cases hlevels
  cases rootDone with
  | true =>
    have hread : Readable T [0] rest ↔ rest = [] := (readable_cons_of_ok rfl).trans readable_nil
    exact (exec_finishSource h.delivers).trans hread.symm
  | false =>
    -- nothing was returned yet, so the root's bytes are the first of the source
    obtain rfl : pending = 0 := (h.fresh rfl).2
    have hsource : source.Delivers rest := consume_zero source ▸ h.delivers
    have hskips : Skips (skipNode (fullDecoder T) 0) (times ((fullDecoder T).readNodeRefAt 0) 1) :=
      (skips_skipNode 0).map ([·])
    let s₁ : NodeStream := ⟨source, 0, [], true⟩
    have hroot : exec (do finishRoot (fullDecoder T); settle; finishSource) ⟨source, 0, [], false⟩
        = exec (do skipNode (fullDecoder T) 0; settle; finishSource) s₁ := rfl
    change _ ↔ Readable T [1] rest
    rw [hroot]
    match hrun : times ((fullDecoder T).readNodeRefAt 0) 1 rest with
    | .ok (nodes, rest') =>
      obtain ⟨source', hexec, hdelivers⟩ := hskips.ok (s := s₁) hsource hrun
      rw [readable_cons_of_ok hrun, readable_nil, exec_bind_ok hexec]
      exact exec_finishSource (delivers_consume_zero hdelivers)
    | .error e =>
      obtain ⟨s', hexec⟩ := hskips.error (s := s₁) hsource hrun
      rw [exec_bind_error hexec]
      exact ⟨nofun, fun hread => absurd hread (not_readable_cons_of_error hrun)⟩

theorem exec_finish (h : s.Stands rest) :
    (exec (finish (fullDecoder T)) s).1 = .ok () ↔ Readable T s.slots rest := by
  have hfinish : exec (finish (fullDecoder T)) s = exec (do
      closeAll (fullDecoder T) s.levels.length
      finishRoot (fullDecoder T)
      settle
      finishSource) s := rfl
  rw [hfinish]
  rcases exec_closeAll h with
    ⟨s₁, rest₁, hexec, hstands, hlevels, hiff⟩ | ⟨e, s', hexec, hnot⟩
  · rw [exec_bind_ok hexec, hiff]
    exact exec_finishRoot hstands hlevels
  · rw [exec_bind_error hexec]
    exact ⟨nofun, fun hread => absurd hread hnot⟩

/-! ## Whole runs -/

/-- A stream over a source that delivers `b`, before any call. -/
theorem stands_withSource {source : Source} (h : source.Delivers rest) :
    (NodeStream.withSource source).Stands rest :=
  ⟨delivers_consume_zero h, fun _ => ⟨rfl, rfl⟩⟩

theorem walkToEnd_cons (call : CursorCall) (calls : List CursorCall) :
    walkToEnd T (fullDecoder T) (call :: calls) = (do
      let answer ← call.run T (fullDecoder T)
      (answer :: ·) <$> walkToEnd T (fullDecoder T) calls) := by
  simp only [walkToEnd, walk, bind_assoc, pure_bind, map_bind, map_pure]

theorem exec_walkToEnd_nil :
    (exec (walkToEnd T (fullDecoder T) []) s).1
      = (exec (finish (fullDecoder T)) s).1.map fun _ => [] := by
  have hnil : walkToEnd T (fullDecoder T) [] = (fun _ => []) <$> finish (fullDecoder T) := by
    rw [walkToEnd, walk, pure_bind, map_eq_pure_bind]
  rw [hnil, exec_map]

/-- Over bytes that decode, every call answers as the tree cursor does; over bytes that do
not, a call or `finish` reports an error. -/
theorem exec_walkToEnd (calls : List CursorCall) (h : s.Stands rest) :
    (∀ levels, readSlots T s.slots rest = .ok (levels, []) →
      (exec (walkToEnd T (fullDecoder T) calls) s).1 = .ok (walkTree calls levels))
      ∧ (¬ Readable T s.slots rest →
        ∃ e, (exec (walkToEnd T (fullDecoder T) calls) s).1 = .error e) := by
  induction calls generalizing s rest with
  | nil =>
    rw [exec_walkToEnd_nil]
    refine ⟨fun levels hread => ?_, fun hnot => ?_⟩
    · rw [(exec_finish h).mpr ⟨levels, hread⟩]
      rfl
    · match hfinish : (exec (finish (fullDecoder T)) s).1 with
      | .ok () => exact absurd ((exec_finish h).mp hfinish) hnot
      | .error e => exact ⟨e, rfl⟩
  | cons call calls ih =>
    rw [walkToEnd_cons]
    cases outcome call h with
    | done answer s' rest' undo hexec hstands hread htree =>
      obtain ⟨hok, herror⟩ := ih hstands
      rw [exec_bind_ok hexec, exec_map, Readable, hread]
      refine ⟨fun levels hlevels => ?_, fun hnot => ?_⟩
      · obtain ⟨levels', between, hlevels', heq⟩ := bind_apply_eq_ok.mp hlevels
        cases heq
        rw [hok levels' hlevels', walkTree, htree levels' hlevels']
        rfl
      · obtain ⟨e, he⟩ := herror fun ⟨levels, hlevels⟩ => hnot ⟨_, bind_ok hlevels⟩
        rw [he]
        exact ⟨e, rfl⟩
    | failed e s' hexec hnot =>
      rw [exec_bind_error hexec]
      exact ⟨fun levels hlevels => absurd ⟨levels, hlevels⟩ hnot, fun _ => ⟨e, rfl⟩⟩

theorem unmarshalRef_eq_ok {self : Decoder} {node : NodeRef} :
    unmarshalRef self rest = .ok node ↔ self.readNodeRefAt 0 rest = .ok (node, []) := by
  rw [unmarshalRef]
  match self.readNodeRefAt 0 rest with
  | .ok (node', []) => simp
  | .ok (node', b :: rest') => simp
  | .error e => simp

/-- What is to be decoded for a stream that starts is the whole node. -/
theorem readSlots_root :
    readSlots T [1] = (do let node ← (fullDecoder T).readNodeRefAt 0; pure [[node]]) := by
  simp only [readSlots, times, bind_assoc, pure_bind, List.length_nil]

end Steps

/-- A stream over any source that delivers the bytes of a node hands out, call
by call, what a cursor over the decoded node hands out, and is finished without
an error; if the bytes are no node, some call fails. -/
theorem stream_refines_tree (T : TokenTables) {b : Bytes} {source : Source}
    (h : source.Delivers b) (calls : List CursorCall) :
    (∀ node, unmarshalRef (fullDecoder T) b = .ok node →
      (exec (walkToEnd T (fullDecoder T) calls) (.withSource source)).1
        = .ok (walkTree calls [[node]])) ∧
    ∀ e, unmarshalRef (fullDecoder T) b = .error e →
      ∃ e', (exec (walkToEnd T (fullDecoder T) calls) (.withSource source)).1 = .error e' := by
  obtain ⟨hok, herror⟩ := exec_walkToEnd calls (stands_withSource h)
  refine ⟨fun node hnode => hok _ ?_, fun e he => herror ?_⟩
  · show readSlots T [1] b = _
    rw [readSlots_root, bind_ok (unmarshalRef_eq_ok.mp hnode)]
    rfl
  · rintro ⟨levels, hlevels⟩
    rw [show readSlots T (NodeStream.slots (.withSource source)) b = _ from congrFun readSlots_root b]
      at hlevels
    obtain ⟨node, between, hnode, heq⟩ := bind_apply_eq_ok.mp hlevels
    cases heq
    cases he.symm.trans (unmarshalRef_eq_ok.mpr hnode)

/-- A node with two children, the second with a text. -/
def pairNode : NodeRef := ⟨"iq", [], some (.nodes [⟨"iq", [], none⟩, ⟨"iq", [], some (.bytes [97])⟩])⟩

/-- The bytes of `pairNode`, out of the decompressor in three parts. -/
def pairSource : Source :=
  .inflate ⟨[248], [⟨[2, 1, 248, 2, 248, 1, 1, 248], none⟩, ⟨[], none⟩, ⟨[2, 1, 252, 1, 97], none⟩],
    true⟩

theorem pairSource_walk :
    (exec (walkToEnd sampleTables (fullDecoder sampleTables) [.openNode, .nextChild, .close])
      (.withSource pairSource)).1
        = .ok (walkTree [.openNode, .nextChild, .close] [[pairNode]]) := by
  have hdelivers : pairSource.Delivers pairSource.bytes :=
    ⟨rfl, by simp, rfl⟩
  exact (stream_refines_tree sampleTables hdelivers _).1 pairNode rfl

end WaCore.Binary
