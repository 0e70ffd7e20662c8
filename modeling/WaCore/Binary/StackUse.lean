import WaCore.Binary.Stream

/-!
# The decoder's stack grows with the frame

`MAX_NODE_DEPTH` caps how deep nodes nest, so that a hostile frame is an error
and not a stack overflow.  JID tokens nest as well, a JID holding values that
may be JIDs again, and nothing caps those: each byte `JID_PAIR` opens two more
calls.  This module computes exactly how much stack frames of up to `n` bytes
need, decoded as a tree or through a stream: `2 * n - 1` calls
(`fitsStack_iff`), so no stack is enough for frames of every length
(`no_stack_fits_every_frame`).
-/

namespace WaCore.Binary

open ListParser Eff

/-- No call of the decoder runs past the end of a stack of `stack` calls: not
while the frame is decoded as a tree, and not in any run of calls on a stream
whose source delivers it. -/
def FitsStack (T : TokenTables) (stack : Nat) (frame : Bytes) : Prop :=
  unmarshalRef (decoder T stack) frame ≠ .error .stackOverflow ∧
    ∀ source : Source, source.bytes = frame → ∀ ops,
      .error .stackOverflow ∉ streamResults T (decoder T stack) ops (.withSource source)

/-! ## Frames that need it -/

section Lower

variable {T : TokenTables} {d : Decoder} {rest : Bytes}

theorem readListSize_bind_list8 {α : Type} (f : Nat → Dec α) (size : UInt8) (rest : Bytes) :
    (readListSize LIST_8 >>= f) (size :: rest) = f size.toNat rest := by
  have htag : Tag.ofByte LIST_8 = .list8 := by decide
  unfold readListSize
  rfl

/-- A JID opener fails as the reader of the token does. -/
theorem readValueAsStringFromTag_jidPair {e : Fault} (h : d.readJid .pair rest = .error e) :
    readValueAsStringFromTag T d JID_PAIR rest = .error e := by
  have htag : Tag.ofByte JID_PAIR = .jid .pair := by decide
  unfold readValueAsStringFromTag
  exact map_error h

theorem skipValueFromTag_jidPair {e : Fault} (h : d.readJid .pair rest = .error e) :
    skipValueFromTag T d JID_PAIR rest = .error e := by
  have htag : Tag.ofByte JID_PAIR = .jid .pair := by decide
  unfold skipValueFromTag
  exact bind_error h

variable {stack k : Nat}

/-- A value that is nothing but JID openers uses two calls for each. -/
theorem readValueAsString_replicate (h : stack ≤ 2 * k) :
    (decoder T stack).readValueAsString (List.replicate k JID_PAIR) =
      .error .stackOverflow := by
  induction k generalizing stack with
  | zero =>
    obtain rfl : stack = 0 := by omega
    rfl
  | succ k ih =>
    match stack with
    | 0 => rfl
    | 1 =>
      have hinner : (decoder T 0).readJid .pair (List.replicate k JID_PAIR) =
          .error .stackOverflow := rfl
      exact readValueAsStringFromTag_jidPair (T := T) hinner
    | stack + 2 =>
      have hinner : (decoder T stack).readValueAsString (List.replicate k JID_PAIR) =
          .error .stackOverflow := ih (by omega)
      exact readValueAsStringFromTag_jidPair (T := T)
        (bind_error hinner)

/-- The head of a node with a tag only, and the tag a chain of JID openers. -/
def jidChain (k : Nat) : Bytes := LIST_8 :: 1 :: List.replicate k JID_PAIR

theorem length_jidChain (k : Nat) : (jidChain k).length = k + 2 := by
  simp [jidChain]

theorem unmarshalRef_jidChain (h : stack ≤ 2 * k + 1) :
    unmarshalRef (decoder T stack) (jidChain k) = .error .stackOverflow := by
  have hread : (decoder T stack).readNodeRefAt 0 (jidChain k) = .error .stackOverflow := by
    match stack with
    | 0 => rfl
    | stack + 1 =>
      have htag : required .invalidNode (decoder T stack).readValueAsString
          (List.replicate k JID_PAIR) = .error .stackOverflow :=
        bind_error (readValueAsString_replicate (by omega))
      have hopen : readNodeOpen T (decoder T stack) (jidChain k) = .error .stackOverflow := by
        unfold readNodeOpen jidChain
        rw [readU8_bind, readListSize_bind_list8]
        exact bind_error htag
      exact bind_error hopen
  unfold unmarshalRef
  rw [hread]

theorem skipNodeAt_jidChain (h : stack ≤ 2 * k + 4) :
    (decoder T stack).skipNodeAt 0 (jidChain (k + 1)) = .error .stackOverflow := by
  match stack with
  | 0 => rfl
  | 1 => rfl
  | stack + 2 =>
    have htag : (decoder T stack).skipValueFromTag JID_PAIR (List.replicate k JID_PAIR) =
        .error .stackOverflow := by
      match stack with
      | 0 => rfl
      | 1 => exact skipValueFromTag_jidPair (T := T) rfl
      | stack + 2 =>
        have hinner : (decoder T stack).readValueAsString (List.replicate k JID_PAIR) =
            .error .stackOverflow := readValueAsString_replicate (by omega)
        exact skipValueFromTag_jidPair (T := T) (bind_error hinner)
    have hopen : skipNodeOpen (decoder T stack) (jidChain (k + 1)) = .error .stackOverflow := by
      unfold skipNodeOpen jidChain
      rw [readU8_bind, readListSize_bind_list8, if_neg (by decide), List.replicate_succ,
        readU8_bind]
      exact bind_error htag
    exact bind_error hopen

/-- Finishing a stream that was not read yet skips its root. -/
theorem finish_jidChain (h : stack ≤ 2 * k + 4) :
    streamResults T (decoder T stack) [.finish] (.withSource (.plain (jidChain (k + 1)))) =
      [.error .stackOverflow] := by
  have hskip := skipNodeAt_jidChain (T := T) h
  have hnode : (skipNode (decoder T stack) 0).exec
      ⟨.plain (jidChain (k + 1)), 0, [], true⟩ =
        (.error .stackOverflow, ⟨.plain (jidChain (k + 1)), 0, [], true⟩) := by
    unfold skipNode skipNext decodeNext decodeLoop
    simp [exec_bind, Source.available, hskip]
  simp [streamResults, StreamOp.run, finish, finishRoot, closeAll, NodeStream.withSource,
    exec_bind, hnode]

end Lower

/-! ## Stack that is enough -/

section Upper

/-- The operation does not run out of stack, and leaves a source that can give
at most `n` bytes. -/
def KeepsFitting {α : Type} (n : Nat) (m : Stm α) : Prop :=
  Meets m (fun s => s.source.bytes.length ≤ n) (fun _ s => s.source.bytes.length ≤ n)
    (fun e s => e ≠ .stackOverflow ∧ s.source.bytes.length ≤ n)

variable {α β : Type} {n : Nat}

theorem KeepsFitting.bind {m : Stm α} {f : α → Stm β} (hm : KeepsFitting n m)
    (hf : ∀ a, KeepsFitting n (f a)) : KeepsFitting n (m >>= f) :=
  Meets.bind hm hf

theorem keepsFitting_pure (a : α) : KeepsFitting n (pure a : Stm α) := fun _ h => h

theorem keepsFitting_throw {e : Fault} (he : e ≠ .stackOverflow) :
    KeepsFitting n (throw e : Stm α) := fun _ h => ⟨he, h⟩

theorem keepsFitting_modify {g : NodeStream → NodeStream}
    (h : ∀ s, (g s).source.bytes.length ≤ s.source.bytes.length) :
    KeepsFitting n (modify g) := fun s hs => Nat.le_trans (h s) hs

/-- A program that looks at the state first. -/
theorem keepsFitting_get {f : NodeStream → Stm α}
    (h : ∀ s, s.source.bytes.length ≤ n → Meets (f s) (fun s' => s' = s)
      (fun _ s => s.source.bytes.length ≤ n)
      (fun e s => e ≠ .stackOverflow ∧ s.source.bytes.length ≤ n)) :
    KeepsFitting n (get >>= f) := by
  intro s hs
  exact h s hs s rfl

theorem KeepsFitting.at {m : Stm α} (h : KeepsFitting n m) {s : NodeStream}
    (hs : s.source.bytes.length ≤ n) : Meets m (fun s' => s' = s)
      (fun _ s => s.source.bytes.length ≤ n)
      (fun e s => e ≠ .stackOverflow ∧ s.source.bytes.length ≤ n) :=
  Meets.mono h (fun _ he => he ▸ hs) (fun _ _ h => h) (fun _ _ h => h)

/-! ### Sources -/

theorem length_bytes_consume_le (source : Source) (k : Nat) :
    (source.consume k).bytes.length ≤ source.bytes.length := by
  cases source with
  | plain data => simp [Source.consume, Source.bytes]
  | inflate reader => simp [Source.consume, Source.bytes]

theorem length_available_le (source : Source) :
    source.available.length ≤ source.bytes.length := by
  cases source with
  | plain data => exact Nat.le_refl _
  | inflate reader => simp [Source.available, Source.bytes]

/-- Pumping moves bytes into the window and makes none. -/
theorem bytes_ensureWindow (need : Nat) (window : Bytes) (pumps : List Pump) :
    (ensureWindow need window pumps).2.1 ++ (ensureWindow need window pumps).2.2.flatMap (·.produced) =
      window ++ pumps.flatMap (·.produced) := by
  induction pumps generalizing window with
  | nil => rfl
  | cons pump pumps ih =>
    unfold ensureWindow
    split
    · rfl
    · cases pump.error with
      | some e => simp
      | none =>
        rw [ih (window ++ pump.produced)]
        simp

theorem bytes_ensure (need : Nat) (source : Source) :
    (source.ensure need).2.bytes = source.bytes := by
  cases source with
  | plain data => rfl
  | inflate reader => exact bytes_ensureWindow need reader.window reader.pumps

/-! ### Operations -/

theorem keepsFitting_ensureSource (need : Nat) : KeepsFitting n (ensureSource need) := by
  intro s hs
  have hbytes := bytes_ensure need s.source
  unfold ensureSource
  rw [exec_bind, exec_get]
  match hensure : s.source.ensure need with
  | (.ok filled, source) =>
    rw [hensure] at hbytes
    simp only [exec_bind, exec_set, exec_pure, hensure, hbytes]
    exact hs
  | (.error e, source) =>
    rw [hensure] at hbytes
    simp only [exec_bind, exec_set, exec_throw, hensure, hbytes]
    exact ⟨by simp, hs⟩

theorem keepsFitting_grow (k : Nat) : KeepsFitting n (grow k) :=
  (keepsFitting_ensureSource _).bind fun _ => keepsFitting_get fun _ hs =>
    (keepsFitting_pure _).at hs

/-- Decoding from the window fits when the decoder fits on all the bytes. -/
theorem keepsFitting_decodeLoop {decode : Dec α} (hdecode : Bounded .stackOverflow n 0 decode)
    (rounds : Nat) : KeepsFitting n (decodeLoop decode rounds) := by
  induction rounds with
  | zero => exact keepsFitting_throw (by simp)
  | succ rounds ih =>
    refine keepsFitting_get fun s hs => ?_
    have hfits := (hdecode s.source.available
      (Nat.le_trans (length_available_le s.source) hs)).1
    dsimp only
    split
    · exact (keepsFitting_pure _).at hs
    · refine KeepsFitting.at ?_ hs
      refine (keepsFitting_grow _).bind fun more => ?_
      cases more with
      | true => exact ih
      | false => exact keepsFitting_throw (by simp)
    · rename_i e _ he
      exact (keepsFitting_throw fun h => hfits (h ▸ he)).at hs

theorem keepsFitting_decodeNext {decode : Dec α} (hdecode : Bounded .stackOverflow n 0 decode) :
    KeepsFitting n (decodeNext decode) :=
  keepsFitting_get fun _ hs => (keepsFitting_decodeLoop hdecode _).at hs

theorem keepsFitting_settle : KeepsFitting n settle :=
  keepsFitting_modify fun s => length_bytes_consume_le s.source s.pending

theorem keepsFitting_takeSlot : KeepsFitting n takeSlot := by
  refine keepsFitting_settle.bind fun _ => keepsFitting_get fun s hs => ?_
  intro s' hs'
  subst hs'
  match hlevels : s'.levels with
  | [] =>
    cases hroot : s'.rootDone with
    | true =>
      exact hs
    | false =>
      exact hs
  | 0 :: _ => exact hs
  | (remaining + 1) :: levels =>
    exact hs

variable {T : TokenTables} {stack : Nat}

theorem keepsFitting_skipNode (hstack : 2 ≤ stack) (hn : 2 * n ≤ stack + 1) (depth : Nat) :
    KeepsFitting n (skipNode (decoder T stack) depth) := by
  have hskip := (room_decoder T stack).skipNodeAt n depth hstack hn
  refine KeepsFitting.bind ?_ fun used => ?_
  · exact (keepsFitting_decodeNext hskip).bind fun _ => keepsFitting_pure _
  · exact keepsFitting_modify fun s => length_bytes_consume_le s.source used

theorem keepsFitting_openNode (hn : 2 * n ≤ stack + 1) :
    KeepsFitting n (openNode T (decoder T stack)) := by
  have hopen : Bounded .stackOverflow n 0 (readNodeOpen T (decoder T stack)) :=
    (bounded_readNodeOpen (room_decoder T stack) (by omega)).mono (Nat.le_refl n) (Nat.zero_le _)
  refine keepsFitting_takeSlot.bind fun slot => ?_
  cases slot with
  | false => exact keepsFitting_pure _
  | true =>
    refine keepsFitting_get fun s hs => KeepsFitting.at ?_ hs
    split
    · exact keepsFitting_throw (by simp)
    · refine (keepsFitting_decodeNext hopen).bind fun (head, used) => ?_
      refine KeepsFitting.bind (keepsFitting_modify fun s => ?_) fun _ => keepsFitting_pure _
      exact Nat.le_refl _

theorem keepsFitting_nextChild (hstack : 1 ≤ stack) (hn : 2 * n ≤ stack + 1) :
    KeepsFitting n (nextChild (decoder T stack)) := by
  refine keepsFitting_takeSlot.bind fun slot => ?_
  cases slot with
  | false => exact keepsFitting_pure _
  | true =>
    refine keepsFitting_get fun s hs => KeepsFitting.at ?_ hs
    have hread := (room_decoder T stack).readNodeRefAt n s.levels.length hstack (by omega)
    refine (keepsFitting_decodeNext hread).bind fun (node, used) => ?_
    refine KeepsFitting.bind (keepsFitting_modify fun s => ?_) fun _ => keepsFitting_pure _
    exact Nat.le_refl _

theorem keepsFitting_close (hstack : 2 ≤ stack) (hn : 2 * n ≤ stack + 1) :
    KeepsFitting n (close (decoder T stack)) := by
  have hloop (depth remaining : Nat) :
      KeepsFitting n (skipRemaining (decoder T stack) depth remaining) := by
    induction remaining with
    | zero => exact keepsFitting_pure _
    | succ remaining ih => exact (keepsFitting_skipNode hstack hn depth).bind fun _ => ih
  refine keepsFitting_settle.bind fun _ => keepsFitting_get fun s hs => KeepsFitting.at ?_ hs
  cases s.levels with
  | nil => exact keepsFitting_pure _
  | cons remaining levels =>
    exact (hloop _ remaining).bind fun _ => keepsFitting_modify fun s => Nat.le_refl _

theorem keepsFitting_finishSource : KeepsFitting n finishSource := by
  refine keepsFitting_get fun s hs => KeepsFitting.at ?_ hs
  cases s.source with
  | plain data =>
    dsimp only
    split
    · exact keepsFitting_throw (by simp)
    · exact keepsFitting_pure _
  | inflate reader =>
    refine (keepsFitting_ensureSource 1).bind fun filled => ?_
    cases filled with
    | true => exact keepsFitting_get fun s hs => (keepsFitting_throw (by simp)).at hs
    | false =>
      refine keepsFitting_get fun s hs => KeepsFitting.at ?_ hs
      cases s.source with
      | plain data => exact keepsFitting_pure _
      | inflate reader =>
        dsimp only
        split
        · exact keepsFitting_throw (by simp)
        · exact keepsFitting_pure _

theorem keepsFitting_finish (hstack : 2 ≤ stack) (hn : 2 * n ≤ stack + 1) :
    KeepsFitting n (finish (decoder T stack)) := by
  have hloop (levels : Nat) : KeepsFitting n (closeAll (decoder T stack) levels) := by
    induction levels with
    | zero => exact keepsFitting_pure _
    | succ levels ih => exact (keepsFitting_close hstack hn).bind fun _ => ih
  have hroot : KeepsFitting n (finishRoot (decoder T stack)) := by
    refine keepsFitting_get fun s hs => ?_
    split
    · exact (keepsFitting_pure _).at hs
    · intro s' hs'
      exact keepsFitting_skipNode hstack hn 0 _ hs
  exact keepsFitting_get fun s hs => ((hloop _).bind fun _ => hroot.bind fun _ =>
    keepsFitting_settle.bind fun _ => keepsFitting_finishSource).at hs

/-- One call on the stream. -/
theorem keepsFitting_streamOp (hstack : 2 ≤ stack) (hn : 2 * n ≤ stack + 1) (op : StreamOp) :
    KeepsFitting n (op.run T (decoder T stack)) := by
  cases op with
  | openNode => exact (keepsFitting_openNode hn).bind fun _ => keepsFitting_pure _
  | nextChild =>
    exact (keepsFitting_nextChild (by omega) hn).bind fun _ => keepsFitting_pure _
  | close => exact keepsFitting_close hstack hn
  | finish => exact keepsFitting_finish hstack hn

/-- Every call of a run. -/
theorem streamResults_fit (hstack : 2 ≤ stack) (hn : 2 * n ≤ stack + 1) (ops : List StreamOp)
    (s : NodeStream) (hs : s.source.bytes.length ≤ n) :
    .error .stackOverflow ∉ streamResults T (decoder T stack) ops s := by
  induction ops generalizing s with
  | nil => simp [streamResults]
  | cons op ops ih =>
    have hop := keepsFitting_streamOp (T := T) hstack hn op s hs
    unfold streamResults
    match hexec : (op.run T (decoder T stack)).exec s with
    | (.ok _, s') =>
      rw [hexec] at hop
      simpa using ih s' hop
    | (.error e, s') =>
      rw [hexec] at hop
      simp only [List.mem_cons, not_or]
      exact ⟨fun h => hop.1 (Except.error.inj h).symm, ih s' hop.2⟩

theorem unmarshalRef_fits (hstack : 1 ≤ stack) {frame : Bytes}
    (hn : 2 * frame.length ≤ stack + 2) :
    unmarshalRef (decoder T stack) frame ≠ .error .stackOverflow := by
  have hread := ((room_decoder T stack).readNodeRefAt frame.length 0 hstack hn frame
    (Nat.le_refl _)).1
  unfold unmarshalRef
  split
  · simp
  · simp
  · rename_i e he
    intro h
    cases h
    exact hread he

end Upper

/-! ## Exactly how much -/

/-- A stack fits all frames of up to `n` bytes exactly when it has room for
`2 * n - 1` calls. -/
theorem fitsStack_iff (T : TokenTables) {n stack : Nat} (hn : 3 ≤ n) :
    (∀ frame, frame.length ≤ n → FitsStack T stack frame) ↔ 2 * n ≤ stack + 1 := by
  constructor
  · intro h
    by_contra hstack
    -- the longest chain of JID openers, skipped by `finish`
    obtain ⟨k, rfl⟩ : ∃ k, n = k + 3 := ⟨n - 3, by omega⟩
    have hfits := (h (jidChain (k + 1)) (by rw [length_jidChain])).2 (.plain (jidChain (k + 1)))
      rfl [.finish]
    rw [finish_jidChain (by omega)] at hfits
    exact hfits (List.mem_singleton.mpr rfl)
  · intro hstack frame hframe
    refine ⟨unmarshalRef_fits (by omega) (by omega), fun source hsource ops => ?_⟩
    refine streamResults_fit (by omega) hstack ops _ ?_
    change source.bytes.length ≤ n
    rw [hsource]
    exact hframe

theorem fitsStack_three : (∀ frame, frame.length ≤ 3 → FitsStack sampleTables 5 frame) ∧
    ¬ ∀ frame, frame.length ≤ 3 → FitsStack sampleTables 4 frame :=
  ⟨(fitsStack_iff sampleTables (Nat.le_refl 3)).mpr (by decide),
    fun h => absurd ((fitsStack_iff sampleTables (Nat.le_refl 3)).mp h) (by decide)⟩

/-- No stack is enough for frames of every length, and a frame of 16 MiB can
open more than thirty-three million calls. -/
theorem no_stack_fits_every_frame :
    (∀ stack, ∃ frame, unmarshalRef (decoder sampleTables stack) frame = .error .stackOverflow) ∧
      ∃ frame, frame.length = 16 * 1024 * 1024 ∧
        unmarshalRef (decoder sampleTables 33554429) frame = .error .stackOverflow := by
  constructor
  · intro stack
    exact ⟨jidChain stack, unmarshalRef_jidChain (by omega)⟩
  · exact ⟨jidChain 16777214, by rw [length_jidChain], unmarshalRef_jidChain (by omega)⟩

end WaCore.Binary
