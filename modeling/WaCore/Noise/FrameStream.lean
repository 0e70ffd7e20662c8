import WaCore.Noise.Framing

/-!
# Frames of a stream

The frames of a byte stream, as a splitter, and the decoder against it: a call
feeds bytes behind the buffer, or cuts the first frame off it.  What the capacity
of the buffer does to it leaves its content alone.
-/

namespace WaCore.Noise

/-! ## Frames -/

/-- A payload behind its length. -/
def lengthPrefixed (payload : Bytes) : Bytes :=
  UInt8.ofNat (payload.length / 65536) :: UInt8.ofNat (payload.length / 256)
    :: UInt8.ofNat payload.length :: payload

/-- The stream is the frames of the payloads, and then part of a frame. -/
structure Framed (stream : Bytes) (payloads : List Bytes) (tail : Bytes) : Prop where
  stream_eq : stream = payloads.flatMap lengthPrefixed ++ tail
  short : ∀ p ∈ payloads, p.length < FRAME_MAX_SIZE
  incomplete : ∀ p rest, p.length < FRAME_MAX_SIZE → tail ≠ lengthPrefixed p ++ rest

def cutFrame : Bytes → Option (Bytes × Bytes)
  | b0 :: b1 :: b2 :: rest =>
    if rest.length < frameLen b0 b1 b2 then none
    else some (rest.take (frameLen b0 b1 b2), rest.drop (frameLen b0 b1 b2))
  | _ => none

theorem frameLen_eq (b0 b1 b2 : UInt8) :
    frameLen b0 b1 b2 = 256 * (256 * b0.toNat + b1.toNat) + b2.toNat :=
  or_shift_three b1.toNat_lt b2.toNat_lt

theorem frameLen_lt (b0 b1 b2 : UInt8) : frameLen b0 b1 b2 < FRAME_MAX_SIZE := by
  have h0 := b0.toNat_lt
  have h1 := b1.toNat_lt
  have h2 := b2.toNat_lt
  rw [frameLen_eq, FRAME_MAX_SIZE]
  omega

theorem frameLen_ofNat {n : Nat} (h : n < FRAME_MAX_SIZE) :
    frameLen (.ofNat (n / 65536)) (.ofNat (n / 256)) (.ofNat n) = n := by
  rw [FRAME_MAX_SIZE] at h
  rw [frameLen_eq]
  simp only [UInt8.toNat_ofNat']
  omega

theorem ofNat_frameLen (b0 b1 b2 : UInt8) :
    UInt8.ofNat (frameLen b0 b1 b2 / 65536) = b0 ∧ UInt8.ofNat (frameLen b0 b1 b2 / 256) = b1
      ∧ UInt8.ofNat (frameLen b0 b1 b2) = b2 := by
  have h0 := b0.toNat_lt
  have h1 := b1.toNat_lt
  have h2 := b2.toNat_lt
  simp only [← UInt8.toNat_inj, UInt8.toNat_ofNat', frameLen_eq]
  omega

variable {payload : Bytes} {payloads : List Bytes}

/-- A frame is cut off exactly when the stream starts with it. -/
theorem cutFrame_eq_some {stream rest : Bytes} :
    cutFrame stream = some (payload, rest)
      ↔ payload.length < FRAME_MAX_SIZE ∧ stream = lengthPrefixed payload ++ rest := by
  constructor
  · intro h
    match stream with
    | [] | [_] | [_, _] => cases h
    | b0 :: b1 :: b2 :: body =>
      rw [cutFrame] at h
      split at h
      · cases h
      · rename_i hlong
        obtain ⟨rfl, rfl⟩ := Prod.mk.inj (Option.some.inj h)
        have hlength : (body.take (frameLen b0 b1 b2)).length = frameLen b0 b1 b2 :=
          List.length_take_of_le (Nat.le_of_not_lt hlong)
        obtain ⟨h0, h1, h2⟩ := ofNat_frameLen b0 b1 b2
        constructor
        · rw [hlength]
          exact frameLen_lt b0 b1 b2
        · rw [lengthPrefixed, hlength, h0, h1, h2]
          simp only [List.cons_append, List.take_append_drop]
  · rintro ⟨hshort, rfl⟩
    rw [lengthPrefixed, List.cons_append, List.cons_append, List.cons_append, cutFrame,
      frameLen_ofNat hshort]
    simp

/-- The frames of a stream. -/
def frames : Splitter UInt8 Bytes where
  cut := cutFrame
  shorter h := by
    obtain ⟨-, rfl⟩ := cutFrame_eq_some.mp h
    simp only [lengthPrefixed, List.cons_append, List.length_cons, List.length_append]
    omega
  extend h more := by
    obtain ⟨hshort, rfl⟩ := cutFrame_eq_some.mp h
    exact cutFrame_eq_some.mpr ⟨hshort, List.append_assoc _ _ _⟩

theorem yields_frames_iff {stream tail : Bytes} :
    frames.Yields stream payloads tail
      ↔ (∀ p ∈ payloads, p.length < FRAME_MAX_SIZE)
        ∧ stream = payloads.flatMap lengthPrefixed ++ tail := by
  constructor
  · intro h
    induction h with
    | nil stream => simp
    | cons hcut _ ih =>
      obtain ⟨hshort, rfl⟩ := cutFrame_eq_some.mp hcut
      obtain ⟨hshorts, rfl⟩ := ih
      exact ⟨List.forall_mem_cons.mpr ⟨hshort, hshorts⟩, by simp⟩
  · rintro ⟨hshort, rfl⟩
    induction payloads with
    | nil => exact .nil _
    | cons p payloads ih =>
      obtain ⟨hp, hshort⟩ := List.forall_mem_cons.mp hshort
      rw [List.flatMap_cons, List.append_assoc]
      exact .cons (S := frames) (cutFrame_eq_some.mpr ⟨hp, rfl⟩) (ih hshort)

theorem splits_frames_iff {stream tail : Bytes} :
    frames.Splits stream payloads tail ↔ Framed stream payloads tail := by
  have hdone : frames.cut tail = none
      ↔ ∀ p rest, p.length < FRAME_MAX_SIZE → tail ≠ lengthPrefixed p ++ rest := by
    rw [Option.eq_none_iff_forall_ne_some]
    constructor
    · intro h p rest hp htail
      exact h (p, rest) (cutFrame_eq_some.mpr ⟨hp, htail⟩)
    · intro h r hr
      obtain ⟨hp, htail⟩ := cutFrame_eq_some.mp hr
      exact h r.1 r.2 hp htail
  constructor
  · rintro ⟨hyields, htail⟩
    obtain ⟨hshort, hstream⟩ := yields_frames_iff.mp hyields
    exact ⟨hstream, hshort, hdone.mp htail⟩
  · rintro ⟨hstream, hshort, htail⟩
    exact ⟨yields_frames_iff.mpr ⟨hshort, hstream⟩, hdone.mpr htail⟩

/-! ## The encoder -/

theorem drop_toBeBytes (n : Nat) :
    (toBeBytes (UInt32.ofNat n)).drop 1
      = [UInt8.ofNat (n / 65536), UInt8.ofNat (n / 256), UInt8.ofNat n] := by
  rw [toBeBytes, List.drop_succ_cons, List.drop_zero]
  simp only [List.cons.injEq, and_true, ← UInt8.toNat_inj, UInt32.toNat_toUInt8,
    UInt32.toNat_shiftRight, UInt32.toNat_ofNat', UInt8.toNat_ofNat', UInt32.reduceToNat,
    Nat.shiftRight_eq_div_pow, Nat.reducePow, Nat.reduceMod]
  omega

theorem appendFrameInto_eq_ok {out out' : Bytes} :
    appendFrameInto payload none out = .ok out'
      ↔ payload.length < FRAME_MAX_SIZE ∧ out' = out ++ lengthPrefixed payload := by
  rw [appendFrameInto, appendFrameHeaderInto]
  split
  · rename_i hlong
    simp [bind, Except.bind, Nat.not_lt.mpr hlong]
  · rename_i hshort
    have hshort := Nat.lt_of_not_le hshort
    simp [bind, Except.bind, pure, Except.pure, hshort, drop_toBeBytes payload.length,
      lengthPrefixed, eq_comm]

theorem encodeFrame_of_lt (h : payload.length < FRAME_MAX_SIZE) :
    encodeFrame payload none = .ok (lengthPrefixed payload) :=
  appendFrameInto_eq_ok.mpr ⟨h, rfl⟩

theorem mapM_encodeFrame (h : ∀ p ∈ payloads, p.length < FRAME_MAX_SIZE) :
    payloads.mapM (encodeFrame · none) = .ok (payloads.map lengthPrefixed) := by
  induction payloads with
  | nil => rfl
  | cons p payloads ih =>
    obtain ⟨hp, h⟩ := List.forall_mem_cons.mp h
    rw [List.mapM_cons, encodeFrame_of_lt hp, ih h]
    rfl

/-! ## The decoder -/

section Decoder

variable (grow : Grow) {d : FrameDecoder}

@[simp] theorem data_reserveFor (incoming : Nat) :
    (d.reserveFor grow incoming).buffer.data = d.buffer.data := by
  rw [FrameDecoder.reserveFor]
  split <;> rfl

@[simp] theorem data_extendFromSlice (b : BytesMut) (data : Bytes) :
    (b.extendFromSlice grow data).data = b.data ++ data := by
  rw [BytesMut.extendFromSlice]
  split <;> rfl

@[simp] theorem data_feed (data : Bytes) : (d.feed grow data).buffer.data = d.buffer.data ++ data := by
  simp [FrameDecoder.feed]

/-- A read that becomes the buffer is what would have been copied there. -/
@[simp] theorem data_feedOwned (chunk : Chunk) :
    (d.feedOwned grow chunk).buffer.data = d.buffer.data ++ chunk.data := by
  rw [FrameDecoder.feedOwned]
  split
  · rename_i hempty
    have hnil : d.buffer.data = [] := List.isEmpty_iff.mp (Bool.and_eq_true_iff.mp hempty).1
    cases chunk.owned with
    | none => exact data_feed grow _
    | some capacity => rw [hnil, List.nil_append]
  · exact data_feed grow _

@[simp] theorem data_releaseOversized :
    (d.releaseOversized grow).buffer.data = d.buffer.data := by
  rw [FrameDecoder.releaseOversized]
  split
  · simp [BytesMut.withCapacity]
  · rfl

theorem decodeFrame_of_none (h : cutFrame d.buffer.data = none) :
    (d.decodeFrame grow).1 = none ∧ (d.decodeFrame grow).2.buffer.data = d.buffer.data := by
  rw [FrameDecoder.decodeFrame]
  split
  · rename_i b0 b1 b2 rest hdata
    have hshort : d.buffer.data.length < FRAME_LENGTH_SIZE + frameLen b0 b1 b2 := by
      rw [hdata, cutFrame] at h
      split at h
      · rw [hdata, FRAME_LENGTH_SIZE, List.length_cons, List.length_cons, List.length_cons]
        omega
      · cases h
    simp [hshort]
  · exact ⟨rfl, rfl⟩

theorem decodeFrame_of_some {rest : Bytes} (h : cutFrame d.buffer.data = some (payload, rest)) :
    (d.decodeFrame grow).1 = some payload ∧ (d.decodeFrame grow).2.buffer.data = rest := by
  rw [FrameDecoder.decodeFrame]
  split
  · rename_i b0 b1 b2 body hdata
    rw [hdata, cutFrame] at h
    split at h
    · cases h
    · obtain ⟨rfl, rfl⟩ := Prod.mk.inj (Option.some.inj h)
      have hlong : ¬ d.buffer.data.length < FRAME_LENGTH_SIZE + frameLen b0 b1 b2 := by
        rw [hdata, FRAME_LENGTH_SIZE, List.length_cons, List.length_cons, List.length_cons]
        omega
      rw [if_neg hlong]
      simp [hdata, BytesMut.advance, BytesMut.splitTo, FRAME_LENGTH_SIZE]
  · rename_i hdata
    rcases hd : d.buffer.data with _ | ⟨b0, _ | ⟨b1, _ | ⟨b2, body⟩⟩⟩
    case cons.cons.cons => exact absurd hd (hdata b0 b1 b2 body)
    all_goals
      rw [hd] at h
      cases h

/-- A call cuts a frame off the buffer and what it feeds, or none. -/
theorem yields_apply (op : DecoderOp) :
    frames.Yields (d.buffer.data ++ op.fed) (op.apply grow d).1.toList
      (op.apply grow d).2.buffer.data := by
  cases op with
  | feed data =>
    rw [DecoderOp.apply, DecoderOp.fed, data_feed]
    exact .nil _
  | feedOwned chunk =>
    rw [DecoderOp.apply, DecoderOp.fed, data_feedOwned]
    exact .nil _
  | decodeFrame =>
    rw [DecoderOp.apply, DecoderOp.fed, List.append_nil]
    cases hcut : cutFrame d.buffer.data with
    | none =>
      obtain ⟨hframe, hdata⟩ := decodeFrame_of_none grow hcut
      rw [hframe, hdata]
      exact .nil _
    | some r =>
      obtain ⟨hframe, hdata⟩ := decodeFrame_of_some grow hcut
      rw [hframe, hdata]
      exact .cons hcut (.nil _)

/-- The loop takes off all whole frames. -/
theorem splits_drainLoop {rounds : Nat} (h : d.bufferedLen < rounds) :
    frames.Splits d.buffer.data (d.drainLoop grow rounds).1
      (d.drainLoop grow rounds).2.buffer.data := by
  induction rounds generalizing d with
  | zero => exact absurd h (Nat.not_lt_zero _)
  | succ rounds ih =>
    cases hcut : cutFrame d.buffer.data with
    | none =>
      obtain ⟨hframe, hdata⟩ := decodeFrame_of_none grow hcut
      rw [FrameDecoder.drainLoop_of_none grow hframe, hdata]
      exact ⟨.nil _, hcut⟩
    | some r =>
      obtain ⟨hframe, hdata⟩ := decodeFrame_of_some grow hcut
      have hshorter := frames.shorter hcut
      have hrest : (d.decodeFrame grow).2.bufferedLen < rounds := by
        rw [FrameDecoder.bufferedLen] at h ⊢
        rw [hdata]
        omega
      rw [FrameDecoder.drainLoop_of_some grow hframe]
      have hsplits := ih hrest
      rw [hdata] at hsplits
      exact ⟨.cons hcut hsplits.yields, hsplits.done⟩

theorem splits_drain :
    frames.Splits d.buffer.data (d.drain grow).1 (d.drain grow).2.buffer.data :=
  splits_drainLoop grow (Nat.lt_succ_self _)

theorem yields_runDecoder (ops : List DecoderOp) :
    frames.Yields (d.buffer.data ++ ops.flatMap DecoderOp.fed) (runDecoder grow ops d).1
      (runDecoder grow ops d).2.buffer.data := by
  induction ops generalizing d with
  | nil =>
    rw [List.flatMap_nil, List.append_nil]
    exact .nil _
  | cons op ops ih =>
    rw [List.flatMap_cons, ← List.append_assoc]
    exact ((yields_apply grow op).append _).trans ih

end Decoder

/-- However a stream is cut into reads, and whenever frames are asked for, the
frames that come out are those of the stream, and what is left is kept. -/
theorem decode_any_chunking (grow : Grow) (ops : List DecoderOp) :
    let stream := ops.flatMap DecoderOp.fed
    let run := runDecoder grow ops .new
    let drained := run.2.drain grow
    Framed stream (run.1 ++ drained.1) drained.2.buffer.data
      ∧ (∀ payloads tail, Framed stream payloads tail →
          payloads = run.1 ++ drained.1 ∧ tail = drained.2.buffer.data)
      ∧ ∀ payloads : List Bytes, (∀ p ∈ payloads, p.length < 2 ^ 24) →
          ∃ encoded, payloads.mapM (encodeFrame · none) = .ok encoded
            ∧ (stream = encoded.flatten → run.1 ++ drained.1 = payloads) := by
  have hsplits := splits_drain grow (d := (runDecoder grow ops .new).2)
  have hall := splits_frames_iff.mp
    ⟨(yields_runDecoder grow (d := .new) ops).trans hsplits.yields, hsplits.done⟩
  have hunique : ∀ payloads tail, Framed (ops.flatMap DecoderOp.fed) payloads tail → _ :=
    fun payloads tail h => (splits_frames_iff.mpr hall).unique (splits_frames_iff.mpr h)
  refine ⟨hall, hunique, fun payloads hshort => ?_⟩
  refine ⟨payloads.map lengthPrefixed, mapM_encodeFrame hshort, fun hstream => ?_⟩
  refine (hunique payloads [] ⟨?_, hshort, ?_⟩).1.symm
  · rw [hstream, List.append_nil, List.flatMap_def]
  · intro p rest _ hnil
    cases hnil

/-- Two frames, the length of the first cut in two. -/
theorem decode_cut_length :
    ∃ grow : Grow, ∃ ops : List DecoderOp,
      (runDecoder grow ops .new).1 = [[7]]
        ∧ (runDecoder grow ops .new).1 ++ ((runDecoder grow ops .new).2.drain grow).1
          = [[7], [8, 9]] := by
  refine ⟨fun b additional => b.data.length + additional,
    [.feed [0, 0], .decodeFrame, .feedOwned ⟨[1, 7, 0, 0, 2, 8], none⟩, .decodeFrame, .decodeFrame,
      .feedOwned ⟨[9], some 1⟩], by decide, ?_⟩
  obtain ⟨-, -, hencoded⟩ := decode_any_chunking (fun b additional => b.data.length + additional)
    [.feed [0, 0], .decodeFrame, .feedOwned ⟨[1, 7, 0, 0, 2, 8], none⟩, .decodeFrame, .decodeFrame,
      .feedOwned ⟨[9], some 1⟩]
  obtain ⟨encoded, hmap, hdecoded⟩ := hencoded [[7], [8, 9]] (by simp)
  obtain rfl : [[0, 0, 1, 7], [0, 0, 2, 8, 9]] = encoded := Except.ok.inj hmap
  exact hdecoded rfl

end WaCore.Noise
