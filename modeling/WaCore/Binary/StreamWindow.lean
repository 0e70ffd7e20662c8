import WaCore.Binary.SkipAgree
import WaCore.Binary.StackUse

/-!
# Decoding from a window

A stream decodes from the window it has, and asks for more bytes when the
decoder runs into the end of it.  That is sound because every reader of the
decoder streams (`streams_readNodeRefAt`): on a beginning of the bytes it either
does what it does on all of them, or reports `UnexpectedEof`.

`exec_decodeNext` is what follows for the loop of `decode_next` and `skip_next`:
over a source that delivers its bytes without an error, the loop returns what
the decoder returns on all of them at once, however they come in.
-/

namespace WaCore.Binary

open Utf8 ListParser Eff

/-! ## The readers stream -/

/-- The reader asks for more bytes with `UnexpectedEof`. -/
abbrev StreamsDec {α : Type} (p : Dec α) : Prop := Streams (.error .unexpectedEof) p

variable {α : Type} {source : Source} {b : Bytes} {s : NodeStream}

theorem streams : Compositional (fun p _ => StreamsDec p) where
  pure := streams_pure
  throw _ := streams_throw _
  bind := Streams.bind
  readU8 := by
    intro input
    cases input with
    | nil => exact .inl rfl
    | cons b rest => exact ⟨⟨[b], rfl⟩, fun _ => rfl⟩
  readBytes len := by
    intro input
    by_cases h : len ≤ input.length
    · rw [readBytes, if_pos h]
      refine ⟨⟨input.take len, (List.take_append_drop len input).symm⟩, fun extra => ?_⟩
      rw [readBytes, if_pos (by rw [List.length_append]; omega), List.take_append_of_le_length h,
        List.drop_append_of_le_length h]
    · rw [readBytes, if_neg h]
      exact .inl rfl

theorem streams_decoder (T : TokenTables) (stack : Nat) (method : Method) :
    StreamsDec (decoder T stack method) := by
  induction stack generalizing method with
  | zero => exact streams_throw _
  | succ stack ih => exact streams.step (e := decoder T stack) ih method

theorem streams_fullDecoder (T : TokenTables) (method : Method) : StreamsDec (fullDecoder T method) :=
  streams_ample (fun stack => decoder_extends T stack method) (bounded_need T method)
    fun stack => streams_decoder T stack method

theorem streams_readNodeOpen (T : TokenTables) : StreamsDec (readNodeOpen T (fullDecoder T)) :=
  streams.readNodeOpen (e := fullDecoder T) (streams_fullDecoder T)

/-! ## Sources -/

/-- The source gives the bytes `b` without an error, and, if it inflates them,
its stream is terminated. -/
def Source.Delivers (source : Source) (b : Bytes) : Prop :=
  source.bytes = b ∧ match source with
    | plain _ => True
    | inflate reader => (∀ pump ∈ reader.pumps, pump.error = none) ∧ reader.streamEnd = true

/-- What `ensure` leaves of a source that delivers `b`. -/
structure Source.Ensured (source : Source) (b : Bytes) (need : Nat) (filled : Bool)
    (source' : Source) : Prop where
  delivers : source'.Delivers b
  grows : ∃ more, source'.available = source.available ++ more
  filled_iff : filled = true ↔ need ≤ source'.available.length
  whole : filled = false → source'.available = b
  pumps : source.available.length < need → 0 < source.pumpsLeft →
    source'.pumpsLeft < source.pumpsLeft

theorem ensureWindow_of_clean (need : Nat) (window : Bytes) {pumps : List Pump}
    (hclean : ∀ pump ∈ pumps, pump.error = none) :
    ∃ filled window' pumps', ensureWindow need window pumps = (.ok filled, window', pumps')
      ∧ (∀ pump ∈ pumps', pump.error = none) ∧ (∃ more, window' = window ++ more)
      ∧ (filled = true ↔ need ≤ window'.length) ∧ (filled = false → pumps' = [])
      ∧ pumps'.length ≤ pumps.length
      ∧ (window.length < need → 0 < pumps.length → pumps'.length < pumps.length) := by
  induction pumps generalizing window with
  | nil => exact ⟨_, window, [], rfl, by simp, ⟨[], by simp⟩, by simp, fun _ => rfl, by simp, by simp⟩
  | cons pump pumps ih =>
    obtain ⟨hpump, hpumps⟩ := List.forall_mem_cons.mp hclean
    rw [ensureWindow]
    by_cases hneed : need ≤ window.length
    · rw [if_pos hneed]
      exact ⟨true, window, pump :: pumps, rfl, hclean, ⟨[], by simp⟩, by simp [hneed], nofun,
        Nat.le_refl _, fun h => absurd hneed (Nat.not_le.mpr h)⟩
    · rw [if_neg hneed, hpump]
      obtain ⟨filled, window', pumps', heq, hclean', ⟨more, hmore⟩, hfilled, hend, hlen, -⟩ :=
        ih (window ++ pump.produced) hpumps
      refine ⟨filled, window', pumps', heq, hclean', ⟨pump.produced ++ more, ?_⟩, hfilled, hend, ?_, ?_⟩
      · rw [hmore, List.append_assoc]
      · rw [List.length_cons]
        omega
      · rw [List.length_cons]
        omega

theorem ensure_of_delivers (h : source.Delivers b) (need : Nat) :
    ∃ filled source', source.ensure need = (.ok filled, source')
      ∧ source.Ensured b need filled source' := by
  cases source with
  | plain data =>
    exact ⟨_, _, rfl, h, ⟨[], by simp⟩, by simp [Source.available], fun _ => h.1,
      fun _ hpumps => absurd hpumps (Nat.lt_irrefl 0)⟩
  | inflate reader =>
    obtain ⟨hbytes, hclean, hend⟩ := h
    obtain ⟨filled, window, pumps, heq, hclean', hmore, hfilled, hdone, -, hless⟩ :=
      ensureWindow_of_clean need reader.window hclean
    have hkeeps : window ++ pumps.flatMap (·.produced) = b := by
      have := bytes_ensureWindow need reader.window reader.pumps
      rw [heq] at this
      exact this.trans hbytes
    refine ⟨filled, .inflate { reader with window := window, pumps := pumps }, ?_, ?_⟩
    · rw [Source.ensure, heq]
    · refine ⟨⟨hkeeps, hclean', hend⟩, hmore, hfilled, fun hfalse => ?_, hless⟩
      have hempty := hdone hfalse
      rw [hempty] at hkeeps
      simpa [Source.available] using hkeeps

/-- The window is a beginning of the bytes. -/
theorem available_append_of_delivers (h : source.Delivers b) :
    ∃ extra, b = source.available ++ extra := by
  cases source with
  | plain data => exact ⟨[], by rw [List.append_nil]; exact h.1.symm⟩
  | inflate reader => exact ⟨_, h.1.symm⟩

theorem delivers_consume (h : source.Delivers b) {n : Nat} (hn : n ≤ source.available.length) :
    (source.consume n).Delivers (b.drop n) := by
  cases source with
  | plain data => exact ⟨by rw [← h.1]; rfl, trivial⟩
  | inflate reader =>
    refine ⟨?_, h.2⟩
    rw [← h.1]
    exact (List.drop_append_of_le_length hn).symm

/-! ## The decoding loop -/

theorem exec_ensureSource (h : s.source.Delivers b) (need : Nat) :
    ∃ filled source', exec (ensureSource need) s = (.ok filled, { s with source := source' })
      ∧ s.source.Ensured b need filled source' := by
  obtain ⟨filled, source', hensure, hensured⟩ := ensure_of_delivers h need
  refine ⟨filled, source', ?_, hensured⟩
  unfold ensureSource
  rw [exec_bind, exec_get]
  simp only [hensure, exec_bind, exec_set, exec_pure]

/-- The window grows, or it already holds everything. -/
theorem exec_grow (h : s.source.Delivers b) :
    ∃ more source', exec (grow s.source.available.length) s
        = (.ok more, { s with source := source' })
      ∧ source'.Delivers b
      ∧ (more = true → source'.pumpsLeft < s.source.pumpsLeft)
      ∧ (more = false → s.source.available = b) := by
  obtain ⟨filled, source', hexec, hensured⟩ :=
    exec_ensureSource h (2 * max s.source.available.length 64)
  have hless : s.source.available.length < 2 * max s.source.available.length 64 := by omega
  obtain ⟨added, hadded⟩ := hensured.grows
  have hlen : source'.available.length = s.source.available.length + added.length := by
    rw [hadded, List.length_append]
  refine ⟨filled || s.source.available.length < source'.available.length, source', ?_,
    hensured.delivers, fun hmore => ?_, fun hmore => ?_⟩
  · unfold grow
    rw [exec_bind, hexec]
    rfl
  · -- a window that grew was pumped into
    by_contra hpumps
    have hzero : s.source.pumpsLeft = 0 := by
      by_contra hne
      exact hpumps (hensured.pumps hless (Nat.pos_of_ne_zero hne))
    have hwhole : s.source.available = b := by
      cases hsource : s.source with
      | plain data =>
        rw [hsource] at h
        exact h.1
      | inflate reader =>
        rw [hsource] at h hzero
        have hnil : reader.pumps = [] := List.length_eq_zero_iff.mp hzero
        have hbytes := h.1
        simp only [Source.bytes, hnil, List.flatMap_nil, List.append_nil] at hbytes
        exact hbytes
    obtain ⟨extra, hextra⟩ := available_append_of_delivers hensured.delivers
    have hb : b.length = source'.available.length + extra.length := by
      rw [hextra, List.length_append]
    rw [← hwhole] at hb
    rw [Bool.or_eq_true, hensured.filled_iff, decide_eq_true_eq] at hmore
    omega
  · rw [Bool.or_eq_false_iff, decide_eq_false_iff_not] at hmore
    have hwhole := hensured.whole hmore.1
    have hnone : added = [] := List.length_eq_zero_iff.mp (by omega)
    rw [← hwhole, hadded, hnone, List.append_nil]

/-- The loop returns what the decoder returns on all the bytes. -/
theorem exec_decodeLoop {p : Dec α} (hp : StreamsDec p) (h : s.source.Delivers b) {rounds : Nat}
    (hrounds : s.source.pumpsLeft < rounds) :
    ∃ source', exec (decodeLoop p rounds) s
        = ((p b).map fun r => (r.1, b.length - r.2.length), { s with source := source' })
      ∧ source'.Delivers b
      ∧ ∀ a rest, p b = .ok (a, rest) → b.length - rest.length ≤ source'.available.length := by
  induction rounds generalizing s with
  | zero => exact absurd hrounds (Nat.not_lt_zero _)
  | succ rounds ih =>
    obtain ⟨extra, hextra⟩ := available_append_of_delivers h
    cases hrun : p s.source.available with
    | ok r =>
      obtain ⟨value, rest⟩ := r
      have hall := (hp.ok hrun).2 extra
      rw [← hextra] at hall
      have hlen : b.length - (rest ++ extra).length = s.source.available.length - rest.length := by
        rw [hextra, List.length_append, List.length_append]
        omega
      refine ⟨s.source, ?_, h, fun a rest' hrest => ?_⟩
      · rw [hall, Except.map, hlen]
        simp [decodeLoop, exec_bind, hrun]
      · rw [hall] at hrest
        cases hrest
        rw [hlen]
        exact Nat.sub_le _ _
    | error e =>
      by_cases heof : e = .error .unexpectedEof
      · subst heof
        obtain ⟨more, source', hgrow, hdelivers, hmore, hwhole⟩ := exec_grow h
        simp only [decodeLoop, exec_bind, exec_get, hrun, hgrow]
        cases more with
        | true =>
          have hless := hmore rfl
          exact ih hdelivers (by
            show source'.pumpsLeft < rounds
            omega)
        | false =>
          have hall : p b = .error (.error .unexpectedEof) := hwhole rfl ▸ hrun
          refine ⟨source', ?_, hdelivers, fun a rest hrest => ?_⟩
          · rw [hall]
            rfl
          · rw [hall] at hrest
            cases hrest
      · have hall := (hp.error hrun).resolve_left heof extra
        rw [← hextra] at hall
        refine ⟨s.source, ?_, h, fun a rest hrest => ?_⟩
        · simp [decodeLoop, exec_bind, hrun, hall, Except.map]
        · rw [hall] at hrest
          cases hrest

theorem exec_decodeNext {p : Dec α} (hp : StreamsDec p) (h : s.source.Delivers b) :
    ∃ source', exec (decodeNext p) s
        = ((p b).map fun r => (r.1, b.length - r.2.length), { s with source := source' })
      ∧ source'.Delivers b
      ∧ ∀ a rest, p b = .ok (a, rest) → b.length - rest.length ≤ source'.available.length :=
  exec_decodeLoop hp h (Nat.lt_succ_self _)

end WaCore.Binary
