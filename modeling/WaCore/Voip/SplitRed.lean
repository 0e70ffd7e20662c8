import Mathlib.Data.List.SplitLengths
import WaCore.Lib.Bytes

/-!
# Redundant audio

`depack_split_red` (`red.rs`) takes a payload apart that carries earlier frames beside the
main one: a header of two bytes for each of them, a marker, the earlier frames and the main
frame.  The loop over the headers subtracts the size of a frame from what is left before it
has seen that frame.

The reads of the source are checked, and one outside the payload panics; the model returns
`none` there, which is not the same as an error.
-/

namespace WaCore.Voip

structure MlowFrame where
  data : Bytes
  timeCode : UInt8
  isMain : Bool
  deriving DecidableEq, Repr

inductive RedError where
  | pktSizeZero
  | headerTooShort
  | redundantTooShort
  | mainTooShort
  deriving DecidableEq, Repr

structure RedBlock where
  code : UInt8
  size : UInt8
  deriving DecidableEq, Repr

/-- `p[i]`. -/
def byteAt (p : Bytes) (i : Nat) : ExceptT RedError Option UInt8 := ExceptT.mk (p[i]?.map .ok)

/-- `&p[a..b]`. -/
def sliceAt (p : Bytes) (a b : Nat) : ExceptT RedError Option Bytes :=
  ExceptT.mk (if a ≤ b ∧ b ≤ p.length then some (.ok ((p.take b).drop a)) else none)

/-- The loop over the headers: the blocks, where the marker is, and what is left for the
marker and the main frame. -/
def readHeaders (p : Bytes) (cur rem : Nat) (red : List RedBlock) :
    ExceptT RedError Option (List RedBlock × Nat × Nat) :=
  if rem = 0 then throw .headerTooShort
  else do
    let b0 ← byteAt p cur
    if b0 < 0x80 then
      if rem ≤ 1 then throw .mainTooShort else pure (red, cur, rem)
    else if rem ≤ 2 then throw .redundantTooShort
    else do
      let size ← byteAt p (cur + 1)
      if rem ≤ size.toNat + 2 then throw .redundantTooShort
      else readHeaders p (cur + 2) (rem - (size.toNat + 2)) (red ++ [⟨b0 &&& 0x7f, size⟩])
termination_by rem
decreasing_by exact Nat.sub_lt (Nat.pos_of_ne_zero ‹_›) (Nat.succ_pos _)

/-- The loop over the blocks: their frames, and the place behind them. -/
def readBlocks (p : Bytes) : Nat → List RedBlock → ExceptT RedError Option (List MlowFrame × Nat)
  | cur, [] => pure ([], cur)
  | cur, r :: red => do
    let data ← sliceAt p cur (cur + r.size.toNat)
    let (frames, cur) ← readBlocks p (cur + r.size.toNat) red
    pure (⟨data, r.code, false⟩ :: frames, cur)

def depackSplitRed (p : Bytes) : ExceptT RedError Option (List MlowFrame) :=
  if p.length = 0 then throw .pktSizeZero
  else do
    let (red, cur, rem) ← readHeaders p 0 p.length []
    let marker ← byteAt p cur
    let (frames, cur) ← readBlocks p (cur + 1) red
    let data ← sliceAt p cur (cur + (rem - 1))
    pure (frames ++ [⟨data, marker &&& 0x7f, true⟩])

/-! ## What is accepted -/

def RedBlock.header (r : RedBlock) : Bytes := [0x80 ||| r.code, r.size]

/-- A payload: the headers, the marker, the redundant frames and the main frame. -/
structure SplitRed (p : Bytes) (red : List RedBlock) (marker : UInt8) (payloads : List Bytes)
    (main : Bytes) : Prop where
  eq : p = red.flatMap RedBlock.header ++ marker :: (payloads.flatten ++ main)
  codes : ∀ r ∈ red, r.code < 0x80
  sizes : payloads.map List.length = red.map (·.size.toNat)
  marker_lt : marker < 0x80
  main_ne : main ≠ []

def framesOf (red : List RedBlock) (marker : UInt8) (payloads : List Bytes) (main : Bytes) :
    List MlowFrame :=
  List.zipWith (fun r data => ⟨data, r.code, false⟩) red payloads ++ [⟨main, marker, true⟩]

/-- The bytes that the blocks take, with their headers. -/
def redSize (red : List RedBlock) : Nat := 2 * red.length + (red.map (·.size.toNat)).sum

variable {p rest main : Bytes} {cur rem : Nat} {red blocks : List RedBlock} {marker : UInt8}
  {payloads : List Bytes}

theorem redSize_cons (r : RedBlock) (red : List RedBlock) :
    redSize (r :: red) = r.size.toNat + 2 + redSize red := by
  simp only [redSize, List.length_cons, List.map_cons, List.sum_cons]
  omega

theorem length_headers (red : List RedBlock) :
    (red.flatMap RedBlock.header).length = 2 * red.length := by
  simp [RedBlock.header, Nat.mul_comm]

theorem marker_or_header (b : UInt8) :
    (b < 0x80 → ¬ 0x80 ||| b < 0x80 ∧ (0x80 ||| b) &&& 0x7f = b ∧ b &&& 0x7f = b)
      ∧ (¬ b < 0x80 → 0x80 ||| (b &&& 0x7f) = b ∧ b &&& 0x7f < 0x80) := by
  revert b
  apply forall_byte
  decide +kernel

theorem byteAt_of_drop {b : UInt8} (h : p.drop cur = b :: rest) : byteAt p cur = pure b := by
  have hb : p[cur]? = some b := by
    rw [← List.head?_drop, h]
    rfl
  rw [byteAt, hb]
  rfl

theorem drop_succ_of_drop {b : UInt8} (h : p.drop cur = b :: rest) : p.drop (cur + 1) = rest := by
  rw [← List.tail_drop, h]
  rfl

theorem sliceAt_of_drop {data : Bytes} (hcur : cur ≤ p.length) (hp : p.drop cur = data ++ rest) :
    sliceAt p cur (cur + data.length) = pure data ∧ cur + data.length ≤ p.length
      ∧ p.drop (cur + data.length) = rest := by
  have hlength := congrArg List.length hp
  rw [List.length_drop, List.length_append] at hlength
  refine ⟨?_, by omega, by rw [← List.drop_drop, hp, List.drop_left]⟩
  rw [sliceAt, if_pos (by omega), ← List.take_drop, hp, List.take_left]
  rfl

/-- The headers are read as they stand. -/
theorem readHeaders_eq (hp : p.drop cur = red.flatMap RedBlock.header ++ marker :: rest)
    (hcodes : ∀ r ∈ red, r.code < 0x80) (hmarker : marker < 0x80) (hrem : redSize red + 2 ≤ rem) :
    readHeaders p cur rem blocks
      = pure (blocks ++ red, cur + 2 * red.length, rem - redSize red) := by
  induction red generalizing cur rem blocks with
  | nil =>
    rw [readHeaders, if_neg (by omega), byteAt_of_drop hp, pure_bind, if_pos hmarker,
      if_neg (by omega), List.append_nil]
    rfl
  | cons r red ih =>
    rw [redSize_cons] at hrem
    have hnext : cur + 1 + 1 + 2 * red.length = cur + 2 * (red.length + 1) := by omega
    have hrest := drop_succ_of_drop hp
    obtain ⟨hhigh, hcode, -⟩ := (marker_or_header r.code).1 (hcodes r (by simp))
    rw [readHeaders, if_neg (by omega), byteAt_of_drop hp, pure_bind, if_neg hhigh,
      if_neg (by omega), byteAt_of_drop hrest, pure_bind, if_neg (by omega), hcode,
      ih (drop_succ_of_drop hrest) (fun r hr => hcodes r (by simp [hr])) (by omega),
      List.append_assoc, redSize_cons, Nat.sub_sub, hnext]
    rfl

/-- The loop over the headers stays inside the payload, and where it ends without an error
there are headers and a marker, and room for what they announce. -/
theorem readHeaders_inside (h : cur + rem ≤ p.length) :
    ∃ r, readHeaders p cur rem blocks = some r ∧ ∀ x, r = .ok x → ∃ red marker rest,
      p.drop cur = red.flatMap RedBlock.header ++ marker :: rest
        ∧ (∀ r ∈ red, r.code < 0x80) ∧ marker < 0x80 ∧ redSize red + 2 ≤ rem := by
  induction rem using Nat.strongRecOn generalizing cur blocks with
  | ind rem ih =>
    rw [readHeaders]
    by_cases hzero : rem = 0
    · exact ⟨.error .headerTooShort, by rw [if_pos hzero]; rfl, fun _ h => by cases h⟩
    have hb := List.drop_eq_getElem_cons (show cur < p.length by omega)
    rw [if_neg hzero, byteAt_of_drop hb, pure_bind]
    split
    · rename_i hmarker
      split
      · exact ⟨_, rfl, fun _ h => by cases h⟩
      · exact ⟨_, rfl, fun _ _ => ⟨[], _, _, hb, by simp, hmarker, by simp [redSize]; omega⟩⟩
    · rename_i hhigh
      split
      · exact ⟨_, rfl, fun _ h => by cases h⟩
      have hs := List.drop_eq_getElem_cons (show cur + 1 < p.length by omega)
      rw [byteAt_of_drop hs, pure_bind]
      split
      · exact ⟨_, rfl, fun _ h => by cases h⟩
      obtain ⟨r, hr, hok⟩ := @ih (rem - (p[cur + 1].toNat + 2)) (by omega) (cur + 2)
        (blocks ++ [⟨p[cur] &&& 0x7f, p[cur + 1]⟩]) (by omega)
      refine ⟨r, hr, fun x hx => ?_⟩
      obtain ⟨red, marker, rest, hp, hcodes, hmarker, hsize⟩ := hok x hx
      obtain ⟨hbyte, hcode⟩ := (marker_or_header p[cur]).2 hhigh
      refine ⟨⟨p[cur] &&& 0x7f, p[cur + 1]⟩ :: red, marker, rest, ?_, ?_, hmarker, ?_⟩
      · rw [hb, hs, hp]
        simp [RedBlock.header, hbyte]
      · simpa [hcode] using hcodes
      · rw [redSize_cons]
        show p[cur + 1].toNat + 2 + redSize red + 2 ≤ rem
        omega

/-- The redundant frames are read as they stand. -/
theorem readBlocks_eq (hcur : cur ≤ p.length) (hp : p.drop cur = payloads.flatten ++ rest)
    (hsizes : payloads.map List.length = red.map (·.size.toNat)) :
    readBlocks p cur red = pure (List.zipWith (fun r data => ⟨data, r.code, false⟩) red payloads,
      cur + payloads.flatten.length) := by
  induction red generalizing cur payloads with
  | nil =>
    obtain rfl := List.map_eq_nil_iff.mp hsizes
    rfl
  | cons r red ih =>
    cases payloads with
    | nil => cases hsizes
    | cons data payloads =>
      rw [List.map_cons, List.map_cons, List.cons_eq_cons] at hsizes
      rw [List.flatten_cons, List.append_assoc] at hp
      obtain ⟨hslice, hle, hrest⟩ := sliceAt_of_drop hcur hp
      rw [readBlocks, ← hsizes.1, hslice, pure_bind, ih hle hrest hsizes.2, pure_bind,
        List.flatten_cons, List.length_append, Nat.add_assoc]
      rfl

theorem depackSplitRed_of_splitRed (h : SplitRed p red marker payloads main) :
    depackSplitRed p = pure (framesOf red marker payloads main) := by
  have hmain := List.length_pos_iff.mpr h.main_ne
  have hsum : (red.map (·.size.toNat)).sum = payloads.flatten.length := by
    rw [← h.sizes, List.length_flatten]
  have hlength := congrArg List.length h.eq
  rw [List.length_append, length_headers, List.length_cons, List.length_append] at hlength
  have hheaders : p.drop 0 = _ := h.eq
  have hmarker : p.drop (0 + 2 * red.length) = marker :: (payloads.flatten ++ main) := by
    rw [Nat.zero_add, h.eq, ← length_headers, List.drop_left]
  have hblocks := drop_succ_of_drop hmarker
  have hlast : p.drop (0 + 2 * red.length + 1 + payloads.flatten.length) = main ++ [] := by
    rw [← List.drop_drop, hblocks, List.drop_left, List.append_nil]
  have hleft : p.length - redSize red - 1 = main.length := by
    rw [redSize, hsum]
    omega
  rw [depackSplitRed, if_neg (by omega),
    readHeaders_eq hheaders h.codes h.marker_lt (by rw [redSize, hsum]; omega), pure_bind]
  dsimp only
  rw [byteAt_of_drop hmarker, pure_bind, List.nil_append, readBlocks_eq (by omega) hblocks h.sizes,
    pure_bind, hleft, (sliceAt_of_drop (by omega) hlast).1, pure_bind,
    ((marker_or_header marker).1 h.marker_lt).2.2]
  rfl

/-- Headers and a marker, and room for what they announce, make up a payload. -/
theorem exists_splitRed (hp : p.drop 0 = red.flatMap RedBlock.header ++ marker :: rest)
    (hcodes : ∀ r ∈ red, r.code < 0x80) (hmarker : marker < 0x80)
    (hsize : redSize red + 2 ≤ p.length) : ∃ payloads main, SplitRed p red marker payloads main := by
  rw [List.drop_zero] at hp
  have hlength := congrArg List.length hp
  rw [List.length_append, length_headers, List.length_cons] at hlength
  rw [redSize] at hsize
  have hroom : (rest.take (red.map (·.size.toNat)).sum).length = (red.map (·.size.toNat)).sum := by
    rw [List.length_take]
    omega
  refine ⟨(red.map (·.size.toNat)).splitLengths (rest.take (red.map (·.size.toNat)).sum),
    rest.drop (red.map (·.size.toNat)).sum, ?_, hcodes, ?_, hmarker, ?_⟩
  · rw [List.flatten_splitLengths _ _ hroom.le, List.take_append_drop, hp]
  · exact List.map_splitLengths_length _ _ hroom.ge
  · rw [← List.length_pos_iff, List.length_drop]
    omega

/-- The depacketizer reads nothing outside the payload.  It accepts exactly the payloads that
are made up of headers, a marker, the redundant frames that the headers announce and a main
frame, and returns these frames. -/
theorem depackSplitRed_iff (p : Bytes) :
    (∃ result, depackSplitRed p = some result) ∧ ∀ frames, depackSplitRed p = some (.ok frames)
      ↔ ∃ red marker payloads main, SplitRed p red marker payloads main
        ∧ frames = framesOf red marker payloads main := by
  have hof : ∀ {red marker payloads main}, SplitRed p red marker payloads main →
      depackSplitRed p = some (.ok (framesOf red marker payloads main)) :=
    depackSplitRed_of_splitRed
  have hcases : (∃ e, depackSplitRed p = some (.error e))
      ∨ ∃ red marker payloads main, SplitRed p red marker payloads main := by
    by_cases hzero : p.length = 0
    · exact .inl ⟨.pktSizeZero, by rw [depackSplitRed, if_pos hzero]; rfl⟩
    obtain ⟨r, hr, hok⟩ : ∃ r, readHeaders p 0 p.length [] = some r ∧ _ :=
      readHeaders_inside (Nat.zero_add p.length).le
    cases r with
    | error e =>
      refine .inl ⟨e, ?_⟩
      rw [depackSplitRed, if_neg hzero, hr]
      rfl
    | ok x =>
      obtain ⟨red, marker, rest, hp, hcodes, hmarker, hsize⟩ := hok x rfl
      obtain ⟨payloads, main, h⟩ := exists_splitRed hp hcodes hmarker hsize
      exact .inr ⟨red, marker, payloads, main, h⟩
  rcases hcases with ⟨e, he⟩ | ⟨red, marker, payloads, main, h⟩
  · refine ⟨⟨_, he⟩, fun frames => ⟨fun hframes => ?_, ?_⟩⟩
    · rw [he] at hframes
      cases hframes
    · rintro ⟨red, marker, payloads, main, h, -⟩
      rw [hof h] at he
      cases he
  · refine ⟨⟨_, hof h⟩, fun frames => ⟨fun hframes => ?_, ?_⟩⟩
    · rw [hof h] at hframes
      cases hframes
      exact ⟨red, marker, payloads, main, h, rfl⟩
    · rintro ⟨red, marker, payloads, main, h, rfl⟩
      exact hof h

end WaCore.Voip
