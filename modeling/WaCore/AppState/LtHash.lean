import WaCore.Lib.Lanes
import WaCore.AppState.Proto

/-!
# The ltHash of a collection

The aggregate hash of a collection (`lthash.rs`) is a sum: every value MAC is
expanded to 128 bytes, read as 64 little-endian `u16` lanes, and added to the
accumulator lane by lane.  Taking a record out subtracts the same lanes.  The
code adds four lanes at once in a `u64`; `performPointwiseWithOverflow_eq` says
that this is lane-wise wrapping arithmetic, and `laneOf_subtractThenAdd`
that the whole update is a sum and a difference in the group of lanes.

The cryptographic primitives, the JSON parser and the protobuf codec are not
part of this repository's logic: `Primitives` is whatever they compute.
-/

namespace WaCore.AppState

open Lanes

/-- What the crypto provider, the JSON parser and the protobuf codec compute. -/
structure Primitives where
  hmacSha256 : Bytes → Bytes → FixedBytes 32
  hmacSha512 : Bytes → Bytes → FixedBytes 64
  aes256CbcEncrypt : Bytes → FixedBytes 32 → FixedBytes 16 → Bytes
  aes256CbcDecrypt : Bytes → FixedBytes 32 → Bytes → Option Bytes
  syncActionDataToVec : Bytes → SyncActionValue → Int → Bytes
  syncActionDataDecode : Bytes → Option SyncActionData
  syncdPatchToVec : SyncdPatch → Bytes
  parseIndex : Bytes → Except String (List String)

variable (P : Primitives)

/-! ## HKDF -/

/-- The blocks `T(block + 1), …` of the HKDF expansion, each an HMAC over the
block before it. -/
def expandFrom (prk info : Bytes) : Bytes → UInt8 → Nat → Bytes
  | _, _, 0 => []
  | previous, block, n + 1 =>
    let next := (P.hmacSha256 prk (previous ++ info ++ [block + 1])).val
    next ++ expandFrom prk info next (block + 1) n

theorem length_expandFrom (prk info previous : Bytes) (block : UInt8) (n : Nat) :
    (expandFrom P prk info previous block n).length = 32 * n := by
  induction n generalizing previous block with
  | zero => rfl
  | succ n ih =>
    rw [expandFrom]
    simp only [List.length_append, ih, (P.hmacSha256 _ _).property]
    omega

/-- HKDF-SHA256 without a salt, for an output of whole blocks. -/
def hkdfSha256 (key info : Bytes) (blocks : Nat) : FixedBytes (32 * blocks) :=
  let prk := P.hmacSha256 (List.replicate 32 0) key
  ⟨expandFrom P prk.val info [] 0 blocks, length_expandFrom P _ _ _ _ _⟩

/-! ## Lanes -/

/-- A `u16` from its two bytes, low byte first. -/
def u16FromLe (b₀ b₁ : UInt8) : BitVec 16 := b₁.toBitVec ++ b₀.toBitVec

/-- A `u64` from its eight bytes, low byte first. -/
def u64FromLe (b₀ b₁ b₂ b₃ b₄ b₅ b₆ b₇ : UInt8) : BitVec 64 :=
  u16FromLe b₆ b₇ ++ (u16FromLe b₄ b₅ ++ (u16FromLe b₂ b₃ ++ u16FromLe b₀ b₁))

def u16ToLe (x : BitVec 16) : Bytes := [⟨x.extractLsb' 0 8⟩, ⟨x.extractLsb' 8 8⟩]

def u64ToLe (x : BitVec 64) : Bytes :=
  u16ToLe (x.extractLsb' 0 16) ++ u16ToLe (x.extractLsb' 16 16) ++ u16ToLe (x.extractLsb' 32 16)
    ++ u16ToLe (x.extractLsb' 48 16)

/-- The low 15 bits of every lane of a word. -/
def low : BitVec 64 := 0x7FFF7FFF7FFF7FFF#64

/-- Add or subtract four lanes at once. -/
def wordOp (subtract : Bool) (x y : BitVec 64) : BitVec 64 :=
  if subtract then ((x ||| ~~~low) - (y &&& low)) ^^^ ((x ^^^ ~~~y) &&& ~~~low)
  else ((x &&& low) + (y &&& low)) ^^^ ((x ^^^ y) &&& ~~~low)

/-- Add or subtract one lane. -/
def laneOp (subtract : Bool) (x y : BitVec 16) : BitVec 16 := if subtract then x - y else x + y

/-- Whole words first, then the pairs that are left.  The source asserts that
the two slices have one even length; its only caller passes two arrays of 128
bytes. -/
def performPointwiseWithOverflow (subtract : Bool) : Bytes → Bytes → Bytes
  | b₀ :: b₁ :: b₂ :: b₃ :: b₄ :: b₅ :: b₆ :: b₇ :: base,
    c₀ :: c₁ :: c₂ :: c₃ :: c₄ :: c₅ :: c₆ :: c₇ :: input =>
    u64ToLe (wordOp subtract (u64FromLe b₀ b₁ b₂ b₃ b₄ b₅ b₆ b₇)
        (u64FromLe c₀ c₁ c₂ c₃ c₄ c₅ c₆ c₇))
      ++ performPointwiseWithOverflow subtract base input
  | b₀ :: b₁ :: base, c₀ :: c₁ :: input =>
    u16ToLe (laneOp subtract (u16FromLe b₀ b₁) (u16FromLe c₀ c₁))
      ++ performPointwiseWithOverflow subtract base input
  | _, _ => []

/-- The lanes of a byte string. -/
def lanes : Bytes → List (BitVec 16)
  | b₀ :: b₁ :: rest => u16FromLe b₀ b₁ :: lanes rest
  | _ => []

theorem u16FromLe_u16ToLe (x : BitVec 16) :
    u16FromLe ⟨x.extractLsb' 0 8⟩ ⟨x.extractLsb' 8 8⟩ = x := by
  rw [u16FromLe]
  ext i hi
  simp only [BitVec.getElem_append, BitVec.getElem_extractLsb']
  split
  · simp [BitVec.getLsbD_eq_getElem hi]
  · rw [show 8 + (i - 8) = i by omega, BitVec.getLsbD_eq_getElem hi]

@[simp] theorem lanes_u16ToLe_append (x : BitVec 16) (rest : Bytes) :
    lanes (u16ToLe x ++ rest) = x :: lanes rest := by
  rw [u16ToLe, List.cons_append, List.singleton_append, lanes, u16FromLe_u16ToLe]

/-- The word of four lanes. -/
theorem wordOp_append (subtract : Bool) (a b c d a' b' c' d' : BitVec 16) :
    wordOp subtract (a ++ (b ++ (c ++ d))) (a' ++ (b' ++ (c' ++ d')))
      = laneOp subtract a a' ++ (laneOp subtract b b'
        ++ (laneOp subtract c c' ++ laneOp subtract d d')) := by
  have hlow : low = ~~~top 15 ++ (~~~top 15 ++ (~~~top 15 ++ ~~~top 15)) := by decide
  have h1 : 2 * (~~~top 15).toNat < 2 ^ 16 := by decide
  have h2 : 2 * (~~~top 15 ++ ~~~top 15).toNat < 2 ^ (16 + 16) := by decide
  have h3 : 2 * (~~~top 15 ++ (~~~top 15 ++ ~~~top 15)).toNat < 2 ^ (16 + (16 + 16)) := by decide
  cases subtract with
  | false =>
    change swarAdd low _ _ = (a + a') ++ ((b + b') ++ ((c + c') ++ (d + d')))
    rw [hlow]
    refine (swarAdd_append h3).trans ?_
    rw [swarAdd_append h2, swarAdd_append h1, swarAdd_lane, swarAdd_lane, swarAdd_lane,
      swarAdd_lane]
  | true =>
    change swarSub low _ _ = (a - a') ++ ((b - b') ++ ((c - c') ++ (d - d')))
    rw [hlow]
    refine (swarSub_append h3).trans ?_
    rw [swarSub_append h2, swarSub_append h1, swarSub_lane, swarSub_lane, swarSub_lane,
      swarSub_lane]

theorem u64ToLe_append (a b c d : BitVec 16) :
    u64ToLe (a ++ (b ++ (c ++ d))) = u16ToLe d ++ u16ToLe c ++ u16ToLe b ++ u16ToLe a := by
  have hbelow : ∀ start, start + 16 ≤ 16 + (16 + 16) →
      (a ++ (b ++ (c ++ d))).extractLsb' start 16 = (b ++ (c ++ d)).extractLsb' start 16 :=
    fun _ h => BitVec.extractLsb'_append_eq_of_add_le h
  have hd : (a ++ (b ++ (c ++ d))).extractLsb' 0 16 = d := by
    rw [hbelow 0 (by decide), BitVec.extractLsb'_append_eq_of_add_le (by decide),
      BitVec.extractLsb'_append_eq_right]
  have hc : (a ++ (b ++ (c ++ d))).extractLsb' 16 16 = c := by
    rw [hbelow 16 (by decide), BitVec.extractLsb'_append_eq_of_add_le (by decide),
      BitVec.extractLsb'_append_eq_left]
  have hb : (a ++ (b ++ (c ++ d))).extractLsb' 32 16 = b := by
    rw [hbelow 32 (by decide)]
    exact BitVec.extractLsb'_append_eq_left
  have ha : (a ++ (b ++ (c ++ d))).extractLsb' 48 16 = a := BitVec.extractLsb'_append_eq_left
  exact congrArg₂ _ (congrArg₂ _ (congrArg₂ _ (congrArg _ hd) (congrArg _ hc)) (congrArg _ hb))
    (congrArg _ ha)

/-- The word arithmetic of the source is wrapping arithmetic on every lane. -/
theorem performPointwiseWithOverflow_eq (subtract : Bool) (base input : Bytes) :
    performPointwiseWithOverflow subtract base input
      = (List.zipWith (laneOp subtract) (lanes base) (lanes input)).flatMap u16ToLe := by
  fun_induction performPointwiseWithOverflow subtract base input with
  | case1 b₀ b₁ b₂ b₃ b₄ b₅ b₆ b₇ base c₀ c₁ c₂ c₃ c₄ c₅ c₆ c₇ input ih =>
    rw [u64FromLe, u64FromLe, wordOp_append, u64ToLe_append]
    simp only [List.append_assoc, lanes, List.zipWith_cons_cons, List.flatMap_cons, ih]
  | case2 b₀ b₁ base c₀ c₁ input _ ih =>
    simp only [lanes, List.zipWith_cons_cons, List.flatMap_cons, ih]
  | case3 base input _ hpair =>
    -- one of the two has no pair left
    match base, input with
    | [], _ | [_], _ => simp [lanes]
    | _ :: _ :: _, [] | _ :: _ :: _, [_] => simp [lanes]
    | b₀ :: b₁ :: base, c₀ :: c₁ :: input => exact (hpair b₀ b₁ base c₀ c₁ input rfl rfl).elim

theorem lanes_flatMap (xs : List (BitVec 16)) : lanes (xs.flatMap u16ToLe) = xs := by
  induction xs with
  | nil => rfl
  | cons x xs ih => rw [List.flatMap_cons, lanes_u16ToLe_append, ih]

theorem length_flatMap_u16ToLe (xs : List (BitVec 16)) :
    (xs.flatMap u16ToLe).length = 2 * xs.length := by
  simp [u16ToLe, Nat.mul_comm]

/-- A byte string of even length is determined by its lanes. -/
theorem flatMap_lanes {bytes : Bytes} {n : Nat} (h : bytes.length = 2 * n) :
    (lanes bytes).flatMap u16ToLe = bytes := by
  induction n generalizing bytes with
  | zero =>
    obtain rfl := List.eq_nil_of_length_eq_zero h
    rfl
  | succ n ih =>
    match bytes with
    | [] | [_] => simp only [List.length_cons, List.length_nil] at h; omega
    | b₀ :: b₁ :: rest =>
      simp only [List.length_cons] at h
      rw [lanes, List.flatMap_cons, ih (by omega), u16FromLe, u16ToLe,
        BitVec.extractLsb'_append_eq_right, BitVec.extractLsb'_append_eq_left]
      rfl

theorem length_lanes {bytes : Bytes} {n : Nat} (h : bytes.length = 2 * n) :
    (lanes bytes).length = n := by
  have hlength := length_flatMap_u16ToLe (lanes bytes)
  rw [flatMap_lanes h] at hlength
  omega

theorem length_performPointwiseWithOverflow (subtract : Bool) {base input : Bytes} {n : Nat}
    (hbase : base.length = 2 * n) (hinput : input.length = 2 * n) :
    (performPointwiseWithOverflow subtract base input).length = 2 * n := by
  rw [performPointwiseWithOverflow_eq, length_flatMap_u16ToLe, List.length_zipWith,
    length_lanes hbase, length_lanes hinput, Nat.min_self]

/-! ## The accumulator -/

/-- The 64 lanes of an accumulator. -/
def laneOf (hash : FixedBytes 128) : Fin 64 → BitVec 16 := fun k => (lanes hash.val).getD k 0

theorem laneOf_emptyHash : laneOf emptyHash = 0 := by
  funext k
  revert k
  decide +kernel

/-- `WAPATCH_INTEGRITY_INFO`. -/
def wapatchIntegrityInfo : Bytes := "WhatsApp Patch Integrity".toUTF8.data.toList

/-- The operand that a value MAC is expanded to. -/
def derived (item : Bytes) : FixedBytes 128 := hkdfSha256 P item wapatchIntegrityInfo 4

/-- One operand added to or subtracted from the accumulator. -/
def pointwise (subtract : Bool) (base input : FixedBytes 128) : FixedBytes 128 :=
  ⟨performPointwiseWithOverflow subtract base.val input.val,
    length_performPointwiseWithOverflow (n := 64) subtract base.property input.property⟩

def multipleOp (base : FixedBytes 128) (input : List Bytes) (subtract : Bool) : FixedBytes 128 :=
  input.foldl (fun base item => pointwise subtract base (derived P item)) base

def subtractThenAdd (base : FixedBytes 128) (subtract add : List Bytes) : FixedBytes 128 :=
  multipleOp P (multipleOp P base subtract true) add false

theorem laneOf_pointwise (subtract : Bool) (base input : FixedBytes 128) (k : Fin 64) :
    laneOf (pointwise subtract base input) k = laneOp subtract (laneOf base k) (laneOf input k) := by
  have hb : k.val < (lanes base.val).length := by
    rw [length_lanes (n := 64) base.property]
    exact k.isLt
  have hi : k.val < (lanes input.val).length := by
    rw [length_lanes (n := 64) input.property]
    exact k.isLt
  simp only [laneOf, pointwise, performPointwiseWithOverflow_eq, lanes_flatMap,
    List.getD_eq_getElem?_getD, List.getElem?_zipWith, List.getElem?_eq_getElem hb, List.getElem?_eq_getElem hi,
    Option.getD_some]

/-- The lanes of what a value MAC is expanded to: its share of the sum. -/
def share (item : Bytes) : Fin 64 → BitVec 16 := laneOf (derived P item)

theorem laneOf_multipleOp (base : FixedBytes 128) (input : List Bytes) (subtract : Bool) :
    laneOf (multipleOp P base input subtract)
      = if subtract then laneOf base - (input.map (share P)).sum
        else laneOf base + (input.map (share P)).sum := by
  induction input generalizing base with
  | nil => simp [multipleOp]
  | cons item input ih =>
    have hstep := funext (laneOf_pointwise subtract base (derived P item))
    rw [multipleOp, List.foldl_cons, ← multipleOp, ih, hstep, List.map_cons]
    cases subtract with
    | false => exact add_assoc (laneOf base) _ _
    | true => exact sub_sub (laneOf base) _ _

/-- An update of the accumulator takes shares out of the sum and puts shares
into it. -/
theorem laneOf_subtractThenAdd (base : FixedBytes 128) (subtract add : List Bytes) :
    laneOf (subtractThenAdd P base subtract add)
      = laneOf base - (subtract.map (share P)).sum + (add.map (share P)).sum := by
  rw [subtractThenAdd, laneOf_multipleOp, laneOf_multipleOp]
  rfl

/-! ## Operands of any size -/

/-- `WAPATCH_INTEGRITY` is the one with operands of 128 bytes. -/
structure LTHash where
  hkdfInfo : Bytes
  hkdfSize : UInt8
  deriving DecidableEq, Repr

namespace LTHash

variable (self : LTHash)

/-- `hkdf_sha256_into`.  An output that is not a whole number of blocks is the start of one
that is. -/
def hkdfSha256Into (item : Bytes) : Bytes :=
  (hkdfSha256 P item self.hkdfInfo ((self.hkdfSize.toNat + 31) / 32)).val.take self.hkdfSize.toNat

def multipleOp (base : Bytes) (input : List Bytes) (subtract : Bool) : Bytes :=
  input.foldl
    (fun base item => performPointwiseWithOverflow subtract base (self.hkdfSha256Into P item)) base

def subtractThenAddInPlace (base : Bytes) (subtract add : List Bytes) : Bytes :=
  self.multipleOp P (self.multipleOp P base subtract true) add false

theorem length_hkdfSha256Into (item : Bytes) :
    (self.hkdfSha256Into P item).length = self.hkdfSize.toNat := by
  have hblocks := (hkdfSha256 P item self.hkdfInfo ((self.hkdfSize.toNat + 31) / 32)).property
  rw [hkdfSha256Into, List.length_take, hblocks]
  omega

/-- Two operands may change places. -/
theorem performPointwiseWithOverflow_comm (subtract : Bool) (base x y : Bytes) :
    performPointwiseWithOverflow subtract (performPointwiseWithOverflow subtract base x) y
      = performPointwiseWithOverflow subtract (performPointwiseWithOverflow subtract base y) x := by
  have hlane : ∀ a b c, laneOp subtract (laneOp subtract a b) c
      = laneOp subtract (laneOp subtract a c) b := by
    intro a b c
    cases subtract
    · exact add_right_comm a b c
    · exact sub_right_comm a b c
  simp only [performPointwiseWithOverflow_eq, lanes_flatMap]
  congr 1
  apply List.ext_getElem?
  intro k
  simp only [List.getElem?_zipWith]
  cases (lanes base)[k]? <;> cases (lanes x)[k]? <;> cases (lanes y)[k]? <;> simp [hlane]

/-- Adding an operand undoes subtracting it, and the other way round. -/
theorem performPointwiseWithOverflow_cancel (subtract : Bool) {base input : Bytes} {n : Nat}
    (hbase : base.length = 2 * n) (hinput : input.length = 2 * n) :
    performPointwiseWithOverflow (!subtract)
      (performPointwiseWithOverflow subtract base input) input = base := by
  have hlane : ∀ a b, laneOp (!subtract) (laneOp subtract a b) b = a := by
    intro a b
    cases subtract
    · exact add_sub_cancel_right a b
    · exact sub_add_cancel a b
  rw [performPointwiseWithOverflow_eq, performPointwiseWithOverflow_eq, lanes_flatMap]
  refine Eq.trans ?_ (flatMap_lanes hbase)
  congr 1
  apply List.ext_getElem
  · simp [length_lanes hbase, length_lanes hinput]
  · intro k _ _
    simp [hlane]

variable {self} {base : Bytes} {n : Nat}

theorem multipleOp_perm (base : Bytes) {input input' : List Bytes} (h : input.Perm input')
    (subtract : Bool) :
    self.multipleOp P base input subtract = self.multipleOp P base input' subtract := by
  apply h.foldl_eq'
  intro x _ y _ z
  exact performPointwiseWithOverflow_comm ..

/-- The operands that were last are taken back first. -/
theorem multipleOp_reverse (hn : self.hkdfSize.toNat = 2 * n) (hbase : base.length = 2 * n)
    (input : List Bytes) (subtract : Bool) :
    (self.multipleOp P base input subtract).length = 2 * n
      ∧ self.multipleOp P (self.multipleOp P base input subtract) input.reverse (!subtract)
        = base := by
  induction input generalizing base with
  | nil => exact ⟨hbase, rfl⟩
  | cons item input ih =>
    have hitem := (self.length_hkdfSha256Into P item).trans hn
    obtain ⟨hlength, hrest⟩ := ih (length_performPointwiseWithOverflow subtract hbase hitem)
    refine ⟨hlength, ?_⟩
    rw [List.reverse_cons, multipleOp, List.foldl_append]
    exact (congrArg (performPointwiseWithOverflow (!subtract) · _) hrest).trans
      (performPointwiseWithOverflow_cancel subtract hbase hitem)

/-- The accumulator is added to and subtracted from lane by lane, modulo 2^16, in the words
and in the pairs that are left alike.  So an update does not depend on the order of its
operands, and the update the other way round restores the base. -/
theorem lanewise (P : Primitives) :
    (∀ (subtract : Bool) (base input : Bytes), base.length = input.length → Even base.length →
        lanes (performPointwiseWithOverflow subtract base input)
          = List.zipWith (laneOp subtract) (lanes base) (lanes input)
        ∧ (performPointwiseWithOverflow subtract base input).length = base.length)
      ∧ ∀ (self : LTHash) (base : Bytes) (subtract subtract' add add' : List Bytes),
        base.length = self.hkdfSize.toNat → Even base.length →
        subtract.Perm subtract' → add.Perm add' →
          self.subtractThenAddInPlace P base subtract add
            = self.subtractThenAddInPlace P base subtract' add'
          ∧ self.subtractThenAddInPlace P
              (self.subtractThenAddInPlace P base subtract add) add' subtract' = base := by
  constructor
  · intro subtract base input hlength heven
    obtain ⟨n, hn⟩ := heven
    rw [← Nat.two_mul] at hn
    refine ⟨?_, ?_⟩
    · rw [performPointwiseWithOverflow_eq, lanes_flatMap]
    · rw [length_performPointwiseWithOverflow subtract hn (hlength ▸ hn), hn]
  · intro self base subtract subtract' add add' hlength heven hsubtract hadd
    obtain ⟨n, hn⟩ := heven
    rw [← Nat.two_mul] at hn
    have hsize : self.hkdfSize.toNat = 2 * n := hlength.symm.trans hn
    constructor
    · rw [subtractThenAddInPlace, multipleOp_perm P base hsubtract, multipleOp_perm P _ hadd]
      rfl
    · obtain ⟨htaken, hback⟩ := multipleOp_reverse P hsize hn subtract true
      have hundone := (multipleOp_reverse P hsize htaken add false).2
      rw [subtractThenAddInPlace, subtractThenAddInPlace,
        multipleOp_perm P _ (hadd.symm.trans add.reverse_perm.symm),
        multipleOp_perm P _ (hsubtract.symm.trans subtract.reverse_perm.symm)]
      rw [Bool.not_false] at hundone
      rw [hundone]
      exact hback

end LTHash

def WAPATCH_INTEGRITY : LTHash := ⟨wapatchIntegrityInfo, 128⟩

/-- The update of a collection's accumulator. -/
theorem val_subtractThenAdd (base : FixedBytes 128) (subtract add : List Bytes) :
    (subtractThenAdd P base subtract add).val
      = WAPATCH_INTEGRITY.subtractThenAddInPlace P base.val subtract add := by
  have hop : ∀ (input : List Bytes) (base : FixedBytes 128) (flag : Bool),
      (multipleOp P base input flag).val
        = WAPATCH_INTEGRITY.multipleOp P base.val input flag := by
    intro input base flag
    refine (List.foldl_hom Subtype.val ?_).symm
    intro base item
    have hderived : WAPATCH_INTEGRITY.hkdfSha256Into P item = (derived P item).val :=
      List.take_of_length_le (derived P item).property.le
    rw [pointwise, hderived]
  rw [subtractThenAdd, hop, hop]
  rfl

end WaCore.AppState
