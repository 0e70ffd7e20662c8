import Mathlib.Data.Nat.Size
import WaCore.Binary.Token
import WaCore.Lib.Effect
import WaCore.Lib.Probing

/-!
# The generated token table

The build (`build.rs`) packs the tokens into one table with linear probing, and
`lookup_bytes` (`token.rs`) searches it.  A token of up to four bytes is found by
these bytes and its length.  A longer one is found by a signature of 32 bits, and
then compared with its bytes in a blob.

The build stops with an error when one of its assertions fails.  A table that
would need more than 32 bits for a slot is one, as the shift of `build_table`
overflows there.
-/

namespace WaCore.Binary

open Utf8

/-! ## Keys -/

/-- `u32::from_le_bytes`. -/
def u32FromLeBytes (a b c d : UInt8) : UInt32 :=
  UInt32.ofNat (a.toNat + 2 ^ 8 * b.toNat + 2 ^ 16 * c.toNat + 2 ^ 24 * d.toNat)

/-- `u32::rotate_left`. -/
def rotateLeft (x n : UInt32) : UInt32 := (x <<< n) ||| (x >>> (32 - n))

/-- The first four and the last four bytes and the length of at least five bytes. -/
def tokenSignature (b : Bytes) : UInt32 :=
  let byte := fun i => b[i]?.getD 0
  let len := b.length
  let head := u32FromLeBytes (byte 0) (byte 1) (byte 2) (byte 3)
  let tail := u32FromLeBytes (byte (len - 4)) (byte (len - 3)) (byte (len - 2)) (byte (len - 1))
  rotateLeft head 11 ^^^ tail ^^^ (UInt32.ofNat len * 0x9E3779B1)

/-- `token_key`. -/
def tokenKey : Bytes → UInt32
  | [a] => a.toUInt32
  | [a, b] => u32FromLeBytes a b 0 0
  | [a, b, c] => u32FromLeBytes a b c 0
  | [a, b, c, d] => u32FromLeBytes a b c d
  | b => tokenSignature b

/-! ## Building the table -/

/-- The slot a key is looked for first. -/
def homeSlot (mul shift x : UInt32) : Nat := ((x * mul) >>> shift).toNat

structure TokenEntry where
  x : UInt32
  info : Nat
  off : Nat
  deriving DecidableEq, Repr

/-- The three arrays of the table. -/
structure TokenSlots where
  keys : List UInt32
  info : List Nat
  off : List Nat
  deriving DecidableEq, Repr

namespace TokenSlots

def empty (size : Nat) : TokenSlots :=
  ⟨.replicate size 0, .replicate size 0, .replicate size 0⟩

/-- The loop that looks for a free slot, with what it may still be displaced by. -/
def freeSlot (keys : List UInt32) (size disp h : Nat) : Option Nat :=
  match keys[h]? with
  | none => none
  | some k =>
    if k = 0 then some h
    else
      match disp with
      | 0 => none
      | disp + 1 => freeSlot keys size disp ((h + 1) &&& (size - 1))

def insert (mul shift : UInt32) (size : Nat) (t : TokenSlots) (e : TokenEntry) :
    Option TokenSlots := do
  let h ← freeSlot t.keys size 8 (homeSlot mul shift e.x)
  pure ⟨t.keys.set h e.x, t.info.set h e.info, t.off.set h e.off⟩

/-- All entries with one multiplier. -/
def fill (entries : List TokenEntry) (k : Nat) (mul : UInt32) : Option TokenSlots :=
  entries.foldlM (insert mul (UInt32.ofNat (32 - k)) (2 ^ k)) (empty (2 ^ k))

/-- The loop over the multipliers. -/
def fillAny (entries : List TokenEntry) (k : Nat) : Nat → UInt32 → Option (UInt32 × TokenSlots)
  | 0, _ => none
  | rounds + 1, mul =>
    match fill entries k mul with
    | some t => some (mul, t)
    | none => fillAny entries k rounds ((mul * 0x85EBCA6B) ||| 1)

/-- The loop over the sizes. -/
def grow (entries : List TokenEntry) : Nat → Nat → Option (UInt32 × TokenSlots)
  | 0, _ => none
  | rounds + 1, k =>
    match fillAny entries k 256 0x9E3779B1 with
    | some r => some r
    | none => grow entries rounds (k + 1)

/-- `build_table`. -/
def build (entries : List TokenEntry) : Option (UInt32 × TokenSlots) :=
  let k := Nat.size (entries.length * 4 / 3)
  grow entries (33 - k) k

end TokenSlots

/-! ## The build -/

/-- The dictionaries as they are written in `tokens.json`. -/
structure Tokens where
  singleByte : List String
  doubleByte : List (List String)
  deriving DecidableEq, Repr

namespace Tokens

/-- All tokens.  The empty string marks a place without one. -/
def all (tokens : Tokens) : List String :=
  (tokens.singleByte ++ tokens.doubleByte.flatten).filter (· ≠ "")

/-- The kind of a token says where it is written. -/
def Declares (tokens : Tokens) (token : String) : TokenKind → Prop
  | .single i => token ≠ "" ∧ tokens.singleByte[i.toNat]? = some token
  | .double dict i => token ≠ "" ∧ tokens.doubleByte[dict.toNat]?.bind (·[i.toNat]?) = some token

end Tokens

/-- How the build ends without a table. -/
inductive BuildError where
  | tryFromInt
  | duplicateToken (token : String) (existing kind : Nat)
  | containsNul (token : String)
  | assertion (message : String)
  | noTable
  deriving DecidableEq, Repr

def ensure (condition : Bool) (e : BuildError) : Except BuildError Unit :=
  if condition then .ok () else .error e

/-- A token is kept with its kind, unless it is there already. -/
def addToken (values : List (String × Nat)) (token : String) (kind : Nat) :
    Except BuildError (List (String × Nat)) :=
  match values.find? (·.1 = token) with
  | some (_, existing) => .error (.duplicateToken token existing kind)
  | none => .ok (values ++ [(token, kind)])

/-- A round of the loop over the single-byte tokens. -/
def addSingle (values : List (String × Nat)) (item : String × Nat) :
    Except BuildError (List (String × Nat)) :=
  let (token, i) := item
  if token = "" then .ok values
  else do
    ensure (i < 2 ^ 16) .tryFromInt
    ensure (i < 256) (.assertion "single-byte token index out of range")
    addToken values token i

/-- A round of the loop over a dictionary of double-byte tokens. -/
def addDouble (dictIdx : Nat) (values : List (String × Nat)) (item : String × Nat) :
    Except BuildError (List (String × Nat)) :=
  let (token, tokenIdx) := item
  if token = "" then .ok values
  else do
    ensure (tokenIdx < 256) (.assertion "double-byte token index out of range")
    ensure (dictIdx + 1 < 256) (.assertion "double-byte dict index out of range")
    let kind := (dictIdx + 1) * 256 + tokenIdx
    ensure (kind < 2 ^ 16) .tryFromInt
    addToken values token kind

/-- The tokens with their kinds: `i` for a single-byte token, and
`(d + 1) * 256 + i` for one of dictionary `d`. -/
def tokenValues (tokens : Tokens) : Except BuildError (List (String × Nat)) := do
  let values ← tokens.singleByte.zipIdx.foldlM addSingle []
  tokens.doubleByte.zipIdx.foldlM
    (fun values dict => dict.1.zipIdx.foldlM (addDouble dict.2) values) values

/-- A round of the loop that packs the tokens: an entry holds the kind in 11 bits
and a tag above them, which is the length less one, or 31 for a token whose bytes
are in the blob. -/
def packToken (acc : Bytes × List TokenEntry) (value : String × Nat) :
    Except BuildError (Bytes × List TokenEntry) := do
  let (blob, entries) := acc
  let (token, kind) := value
  let b := ofString token
  ensure (!b.contains 0) (.containsNul token)
  ensure (kind < 2 ^ 11) (.assertion "kind overflows meta word")
  let x := tokenKey b
  ensure (x ≠ 0) (.assertion "token key collides with empty-slot sentinel")
  if b.length ≤ 4 then
    pure (blob, entries ++ [⟨x, kind ||| ((b.length - 1) <<< 11), 0⟩])
  else
    ensure (blob.length < 2 ^ 16) .tryFromInt
    pure (blob ++ UInt8.ofNat b.length :: b, entries ++ [⟨x, kind ||| (31 <<< 11), blob.length⟩])

/-- `usize::trailing_zeros`, for numbers with so many bits. -/
def trailingZeros : Nat → Nat → Nat
  | 0, _ => 0
  | bits + 1, n => if n % 2 = 1 then 0 else trailingZeros bits (n / 2) + 1

/-- The constants the build writes. -/
structure TokenMaps where
  maxTokenLen : Nat
  tokMul : UInt32
  tokShift : UInt32
  tokMask : Nat
  slots : TokenSlots
  tokBlob : Bytes
  deriving DecidableEq, Repr

/-- `main` of the build. -/
def generate (tokens : Tokens) : Except BuildError TokenMaps := do
  let values ← tokenValues tokens
  let maxLen := (values.map fun value => (ofString value.1).length).foldl max 0
  ensure (maxLen < 256) (.assertion "length no longer fits blob prefix byte")
  let (blob, entries) ← values.foldlM packToken ([], [])
  let (tokMul, slots) ← okOr (TokenSlots.build entries) .noTable
  pure { maxTokenLen := maxLen
         tokMul := tokMul
         tokShift := UInt32.ofNat (32 - trailingZeros 64 slots.keys.length)
         tokMask := slots.keys.length - 1
         slots := slots
         tokBlob := blob }

/-! ## The lookup -/

def decodeKind (kind : Nat) : TokenKind :=
  if kind < 256 then .single (UInt8.ofNat kind)
  else .double (UInt8.ofNat (kind >>> 8) - 1) (UInt8.ofNat kind)

/-- How a lookup can end without an answer. -/
inductive LookupFault where
  | outOfFuel
  | indexOutOfBounds
  deriving DecidableEq, Repr

namespace TokenMaps

variable (maps : TokenMaps)

def index {α : Type} (l : List α) (i : Nat) : Except LookupFault α := okOr l[i]? .indexOutOfBounds

/-- A search for a key, which goes on after a slot that is not `accept`ed. -/
def probe (x : UInt32) (accept : Nat → Except LookupFault (Option TokenKind)) :
    Nat → Nat → Except LookupFault (Option TokenKind)
  | 0, _ => .error .outOfFuel
  | fuel + 1, h => do
    let k ← index maps.slots.keys h
    if k = 0 then pure none
    else if k = x then
      match ← accept h with
      | some kind => pure (some kind)
      | none => probe x accept fuel ((h + 1) &&& maps.tokMask)
    else probe x accept fuel ((h + 1) &&& maps.tokMask)

/-- A short token is the one with these bytes if the length is right. -/
def acceptShort (len h : Nat) : Except LookupFault (Option TokenKind) := do
  let info ← index maps.slots.info h
  if info >>> 11 = len - 1 then pure (some (decodeKind (info &&& 0x7FF))) else pure none

/-- A long one is compared with the blob. -/
def acceptLong (key : Bytes) (h : Nat) : Except LookupFault (Option TokenKind) := do
  let info ← index maps.slots.info h
  if info >>> 11 = 31 then
    let off ← index maps.slots.off h
    let len ← index maps.tokBlob off
    if len.toNat = key.length then
      if maps.tokBlob.length < off + 1 + key.length then .error .indexOutOfBounds
      else if ((maps.tokBlob.drop (off + 1)).take key.length).zip key |>.all fun (a, b) => a = b then
        pure (some (decodeKind (info &&& 0x7FF)))
      else pure none
    else pure none
  else pure none

/-- The padded bytes of a key of one to four bytes. -/
def shortWord : Bytes → UInt32
  | [a] => a.toUInt32
  | [a, b] => u32FromLeBytes a b 0 0
  | [a, b, c] => u32FromLeBytes a b c 0
  | key => u32FromLeBytes (key[0]?.getD 0) (key[1]?.getD 0) (key[2]?.getD 0) (key[3]?.getD 0)

/-- The lookup, with so many probes at most. -/
def lookupBytes (fuel : Nat) (key : Bytes) : Except LookupFault (Option TokenKind) :=
  let len := key.length
  if len = 0 ∨ maps.maxTokenLen < len then .ok none
  else if len ≤ 4 then
    let x := shortWord key
    maps.probe x (maps.acceptShort len) fuel (homeSlot maps.tokMul maps.tokShift x)
  else
    let x := tokenSignature key
    maps.probe x (maps.acceptLong key) fuel (homeSlot maps.tokMul maps.tokShift x)

end TokenMaps

end WaCore.Binary
