import WaCore.Lib.Wire

/-!
# Layouts

A layout writes a value so that it can be read again whatever follows it.  Layouts of
parts are put together to one of the whole, field by field.
-/

namespace WaCore

structure Layout (α : Type) where
  put : α → Bytes
  get : Bytes → Option (α × Bytes)
  get_put : ∀ a rest, get (put a ++ rest) = some (a, rest)

namespace Layout

variable {α β : Type}

def decode (L : Layout α) (bytes : Bytes) : Option α := (L.get bytes).map (·.1)

@[simp] theorem decode_put (L : Layout α) (a : α) : L.decode (L.put a) = some a := by
  have hget := L.get_put a []
  rw [List.append_nil] at hget
  rw [decode, hget]
  rfl

theorem mapM_decode (L : Layout α) (as : List α) : (as.map L.put).mapM L.decode = some as := by
  induction as with
  | nil => rfl
  | cons a as ih =>
    rw [List.map_cons, List.mapM_cons, decode_put, ih]
    rfl

def uint8 : Layout UInt8 where
  put b := [b]
  get
    | [] => none
    | b :: rest => some (b, rest)
  get_put _ _ := rfl

def uint32 : Layout UInt32 where
  put n := Wire.encodeVarint n.toNat
  get bytes := (Wire.decodeVarint bytes).map fun r => (.ofNat r.1, r.2)
  get_put n rest := by
    have hlt := n.toNat_lt
    rw [Wire.decodeVarint_encodeVarint (by omega)]
    simp

def pair (A : Layout α) (B : Layout β) : Layout (α × β) where
  put ab := A.put ab.1 ++ B.put ab.2
  get bytes := do
    let (a, rest) ← A.get bytes
    let (b, rest) ← B.get rest
    pure ((a, b), rest)
  get_put ab rest := by
    rw [List.append_assoc, A.get_put]
    simp [B.get_put]

def option (A : Layout α) : Layout (Option α) where
  put
    | none => [0]
    | some a => 1 :: A.put a
  get
    | [] => none
    | mark :: rest => if mark = 0 then some (none, rest) else
      (A.get rest).map fun r => (some r.1, r.2)
  get_put a rest := by
    cases a with
    | none => rfl
    | some a => simp [A.get_put]

/-- Each element is announced. -/
def putList (A : Layout α) : List α → Bytes
  | [] => [0]
  | a :: as => 1 :: (A.put a ++ putList A as)

def getList (A : Layout α) : Nat → Bytes → Option (List α × Bytes)
  | rounds + 1, mark :: rest =>
    if mark = 0 then some ([], rest)
    else do
      let (a, rest) ← A.get rest
      let (as, rest) ← getList A rounds rest
      pure (a :: as, rest)
  | _, _ => none

theorem getList_putList (A : Layout α) {as : List α} {rounds : Nat} (h : as.length < rounds)
    (rest : Bytes) : getList A rounds (putList A as ++ rest) = some (as, rest) := by
  induction as generalizing rounds with
  | nil =>
    obtain ⟨rounds, rfl⟩ := Nat.exists_eq_add_of_lt h
    rfl
  | cons a as ih =>
    obtain _ | rounds := rounds
    · cases h
    · simp [putList, getList, A.get_put, ih (Nat.lt_of_succ_lt_succ h)]

theorem length_lt_putList (A : Layout α) (as : List α) : as.length < (putList A as).length := by
  induction as with
  | nil => exact Nat.zero_lt_one
  | cons a as ih =>
    rw [putList, List.length_cons, List.length_cons, List.length_append]
    omega

def list (A : Layout α) : Layout (List α) where
  put := putList A
  get bytes := getList A bytes.length bytes
  get_put as rest := by
    refine getList_putList A ?_ rest
    have hlt := length_lt_putList A as
    rw [List.length_append]
    omega

/-- The layout of a type whose values are those of another one. -/
def map (A : Layout α) (f : β → α) (g : α → β) (h : ∀ b, g (f b) = b) : Layout β where
  put b := A.put (f b)
  get bytes := (A.get bytes).map fun r => (g r.1, r.2)
  get_put b rest := by
    rw [A.get_put]
    simp [h]

def bytes : Layout Bytes := list uint8

end Layout

end WaCore
