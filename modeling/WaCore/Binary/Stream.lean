import WaCore.Lib.Effect
import WaCore.Binary.DecoderStack

/-!
# The streaming cursor

`NodeStream` (`stream.rs`) walks a node's children one at a time over a source
that produces bytes on demand.  A plain source has all its bytes; an inflate
source has a window of them and pumps more out of the decompressor, which is
outside this model: `InflateReader.pumps` is what its calls will deliver.

The cursor's operations decode with the methods of a `Decoder`, so they run on
a bounded stack as the tree decoder does.  An operation that fails keeps what
it did to the stream before it failed.
-/

namespace WaCore.Binary

open ListParser

/-! ## Sources -/

/-- What one call of the decompressor adds to the window, and the error it may
end in. -/
structure Pump where
  produced : Bytes
  error : Option String

/-- The window of an inflate source, and the calls that will fill it. -/
structure InflateReader where
  window : Bytes
  pumps : List Pump
  streamEnd : Bool

/-- Where a stream's bytes come from; a plain source is what is left of its
slice. -/
inductive Source where
  | plain (data : Bytes)
  | inflate (reader : InflateReader)

/-- `InflateReader::ensure`: pump until `need` bytes are there or the stream
has ended. -/
def ensureWindow (need : Nat) : Bytes → List Pump → Except String Bool × Bytes × List Pump
  | window, [] => (.ok (need ≤ window.length), window, [])
  | window, pump :: pumps =>
    if need ≤ window.length then (.ok true, window, pump :: pumps)
    else
      match pump.error with
      | some e => (.error e, window ++ pump.produced, pumps)
      | none => ensureWindow need (window ++ pump.produced) pumps

namespace Source

def available : Source → Bytes
  | plain data => data
  | inflate reader => reader.window

def consume (n : Nat) : Source → Source
  | plain data => plain (data.drop n)
  | inflate reader => inflate { reader with window := reader.window.drop n }

def ensure (need : Nat) : Source → Except String Bool × Source
  | plain data => (.ok (need ≤ data.length), plain data)
  | inflate reader =>
    match ensureWindow need reader.window reader.pumps with
    | (result, window, pumps) =>
      (result, inflate { reader with window := window, pumps := pumps })

/-- How many calls of the decompressor are left. -/
def pumpsLeft : Source → Nat
  | plain _ => 0
  | inflate reader => reader.pumps.length

/-- Every byte the source can still give. -/
def bytes : Source → Bytes
  | plain data => data
  | inflate reader => reader.window ++ reader.pumps.flatMap (·.produced)

end Source

/-! ## The cursor -/

/-- A cursor over one node's bytes.  `levels` holds, innermost first, how many
children of each open node are unread. -/
structure NodeStream where
  source : Source
  pending : Nat
  levels : List Nat
  rootDone : Bool

def NodeStream.withSource (source : Source) : NodeStream := ⟨source, 0, [], false⟩

/-- The head of a node the stream has descended into is the decoder's. -/
abbrev OpenNode := NodeOpen

/-- An operation of the cursor. -/
abbrev Stm := Eff NodeStream Fault

def consumeSource (n : Nat) : Stm Unit :=
  modify fun s => { s with source := s.source.consume n }

/-- Drop the bytes behind what the last call returned. -/
def settle : Stm Unit :=
  modify fun s => { s with source := s.source.consume s.pending, pending := 0 }

def takeSlot : Stm Bool := do
  settle
  let s ← get
  match s.levels with
  | [] =>
    if s.rootDone then
      pure false
    else
      set { s with rootDone := true }
      pure true
  | 0 :: _ => pure false
  | (remaining + 1) :: levels =>
    set { s with levels := remaining :: levels }
    pure true

def ensureSource (need : Nat) : Stm Bool := do
  let s ← get
  match s.source.ensure need with
  | (.ok filled, source) =>
    set { s with source := source }
    pure filled
  | (.error e, source) =>
    set { s with source := source }
    throw (.error (.zlib e))

def grow (have' : Nat) : Stm Bool := do
  let filled ← ensureSource (2 * max have' 64)
  let s ← get
  pure (filled || have' < s.source.available.length)

/-- The loop of `decode_next` and `skip_next`.  A round that asks for more
bytes takes a call of the decompressor, so their number bounds the rounds. -/
def decodeLoop {α : Type} (decode : Dec α) : Nat → Stm (α × Nat)
  | 0 => throw (.error .unexpectedEof)
  | rounds + 1 => do
    let window := (← get).source.available
    match decode window with
    | .ok (value, rest) => pure (value, window.length - rest.length)
    | .error (.error .unexpectedEof) =>
      if ← grow window.length then decodeLoop decode rounds else throw (.error .unexpectedEof)
    | .error e => throw e

def decodeNext {α : Type} (decode : Dec α) : Stm (α × Nat) := do
  decodeLoop decode ((← get).source.pumpsLeft + 1)

def skipNext (walk : Dec Unit) : Stm Nat := do
  let (_, used) ← decodeNext walk
  pure used

section Operations

variable (T : TokenTables) (self : Decoder)

/-- `NodeStream::open`. -/
def openNode : Stm (Option OpenNode) := do
  if ← takeSlot then
    if MAX_NODE_DEPTH ≤ (← get).levels.length then
      throw (.error .maxDepthExceeded)
    else
      let (head, used) ← decodeNext (readNodeOpen T self)
      let remaining := match head.content with
        | .children n => n
        | _ => 0
      modify fun s => { s with pending := used, levels := remaining :: s.levels }
      pure (some head)
  else
    pure none

def nextChild : Stm (Option NodeRef) := do
  if ← takeSlot then
    let depth := (← get).levels.length
    let (node, used) ← decodeNext (self.readNodeRefAt depth)
    modify fun s => { s with pending := used }
    pure (some node)
  else
    pure none

/-- Skip one node and drop its bytes. -/
def skipNode (depth : Nat) : Stm Unit := do
  let used ← skipNext (self.skipNodeAt depth)
  consumeSource used

/-- The loop of `close` over the children not yet read. -/
def skipRemaining (depth : Nat) : Nat → Stm Unit
  | 0 => pure ()
  | remaining + 1 => do
    skipNode self depth
    skipRemaining depth remaining

def close : Stm Unit := do
  settle
  let s ← get
  match s.levels with
  | [] => pure ()
  | remaining :: _ =>
    skipRemaining self s.levels.length remaining
    modify fun s => { s with levels := s.levels.tail }

/-- The loop of `finish` over the open nodes. -/
def closeAll : Nat → Stm Unit
  | 0 => pure ()
  | levels + 1 => do
    close self
    closeAll levels

def finishRoot : Stm Unit := do
  let s ← get
  if s.rootDone then
    pure ()
  else
    set { s with rootDone := true }
    skipNode self 0

def finishSource : Stm Unit := do
  match (← get).source with
  | .plain data =>
    if data ≠ [] then throw (.error (.leftoverData data.length))
  | .inflate _ =>
    if ← ensureSource 1 then
      throw (.error (.leftoverData (← get).source.available.length))
    else
      match (← get).source with
      | .inflate reader =>
        if !reader.streamEnd then throw (.error (.zlib "zlib stream truncated"))
      | .plain _ => pure ()

theorem exec_finishSource_plain (data : Bytes) (pending : Nat) (levels : List Nat)
    (rootDone : Bool) :
    (Eff.exec finishSource ⟨.plain data, pending, levels, rootDone⟩).1 = .ok () ↔ data = [] := by
  by_cases hnil : data = []
  · simp [finishSource, Eff.exec_bind, hnil]
  · simp [finishSource, Eff.exec_bind, hnil]

theorem exec_finishSource_filled {reader : InflateReader} {s s' : NodeStream}
    (hsource : s.source = .inflate reader)
    (hensure : Eff.exec (ensureSource 1) s = (.ok true, s')) :
    (Eff.exec finishSource s).1 ≠ .ok () := by
  simp [finishSource, Eff.exec_bind, hsource, hensure]

theorem exec_finishSource_drained {reader : InflateReader} {s s' : NodeStream}
    (hsource : s.source = .inflate reader)
    (hensure : Eff.exec (ensureSource 1) s = (.ok false, s'))
    (hend : ∀ reader', s'.source = .inflate reader' → reader'.streamEnd = true) :
    Eff.exec finishSource s = (.ok (), s') := by
  cases hsource' : s'.source with
  | plain data => simp [finishSource, Eff.exec_bind, hsource, hensure, hsource']
  | inflate reader' =>
    simp [finishSource, Eff.exec_bind, hsource, hensure, hsource', hend reader' hsource']

def finish : Stm Unit := do
  closeAll self (← get).levels.length
  finishRoot self
  settle
  finishSource

end Operations

/-! ## Runs -/

/-- A call of the stream's user. -/
inductive StreamOp where
  | openNode
  | nextChild
  | close
  | finish
  deriving DecidableEq, Repr

/-- Run a call and drop the node it returns. -/
def StreamOp.run (T : TokenTables) (self : Decoder) : StreamOp → Stm Unit
  | .openNode => do
    let _ ← Binary.openNode T self
    pure ()
  | .nextChild => do
    let _ ← Binary.nextChild self
    pure ()
  | .close => Binary.close self
  | .finish => Binary.finish self

/-- The results of a sequence of calls, each on the stream the one before
left, also when that one failed. -/
def streamResults (T : TokenTables) (self : Decoder) :
    List StreamOp → NodeStream → List (Except Fault Unit)
  | [], _ => []
  | op :: ops, s =>
    let (result, s') := (op.run T self).exec s
    result :: streamResults T self ops s'

end WaCore.Binary
