import WaCore.Lib.Bytes
import WaCore.Lib.Splitter

/-!
# Frames

A frame is a payload behind its length in three bytes (`framing.rs`).  The decoder
collects what the transport reads in a buffer and takes whole frames off its front.

The capacity of the buffer decides when the decoder copies what is left of it into
a new one.  How far an allocation grows is up to the library of the buffers: it is
the parameter `grow`, and nothing is assumed about it.
-/

namespace WaCore.Noise

def FRAME_LENGTH_SIZE : Nat := 3

def FRAME_MAX_SIZE : Nat := 2 ^ 24

/-! ## Encoding -/

/-- `u32::to_be_bytes`. -/
def toBeBytes (n : UInt32) : Bytes :=
  [(n >>> 24).toUInt8, (n >>> 16).toUInt8, (n >>> 8).toUInt8, n.toUInt8]

/-- The text of an error that came up as an `anyhow::Error`. -/
abbrev AnyError := String

/-- The buffer `out` with the head of a frame behind its content. -/
def appendFrameHeaderInto (payloadLen : Nat) (header : Option Bytes) (out : Bytes) :
    Except AnyError Bytes :=
  if FRAME_MAX_SIZE ≤ payloadLen then
    .error s!"Frame is too large (max: {FRAME_MAX_SIZE}, got: {payloadLen})"
  else .ok (out ++ header.getD [] ++ (toBeBytes (UInt32.ofNat payloadLen)).drop 1)

def appendFrameInto (payload : Bytes) (header : Option Bytes) (out : Bytes) :
    Except AnyError Bytes := do
  let out ← appendFrameHeaderInto payload.length header out
  pure (out ++ payload)

def encodeFrameInto (payload : Bytes) (header : Option Bytes) (_out : Bytes) :
    Except AnyError Bytes :=
  appendFrameInto payload header []

def encodeFrame (payload : Bytes) (header : Option Bytes) : Except AnyError Bytes :=
  encodeFrameInto payload header []

/-! ## Decoding -/

def CHUNK_SIZE : Nat := 1024

def MAX_IDLE_CAPACITY : Nat := 64 * 1024

def MAX_EAGER_RESERVE : Nat := 64 * 1024

/-- The length of a frame, from its first three bytes. -/
def frameLen (b0 b1 b2 : UInt8) : Nat := b0.toNat <<< 16 ||| b1.toNat <<< 8 ||| b2.toNat

structure BytesMut where
  data : Bytes
  capacity : Nat

/-- The capacity of a buffer that has to hold some bytes more. -/
abbrev Grow := BytesMut → Nat → Nat

namespace BytesMut

def withCapacity (capacity : Nat) : BytesMut := ⟨[], capacity⟩

def reserve (grow : Grow) (b : BytesMut) (additional : Nat) : BytesMut :=
  { b with capacity := grow b additional }

/-- Bytes that do not fit make the buffer grow. -/
def extendFromSlice (grow : Grow) (b : BytesMut) (data : Bytes) : BytesMut :=
  let b := if b.capacity - b.data.length < data.length then b.reserve grow data.length else b
  { b with data := b.data ++ data }

def advance (b : BytesMut) (n : Nat) : BytesMut := ⟨b.data.drop n, b.capacity - n⟩

/-- The front of the buffer, and the buffer behind it. -/
def splitTo (b : BytesMut) (n : Nat) : Bytes × BytesMut :=
  (b.data.take n, ⟨b.data.drop n, b.capacity - n⟩)

end BytesMut

/-- A read of the transport.  `owned` is the capacity of its allocation if nothing
else holds it. -/
structure Chunk where
  data : Bytes
  owned : Option Nat

structure FrameDecoder where
  buffer : BytesMut
  grewOversized : Bool

namespace FrameDecoder

def new : FrameDecoder := ⟨.withCapacity CHUNK_SIZE, false⟩

variable (grow : Grow)

def reserveFor (d : FrameDecoder) (incoming : Nat) : FrameDecoder :=
  if d.buffer.capacity - d.buffer.data.length < incoming then
    let buffer := d.buffer.reserve grow (max incoming CHUNK_SIZE)
    ⟨buffer, d.grewOversized || MAX_IDLE_CAPACITY < buffer.capacity⟩
  else d

def feed (d : FrameDecoder) (data : Bytes) : FrameDecoder :=
  let d := d.reserveFor grow data.length
  { d with buffer := d.buffer.extendFromSlice grow data }

/-- A large read that nothing else holds becomes the buffer if that is empty. -/
def feedOwned (d : FrameDecoder) (chunk : Chunk) : FrameDecoder :=
  if d.buffer.data.isEmpty && CHUNK_SIZE ≤ chunk.data.length then
    match chunk.owned with
    | some capacity =>
      ⟨⟨chunk.data, capacity⟩, d.grewOversized || MAX_IDLE_CAPACITY < capacity⟩
    | none => d.feed grow chunk.data
  else d.feed grow chunk.data

/-- Release an oversized allocation of which little is in use. -/
def releaseOversized (d : FrameDecoder) : FrameDecoder :=
  if (d.grewOversized || MAX_IDLE_CAPACITY < d.buffer.capacity)
      && d.buffer.data.length ≤ CHUNK_SIZE then
    ⟨(BytesMut.withCapacity CHUNK_SIZE).extendFromSlice grow d.buffer.data, false⟩
  else d

def decodeFrame (d : FrameDecoder) : Option Bytes × FrameDecoder :=
  match d.buffer.data with
  | b0 :: b1 :: b2 :: _ =>
    if d.buffer.data.length < FRAME_LENGTH_SIZE + frameLen b0 b1 b2 then
      let missing := FRAME_LENGTH_SIZE + frameLen b0 b1 b2 - d.buffer.data.length
      (none, d.reserveFor grow (min missing MAX_EAGER_RESERVE))
    else
      let (frameData, buffer) :=
        (d.buffer.advance FRAME_LENGTH_SIZE).splitTo (frameLen b0 b1 b2)
      (some frameData, { d with buffer := buffer }.releaseOversized grow)
  | _ => (none, d)

def bufferedLen (d : FrameDecoder) : Nat := d.buffer.data.length

/-- The loop `while let Some(frame) = decode_frame()`, in at most so many rounds. -/
def drainLoop : Nat → FrameDecoder → List Bytes × FrameDecoder
  | 0, d => ([], d)
  | rounds + 1, d =>
    match d.decodeFrame grow with
    | (none, d) => ([], d)
    | (some frame, d) =>
      let (frames, d) := drainLoop rounds d
      (frame :: frames, d)

theorem drainLoop_of_none {d : FrameDecoder} (h : (d.decodeFrame grow).1 = none) (rounds : Nat) :
    d.drainLoop grow (rounds + 1) = ([], (d.decodeFrame grow).2) := by
  rw [drainLoop]
  cases hdecode : d.decodeFrame grow with
  | mk frame d' =>
    rw [hdecode] at h
    obtain rfl : frame = none := h
    rfl

theorem drainLoop_of_some {d : FrameDecoder} {frame : Bytes}
    (h : (d.decodeFrame grow).1 = some frame) (rounds : Nat) :
    d.drainLoop grow (rounds + 1)
      = (frame :: ((d.decodeFrame grow).2.drainLoop grow rounds).1,
          ((d.decodeFrame grow).2.drainLoop grow rounds).2) := by
  rw [drainLoop]
  cases hdecode : d.decodeFrame grow with
  | mk decoded d' =>
    rw [hdecode] at h
    obtain rfl : decoded = some frame := h
    rfl

/-- A round takes bytes off the buffer, so that their number bounds the rounds. -/
def drain (d : FrameDecoder) : List Bytes × FrameDecoder :=
  drainLoop grow (d.bufferedLen + 1) d

end FrameDecoder

/-! ## Runs -/

inductive DecoderOp where
  | feed (data : Bytes)
  | feedOwned (chunk : Chunk)
  | decodeFrame

namespace DecoderOp

/-- The bytes that a call feeds. -/
def fed : DecoderOp → Bytes
  | feed data => data
  | feedOwned chunk => chunk.data
  | decodeFrame => []

def apply (grow : Grow) (d : FrameDecoder) : DecoderOp → Option Bytes × FrameDecoder
  | feed data => (none, d.feed grow data)
  | feedOwned chunk => (none, d.feedOwned grow chunk)
  | decodeFrame => d.decodeFrame grow

end DecoderOp

/-- The frames that a sequence of calls returns, and the decoder after it. -/
def runDecoder (grow : Grow) : List DecoderOp → FrameDecoder → List Bytes × FrameDecoder
  | [], d => ([], d)
  | op :: ops, d =>
    let (frame, d) := op.apply grow d
    let (frames, d) := runDecoder grow ops d
    (frame.toList ++ frames, d)

end WaCore.Noise
