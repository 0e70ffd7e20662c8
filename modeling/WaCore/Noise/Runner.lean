import WaCore.Noise.Handshake

/-!
# From the handshake to the read loop

`runner.rs` runs a handshake over the events of a transport, and the read loop of
`node_io.rs` takes the events that come after it.  Each of the two has a frame
decoder of its own.

The transport is a function that tells whether a write succeeds, and the list of
the events that it reports.  The loop can be told to stop from outside; `Signals`
says when.
-/

namespace WaCore.Noise

open Signal (Key KeyPair)

/-! ## Events -/

inductive DisconnectReason where
  | serverClose (code : Option UInt16) (reason : String)
  | streamEnded
  | readError (e : String)
  | unknown
  deriving DecidableEq, Repr

def DisconnectReason.isCleanShutdown : DisconnectReason → Bool
  | streamEnded => true
  | serverClose code _ => code = none || code = some 1000 || code = some 1001
  | readError _ => false
  | unknown => false

inductive TransportEvent where
  | connected
  | dataReceived (data : Chunk)
  | disconnected (reason : DisconnectReason)

/-- `HandshakeError` of `runner.rs`; an unexpected event is never reported. -/
inductive RunnerError where
  | transport (e : AnyError)
  | core (source : HandshakeError)
  | timeout
  | streamClosed
  | disconnected
  deriving DecidableEq

/-! ## The first message -/

def WA_CONN_HEADER : Bytes := [0x57, 0x41, 6, 3]

def MAX_EDGE_ROUTING_LEN : Nat := 0xFFFFFF

def buildEdgeRoutingPreintro (routingInfo : Bytes) : Except AnyError Bytes :=
  let len := routingInfo.length
  if MAX_EDGE_ROUTING_LEN < len then
    .error s!"edge routing info too large (max {MAX_EDGE_ROUTING_LEN} bytes)"
  else .ok (Signal.label "ED\x00\x01"
    ++ [.ofNat (len >>> 16), .ofNat (len >>> 8), .ofNat len] ++ routingInfo)

/-- Routing information that is too long is left out. -/
def buildHandshakeHeader (edgeRoutingInfo : Option Bytes) : Bytes × Bool :=
  match edgeRoutingInfo with
  | none => (WA_CONN_HEADER, false)
  | some routingInfo =>
    match buildEdgeRoutingPreintro routingInfo with
    | .ok header => (header ++ WA_CONN_HEADER, true)
    | .error _ => (WA_CONN_HEADER, false)

/-- What a handshake reads of the device; `clientPayload` is its encoded payload. -/
structure Device where
  noiseKey : KeyPair
  clientPayload : Bytes
  edgeRoutingInfo : Option Bytes

/-- The writes of the transport, and when it stops to report: `patience` is the
number of events that come before the deadline of a handshake, and `closed` says
whether the channel closes behind its last event. -/
structure Transport where
  send : Bytes → Except AnyError Unit
  patience : Nat
  closed : Bool

section Runner

variable (grow : Grow) (transport : Transport)

def sendFramed (payload : Bytes) (header : Option Bytes) : Except RunnerError Unit := do
  let framed ← (encodeFrame payload header).mapError .transport
  (transport.send framed).mapError .transport

def sendFirstHandshakeMessage (device : Device) (payload : Bytes) : Except RunnerError Unit :=
  sendFramed transport payload (some (buildHandshakeHeader device.edgeRoutingInfo).1)

/-- The loop of `recv_frame`: the frame, the decoder behind it and the events that
are left. -/
def assemble : Nat → List TransportEvent → FrameDecoder →
    Except RunnerError (Bytes × FrameDecoder × List TransportEvent)
  | 0, _, _ => .error .timeout
  | _ + 1, [], _ => .error (if transport.closed then .streamClosed else .timeout)
  | patience + 1, .dataReceived data :: events, d =>
    match (d.feedOwned grow data).decodeFrame grow with
    | (some frame, d) => .ok (frame, d, events)
    | (none, d) => assemble patience events d
  | patience + 1, .connected :: events, d => assemble patience events d
  | _ + 1, .disconnected _ :: _, _ => .error .disconnected

def recvFrame (events : List TransportEvent) (d : FrameDecoder) :
    Except RunnerError (Bytes × FrameDecoder × List TransportEvent) :=
  assemble grow transport transport.patience events d

end Runner

/-! ## Handshakes -/

structure HandshakeSuccess where
  writeCipher : NoiseCipher
  readCipher : NoiseCipher
  serverCertChain : Option VerifiedServerCertChain

inductive HandshakePattern where
  | xx
  | ik (serverStaticPub : Key)

section Run

variable (P : NoiseProvider) (codec : HandshakeCodec) (grow : Grow) (transport : Transport)
  (device : Device) (certPolicy : NoiseCertPolicy) (ephemeralKp : KeyPair)

/-- The last message of XX and XXfallback, and the outcome. -/
def finishHandshake (clientFinish : Bytes) (outcome : Except HandshakeError XxHandshakeOutcome) :
    Except RunnerError HandshakeSuccess := do
  sendFramed transport clientFinish none
  let outcome ← outcome.mapError .core
  pure ⟨outcome.writeCipher, outcome.readCipher, outcome.serverCertChain⟩

/-- `run_xx_handshake`, with the events that it leaves in the channel. -/
def runXxHandshake (events : List TransportEvent) :
    Except RunnerError (HandshakeSuccess × List TransportEvent) := do
  let s := XxHandshakeState.newWithCertPolicy P device.noiseKey device.clientPayload WA_CONN_HEADER
    certPolicy ephemeralKp
  sendFirstHandshakeMessage transport device (s.buildClientHello codec)
  let (respFrame, _, events) ← recvFrame grow transport events .new
  let (clientFinish, s) ← (s.readServerHelloAndBuildClientFinish P codec respFrame).mapError .core
  let success ← finishHandshake transport clientFinish (s.finish P)
  pure (success, events)

/-- The part of `run_ik_handshake` behind the server hello. -/
def resumeIk (s : IkHandshakeState) (respFrame : Bytes) : Except RunnerError HandshakeSuccess := do
  match ← (s.readServerHello P codec respFrame).mapError .core with
  | .continue out => pure ⟨out.writeCipher, out.readCipher, none⟩
  | .fallback inputs =>
    let fb := XxFallbackHandshakeState.fromIkFailureWithCertPolicy P inputs WA_CONN_HEADER certPolicy
    let (clientFinish, fb) ← (fb.buildClientFinish P codec).mapError .core
    finishHandshake transport clientFinish (fb.finish P)

/-- `run_ik_handshake`, with the events that it leaves in the channel. -/
def runIkHandshake (serverStaticPub : Key) (events : List TransportEvent) :
    Except RunnerError (HandshakeSuccess × List TransportEvent) := do
  let ik := IkHandshakeState.new P device.noiseKey serverStaticPub device.clientPayload WA_CONN_HEADER
    ephemeralKp
  let (clientHello, ik) ← (ik.buildClientHello P codec).mapError .core
  sendFirstHandshakeMessage transport device clientHello
  let (respFrame, _, events) ← recvFrame grow transport events .new
  let success ← resumeIk P codec transport certPolicy ik respFrame
  pure (success, events)

def runHandshake (pattern : HandshakePattern) (events : List TransportEvent) :
    Except RunnerError (HandshakeSuccess × List TransportEvent) :=
  match pattern with
  | .xx => runXxHandshake P codec grow transport device certPolicy ephemeralKp events
  | .ik serverStaticPub =>
    runIkHandshake P codec grow transport device certPolicy ephemeralKp serverStaticPub events

end Run

end WaCore.Noise
