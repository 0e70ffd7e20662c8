import WaCore.Noise.FrameStream
import WaCore.Noise.Runner

/-!
# The read loop

`read_messages_loop_inner` takes the events that a handshake has left in the
channel.  It starts with an empty decoder: the one of the handshake is gone, with
whatever stood in it behind the server hello.

The loop keeps a list of the calls of the cipher that it makes.
-/

namespace WaCore.Noise

/-- The read side of the socket; the list has the frame and the counter of every
call of the cipher. -/
structure NoiseSocket where
  readKey : NoiseCipher
  readCounter : UInt32
  handed : List (Bytes × UInt32)

namespace NoiseSocket

def new (readKey : NoiseCipher) : NoiseSocket := ⟨readKey, 0, []⟩

/-- The counter moves on only behind a frame that is authentic. -/
def decryptFrame (s : NoiseSocket) (ciphertext : Bytes) : Except NoiseError Bytes × NoiseSocket :=
  if s.readCounter.toNat = 2 ^ 32 - 1 then (.error .counterExhausted, s)
  else
    let s := { s with handed := s.handed ++ [(ciphertext, s.readCounter)] }
    let (result, buffer) := s.readKey.decryptInPlaceWithCounter s.readCounter ciphertext
    match result with
    | .ok () => (.ok buffer, { s with readCounter := s.readCounter + 1 })
    | .error e => (.error e, s)

end NoiseSocket

/-- When the loop is told to stop: before which event a shutdown is signaled, and
behind how many frames a disconnect is expected. -/
structure Signals where
  shutdown : Nat → Bool
  expectedDisconnect : Nat → Bool

/-- Nobody stops the loop. -/
def Signals.quiet : Signals := ⟨fun _ => false, fun _ => false⟩

inductive ReadLoopExit where
  | expected
  | serverRecycle (reason : DisconnectReason)

inductive ReadLoopError where
  | transport (reason : DisconnectReason)
  | channelClosed

structure ReadLoop where
  decoder : FrameDecoder
  socket : NoiseSocket
  /-- The frames and the events so far. -/
  frames : Nat
  events : Nat

namespace ReadLoop

def new (socket : NoiseSocket) : ReadLoop := ⟨.new, socket, 0, 0⟩

variable (grow : Grow) (signals : Signals) (closed : Bool)

/-- The rounds of the inner loop, and whether it has been told to stop. -/
def frameRounds : Nat → ReadLoop → ReadLoop × Bool
  | 0, r => (r, false)
  | rounds + 1, r =>
    match r.decoder.decodeFrame grow with
    | (none, d) => ({ r with decoder := d }, false)
    | (some frame, d) =>
      let r := { r with
        decoder := d, socket := (r.socket.decryptFrame frame).2, frames := r.frames + 1 }
      if signals.expectedDisconnect r.frames then (r, true) else frameRounds rounds r

theorem frameRounds_of_none {r : ReadLoop} (h : (r.decoder.decodeFrame grow).1 = none)
    (rounds : Nat) : frameRounds grow signals (rounds + 1) r
      = ({ r with decoder := (r.decoder.decodeFrame grow).2 }, false) := by
  rw [frameRounds]
  cases hdecode : r.decoder.decodeFrame grow with
  | mk frame d =>
    rw [hdecode] at h
    obtain rfl : frame = none := h
    rfl

/-- The data of one event.  A round takes bytes off the buffer, so that their number
bounds the rounds. -/
def receive (r : ReadLoop) (data : Chunk) : ReadLoop × Bool :=
  let r := { r with decoder := r.decoder.feedOwned grow data }
  frameRounds grow signals (r.decoder.bufferedLen + 1) r

/-- The loop and how it ends; `none` while it waits for the next event. -/
def readMessagesLoop : List TransportEvent → ReadLoop →
    ReadLoop × Option (Except ReadLoopError ReadLoopExit)
  | [], r =>
    if signals.shutdown r.events then (r, some (.ok .expected))
    else if !closed then (r, none)
    else if signals.expectedDisconnect r.frames then (r, some (.ok .expected))
    else (r, some (.error .channelClosed))
  | event :: events, r =>
    if signals.shutdown r.events then (r, some (.ok .expected))
    else
      let r := { r with events := r.events + 1 }
      match event with
      | .dataReceived data =>
        let (r, stop) := r.receive grow signals data
        if stop then (r, some (.ok .expected)) else readMessagesLoop events r
      | .disconnected reason =>
        if signals.expectedDisconnect r.frames then (r, some (.ok .expected))
        else if reason.isCleanShutdown then (r, some (.ok (.serverRecycle reason)))
        else (r, some (.error (.transport reason)))
      | .connected => readMessagesLoop events r

end ReadLoop

/-! ## What is handed to the cipher -/

def TransportEvent.data : TransportEvent → Bytes
  | dataReceived data => data.data
  | _ => []

/-- The bytes that the events carry. -/
def carried (events : List TransportEvent) : Bytes := events.flatMap TransportEvent.data

theorem carried_append (events later : List TransportEvent) :
    carried (events ++ later) = carried events ++ carried later := List.flatMap_append

theorem carried_cons (event : TransportEvent) (events : List TransportEvent) :
    carried (event :: events) = event.data ++ carried events := List.flatMap_cons

namespace NoiseSocket

def handAll (s : NoiseSocket) (payloads : List Bytes) : NoiseSocket :=
  payloads.foldl (fun s payload => (s.decryptFrame payload).2) s

theorem handAll_cons (s : NoiseSocket) (payload : Bytes) (payloads : List Bytes) :
    s.handAll (payload :: payloads) = (s.decryptFrame payload).2.handAll payloads := rfl

theorem handAll_append (s : NoiseSocket) (payloads more : List Bytes) :
    s.handAll (payloads ++ more) = (s.handAll payloads).handAll more := List.foldl_append

/-- A frame is handed over once, or not at all. -/
theorem handed_decryptFrame (s : NoiseSocket) (payload : Bytes) :
    (s.decryptFrame payload).2.handed = s.handed
      ∨ (s.decryptFrame payload).2.handed = s.handed ++ [(payload, s.readCounter)] := by
  rw [decryptFrame]
  split
  · exact .inl rfl
  · right
    dsimp only
    rcases s.readKey.decryptInPlaceWithCounter s.readCounter payload with ⟨_ | _, buffer⟩ <;> rfl

theorem handed_sublist (s : NoiseSocket) (payloads : List Bytes) :
    ((s.handAll payloads).handed.map Prod.fst).Sublist (s.handed.map Prod.fst ++ payloads) := by
  induction payloads generalizing s with
  | nil => simp [handAll]
  | cons payload payloads ih =>
    refine (ih _).trans ?_
    rcases handed_decryptFrame s payload with h | h
    · rw [h]
      exact (List.sublist_cons_self payload payloads).append_left _
    · rw [h, List.map_append, List.append_assoc]
      exact List.Sublist.refl _

end NoiseSocket

/-- The transport frames of a server: each is authentic under its own counter, and
the counter is one of 32 bits. -/
structure ServerFrames (readKey : NoiseCipher) (sent : List Bytes) : Prop where
  short : ∀ payload ∈ sent, payload.length < FRAME_MAX_SIZE
  count : sent.length < 2 ^ 32
  authentic : ∀ (k : Nat) (payload : Bytes), sent[k]? = some payload →
    (readKey.decryptInPlaceWithCounter (.ofNat k) payload).1 = .ok ()

/-- The frames in order, each with its own counter. -/
def withCounters (sent : List Bytes) : List (Bytes × UInt32) :=
  sent.mapIdx fun k payload => (payload, .ofNat k)

theorem map_fst_withCounters (sent : List Bytes) : (withCounters sent).map Prod.fst = sent := by
  apply List.ext_getElem?
  intro k
  cases h : sent[k]? <;> simp [withCounters, h]

theorem handAll_serverFrames {readKey : NoiseCipher} {sent : List Bytes}
    (h : ServerFrames readKey sent) :
    (NoiseSocket.new readKey).handAll sent = ⟨readKey, .ofNat sent.length, withCounters sent⟩ := by
  induction sent using List.reverseRecOn with
  | nil => rfl
  | append_singleton sent payload ih =>
    have hcount := h.count
    rw [List.length_append, List.length_singleton] at hcount
    have hprefix : ServerFrames readKey sent :=
      ⟨fun p hp => h.short p (List.mem_append_left _ hp), by omega, fun k p hk =>
        h.authentic k p (List.getElem?_append_left (List.getElem?_eq_some_iff.mp hk).1 ▸ hk)⟩
    have hlast := h.authentic sent.length payload (by simp)
    have hcounter : (UInt32.ofNat sent.length).toNat < 2 ^ 32 - 1 := by
      rw [UInt32.toNat_ofNat_of_lt' (show sent.length < 2 ^ 32 by omega)]
      omega
    rw [NoiseSocket.handAll_append, ih hprefix, NoiseSocket.handAll_cons, NoiseSocket.decryptFrame,
      if_neg (Nat.ne_of_lt hcounter)]
    dsimp only
    rw [hlast]
    simp [NoiseSocket.handAll, withCounters, UInt32.ofNat_add]

/-! ## The loop that nobody stops -/

section Quiet

variable (grow : Grow) (closed : Bool)

theorem frameRounds_quiet (rounds : Nat) (r : ReadLoop) :
    ReadLoop.frameRounds grow .quiet rounds r
      = (⟨(r.decoder.drainLoop grow rounds).2,
          r.socket.handAll (r.decoder.drainLoop grow rounds).1,
          r.frames + (r.decoder.drainLoop grow rounds).1.length, r.events⟩, false) := by
  induction rounds generalizing r with
  | zero => rfl
  | succ rounds ih =>
    cases hframe : (r.decoder.decodeFrame grow).1 with
    | none =>
      rw [ReadLoop.frameRounds_of_none grow _ hframe, FrameDecoder.drainLoop_of_none grow hframe]
      rfl
    | some frame =>
      obtain ⟨d, hdecode⟩ : ∃ d, r.decoder.decodeFrame grow = (some frame, d) :=
        ⟨_, Prod.ext hframe rfl⟩
      rw [FrameDecoder.drainLoop_of_some grow hframe, ReadLoop.frameRounds, hdecode]
      refine (ih _).trans ?_
      rw [NoiseSocket.handAll_cons, List.length_cons]
      simp only [Nat.add_assoc, Nat.add_comm 1]

/-- The loop hands over the frames of the bytes that it gets. -/
theorem readMessagesLoop_quiet {events : List TransportEvent}
    (hevents : ∀ reason, .disconnected reason ∉ events) (r : ReadLoop)
    (hdone : frames.cut r.decoder.buffer.data = none) :
    ∃ payloads rest,
      (r.readMessagesLoop grow .quiet closed events).1.socket = r.socket.handAll payloads
        ∧ frames.Splits (r.decoder.buffer.data ++ carried events) payloads rest := by
  induction events generalizing r with
  | nil =>
    refine ⟨[], r.decoder.buffer.data, ?_, ?_⟩
    · cases closed <;> rfl
    · rw [carried, List.flatMap_nil, List.append_nil]
      exact ⟨.nil _, hdone⟩
  | cons event events ih =>
    have hlater : ∀ reason, .disconnected reason ∉ events :=
      fun reason hmem => hevents reason (List.mem_cons_of_mem _ hmem)
    cases event with
    | connected => exact ih hlater { r with events := r.events + 1 } hdone
    | disconnected reason => exact absurd List.mem_cons_self (hevents reason)
    | dataReceived data =>
      obtain ⟨payloads, r', hreceive, hsocket, hsplits⟩ : ∃ payloads r',
          { r with events := r.events + 1 }.receive grow .quiet data = (r', false)
            ∧ r'.socket = r.socket.handAll payloads ∧ frames.Splits
              (r.decoder.buffer.data ++ data.data) payloads r'.decoder.buffer.data := by
        rw [← data_feedOwned grow]
        exact ⟨_, _, frameRounds_quiet grow _ _, rfl, splits_drain grow⟩
      obtain ⟨more, rest, hsocket', hsplits'⟩ := ih hlater r' hsplits.done
      refine ⟨payloads ++ more, rest, ?_, ?_, hsplits'.done⟩
      · have hloop : r.readMessagesLoop grow .quiet closed (.dataReceived data :: events)
            = r'.readMessagesLoop grow .quiet closed events := by
          rw [ReadLoop.readMessagesLoop]
          dsimp only
          rw [hreceive]
          rfl
        rw [hloop, hsocket', hsocket, NoiseSocket.handAll_append]
      · rw [carried_cons, ← List.append_assoc]
        exact (hsplits.yields.append _).trans hsplits'.yields

end Quiet

end WaCore.Noise
