import Mathlib.Data.List.Flatten
import WaCore.Noise.ReadLoop

/-!
# The hand-over from the handshake to the read loop

A handshake takes events until it has the server hello.  What the last of them
carries behind the hello stays in the decoder of the handshake, and the read loop
does not see it.  So the read loop gets all frames of the server if and only if
the hello ends where an event ends.
-/

namespace WaCore.Noise

open Signal (Key KeyPair)

section Handshake

variable {P : NoiseProvider} {codec : HandshakeCodec} {grow : Grow} {transport : Transport}

/-- The events are taken up to the first one with which there is a whole frame. -/
theorem assemble_eq_ok {patience : Nat} {events rest : List TransportEvent} {d d' : FrameDecoder}
    {frame : Bytes} (hd : frames.cut d.buffer.data = none)
    (h : assemble grow transport patience events d = .ok (frame, d', rest)) :
    ∃ taken, events = taken ++ rest
      ∧ frames.cut (d.buffer.data ++ carried taken) = some (frame, d'.buffer.data)
      ∧ ∀ part more, taken = part ++ more → more ≠ [] →
          frames.cut (d.buffer.data ++ carried part) = none := by
  induction patience generalizing events d with
  | zero => cases h
  | succ patience ih =>
    -- the part before the first event holds no frame, as the decoder holds none
    have hstep : ∀ (event : TransportEvent) (events' : List TransportEvent) (d₁ : FrameDecoder),
        d₁.buffer.data = d.buffer.data ++ event.data → frames.cut d₁.buffer.data = none →
        assemble grow transport patience events' d₁ = .ok (frame, d', rest) →
        ∃ taken, event :: events' = taken ++ rest
          ∧ frames.cut (d.buffer.data ++ carried taken) = some (frame, d'.buffer.data)
          ∧ ∀ part more, taken = part ++ more → more ≠ [] →
              frames.cut (d.buffer.data ++ carried part) = none := by
      intro event events' d₁ hdata hnone hassemble
      obtain ⟨taken, rfl, hcut, hfirst⟩ := ih hnone hassemble
      refine ⟨event :: taken, rfl, ?_, ?_⟩
      · rw [carried_cons, ← List.append_assoc, ← hdata]
        exact hcut
      · intro part more hpart hmore
        cases part with
        | nil => rwa [carried, List.flatMap_nil, List.append_nil]
        | cons first part =>
          obtain ⟨rfl, rfl⟩ := List.cons.inj hpart
          rw [carried_cons, ← List.append_assoc, ← hdata]
          exact hfirst part more rfl hmore
    cases events with
    | nil => cases h
    | cons event events =>
      cases event with
      | connected => exact hstep .connected events d (List.append_nil _).symm hd h
      | disconnected reason => cases h
      | dataReceived data =>
        have hdata := data_feedOwned grow (d := d) data
        rw [assemble] at h
        obtain ⟨decoded, d₁, hdecode⟩ : ∃ decoded d₁,
            (d.feedOwned grow data).decodeFrame grow = (decoded, d₁) := ⟨_, _, rfl⟩
        rw [hdecode] at h
        cases hcut : cutFrame (d.feedOwned grow data).buffer.data with
        | none =>
          obtain ⟨hframe, hkept⟩ := decodeFrame_of_none grow hcut
          rw [hdecode] at hframe hkept
          cases hframe
          exact hstep (.dataReceived data) events d₁ (hkept.trans hdata) (hkept ▸ hcut) h
        | some r =>
          obtain ⟨hframe, hkept⟩ := decodeFrame_of_some grow hcut
          rw [hdecode] at hframe hkept
          cases hframe
          cases h
          refine ⟨[.dataReceived data], rfl, ?_, ?_⟩
          · rw [carried_cons, carried, List.flatMap_nil, List.append_nil, hkept]
            rw [hdata] at hcut
            exact hcut
          · intro part more hpart hmore
            cases part with
            | nil => rwa [carried, List.flatMap_nil, List.append_nil]
            | cons first part =>
              obtain ⟨-, hnil⟩ := List.cons.inj hpart
              exact absurd (List.append_eq_nil_iff.mp hnil.symm).2 hmore

variable {device : Device} {certPolicy : NoiseCertPolicy} {ephemeralKp : KeyPair}

/-- Whichever handshake runs, it takes one frame from the events. -/
theorem recvFrame_of_runHandshake {pattern : HandshakePattern} {events rest : List TransportEvent}
    {success : HandshakeSuccess}
    (h : runHandshake P codec grow transport device certPolicy ephemeralKp pattern events
      = .ok (success, rest)) :
    ∃ frame d, recvFrame grow transport events .new = .ok (frame, d, rest) := by
  cases pattern with
  | xx =>
    obtain ⟨-, -, h⟩ := bind_eq_ok.mp h
    obtain ⟨⟨frame, d, rest'⟩, hrecv, h⟩ := bind_eq_ok.mp h
    obtain ⟨⟨clientFinish, s⟩, -, h⟩ := bind_eq_ok.mp h
    obtain ⟨success', -, h⟩ := bind_eq_ok.mp h
    cases h
    exact ⟨frame, d, hrecv⟩
  | ik serverStaticPub =>
    obtain ⟨⟨clientHello, ik⟩, -, h⟩ := bind_eq_ok.mp h
    obtain ⟨-, -, h⟩ := bind_eq_ok.mp h
    obtain ⟨⟨frame, d, rest'⟩, hrecv, h⟩ := bind_eq_ok.mp h
    obtain ⟨success', -, h⟩ := bind_eq_ok.mp h
    cases h
    exact ⟨frame, d, hrecv⟩

end Handshake

/-! ## All frames or not -/

/-- The bytes of a server: its hello, and the transport frames behind it. -/
def serverStream (hello : Bytes) (sent : List Bytes) : Bytes :=
  lengthPrefixed hello ++ sent.flatMap lengthPrefixed

/-- The hello ends where an event ends. -/
def EndsAtEvent (hello : Bytes) (events : List TransportEvent) : Prop :=
  ∃ before later, events = before ++ later ∧ carried before = lengthPrefixed hello

section Handover

variable {grow : Grow} {transport : Transport} {events rest : List TransportEvent}
  {hello frame : Bytes} {sent : List Bytes} {d : FrameDecoder}

/-- What the handshake leaves: the rest of the last event in its decoder, and the
events behind it. -/
theorem recvFrame_serverStream (hhello : hello.length < FRAME_MAX_SIZE)
    (hstream : carried events = serverStream hello sent)
    (h : recvFrame grow transport events .new = .ok (frame, d, rest)) :
    d.buffer.data ++ carried rest = sent.flatMap lengthPrefixed
      ∧ (d.buffer.data = [] ↔ EndsAtEvent hello events) := by
  obtain ⟨taken, rfl, hcut, hfirst⟩ := assemble_eq_ok rfl h
  have hcut : cutFrame (carried taken) = some (frame, d.buffer.data) := hcut
  obtain ⟨-, htaken⟩ := cutFrame_eq_some.mp hcut
  have hall : cutFrame (carried (taken ++ rest)) = some (frame, d.buffer.data ++ carried rest) := by
    rw [carried_append]
    exact frames.extend hcut _
  rw [hstream, serverStream, cutFrame_eq_some.mpr ⟨hhello, rfl⟩] at hall
  obtain ⟨rfl, hrest⟩ := Prod.mk.inj (Option.some.inj hall)
  refine ⟨hrest.symm, fun hempty => ⟨taken, rest, rfl, ?_⟩, ?_⟩
  · rw [htaken, hempty, List.append_nil]
  · rintro ⟨before, later, hevents, hbefore⟩
    -- the handshake takes no event behind those that carry the hello
    have hprefix : taken <+: before := by
      rcases List.prefix_or_prefix_of_prefix (List.prefix_append taken rest)
        (hevents ▸ List.prefix_append before later) with hle | hle
      · exact hle
      · obtain ⟨more, hmore⟩ := hle
        have hnil : more = [] := by
          by_contra hne
          have hnone := hfirst before more hmore.symm hne
          rw [hbefore] at hnone
          have hwhole : frames.cut (lengthPrefixed hello) = some (hello, []) :=
            cutFrame_eq_some.mpr ⟨hhello, (List.append_nil _).symm⟩
          cases hwhole.symm.trans hnone
        rw [← hmore, hnil, List.append_nil]
    obtain ⟨more, rfl⟩ := hprefix
    rw [carried_append, htaken, List.append_assoc] at hbefore
    exact (List.append_eq_nil_iff.mp (List.append_right_eq_self.mp hbefore)).1

/-- The read loop of a connection, behind its handshake. -/
def readLoop (grow : Grow) (closed : Bool) (readCipher : NoiseCipher) (rest : List TransportEvent) :
    ReadLoop :=
  ((ReadLoop.new (.new readCipher)).readMessagesLoop grow .quiet closed rest).1

/-- The read loop hands over all frames in order, each under its own counter, if and
only if the handshake has left nothing in its decoder. -/
theorem handed_readLoop_iff {readCipher : NoiseCipher} (closed : Bool)
    (hevents : ∀ reason, .disconnected reason ∉ rest) (hsent : ServerFrames readCipher sent)
    {left : Bytes} (hrest : left ++ carried rest = sent.flatMap lengthPrefixed) :
    (readLoop grow closed readCipher rest).socket.handed = withCounters sent ↔ left = [] := by
  obtain ⟨payloads, tail, hsocket, hsplits⟩ :=
    readMessagesLoop_quiet grow closed hevents (.new (.new readCipher)) rfl
  have hsplits : frames.Splits (carried rest) payloads tail := hsplits
  have hsocket : (readLoop grow closed readCipher rest).socket
      = (NoiseSocket.new readCipher).handAll payloads := hsocket
  constructor
  · intro hhanded
    have hsub := NoiseSocket.handed_sublist (.new readCipher) payloads
    rw [← hsocket, hhanded] at hsub
    have hsub : sent.Sublist payloads := by
      rwa [map_fst_withCounters] at hsub
    -- all frames of the server fit into what the loop gets, so that nothing is missing
    have hle := (hsub.flatMap lengthPrefixed).length_le
    have hyields := congrArg List.length (yields_frames_iff.mp hsplits.yields).2
    have hlength := congrArg List.length hrest
    rw [List.length_append] at hyields hlength
    exact List.eq_nil_of_length_eq_zero (by omega)
  · rintro rfl
    have hdone : frames.Splits (carried rest) sent [] :=
      ⟨yields_frames_iff.mpr ⟨hsent.short, by rw [List.append_nil]; exact hrest⟩, rfl⟩
    obtain ⟨rfl, -⟩ := hsplits.unique hdone
    rw [hsocket, handAll_serverFrames hsent]

end Handover

/-- Primitives that hide nothing, to run a handshake on. -/
def NoiseProvider.transparent : NoiseProvider where
  signal := .transparent
  publicKey k := ⟨k.key⟩
  sha256 _ := .replicate 32 0
  hkdf _ _ := some (.replicate 64 0)
  aes256GcmEncrypt _ _ _ plaintext := .ok plaintext
  aes256GcmDecrypt _ _ _ ciphertext := .ok ciphertext
  transportAead _ := .ok ⟨fun _ _ buffer => (.ok (), buffer), fun _ _ buffer => (.ok (), buffer)⟩

/-- A connection whose events carry the hello of the server and its transport
frames: behind a handshake that succeeds, the read loop hands over all frames, in
order and each under its own counter, if and only if the hello ends where an event
ends. -/
theorem handover_complete_iff (P : NoiseProvider) (codec : HandshakeCodec) (grow : Grow)
    (transport : Transport) (device : Device) (certPolicy : NoiseCertPolicy) (ephemeralKp : KeyPair)
    (pattern : HandshakePattern) {events rest : List TransportEvent} {success : HandshakeSuccess}
    {hello : Bytes} {sent : List Bytes}
    (hrun : runHandshake P codec grow transport device certPolicy ephemeralKp pattern events
      = .ok (success, rest))
    (hevents : ∀ reason, .disconnected reason ∉ events) (hhello : hello.length < FRAME_MAX_SIZE)
    (hsent : ServerFrames success.readCipher sent)
    (hstream : carried events = serverStream hello sent) :
    (readLoop grow transport.closed success.readCipher rest).socket.handed = withCounters sent
      ↔ EndsAtEvent hello events := by
  obtain ⟨frame, d, hrecv⟩ := recvFrame_of_runHandshake hrun
  obtain ⟨hrest, hends⟩ := recvFrame_serverStream hhello hstream hrecv
  obtain ⟨taken, rfl, -, -⟩ := assemble_eq_ok rfl hrecv
  have hlater : ∀ reason, .disconnected reason ∉ rest :=
    fun reason hmem => hevents reason (List.mem_append_right _ hmem)
  exact (handed_readLoop_iff transport.closed hlater hsent hrest).trans hends

/-- A codec under which every frame is a server hello that accepts IK. -/
def HandshakeCodec.accepting : HandshakeCodec where
  handshakeMessageToVec _ := []
  handshakeMessageDecode _ := .ok ⟨none, some ⟨some (List.replicate 32 0), none, some []⟩, none⟩
  certChainDecode _ := .error ""
  noiseCertificateDetailsDecode _ := .error ""

/-- IK, with the server hello and a transport frame in these events. -/
def resumed (events : List TransportEvent) :
    Except RunnerError (HandshakeSuccess × List TransportEvent) :=
  runHandshake .transparent .accepting (fun b additional => b.data.length + additional)
    ⟨fun _ => .ok (), 2, false⟩ ⟨⟨⟨.replicate 32 1⟩, ⟨.replicate 32 1⟩⟩, [], none⟩ .strict
    ⟨⟨.replicate 32 2⟩, ⟨.replicate 32 2⟩⟩ (.ik (.replicate 32 3)) events

theorem serverFrames_transparent {readKey : NoiseCipher} {k : Key}
    (h : NoiseCipher.new .transparent k = .ok readKey) : ServerFrames readKey [[7]] where
  short := by simp [FRAME_MAX_SIZE]
  count := by decide
  authentic _ _ _ := by
    cases h
    rfl

/-- One event with the hello and a frame: the frame is lost. -/
theorem handover_loses_frame :
    ∃ success rest, resumed [.dataReceived ⟨serverStream [] [[7]], none⟩] = .ok (success, rest)
      ∧ ServerFrames success.readCipher [[7]]
      ∧ (readLoop (fun b additional => b.data.length + additional) false success.readCipher
          rest).socket.handed ≠ withCounters [[7]] := by
  refine ⟨_, _, rfl, serverFrames_transparent (k := .replicate 32 0) rfl, ?_⟩
  decide

/-- Two events: the frame arrives. -/
theorem handover_at_event_end :
    ∃ success rest,
      resumed [.dataReceived ⟨serverStream [] [], none⟩, .dataReceived ⟨[0, 0, 1, 7], none⟩]
        = .ok (success, rest)
      ∧ (readLoop (fun b additional => b.data.length + additional) false success.readCipher
          rest).socket.handed = withCounters [[7]] := by
  have hevents : ∀ reason, TransportEvent.disconnected reason
      ∉ [.dataReceived ⟨serverStream [] [], none⟩, .dataReceived ⟨[0, 0, 1, 7], none⟩] := by simp
  refine ⟨_, _, rfl, ?_⟩
  refine (handover_complete_iff .transparent .accepting (fun b additional => b.data.length + additional)
    ⟨fun _ => .ok (), 2, false⟩ ⟨⟨⟨.replicate 32 1⟩, ⟨.replicate 32 1⟩⟩, [], none⟩ .strict
    ⟨⟨.replicate 32 2⟩, ⟨.replicate 32 2⟩⟩ (.ik (.replicate 32 3)) rfl hevents
    (show ([] : Bytes).length < FRAME_MAX_SIZE by decide)
    (serverFrames_transparent (k := .replicate 32 0) rfl) rfl).mpr ?_
  exact ⟨[.dataReceived ⟨serverStream [] [], none⟩], [.dataReceived ⟨[0, 0, 1, 7], none⟩], rfl, rfl⟩

end WaCore.Noise
