import WaCore.Lib.Effect
import WaCore.Noise.Cipher

/-!
# The sender task

`sender_task` (`noise_socket.rs`) takes jobs off a channel, encrypts a batch of
them into one buffer, and writes that to the transport.

A round of the task's loop depends on what the task finds outside: how many of
its calls of `try_recv` find a job, and what the write returns.  A job that
arrives during a round is in the channel from the start here, where `try_recv`
need not find it.  Observers, statistics and the capacity of the buffer are left
out.
-/

namespace WaCore.Noise

def INLINE_ENCRYPT_THRESHOLD : Nat := 16 * 1024

def TAG_LEN : Nat := 16

def MAX_BATCH_FRAMES : Nat := 16

def MAX_BATCH_WIRE_BYTES : Nat := 64 * 1024

def frameWireLen (plaintextLen : Nat) : Nat := plaintextLen + TAG_LEN + FRAME_LENGTH_SIZE

inductive EncryptSendError where
  | crypto (source : NoiseError)
  | framing (source : AnyError)
  | transport (source : AnyError)
  | channelClosed
  | poisoned
  deriving DecidableEq, Repr

abbrev SendResult := Except EncryptSendError Unit

/-- A job; `responseTx` is the number of the channel its result goes to. -/
structure SendJob where
  plaintext : Bytes
  responseTx : Nat
  deriving DecidableEq, Repr

/-! ## One frame -/

/-- What an encryption writes to. -/
structure FrameOut where
  writeCounter : UInt32
  outBuf : Bytes

/-- The bytes behind `base` are encrypted as if they were a buffer of their own,
the `FrameBody`. -/
def encryptFrameBody (cipher : NoiseCipher) (counter : UInt32) (base : Nat) (out : Bytes) :
    Except NoiseError Unit × Bytes :=
  let (result, body) := cipher.encryptInPlaceWithCounter counter (out.drop base)
  (result, out.take base ++ body)

/-- A plaintext of moderate size is encrypted where it will be sent from. -/
def encryptFrameInline (cipher : NoiseCipher) (plaintext : Bytes) :
    Eff FrameOut EncryptSendError Nat := do
  let s ← get
  let bodyLen := plaintext.length + TAG_LEN
  let headed ← Eff.ofExcept ((appendFrameHeaderInto bodyLen none s.outBuf).mapError .framing)
  let (result, out) :=
    encryptFrameBody cipher s.writeCounter headed.length (headed ++ plaintext)
  match result with
  | .error e =>
    set { s with outBuf := out.take s.outBuf.length }
    throw (.crypto e)
  | .ok () =>
    if out.length - headed.length ≠ bodyLen then
      set { s with outBuf := out.take s.outBuf.length }
      throw (.crypto (.encrypt .backendFailed))
    else
      set { writeCounter := s.writeCounter + 1, outBuf := out : FrameOut }
      pure (out.length - s.outBuf.length)

/-- A large plaintext is encrypted elsewhere and copied. -/
def encryptFrameBlocking (cipher : NoiseCipher) (plaintext : Bytes) :
    Eff FrameOut EncryptSendError Nat := do
  let s ← get
  let ciphertext ← Eff.ofExcept ((cipher.encryptWithCounter s.writeCounter plaintext).mapError .crypto)
  let out ← Eff.ofExcept ((appendFrameInto ciphertext none s.outBuf).mapError .framing)
  set { writeCounter := s.writeCounter + 1, outBuf := out : FrameOut }
  pure (out.length - s.outBuf.length)

def encryptFrameInto (cipher : NoiseCipher) (plaintext : Bytes) :
    Eff FrameOut EncryptSendError Nat := do
  let s ← get
  if s.writeCounter = 0xFFFFFFFF then throw (.crypto .counterExhausted)
  else if plaintext.length ≤ INLINE_ENCRYPT_THRESHOLD then encryptFrameInline cipher plaintext
  else encryptFrameBlocking cipher plaintext

/-! ## One batch -/

structure Batch where
  out : FrameOut
  /-- The channels of the jobs whose frames are in the buffer. -/
  waiters : List Nat
  batchWireLen : Nat

/-- A batch, what ended it, and what is left of the channel. -/
structure Filled where
  batch : Batch
  encryptFailure : Option (Nat × EncryptSendError)
  carryOver : Option SendJob
  queue : List SendJob

/-- The batch with the frame of a job that has been written to the buffer. -/
def Batch.push (b : Batch) (job : SendJob) (out : FrameOut) (wireLen : Nat) : Batch :=
  ⟨out, b.waiters ++ [job.responseTx], b.batchWireLen + wireLen⟩

/-- The loop that fills a batch; `ready` calls of `try_recv` find a job. -/
def fillBatch (cipher : NoiseCipher) (job : SendJob) (batch : Batch) :
    (ready : Nat) → (queue : List SendJob) → Filled
  | ready, queue =>
    match (encryptFrameInto cipher job.plaintext).exec batch.out with
    | (.error err, out) => ⟨{ batch with out := out }, some (job.responseTx, err), none, queue⟩
    | (.ok wireLen, out) =>
      let batch := batch.push job out wireLen
      if MAX_BATCH_FRAMES ≤ batch.waiters.length || MAX_BATCH_WIRE_BYTES ≤ batch.batchWireLen then
        ⟨batch, none, none, queue⟩
      else
        match ready, queue with
        | ready + 1, next :: queue =>
          if !batch.waiters.isEmpty
              && MAX_BATCH_WIRE_BYTES < batch.batchWireLen + frameWireLen next.plaintext.length then
            ⟨batch, none, some next, queue⟩
          else fillBatch cipher next batch ready queue
        | _, queue => ⟨batch, none, none, queue⟩

section Fill

variable {cipher : NoiseCipher} {job : SendJob} {batch : Batch} {out : FrameOut}

theorem fillBatch_of_error {err : EncryptSendError}
    (h : (encryptFrameInto cipher job.plaintext).exec batch.out = (.error err, out)) (ready : Nat)
    (queue : List SendJob) :
    fillBatch cipher job batch ready queue
      = ⟨{ batch with out := out }, some (job.responseTx, err), none, queue⟩ := by
  cases ready <;> rw [fillBatch, h]

/-- A batch that does not go on ends behind the frame, and perhaps holds the next
job over. -/
theorem fillBatch_of_ok {wireLen : Nat}
    (h : (encryptFrameInto cipher job.plaintext).exec batch.out = (.ok wireLen, out)) (ready : Nat)
    (queue : List SendJob) :
    (∃ carryOver queue', queue = carryOver.toList ++ queue' ∧
        fillBatch cipher job batch ready queue = ⟨batch.push job out wireLen, none, carryOver, queue'⟩)
      ∨ ∃ ready' next queue', ready = ready' + 1 ∧ queue = next :: queue' ∧
        fillBatch cipher job batch ready queue
          = fillBatch cipher next (batch.push job out wireLen) ready' queue' := by
  cases ready with
  | zero =>
    refine .inl ⟨none, queue, rfl, ?_⟩
    rw [fillBatch, h]
    dsimp only
    split <;> rfl
  | succ ready =>
    cases queue with
    | nil =>
      refine .inl ⟨none, [], rfl, ?_⟩
      rw [fillBatch, h]
      dsimp only
      split <;> rfl
    | cons next queue =>
      rw [fillBatch, h]
      dsimp only
      split
      · exact .inl ⟨none, next :: queue, rfl, rfl⟩
      · split
        · exact .inl ⟨some next, queue, rfl, rfl⟩
        · exact .inr ⟨ready, next, queue, rfl, rfl, rfl⟩

end Fill

/-! ## The task -/

structure SenderTask where
  /-- The channel. -/
  queue : List SendJob
  /-- How many jobs were ever put into the channel. -/
  enqueued : Nat
  writeCounter : UInt32
  poisoned : Bool
  carryOver : Option SendJob
  /-- What was handed to the transport, and what each write returned. -/
  writes : List (Bytes × Except AnyError Unit)
  replies : List (Nat × SendResult)

namespace SenderTask

def new : SenderTask := ⟨[], 0, 0, false, none, [], []⟩

/-- `enqueue_send_observed`. -/
def enqueueSend (s : SenderTask) (plaintext : Bytes) : SenderTask :=
  { s with queue := s.queue ++ [⟨plaintext, s.enqueued⟩], enqueued := s.enqueued + 1 }

/-- The jobs that wait, in order. -/
def waiting (s : SenderTask) : List SendJob := s.carryOver.toList ++ s.queue

/-- The first job of a round, if there is one. -/
def firstJob (s : SenderTask) : Option (SendJob × List SendJob) :=
  match s.carryOver with
  | some job => some (job, s.queue)
  | none =>
    match s.queue with
    | [] => none
    | job :: queue => some (job, queue)

/-- Every waiter of a batch gets the failure of its write. -/
def transportFailure (waiters : List Nat) (e : AnyError) : EncryptSendError :=
  if waiters.length = 1 then .transport e else .transport "transport error"

/-- One round of the loop of the task. -/
def round (cipher : NoiseCipher) (ready : Nat) (written : Except AnyError Unit) (s : SenderTask) :
    SenderTask :=
  match s.firstJob with
  | none => s
  | some (job, queue) =>
    let s := { s with carryOver := none, queue := queue }
    if s.poisoned then { s with replies := s.replies ++ [(job.responseTx, .error .poisoned)] }
    else
      let filled := fillBatch cipher job ⟨⟨s.writeCounter, []⟩, [], 0⟩ ready queue
      let waiters := filled.batch.waiters
      let failures : List (Nat × SendResult) :=
        filled.encryptFailure.toList.map fun failure => (failure.1, .error failure.2)
      let s := { s with
        queue := filled.queue
        carryOver := filled.carryOver
        writeCounter := filled.batch.out.writeCounter }
      if filled.batch.out.outBuf.isEmpty then
        { s with replies := s.replies ++ waiters.map (·, .ok ()) ++ failures }
      else
        let s := { s with writes := s.writes ++ [(filled.batch.out.outBuf, written)] }
        match written with
        | .ok () => { s with replies := s.replies ++ waiters.map (·, .ok ()) ++ failures }
        | .error e =>
          { s with
            poisoned := true
            replies := s.replies ++ waiters.map (·, .error (transportFailure waiters e)) ++ failures }

section Round

variable {cipher : NoiseCipher} {ready : Nat} {written : Except AnyError Unit} {s : SenderTask}
  {job : SendJob} {queue : List SendJob}

theorem firstJob_eq_some (h : s.firstJob = some (job, queue)) : s.waiting = job :: queue := by
  rw [waiting]
  rw [firstJob] at h
  split at h
  · rename_i hcarry
    cases h
    rw [hcarry]
    rfl
  · rename_i hcarry
    rw [hcarry]
    split at h
    · cases h
    · rename_i hqueue
      cases h
      exact hqueue

theorem firstJob_eq_none (h : s.firstJob = none) : s.waiting = [] := by
  rw [firstJob] at h
  split at h
  · cases h
  · rename_i hcarry
    split at h
    · rename_i hqueue
      rw [waiting, hcarry, hqueue]
      rfl
    · cases h

theorem round_of_none (h : s.firstJob = none) : s.round cipher ready written = s := by
  rw [round, h]

/-- What the waiters of a batch get; `write` is the result of its write, if it made
one. -/
def batchResult (waiters : List Nat) : (write : Option (Except AnyError Unit)) → SendResult
  | some (.error e) => .error (transportFailure waiters e)
  | _ => .ok ()

/-- The answers to the jobs of a batch. -/
def batchReplies (filled : Filled) (write : Option (Except AnyError Unit)) :
    List (Nat × SendResult) :=
  filled.batch.waiters.map (·, batchResult filled.batch.waiters write)
    ++ filled.encryptFailure.toList.map fun failure => (failure.1, .error failure.2)

/-- The task after a batch. -/
def afterBatch (s : SenderTask) (filled : Filled) (write : Option (Except AnyError Unit)) :
    SenderTask :=
  { s with
    carryOver := filled.carryOver
    queue := filled.queue
    writeCounter := filled.batch.out.writeCounter
    poisoned := write.any (!·.isOk)
    writes := s.writes ++ write.toList.map (filled.batch.out.outBuf, ·)
    replies := s.replies ++ batchReplies filled write }

@[simp] theorem waiting_afterBatch (filled : Filled) (write : Option (Except AnyError Unit)) :
    (s.afterBatch filled write).waiting = filled.carryOver.toList ++ filled.queue := rfl

theorem batchResult_ne_poisoned (waiters : List Nat) (write : Option (Except AnyError Unit)) :
    batchResult waiters write ≠ .error .poisoned := by
  rcases write with _ | ⟨e | ⟨⟩⟩
  · nofun
  · rw [batchResult, transportFailure]
    split <;> nofun
  · nofun

theorem mem_batchReplies {filled : Filled} {write : Option (Except AnyError Unit)}
    {reply : Nat × SendResult} (h : reply ∈ batchReplies filled write) :
    (∃ id ∈ filled.batch.waiters, (id, batchResult filled.batch.waiters write) = reply)
      ∨ ∃ failure ∈ filled.encryptFailure, (failure.1, .error failure.2) = reply := by
  simpa only [batchReplies, List.mem_append, List.mem_map, Option.mem_toList, Option.mem_def] using h

theorem map_fst_batchReplies (filled : Filled) (write : Option (Except AnyError Unit)) :
    (batchReplies filled write).map Prod.fst
      = filled.batch.waiters ++ filled.encryptFailure.toList.map Prod.fst := by
  simp [batchReplies, Function.comp_def]

/-- Only an empty batch is not written. -/
theorem round_eq_afterBatch (cipher : NoiseCipher) (ready : Nat) (written : Except AnyError Unit)
    (h : s.firstJob = some (job, queue)) (hpoisoned : s.poisoned = false) :
    let filled := fillBatch cipher job ⟨⟨s.writeCounter, []⟩, [], 0⟩ ready queue
    ∃ write, (write = none → filled.batch.out.outBuf = [])
      ∧ s.round cipher ready written = s.afterBatch filled write := by
  intro filled
  by_cases hbuf : filled.batch.out.outBuf = []
  · simp [round, h, hpoisoned, filled, hbuf, afterBatch, batchReplies, batchResult]
  · refine ⟨some written, nofun, ?_⟩
    cases written <;>
      simp [round, h, hpoisoned, filled, hbuf, afterBatch, batchReplies, batchResult, Except.toBool]

end Round

end SenderTask

inductive SenderEvent where
  | enqueue (plaintext : Bytes)
  | round (ready : Nat) (written : Except AnyError Unit)

/-- The plaintext that an event enqueues. -/
def SenderEvent.plaintext : SenderEvent → Option Bytes
  | enqueue plaintext => some plaintext
  | round _ _ => none

def SenderEvent.apply (cipher : NoiseCipher) (s : SenderTask) : SenderEvent → SenderTask
  | enqueue plaintext => s.enqueueSend plaintext
  | round ready written => s.round cipher ready written

/-- The task after some events; it may be aborted at any time. -/
def runSender (cipher : NoiseCipher) (events : List SenderEvent) : SenderTask :=
  events.foldl (SenderEvent.apply cipher) .new

end WaCore.Noise
