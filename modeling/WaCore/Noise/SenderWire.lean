import WaCore.Lib.History
import WaCore.Noise.FrameStream
import WaCore.Noise.Sender

/-!
# What the sender puts on the wire

`sentFrames` says which frames a list of jobs should give: the jobs are taken in
order, and the counter moves on when a job gives a frame.  A batch appends such a
list of frames to its buffer, and a round writes it; the invariant of the task
keeps one group of frames for each write.
-/

namespace WaCore.Noise

open Eff

/-! ## Frames of jobs -/

/-- The plaintext encrypted under the counter `k` and framed. -/
structure EncryptsTo (cipher : NoiseCipher) (k : Nat) (plaintext ciphertext : Bytes) : Prop where
  counter : k < 0xFFFFFFFF
  encrypt : cipher.encryptWithCounter (UInt32.ofNat k) plaintext = .ok ciphertext
  tag : plaintext.length ≤ INLINE_ENCRYPT_THRESHOLD →
    ciphertext.length = plaintext.length + TAG_LEN
  short : ciphertext.length < FRAME_MAX_SIZE

/-- The frame of a plaintext under the counter `k`, if it can be encrypted and
framed. -/
def frameOf (cipher : NoiseCipher) (k : Nat) (plaintext : Bytes) : Option Bytes :=
  match cipher.encryptWithCounter (UInt32.ofNat k) plaintext with
  | .error _ => none
  | .ok ciphertext =>
    if k < 0xFFFFFFFF
        ∧ (plaintext.length ≤ INLINE_ENCRYPT_THRESHOLD →
            ciphertext.length = plaintext.length + TAG_LEN)
        ∧ ciphertext.length < FRAME_MAX_SIZE then
      some (lengthPrefixed ciphertext)
    else none

variable {frame : Bytes} {queue : List SendJob}

theorem frameOf_eq_some {cipher : NoiseCipher} {k : Nat} {plaintext : Bytes} :
    frameOf cipher k plaintext = some frame
      ↔ ∃ ciphertext, EncryptsTo cipher k plaintext ciphertext
        ∧ frame = lengthPrefixed ciphertext := by
  rw [frameOf]
  constructor
  · intro h
    split at h
    · cases h
    · rename_i ciphertext hencrypt
      split at h
      · rename_i hok
        cases h
        exact ⟨ciphertext, ⟨hok.1, hencrypt, hok.2.1, hok.2.2⟩, rfl⟩
      · cases h
  · rintro ⟨ciphertext, ⟨hcounter, hencrypt, htag, hshort⟩, rfl⟩
    rw [hencrypt]
    exact if_pos ⟨hcounter, htag, hshort⟩

/-- The frames that jobs give, the first under the counter `k`, each with the number
of its job. -/
def sentFrames (cipher : NoiseCipher) : Nat → List SendJob → List (Nat × Bytes)
  | _, [] => []
  | k, job :: jobs =>
    match frameOf cipher k job.plaintext with
    | some frame => (job.responseTx, frame) :: sentFrames cipher (k + 1) jobs
    | none => sentFrames cipher k jobs

section Frames

variable {cipher : NoiseCipher} {k : Nat} {job : SendJob} {jobs : List SendJob}

theorem sentFrames_cons_of_some (h : frameOf cipher k job.plaintext = some frame) :
    sentFrames cipher k (job :: jobs)
      = (job.responseTx, frame) :: sentFrames cipher (k + 1) jobs := by
  rw [sentFrames, h]

theorem sentFrames_cons_of_none (h : frameOf cipher k job.plaintext = none) :
    sentFrames cipher k (job :: jobs) = sentFrames cipher k jobs := by
  rw [sentFrames, h]

theorem sentFrames_append (jobs' : List SendJob) :
    sentFrames cipher k (jobs ++ jobs') = sentFrames cipher k jobs
      ++ sentFrames cipher (k + (sentFrames cipher k jobs).length) jobs' := by
  induction jobs generalizing k with
  | nil => simp [sentFrames]
  | cons job jobs ih =>
    rw [List.cons_append]
    cases h : frameOf cipher k job.plaintext with
    | none => rw [sentFrames_cons_of_none h, sentFrames_cons_of_none h, ih]
    | some frame =>
      rw [sentFrames_cons_of_some h, sentFrames_cons_of_some h, ih, List.length_cons,
        List.cons_append, Nat.add_right_comm, Nat.add_assoc]

/-- The counters have no gap. -/
theorem getElem?_sentFrames {j : Nat} {sent : Nat × Bytes}
    (h : (sentFrames cipher k jobs)[j]? = some sent) :
    ∃ job ∈ jobs, job.responseTx = sent.1
      ∧ frameOf cipher (k + j) job.plaintext = some sent.2 := by
  induction jobs generalizing k j with
  | nil => cases h
  | cons job jobs ih =>
    cases hframe : frameOf cipher k job.plaintext with
    | none =>
      rw [sentFrames_cons_of_none hframe] at h
      obtain ⟨job', hmem, hjob⟩ := ih h
      exact ⟨job', List.mem_cons_of_mem _ hmem, hjob⟩
    | some frame =>
      rw [sentFrames_cons_of_some hframe] at h
      cases j with
      | zero =>
        cases h
        exact ⟨job, List.mem_cons_self, rfl, hframe⟩
      | succ j =>
        obtain ⟨job', hmem, hjob⟩ := ih h
        refine ⟨job', List.mem_cons_of_mem _ hmem, ?_⟩
        rwa [Nat.add_right_comm] at hjob

end Frames

/-! ## One frame -/

section Frame

variable {cipher : NoiseCipher} {k : Nat} {plaintext : Bytes}

/-- The length in front of a payload. -/
def frameHead (payloadLen : Nat) : Bytes :=
  [UInt8.ofNat (payloadLen / 65536), UInt8.ofNat (payloadLen / 256), UInt8.ofNat payloadLen]

theorem lengthPrefixed_eq (payload : Bytes) :
    lengthPrefixed payload = frameHead payload.length ++ payload := rfl

/-- Encrypting in place and encrypting a copy give the same bytes. -/
theorem encryptWithCounter_eq_ok {counter : UInt32} {ciphertext : Bytes} :
    cipher.encryptWithCounter counter plaintext = .ok ciphertext
      ↔ cipher.encryptInPlaceWithCounter counter plaintext = (.ok (), ciphertext) := by
  rw [NoiseCipher.encryptWithCounter, NoiseCipher.encryptInPlaceWithCounter]
  rcases cipher.aead.encryptInPlace (generateIv counter) [] plaintext with ⟨_ | ⟨⟩, out⟩
  · simp [Except.mapError, Except.map]
  · simp [Except.mapError, Except.map]

theorem appendFrameHeaderInto_of_lt (buf : Bytes) {payloadLen : Nat} (h : payloadLen < FRAME_MAX_SIZE) :
    appendFrameHeaderInto payloadLen none buf
      = .ok (buf ++ frameHead payloadLen) := by
  rw [appendFrameHeaderInto, if_neg (Nat.not_le.mpr h), drop_toBeBytes, Option.getD_none,
    List.append_nil, frameHead]

theorem length_behind (a b : Bytes) : (a ++ b).length - a.length = b.length := by
  rw [List.length_append, Nat.add_sub_cancel_left]

theorem inline_lt_max (h : plaintext.length ≤ INLINE_ENCRYPT_THRESHOLD) :
    plaintext.length + TAG_LEN < FRAME_MAX_SIZE := by
  rw [INLINE_ENCRYPT_THRESHOLD] at h
  rw [TAG_LEN, FRAME_MAX_SIZE]
  omega

theorem frameOf_eq_none (h : ∀ ciphertext, ¬ EncryptsTo cipher k plaintext ciphertext) :
    frameOf cipher k plaintext = none := by
  refine Option.eq_none_iff_forall_ne_some.mpr fun frame hframe => ?_
  obtain ⟨ciphertext, hencrypts, -⟩ := frameOf_eq_some.mp hframe
  exact h ciphertext hencrypts

/-- What an encryption under the counter `k` comes to: the frame is behind the buffer and
the counter moves on, or there is no frame and both are as they were. -/
inductive Framing (cipher : NoiseCipher) (k : Nat) (plaintext buf : Bytes) :
    Except EncryptSendError Nat × FrameOut → Prop where
  | failed (e : EncryptSendError) (hframe : frameOf cipher k plaintext = none) (he : e ≠ .poisoned) :
    Framing cipher k plaintext buf (.error e, ⟨UInt32.ofNat k, buf⟩)
  | done (ciphertext : Bytes) (hencrypts : EncryptsTo cipher k plaintext ciphertext) :
    Framing cipher k plaintext buf (.ok (lengthPrefixed ciphertext).length,
      ⟨UInt32.ofNat (k + 1), buf ++ lengthPrefixed ciphertext⟩)

theorem ofNat_succ (k : Nat) : UInt32.ofNat (k + 1) = UInt32.ofNat k + 1 := UInt32.ofNat_add k 1

theorem framing_encryptFrameInline (hcounter : k < 0xFFFFFFFF)
    (hinline : plaintext.length ≤ INLINE_ENCRYPT_THRESHOLD) (buf : Bytes) :
    Framing cipher k plaintext buf
      ((encryptFrameInline cipher plaintext).exec ⟨UInt32.ofNat k, buf⟩) := by
  have hhead := appendFrameHeaderInto_of_lt buf (inline_lt_max hinline)
  rcases hplace : cipher.encryptInPlaceWithCounter (UInt32.ofNat k) plaintext with ⟨e | ⟨⟩, body⟩
  all_goals simp only [encryptFrameInline, exec_bind, exec_get, hhead, Except.mapError, exec_ofExcept,
    encryptFrameBody, List.drop_left, List.take_left, hplace, length_behind]
  · have hnone : frameOf cipher k plaintext = none := frameOf_eq_none fun _ h => by
      cases hplace.symm.trans (encryptWithCounter_eq_ok.mp h.encrypt)
    simpa using Framing.failed (.crypto e) hnone nofun
  · split
    · rename_i hlength
      have hnone : frameOf cipher k plaintext = none := frameOf_eq_none fun _ h => by
        cases hplace.symm.trans (encryptWithCounter_eq_ok.mp h.encrypt)
        exact hlength (h.tag hinline)
      simpa [exec_bind] using Framing.failed (.crypto (.encrypt .backendFailed)) hnone nofun
    · rename_i hlength
      rw [Classical.not_not] at hlength
      have hencrypts : EncryptsTo cipher k plaintext body :=
        ⟨hcounter, encryptWithCounter_eq_ok.mpr hplace, fun _ => hlength,
          hlength ▸ inline_lt_max hinline⟩
      have hdone : Framing cipher k plaintext buf _ := .done body hencrypts
      rw [lengthPrefixed_eq, hlength, ofNat_succ] at hdone
      simpa only [exec_bind, exec_set, exec_pure, length_behind, List.append_assoc] using hdone

theorem framing_encryptFrameBlocking (hcounter : k < 0xFFFFFFFF)
    (hlarge : ¬ plaintext.length ≤ INLINE_ENCRYPT_THRESHOLD) (buf : Bytes) :
    Framing cipher k plaintext buf
      ((encryptFrameBlocking cipher plaintext).exec ⟨UInt32.ofNat k, buf⟩) := by
  rw [encryptFrameBlocking]
  cases hencrypt : cipher.encryptWithCounter (UInt32.ofNat k) plaintext with
  | error e =>
    have hnone : frameOf cipher k plaintext = none := frameOf_eq_none fun _ h => by
      cases hencrypt.symm.trans h.encrypt
    simpa only [exec_bind, exec_get, hencrypt, Except.mapError, exec_ofExcept]
      using Framing.failed (.crypto e) hnone nofun
  | ok ciphertext =>
    cases happend : appendFrameInto ciphertext none buf with
    | error e =>
      have hnone : frameOf cipher k plaintext = none := frameOf_eq_none fun _ h => by
        obtain rfl : ciphertext = _ := Except.ok.inj (hencrypt.symm.trans h.encrypt)
        cases happend.symm.trans (appendFrameInto_eq_ok.mpr ⟨h.short, rfl⟩)
      simpa only [exec_bind, exec_get, hencrypt, happend, Except.mapError, exec_ofExcept]
        using Framing.failed (.framing e) hnone nofun
    | ok out =>
      obtain ⟨hshort, rfl⟩ := appendFrameInto_eq_ok.mp happend
      have hdone : Framing cipher k plaintext buf _ :=
        .done ciphertext ⟨hcounter, hencrypt, fun h => absurd h hlarge, hshort⟩
      rw [ofNat_succ] at hdone
      simpa only [exec_bind, exec_get, hencrypt, happend, Except.mapError, exec_ofExcept, exec_set,
        exec_pure, length_behind] using hdone

theorem framing_encryptFrameInto (cipher : NoiseCipher) (plaintext : Bytes) (hk : k ≤ 0xFFFFFFFF)
    (buf : Bytes) :
    Framing cipher k plaintext buf
      ((encryptFrameInto cipher plaintext).exec ⟨UInt32.ofNat k, buf⟩) := by
  rw [encryptFrameInto, exec_bind_ok (exec_get _)]
  split
  · rename_i hmax
    rw [← UInt32.toNat_inj, UInt32.toNat_ofNat_of_lt' (by rw [UInt32.size]; omega)] at hmax
    exact .failed (.crypto .counterExhausted)
      (frameOf_eq_none fun _ h => absurd hmax (Nat.ne_of_lt h.counter)) nofun
  · rename_i hmax
    have hcounter : k < 0xFFFFFFFF := by
      refine Nat.lt_of_le_of_ne hk ?_
      rintro rfl
      exact hmax rfl
    split
    · rename_i hinline
      exact framing_encryptFrameInline hcounter hinline buf
    · rename_i hlarge
      exact framing_encryptFrameBlocking hcounter hlarge buf

end Frame

/-! ## One batch -/

/-- The first jobs were taken for a batch, and their frames are in its buffer. -/
structure Filled.Takes (cipher : NoiseCipher) (k : Nat) (batch : Batch) (jobs taken : List SendJob)
    (f : Filled) : Prop where
  jobs_eq : jobs = taken ++ (f.carryOver.toList ++ f.queue)
  counter : f.batch.out.writeCounter = UInt32.ofNat (k + (sentFrames cipher k taken).length)
  buffer : f.batch.out.outBuf
    = batch.out.outBuf ++ ((sentFrames cipher k taken).map Prod.snd).flatten
  waiters : f.batch.waiters = batch.waiters ++ (sentFrames cipher k taken).map Prod.fst
  answered : taken.map SendJob.responseTx
    = (sentFrames cipher k taken).map Prod.fst ++ f.encryptFailure.toList.map Prod.fst
  failure : ∀ x ∈ f.encryptFailure, x.2 ≠ .poisoned

section Batch

variable {cipher : NoiseCipher} {k : Nat} {job : SendJob} {batch : Batch}

/-- A frame has at least its length. -/
theorem sentFrames_ne_nil {sent : Nat × Bytes} {jobs : List SendJob}
    (h : sent ∈ sentFrames cipher k jobs) : sent.2 ≠ [] := by
  obtain ⟨j, hj⟩ := List.getElem?_of_mem h
  obtain ⟨job, -, -, hframe⟩ := getElem?_sentFrames hj
  obtain ⟨ciphertext, -, heq⟩ := frameOf_eq_some.mp hframe
  rw [heq]
  nofun

/-- A batch with an empty buffer has no frames. -/
theorem Filled.Takes.waiters_eq_nil {jobs taken : List SendJob} {f : Filled} {counter : UInt32}
    (h : f.Takes cipher k ⟨⟨counter, []⟩, [], 0⟩ jobs taken) (hbuf : f.batch.out.outBuf = []) :
    f.batch.waiters = [] := by
  have hflat : ((sentFrames cipher k taken).map Prod.snd).flatten = [] := h.buffer.symm.trans hbuf
  rw [h.waiters]
  cases hframes : sentFrames cipher k taken with
  | nil => rfl
  | cons sent frames =>
    have hsent : sent ∈ sentFrames cipher k taken := hframes ▸ List.mem_cons_self
    exact absurd (List.flatten_eq_nil_iff.mp hflat _ (List.mem_map_of_mem hsent))
      (sentFrames_ne_nil hsent)

/-- The batch goes on behind a frame. -/
theorem Filled.Takes.cons {jobs taken : List SendJob} {f : Filled}
    (h : frameOf cipher k job.plaintext = some frame)
    (hf : f.Takes cipher (k + 1) (batch.push job ⟨UInt32.ofNat (k + 1), batch.out.outBuf ++ frame⟩
      frame.length) jobs taken) :
    f.Takes cipher k batch (job :: jobs) (job :: taken) where
  jobs_eq := by rw [hf.jobs_eq]; rfl
  counter := by
    rw [hf.counter, sentFrames_cons_of_some h, List.length_cons]
    congr 1
    omega
  buffer := by rw [hf.buffer, sentFrames_cons_of_some h]; simp [Batch.push]
  waiters := by rw [hf.waiters, sentFrames_cons_of_some h]; simp [Batch.push]
  answered := by rw [sentFrames_cons_of_some h, List.map_cons, hf.answered]; rfl
  failure := hf.failure

theorem fillBatch_takes (cipher : NoiseCipher) (job : SendJob) (batch : Batch) (hk : k ≤ 0xFFFFFFFF)
    (hcounter : batch.out.writeCounter = UInt32.ofNat k) (ready : Nat) (queue : List SendJob) :
    ∃ taken, (fillBatch cipher job batch ready queue).Takes cipher k batch (job :: queue)
      (job :: taken) := by
  induction ready using Nat.strongRecOn generalizing k job batch queue with
  | ind ready ih =>
    have hframing := framing_encryptFrameInto cipher job.plaintext hk batch.out.outBuf
    rw [← hcounter] at hframing
    generalize hexec : (encryptFrameInto cipher job.plaintext).exec batch.out = r at hframing
    cases hframing with
    | failed e hframe he =>
      rw [fillBatch_of_error hexec]
      -- the batch ends with a job that gives no frame
      have hsent : sentFrames cipher k [job] = [] := sentFrames_cons_of_none hframe
      refine ⟨[], rfl, ?_, ?_, ?_, ?_, ?_⟩
      · simp [hsent]
      · simp [hsent]
      · simp [hsent]
      · simp [hsent]
      · rintro x ⟨⟩
        exact he
    | done ciphertext hencrypts =>
      have hframe := frameOf_eq_some.mpr ⟨ciphertext, hencrypts, rfl⟩
      rcases fillBatch_of_ok hexec ready queue with
        ⟨carryOver, queue', rfl, hfill⟩ | ⟨ready', next, queue', rfl, rfl, hfill⟩
      · rw [hfill]
        have hsent : sentFrames cipher k [job] = [(job.responseTx, _)] :=
          sentFrames_cons_of_some hframe
        exact ⟨[], rfl, by simp [Batch.push, hsent], by simp [Batch.push, hsent],
          by simp [Batch.push, hsent], by simp [hsent], nofun⟩
      · rw [hfill]
        obtain ⟨taken, htaken⟩ := ih ready' (Nat.lt_succ_self _) next
          (batch.push job ⟨UInt32.ofNat (k + 1), _⟩ _) hencrypts.counter rfl queue'
        exact ⟨next :: taken, htaken.cons hframe⟩

theorem length_sentFrames_le (hk : k ≤ 0xFFFFFFFF) (jobs : List SendJob) :
    k + (sentFrames cipher k jobs).length ≤ 0xFFFFFFFF := by
  induction jobs generalizing k with
  | nil => exact hk
  | cons job jobs ih =>
    cases hframe : frameOf cipher k job.plaintext with
    | none =>
      rw [sentFrames_cons_of_none hframe]
      exact ih hk
    | some frame =>
      obtain ⟨ciphertext, hencrypts, -⟩ := frameOf_eq_some.mp hframe
      have hrest := ih (k := k + 1) hencrypts.counter
      rw [sentFrames_cons_of_some hframe, List.length_cons]
      omega

end Batch

/-! ## The task -/

/-- The jobs of some plaintexts, in the order they are enqueued. -/
def jobsOf (plaintexts : List Bytes) : List SendJob :=
  plaintexts.zipIdx.map fun p => ⟨p.1, p.2⟩

/-- What the task has done with its jobs: those it took, in order, and their
frames, one group for each write; and the others. -/
structure SenderTask.Puts (cipher : NoiseCipher) (jobs taken rest : List SendJob)
    (groups : List (List (Nat × Bytes))) (s : SenderTask) : Prop where
  jobs_eq : jobs = taken ++ rest
  frames : groups.flatten = sentFrames cipher 0 taken
  writes : s.writes.map Prod.fst = groups.map fun group => (group.map Prod.snd).flatten
  /-- Only the last write may have failed. -/
  stops : ∀ w ∈ s.writes.dropLast, w.2 = .ok ()
  /-- Without a failed write the other jobs still wait. -/
  waits : (∀ w ∈ s.writes, w.2 = .ok ()) → rest = s.waiting
  once : (s.replies.map Prod.fst).Nodup
  /-- The jobs that were taken are answered. -/
  answered : ∀ job ∈ taken, ∃ r, (job.responseTx, r) ∈ s.replies ∧ r ≠ .error .poisoned
  /-- The others are not, but for being refused. -/
  refused : ∀ job ∈ rest, ∀ r, (job.responseTx, r) ∈ s.replies → r = .error .poisoned
  succeeded : ∀ id, (id, .ok ()) ∈ s.replies →
    ∃ (j : Nat) (group : List (Nat × Bytes)) (payload : Bytes), groups[j]? = some group
      ∧ s.writes[j]? = some (payload, .ok ()) ∧ id ∈ group.map Prod.fst

/-- The invariant of the task.  The jobs it has handled are those it took, and
those it refused after a write had failed. -/
structure SenderTask.Inv (cipher : NoiseCipher) (jobs taken refused : List SendJob)
    (groups : List (List (Nat × Bytes))) (answers : List (Nat × SendResult)) (s : SenderTask) :
    Prop where
  jobs_eq : jobs = taken ++ refused ++ s.waiting
  enqueued : s.enqueued = jobs.length
  frames : groups.flatten = sentFrames cipher 0 taken
  counter : s.writeCounter = UInt32.ofNat (sentFrames cipher 0 taken).length
  writes : s.writes.map Prod.fst = groups.map fun group => (group.map Prod.snd).flatten
  stops : ∀ w ∈ s.writes.dropLast, w.2 = .ok ()
  poisoned : s.poisoned = false → ∀ w ∈ s.writes, w.2 = .ok ()
  failed : s.poisoned = true → ∃ w ∈ s.writes, w.2 ≠ .ok ()
  none_refused : s.poisoned = false → refused = []
  replies : s.replies = answers ++ refused.map fun job => (job.responseTx, .error .poisoned)
  answers_fst : answers.map Prod.fst = taken.map SendJob.responseTx
  answers_snd : ∀ a ∈ answers, a.2 ≠ .error .poisoned
  succeeded : ∀ id, (id, .ok ()) ∈ answers →
    ∃ (j : Nat) (group : List (Nat × Bytes)) (payload : Bytes), groups[j]? = some group
      ∧ s.writes[j]? = some (payload, .ok ()) ∧ id ∈ group.map Prod.fst

section Task

variable {cipher : NoiseCipher} {jobs taken refused : List SendJob}
  {groups : List (List (Nat × Bytes))} {answers : List (Nat × SendResult)} {s : SenderTask}

theorem SenderTask.Inv.enqueueSend (h : s.Inv cipher jobs taken refused groups answers)
    (plaintext : Bytes) :
    (s.enqueueSend plaintext).Inv cipher (jobs ++ [⟨plaintext, jobs.length⟩]) taken refused groups
      answers :=
  { h with
    jobs_eq := by
      rw [h.jobs_eq, SenderTask.waiting, SenderTask.waiting, SenderTask.enqueueSend, h.enqueued,
        h.jobs_eq, SenderTask.waiting]
      simp only [List.append_assoc]
    enqueued := by
      simp only [SenderTask.enqueueSend, h.enqueued, List.length_append, List.length_singleton] }

/-- What a batch of jobs adds. -/
theorem SenderTask.Inv.afterBatch (h : s.Inv cipher jobs taken refused groups answers)
    {job : SendJob} {taken' : List SendJob} {filled : Filled}
    (hfirst : s.firstJob = some (job, queue)) (hpoisoned : s.poisoned = false)
    (htakes : filled.Takes cipher (sentFrames cipher 0 taken).length ⟨⟨s.writeCounter, []⟩, [], 0⟩
      (job :: queue) taken')
    {write : Option (Except AnyError Unit)} (hwrite : write = none → filled.batch.out.outBuf = []) :
    (s.afterBatch filled write).Inv cipher jobs (taken ++ taken') []
      (groups ++ write.toList.map fun _ =>
        sentFrames cipher (sentFrames cipher 0 taken).length taken')
      (answers ++ batchReplies filled write) := by
  obtain rfl := h.none_refused hpoisoned
  have hwaiters : filled.batch.waiters
      = (sentFrames cipher (sentFrames cipher 0 taken).length taken').map Prod.fst := htakes.waiters
  have hsent : sentFrames cipher 0 (taken ++ taken') = sentFrames cipher 0 taken
      ++ sentFrames cipher (sentFrames cipher 0 taken).length taken' := by
    rw [sentFrames_append, Nat.zero_add]
  have hlength : s.writes.length = groups.length := by
    rw [← List.length_map, h.writes, List.length_map]
  constructor
  case jobs_eq =>
    rw [h.jobs_eq, firstJob_eq_some hfirst, htakes.jobs_eq]
    simp
  case enqueued => exact h.enqueued
  case frames =>
    rw [List.flatten_append, h.frames, hsent]
    cases write with
    | none =>
      rw [List.map_eq_nil_iff.mp (hwaiters.symm.trans (htakes.waiters_eq_nil (hwrite rfl)))]
      rfl
    | some w => simp
  case counter =>
    rw [hsent, List.length_append]
    exact htakes.counter
  case writes =>
    rw [SenderTask.afterBatch, List.map_append, h.writes, htakes.buffer]
    simp
  case stops =>
    rw [SenderTask.afterBatch]
    cases write with
    | none => simpa using fun payload w hw => h.stops (payload, w) hw
    | some w => simpa using fun payload w hw => h.poisoned hpoisoned (payload, w) hw
  case poisoned =>
    intro hfalse
    refine List.forall_mem_append.mpr ⟨h.poisoned hpoisoned, ?_⟩
    rcases write with _ | ⟨e | u⟩
    · exact List.forall_mem_nil _
    · cases hfalse
    · exact List.forall_mem_singleton.mpr rfl
  case failed =>
    intro htrue
    rcases write with _ | ⟨e | u⟩
    · cases htrue
    · exact ⟨_, List.mem_append_right _ (List.mem_singleton_self _), by rintro ⟨⟩⟩
    · cases htrue
  case none_refused => exact fun _ => rfl
  case replies =>
    rw [SenderTask.afterBatch, h.replies]
    simp
  case answers_fst =>
    rw [List.map_append, List.map_append, h.answers_fst, htakes.answered, ← hwaiters,
      map_fst_batchReplies]
  case answers_snd =>
    refine List.forall_mem_append.mpr ⟨h.answers_snd, fun a ha => ?_⟩
    obtain ⟨id, -, rfl⟩ | ⟨failure, hmem, rfl⟩ := mem_batchReplies ha
    · exact batchResult_ne_poisoned _ _
    · exact fun heq => htakes.failure failure hmem (Except.error.inj heq)
  case succeeded =>
    intro id hid
    rcases List.mem_append.mp hid with hid | hid
    · obtain ⟨j, group, payload, hgroup, hpayload, hmem⟩ := h.succeeded id hid
      exact ⟨j, group, payload, getElem?_append_of hgroup _, getElem?_append_of hpayload _, hmem⟩
    · obtain ⟨id', hmem, heq⟩ | ⟨failure, -, heq⟩ := mem_batchReplies hid
      · obtain ⟨rfl, hresult⟩ := Prod.mk.inj heq
        rcases write with _ | ⟨e | u⟩
        · rw [htakes.waiters_eq_nil (hwrite rfl)] at hmem
          cases hmem
        · cases hresult
        · rw [hwaiters] at hmem
          refine ⟨groups.length, _, filled.batch.out.outBuf, List.getElem?_concat_length, ?_, hmem⟩
          rw [← hlength]
          exact List.getElem?_concat_length
      · cases heq

/-- One round keeps the invariant, and a job that waits for it is handled. -/
theorem SenderTask.Inv.round (h : s.Inv cipher jobs taken refused groups answers) (ready : Nat)
    (written : Except AnyError Unit) :
    (s.round cipher ready written).waiting.length ≤ s.waiting.length - 1
      ∧ ∃ taken refused groups answers,
        (s.round cipher ready written).Inv cipher jobs taken refused groups answers := by
  cases hfirst : s.firstJob with
  | none =>
    rw [round_of_none hfirst, firstJob_eq_none hfirst]
    exact ⟨Nat.le_refl _, taken, refused, groups, answers, h⟩
  | some first =>
    obtain ⟨job, queue⟩ := first
    cases hpoisoned : s.poisoned with
    | true =>
      rw [SenderTask.round, hfirst]
      dsimp only
      rw [if_pos hpoisoned, firstJob_eq_some hfirst]
      -- the job is refused
      refine ⟨Nat.le_refl _, taken, refused ++ [job], groups, answers, { h with
        jobs_eq := ?_, none_refused := fun hfalse => ?_, replies := ?_ }⟩
      · rw [h.jobs_eq, firstJob_eq_some hfirst]
        simp [SenderTask.waiting]
      · cases hpoisoned.symm.trans hfalse
      · rw [h.replies]
        simp
    | false =>
      have hcount : (sentFrames cipher 0 taken).length ≤ 0xFFFFFFFF := by
        simpa using length_sentFrames_le (Nat.zero_le _) taken
      obtain ⟨write, hwrite, hround⟩ := round_eq_afterBatch cipher ready written hfirst hpoisoned
      obtain ⟨taken', htakes⟩ := fillBatch_takes cipher job ⟨⟨s.writeCounter, []⟩, [], 0⟩ hcount
        h.counter ready queue
      rw [hround]
      refine ⟨?_, _, _, _, _, h.afterBatch hfirst hpoisoned htakes hwrite⟩
      rw [firstJob_eq_some hfirst, htakes.jobs_eq, waiting_afterBatch]
      simp only [List.cons_append, List.length_cons, List.length_append, Nat.add_sub_cancel]
      exact Nat.le_add_left _ _

theorem SenderTask.Inv.replies_fst (h : s.Inv cipher jobs taken refused groups answers) :
    s.replies.map Prod.fst = (taken ++ refused).map SendJob.responseTx := by
  rw [h.replies, List.map_append, h.answers_fst, List.map_append, List.map_map]
  rfl

theorem SenderTask.Inv.puts (h : s.Inv cipher jobs taken refused groups answers)
    (hnodup : (jobs.map SendJob.responseTx).Nodup) :
    s.Puts cipher jobs taken (refused ++ s.waiting) groups := by
  constructor
  case jobs_eq => rw [h.jobs_eq, List.append_assoc]
  case frames => exact h.frames
  case writes => exact h.writes
  case stops => exact h.stops
  case waits =>
    intro hok
    cases hpoisoned : s.poisoned with
    | false => rw [h.none_refused hpoisoned, List.nil_append]
    | true =>
      obtain ⟨w, hw, hne⟩ := h.failed hpoisoned
      exact absurd (hok w hw) hne
  case once =>
    rw [h.jobs_eq, List.map_append] at hnodup
    rw [h.replies_fst]
    exact hnodup.of_append_left
  case answered =>
    intro job hjob
    have hid : job.responseTx ∈ answers.map Prod.fst := by
      rw [h.answers_fst]
      exact List.mem_map_of_mem hjob
    obtain ⟨⟨id, r⟩, hmem, rfl⟩ := List.mem_map.mp hid
    refine ⟨r, ?_, h.answers_snd _ hmem⟩
    rw [h.replies]
    exact List.mem_append_left _ hmem
  case refused =>
    intro job hjob r hr
    rw [h.replies] at hr
    rcases List.mem_append.mp hr with hr | hr
    · -- the number is that of a job that was taken, and no two jobs share one
      have htaken := List.mem_map_of_mem (f := Prod.fst) hr
      rw [h.answers_fst] at htaken
      rw [h.jobs_eq, List.append_assoc, List.map_append] at hnodup
      exact absurd (List.mem_map_of_mem hjob) (List.disjoint_of_nodup_append hnodup htaken)
    · obtain ⟨job', -, heq⟩ := List.mem_map.mp hr
      exact (Prod.mk.inj heq).2.symm
  case succeeded =>
    intro id hid
    rw [h.replies] at hid
    rcases List.mem_append.mp hid with hid | hid
    · exact h.succeeded id hid
    · obtain ⟨job, -, heq⟩ := List.mem_map.mp hid
      cases heq

/-- Each round handles a job as long as one waits. -/
theorem SenderTask.Inv.rounds (h : s.Inv cipher jobs taken refused groups answers)
    (rounds : List (Nat × Except AnyError Unit)) :
    let s' := rounds.foldl (fun s r => s.round cipher r.1 r.2) s
    s'.waiting.length ≤ s.waiting.length - rounds.length
      ∧ ∃ taken refused groups answers, s'.Inv cipher jobs taken refused groups answers := by
  induction rounds generalizing s taken refused groups answers with
  | nil => exact ⟨Nat.le_refl _, taken, refused, groups, answers, h⟩
  | cons r rounds ih =>
    obtain ⟨hle, taken, refused, groups, answers, hround⟩ := h.round r.1 r.2
    obtain ⟨hle', hrounds⟩ := ih hround
    refine ⟨hle'.trans ?_, hrounds⟩
    rw [List.length_cons]
    omega

/-- Once no job waits, all are answered, and if no write failed all of their frames have
been written. -/
theorem SenderTask.Inv.done (h : s.Inv cipher jobs taken refused groups answers)
    (hdone : s.waiting = []) :
    (∀ job ∈ jobs, ∃ r, (job.responseTx, r) ∈ s.replies)
      ∧ ((∀ w ∈ s.writes, w.2 = .ok ()) →
        (s.writes.map Prod.fst).flatten = ((sentFrames cipher 0 jobs).map Prod.snd).flatten) := by
  have hjobs := h.jobs_eq
  rw [hdone, List.append_nil] at hjobs
  constructor
  · intro job hjob
    have hid : job.responseTx ∈ s.replies.map Prod.fst := by
      rw [h.replies_fst, ← hjobs]
      exact List.mem_map_of_mem hjob
    obtain ⟨⟨id, r⟩, hmem, rfl⟩ := List.mem_map.mp hid
    exact ⟨r, hmem⟩
  · intro hok
    have hpoisoned : s.poisoned = false := by
      refine Bool.eq_false_iff.mpr fun htrue => ?_
      obtain ⟨w, hw, hne⟩ := h.failed htrue
      exact hne (hok w hw)
    rw [h.none_refused hpoisoned, List.append_nil] at hjobs
    rw [h.writes, hjobs, ← h.frames, List.map_flatten, List.flatten_flatten, List.map_map]
    rfl

end Task

theorem jobsOf_concat (plaintexts : List Bytes) (plaintext : Bytes) :
    jobsOf (plaintexts ++ [plaintext])
      = jobsOf plaintexts ++ [⟨plaintext, (jobsOf plaintexts).length⟩] := by
  simp [jobsOf, List.zipIdx_append]

theorem nodup_jobsOf (plaintexts : List Bytes) :
    ((jobsOf plaintexts).map SendJob.responseTx).Nodup := by
  have hrange : (jobsOf plaintexts).map SendJob.responseTx = List.range' 0 plaintexts.length := by
    simp [jobsOf, Function.comp_def]
  rw [hrange]
  exact List.nodup_range'

theorem inv_new (cipher : NoiseCipher) : SenderTask.Inv cipher [] [] [] [] [] .new where
  jobs_eq := rfl
  enqueued := rfl
  frames := rfl
  counter := rfl
  writes := rfl
  stops := nofun
  poisoned := nofun
  failed := nofun
  none_refused _ := rfl
  replies := rfl
  answers_fst := rfl
  answers_snd := nofun
  succeeded := nofun

theorem inv_runSender (cipher : NoiseCipher) (events : List SenderEvent) :
    ∃ taken refused groups answers, (runSender cipher events).Inv cipher
      (jobsOf (events.filterMap SenderEvent.plaintext)) taken refused groups answers := by
  induction events using List.reverseRecOn with
  | nil => exact ⟨[], [], [], [], inv_new cipher⟩
  | append_singleton events event ih =>
    obtain ⟨taken, refused, groups, answers, h⟩ := ih
    rw [runSender, List.foldl_concat, List.filterMap_append]
    cases event with
    | enqueue plaintext =>
      refine ⟨taken, refused, groups, answers, ?_⟩
      have henqueue := h.enqueueSend plaintext
      rwa [← jobsOf_concat] at henqueue
    | round ready written =>
      rw [show [SenderEvent.round ready written].filterMap SenderEvent.plaintext = [] from rfl,
        List.append_nil]
      exact (h.round ready written).2

/-- The bytes on the wire are the frames of the plaintexts that could be
encrypted, in order and under consecutive counters, up to the first failed write;
and the answers to the jobs agree with that.  With as many rounds as there are jobs
each job is answered, and if no write failed every frame is on the wire. -/
theorem sender_wire (cipher : NoiseCipher) (events : List SenderEvent) :
    let jobs := jobsOf (events.filterMap SenderEvent.plaintext)
    (∃ taken rest groups, (runSender cipher events).Puts cipher jobs taken rest groups
      ∧ ∀ k sent, (sentFrames cipher 0 taken)[k]? = some sent → ∃ job ∈ taken,
          job.responseTx = sent.1 ∧ ∃ ciphertext, EncryptsTo cipher k job.plaintext ciphertext
            ∧ sent.2 = lengthPrefixed ciphertext)
    ∧ ∀ rounds : List (Nat × Except AnyError Unit), jobs.length ≤ rounds.length →
      let s := runSender cipher (events ++ rounds.map fun r => .round r.1 r.2)
      (∀ job ∈ jobs, ∃ r, (job.responseTx, r) ∈ s.replies)
      ∧ ((∀ w ∈ s.writes, w.2 = .ok ()) →
        (s.writes.map Prod.fst).flatten = ((sentFrames cipher 0 jobs).map Prod.snd).flatten) := by
  intro jobs
  obtain ⟨taken, refused, groups, answers, h⟩ := inv_runSender cipher events
  refine ⟨⟨taken, _, groups, h.puts (nodup_jobsOf _), fun k sent hsent => ?_⟩, fun rounds henough => ?_⟩
  · obtain ⟨job, hmem, hid, hframe⟩ := getElem?_sentFrames hsent
    rw [Nat.zero_add] at hframe
    exact ⟨job, hmem, hid, frameOf_eq_some.mp hframe⟩
  · obtain ⟨hle, _, _, _, _, hrounds⟩ := h.rounds rounds
    have hjobs : jobs = taken ++ refused ++ (runSender cipher events).waiting := h.jobs_eq
    rw [hjobs, List.length_append] at henough
    have hrun : runSender cipher (events ++ rounds.map fun r => .round r.1 r.2)
        = rounds.foldl (fun s r => s.round cipher r.1 r.2) (runSender cipher events) := by
      rw [runSender, List.foldl_append, List.foldl_map]
      rfl
    rw [hrun]
    exact hrounds.done (List.length_eq_zero_iff.mp (by omega))

/-- A tag that shows the counter; the empty plaintext cannot be encrypted. -/
def countingCipher : NoiseCipher where
  aead.encryptInPlace iv _ buffer :=
    if buffer = [] then (.error .badInput, []) else (.ok (), buffer ++ iv.val ++ [0, 0, 0, 0])
  aead.decryptInPlace _ _ buffer := (.error .authFailed, buffer)

/-- The second of three jobs fails, and the third goes out with the next counter. -/
theorem sender_wire_failure :
    let enqueues : List SenderEvent := [.enqueue [7], .enqueue [], .enqueue [8, 9]]
    let s := runSender countingCipher
      (enqueues ++ [(2, .ok ()), (0, .ok ()), (0, .ok ())].map fun r => .round r.1 r.2)
    s.writes = [([0, 0, 17, 7, 0, 0, 0, 0, 0, 0, 0, 0, 0, 0, 0, 0, 0, 0, 0, 0], .ok ()),
        ([0, 0, 18, 8, 9, 0, 0, 0, 0, 0, 0, 0, 0, 0, 0, 0, 1, 0, 0, 0, 0], .ok ())]
      ∧ s.replies = [(0, .ok ()), (1, .error (.crypto (.encrypt .badInput))), (2, .ok ())]
      ∧ (s.writes.map Prod.fst).flatten
        = ((sentFrames countingCipher 0 (jobsOf [[7], [], [8, 9]])).map Prod.snd).flatten := by
  intro enqueues s
  have hwrites : s.writes = [_, _] := rfl
  refine ⟨hwrites, rfl, ?_⟩
  exact ((sender_wire countingCipher enqueues).2 _ (by decide)).2 (by rw [hwrites]; decide)

end WaCore.Noise
