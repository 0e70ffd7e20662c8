import WaCore.Inbound.OfflineResume

/-!
# What the pull loop keeps

There is one token: the flag while it is set, else the handler that cleared it and has yet
to schedule, else the scheduled task.  So no two tasks are scheduled at a time.

The loop goes on as long as a set flag is seen by a stanza that is still to come.  The flag
is set again after the request was sent, and the answer may be there by then: when all of
it was processed while the flag was clear, no stanza is left to schedule the next request.
`AnswerPending` says that this is not so, and a run in which it holds whenever the flag is
set again does not stop before the whole backlog is released.
-/

namespace WaCore.Inbound

/-! ## One piece of a task -/

namespace StanzaTask

/-- The handler has not counted its stanza. -/
def uncounted : StanzaTask → Bool
  | loadActive | countProcessed => true
  | _ => false

/-- The handler cleared the flag and has not scheduled the next request. -/
def won : StanzaTask → Bool
  | schedule _ _ _ => true
  | _ => false

/-- The handler has yet to look at the flag. -/
def prospective : StanzaTask → Bool
  | schedule _ _ _ | finish _ _ => false
  | _ => true

/-- What the handler has read fits the client. -/
def Ok (c : PullClient) : StanzaTask → Prop
  | loadActive | countProcessed => True
  | loadTotal processed => processed ≤ c.processedMessages
  | loadConnection processed total | finish processed total =>
    processed ≤ c.processedMessages ∧ total = c.totalMessages
  | loadArmed processed total generation =>
    processed ≤ c.processedMessages ∧ total = c.totalMessages ∧
      generation = c.connectionGeneration
  | loadGeneration processed total generation | noteActivity processed total generation
  | claim processed total generation | schedule processed total generation =>
    processed ≤ c.processedMessages ∧ total = c.totalMessages ∧
      generation = c.connectionGeneration ∧ c.offlineBatch.armed = true

end StanzaTask

/-- What no piece of a task changes once the drain is armed, and the count of the
processed stanzas, which grows. -/
structure PullClient.Follows (c c' : PullClient) : Prop where
  processed : c.processedMessages ≤ c'.processedMessages
  total : c'.totalMessages = c.totalMessages
  connection : c'.connectionGeneration = c.connectionGeneration
  completed : c'.offlineSyncCompleted = c.offlineSyncCompleted
  armed : c.offlineBatch.armed = true → c'.offlineBatch.armed = true

namespace PullClient

variable {c c' : PullClient}

theorem Follows.refl (c : PullClient) : c.Follows c := ⟨Nat.le_refl _, rfl, rfl, rfl, id⟩

theorem Follows.ok (h : c.Follows c') {t : StanzaTask} (hok : t.Ok c) : t.Ok c' := by
  have hprocessed := h.processed
  cases t with
  | loadActive | countProcessed => trivial
  | loadTotal processed => exact Nat.le_trans hok hprocessed
  | loadConnection processed total | finish processed total =>
    exact ⟨Nat.le_trans hok.1 hprocessed, hok.2.trans h.total.symm⟩
  | loadArmed processed total generation =>
    exact ⟨Nat.le_trans hok.1 hprocessed, hok.2.1.trans h.total.symm, hok.2.2.trans h.connection.symm⟩
  | loadGeneration processed total generation | noteActivity processed total generation
  | claim processed total generation | schedule processed total generation =>
    exact ⟨Nat.le_trans hok.1 hprocessed, hok.2.1.trans h.total.symm,
      hok.2.2.1.trans h.connection.symm, h.armed hok.2.2.2⟩

end PullClient

/-- What one piece of a stanza handler does. -/
structure StanzaTask.Advances (c : PullClient) (t : StanzaTask) (c' : PullClient)
    (next : Option StanzaTask) (scheduled : Option ContinuationTask) : Prop where
  follows : c.Follows c'
  armed : c'.offlineBatch.armed = c.offlineBatch.armed
  generation : c'.offlineBatch.generation = c.offlineBatch.generation
  ok : ∀ t' ∈ next, t'.Ok c'
  sleeps : ∀ k ∈ scheduled, k = .sleeping c.connectionGeneration ∧ c.offlineBatch.armed = true
  /-- A handler counts its stanza once. -/
  counted : (next.toList.countP StanzaTask.uncounted) + c'.processedMessages ≤
    t.uncounted.toNat + c.processedMessages
  inactive : (c.active = false → c.totalMessages ≤ c.processedMessages) →
    c'.active = false → c'.totalMessages ≤ c'.processedMessages
  /-- The flag and the right to schedule are one token. -/
  token : (next.toList.countP StanzaTask.won) + scheduled.toList.length +
      c'.offlineBatch.prevBatchInflight.toNat =
    t.won.toNat + c.offlineBatch.prevBatchInflight.toNat
  unarmed : c.offlineBatch.armed = false →
    c'.offlineBatch.prevBatchInflight = c.offlineBatch.prevBatchInflight
  /-- No handler sets the flag. -/
  clears : c'.offlineBatch.prevBatchInflight = true → c.offlineBatch.prevBatchInflight = true
  /-- A set flag is passed only where nothing is pending. -/
  passes : t.prospective = true → c.offlineBatch.armed = true →
    c.offlineBatch.generation = c.connectionGeneration →
    (c.active = false → c.totalMessages ≤ c.processedMessages) →
    (∃ t' ∈ next, t'.prospective = true) ∨ c'.offlineBatch.prevBatchInflight = false ∨
      c.totalMessages ≤ c.processedMessages

variable {c : PullClient}

/-- A piece that only reads goes on to the next one. -/
theorem StanzaTask.Advances.reads {t t' : StanzaTask} (hok : t'.Ok c)
    (hcounted : t'.uncounted = true → t.uncounted = true) (hwon : t'.won = t.won)
    (hpasses : t.prospective = true → c.offlineBatch.armed = true →
      c.offlineBatch.generation = c.connectionGeneration → t'.prospective = true ∨
        c.offlineBatch.prevBatchInflight = false ∨ c.totalMessages ≤ c.processedMessages) :
    t.Advances c c (some t') none where
  follows := .refl c
  armed := rfl
  generation := rfl
  ok := by
    rintro _ ⟨⟩
    exact hok
  sleeps := by simp
  counted := by
    cases ht : t'.uncounted
    · simp [ht]
    · simp [ht, hcounted ht]
  inactive := id
  token := by cases ht : t.won <;> simp [hwon, ht]
  unarmed _ := rfl
  clears := id
  passes hprospective harmed hgeneration _ := by
    simpa using hpasses hprospective harmed hgeneration

theorem StanzaTask.advances {t : StanzaTask} (hok : t.Ok c) :
    t.Advances c (t.run c).1 (t.run c).2.1 (t.run c).2.2 := by
  cases t with
  | loadActive =>
    simp only [run]
    split
    · exact .reads trivial id rfl fun _ _ _ => .inl rfl
    · rename_i hactive
      exact ⟨.refl c, rfl, rfl, by simp, by simp, by simp, id, by simp [won], fun _ => rfl, id,
        fun _ _ _ hinactive => .inr (.inr (hinactive (by simpa using hactive)))⟩
  | countProcessed =>
    refine ⟨⟨Nat.le_succ _, rfl, rfl, rfl, id⟩, rfl, rfl, ?_, by simp [run], ?_, ?_, ?_,
      fun _ => rfl, id, ?_⟩
    · rintro t' ⟨⟩
      exact Nat.le_refl _
    · show 0 + (c.processedMessages + 1) ≤ 1 + c.processedMessages
      omega
    · intro hinactive hactive
      exact Nat.le_succ_of_le (hinactive hactive)
    · simp [run, won]
    · intro _ _ _ _
      exact .inl ⟨_, rfl, rfl⟩
  | loadTotal processed => exact .reads ⟨hok, rfl⟩ id rfl fun _ _ _ => .inl rfl
  | loadConnection processed total =>
    exact .reads ⟨hok.1, hok.2, rfl⟩ id rfl fun _ _ _ => .inl rfl
  | loadArmed processed total generation =>
    simp only [run]
    split
    · rename_i harmed
      exact .reads ⟨hok.1, hok.2.1, hok.2.2, harmed⟩ id rfl fun _ _ _ => .inl rfl
    · rename_i hunarmed
      exact .reads ⟨hok.1, hok.2.1⟩ id rfl fun _ harmed => absurd harmed hunarmed
  | loadGeneration processed total generation =>
    simp only [run]
    split
    · exact .reads hok id rfl fun _ _ _ => .inl rfl
    · rename_i hne
      exact .reads ⟨hok.1, hok.2.1⟩ id rfl fun _ _ heq => absurd (heq.trans hok.2.2.1.symm) hne
  | noteActivity processed total generation =>
    refine ⟨⟨Nat.le_refl _, rfl, rfl, rfl, id⟩, rfl, rfl, ?_, by simp [run],
      by simp [run, uncounted, PullClient.setActivity], id,
      by simp [run, won, PullClient.setActivity], fun _ => rfl, id, fun _ _ _ _ => .inl ⟨_, rfl, rfl⟩⟩
    rintro t' ⟨⟩
    exact hok
  | claim processed total generation =>
    simp only [run]
    split
    · refine .reads ⟨hok.1, hok.2.1⟩ id rfl fun _ _ _ => .inr (.inr ?_)
      obtain ⟨hprocessed, htotal, -⟩ := hok
      omega
    · split
      · rename_i hflag
        refine ⟨⟨Nat.le_refl _, rfl, rfl, rfl, id⟩, rfl, rfl, ?_, by simp,
          by simp [uncounted, PullClient.setInflight], id,
          by simp [won, hflag, PullClient.setInflight],
          fun harmed => absurd (hok.2.2.2.symm.trans harmed) (by decide),
          fun _ => hflag, fun _ _ _ _ => .inr (.inl rfl)⟩
        rintro t' ⟨⟩
        exact hok
      · rename_i hflag
        exact .reads ⟨hok.1, hok.2.1⟩ id rfl fun _ _ _ => .inr (.inl (by simpa using hflag))
  | schedule processed total generation =>
    refine ⟨.refl c, rfl, rfl, ?_, ?_, by simp [run, uncounted], id, by simp [run, won],
      fun _ => rfl, id, fun hprospective => by cases hprospective⟩
    · rintro t' ⟨⟩
      exact ⟨hok.1, hok.2.1⟩
    · rintro k ⟨⟩
      exact ⟨congrArg _ hok.2.2.1, hok.2.2.2⟩
  | finish processed total =>
    obtain ⟨hprocessed, htotal⟩ := hok
    simp only [run]
    split
    · refine ⟨⟨Nat.le_refl _, rfl, rfl, rfl, id⟩, rfl, rfl, by simp, by simp,
        by simp [uncounted], ?_, by simp [won], fun _ => rfl, id,
        fun hprospective => by cases hprospective⟩
      dsimp only
      omega
    · exact ⟨.refl c, rfl, rfl, by simp, by simp, by simp [uncounted], id, by simp [won],
        fun _ => rfl, id, fun hprospective => by cases hprospective⟩

namespace ContinuationTask

def generation : ContinuationTask → Nat
  | sleeping generation | loadArmed generation | loadGeneration generation
  | loadConnection generation | loadCompleted generation | send generation | sending generation
  | reloadArmed generation | reloadGeneration generation | republish generation => generation

/-- On the connection that the drain is armed for, a task sets the flag at its end and
changes nothing before. -/
theorem run_cases {k : ContinuationTask} (hk : k.generation = c.connectionGeneration)
    (harmed : c.offlineBatch.armed = true)
    (hgeneration : c.offlineBatch.generation = c.connectionGeneration)
    (hcompleted : c.offlineSyncCompleted = false) :
    (∃ generation, k = republish generation ∧ k.run c = (c.setInflight true, none, false)) ∨
    ∃ k' sent, k.run c = (c, some k', sent) ∧ k'.generation = c.connectionGeneration := by
  cases k with
  | sleeping generation => exact .inr ⟨_, _, rfl, hk⟩
  | loadArmed generation => exact .inr ⟨loadGeneration generation, false, by simp [run, harmed], hk⟩
  | loadGeneration generation =>
    refine .inr ⟨loadConnection generation, false, ?_, hk⟩
    simp [run, hgeneration.trans hk.symm, ContinuationTask.generation]
  | loadConnection generation =>
    simp [run, ← hk, ContinuationTask.generation]
  | loadCompleted generation =>
    exact .inr ⟨send generation, false, by simp [run, hcompleted], hk⟩
  | send generation => exact .inr ⟨_, _, rfl, hk⟩
  | sending generation => exact .inr ⟨_, _, rfl, hk⟩
  | reloadArmed generation =>
    exact .inr ⟨reloadGeneration generation, false, by simp [run, harmed], hk⟩
  | reloadGeneration generation =>
    refine .inr ⟨republish generation, false, ?_, hk⟩
    simp [run, hgeneration.trans hk.symm, ContinuationTask.generation]
  | republish generation => exact .inl ⟨generation, rfl, rfl⟩

end ContinuationTask

namespace FirstBatchTask

def armed : FirstBatchTask → Bool
  | send | sending | returned => true
  | _ => false

/-- The first request is not on the wire yet. -/
def unsent : FirstBatchTask → Bool
  | sending | returned => false
  | _ => true

/-- What the task has stored. -/
def Ok (c : PullClient) : FirstBatchTask → Prop
  | loadConnection => True
  | storeGeneration generation => generation = c.connectionGeneration
  | storeArmed => c.offlineBatch.generation = c.connectionGeneration ∧
    c.offlineBatch.prevBatchInflight = true
  | _ => c.offlineBatch.generation = c.connectionGeneration

theorem Ok.generation {t : FirstBatchTask} (h : t.Ok c) (harmed : t.armed = true) :
    c.offlineBatch.generation = c.connectionGeneration := by
  cases t with
  | send | sending | returned => exact h
  | loadConnection | storeGeneration generation | storeActivity | storeInflight | storeArmed =>
    cases harmed

/-- The task sees only the generations, and the flag before it arms the drain. -/
theorem Ok.congr {c' : PullClient} {t : FirstBatchTask} (h : t.Ok c)
    (hgeneration : c'.offlineBatch.generation = c.offlineBatch.generation)
    (hconnection : c'.connectionGeneration = c.connectionGeneration)
    (hflag : t.armed = false →
      c'.offlineBatch.prevBatchInflight = c.offlineBatch.prevBatchInflight) : t.Ok c' := by
  cases t with
  | loadConnection => trivial
  | storeGeneration generation => exact h.trans hconnection.symm
  | storeArmed =>
    exact ⟨hgeneration.trans (h.1.trans hconnection.symm), (hflag rfl).trans h.2⟩
  | storeActivity | storeInflight | send | sending | returned =>
    exact hgeneration.trans (h.trans hconnection.symm)

end FirstBatchTask

/-! ## The drain -/

namespace PullSystem

/-- The holders of the token other than the flag. -/
def claims (s : PullSystem) : Nat := s.stanzas.countP StanzaTask.won + s.continuations.length

/-- A stanza will look at the flag yet, or nothing is left to be released. -/
def AnswerPending (s : PullSystem) : Prop :=
  s.released = s.client.totalMessages ∨ 0 < s.inFlight ∨ 0 < s.requests ∨
    s.first.unsent = true ∨ ∃ t ∈ s.stanzas, t.prospective = true

instance decidableAnswerPending (s : PullSystem) : Decidable s.AnswerPending :=
  inferInstanceAs (Decidable (_ ∨ _))

structure Inv (s : PullSystem) : Prop where
  released_le : s.released ≤ s.client.totalMessages
  counted : s.inFlight + s.stanzas.countP StanzaTask.uncounted + s.client.processedMessages ≤
    s.released
  inactive : s.client.active = false → s.client.totalMessages ≤ s.client.processedMessages
  incomplete : s.client.offlineSyncCompleted = false
  stanzas : ∀ t ∈ s.stanzas, t.Ok s.client
  continuations : ∀ k ∈ s.continuations, k.generation = s.client.connectionGeneration
  armed : s.client.offlineBatch.armed = s.first.armed
  first : s.first.Ok s.client
  token : s.first.armed = true →
    s.claims + s.client.offlineBatch.prevBatchInflight.toNat = 1
  unclaimed : s.first.armed = false → s.claims = 0

theorem inv_start (connectionGeneration primer rest : Nat) :
    (start connectionGeneration primer rest).Inv where
  released_le := Nat.le_add_right _ _
  counted := Nat.le_refl _
  inactive := by rintro ⟨⟩
  incomplete := rfl
  stanzas := by simp [start]
  continuations := by simp [start]
  armed := rfl
  first := trivial
  token := by rintro ⟨⟩
  unclaimed := fun _ => rfl

section Replace

variable {α : Type} {tasks : List α} {i : Nat} {task : α} {next : Option α}

theorem eq_of_getElem? (h : tasks[i]? = some task) :
    tasks = tasks.take i ++ task :: tasks.drop (i + 1) := by
  obtain ⟨hi, rfl⟩ := List.getElem?_eq_some_iff.mp h
  rw [List.getElem_cons_drop, List.take_append_drop]

theorem mem_replaceAt {t : α} (h : t ∈ replaceAt tasks i next) : t ∈ tasks ∨ t ∈ next := by
  rcases List.mem_append.mp h with h | h
  · rcases List.mem_append.mp h with h | h
    · exact .inl (List.mem_of_mem_take h)
    · exact .inr (Option.mem_toList.mp h)
  · exact .inl (List.mem_of_mem_drop h)

theorem countP_replaceAt (p : α → Bool) (h : tasks[i]? = some task) :
    (replaceAt tasks i next).countP p + (p task).toNat =
      tasks.countP p + next.toList.countP p := by
  conv_rhs => rw [eq_of_getElem? h]
  unfold replaceAt
  rw [List.countP_append, List.countP_append, List.countP_append, List.countP_cons]
  cases p task with
  | false => simp; omega
  | true => simp; omega

theorem length_replaceAt (h : tasks[i]? = some task) :
    (replaceAt tasks i next).length + 1 = tasks.length + next.toList.length := by
  have hcount : (replaceAt tasks i next).countP (fun _ => true) + true.toNat =
      tasks.countP (fun _ => true) + next.toList.countP fun _ => true := countP_replaceAt _ h
  simpa using hcount

/-- A task other than the one that goes on is still there. -/
theorem mem_replaceAt_of_ne {t : α} (h : tasks[i]? = some task) (ht : t ∈ tasks) (hne : t ≠ task) :
    t ∈ replaceAt tasks i next := by
  rw [eq_of_getElem? h] at ht
  rcases List.mem_append.mp ht with ht | ht
  · exact List.mem_append_left _ (List.mem_append_left _ ht)
  · rcases List.mem_cons.mp ht with ht | ht
    · exact absurd ht hne
    · exact List.mem_append_right _ ht

theorem mem_replaceAt_next {t : α} (ht : t ∈ next) : t ∈ replaceAt tasks i next :=
  List.mem_append_left _ (List.mem_append_right _ (Option.mem_toList.mpr ht))

end Replace

def afterFirst (s : PullSystem) : PullSystem :=
  { s with
    client := (s.first.run s.client).1
    first := (s.first.run s.client).2.1
    requests := s.requests + (s.first.run s.client).2.2.toNat }

def afterStanza (s : PullSystem) (i : Nat) (task : StanzaTask) : PullSystem :=
  { s with
    client := (task.run s.client).1
    stanzas := replaceAt s.stanzas i (task.run s.client).2.1
    continuations := s.continuations ++ (task.run s.client).2.2.toList }

def afterContinuation (s : PullSystem) (i : Nat) (task : ContinuationTask) : PullSystem :=
  { s with
    client := (task.run s.client).1
    continuations := replaceAt s.continuations i (task.run s.client).2.1
    requests := s.requests + (task.run s.client).2.2.toNat }

variable {s s' : PullSystem} {event : PullEvent} {i : Nat}

/-- What an event does to the drain. -/
theorem step_cases (h : s.step event = some s') :
    (event = .first ∧ s' = s.afterFirst) ∨
    (∃ i task, event = .stanza i ∧ s.stanzas[i]? = some task ∧ s' = s.afterStanza i task) ∨
    (∃ i task, event = .continuation i ∧ s.continuations[i]? = some task ∧
      s' = s.afterContinuation i task) ∨
    (∃ count, 0 < s.requests ∧ s.MayRelease count ∧ s' = { s with
      requests := s.requests - 1
      inFlight := s.inFlight + count
      released := s.released + count }) ∨
    (0 < s.inFlight ∧ s' = { s with
      inFlight := s.inFlight - 1, stanzas := s.stanzas ++ [.loadActive] }) := by
  cases event with
  | first => exact .inl ⟨rfl, (Option.some.inj h).symm⟩
  | stanza i =>
    obtain ⟨task, htask, heq⟩ := Option.bind_eq_some_iff.mp h
    exact .inr (.inl ⟨i, task, rfl, htask, (Option.some.inj heq).symm⟩)
  | continuation i =>
    obtain ⟨task, htask, heq⟩ := Option.bind_eq_some_iff.mp h
    exact .inr (.inr (.inl ⟨i, task, rfl, htask, (Option.some.inj heq).symm⟩))
  | serve count =>
    obtain ⟨⟨hrequests, hmay⟩, heq⟩ := Option.ite_none_right_eq_some.mp h
    exact .inr (.inr (.inr (.inl ⟨count, hrequests, hmay, (Option.some.inj heq).symm⟩)))
  | arrive =>
    obtain ⟨hinFlight, heq⟩ := Option.ite_none_right_eq_some.mp h
    exact .inr (.inr (.inr (.inr ⟨hinFlight, (Option.some.inj heq).symm⟩)))

/-- A scheduled task exists only while the drain is armed, with the flag clear. -/
theorem Inv.of_continuation (h : s.Inv) {k : ContinuationTask} (hk : k ∈ s.continuations) :
    s.first.armed = true ∧ s.client.offlineBatch.prevBatchInflight = false := by
  have hpos : 0 < s.continuations.length := List.length_pos_of_mem hk
  have hclaims : s.claims = s.stanzas.countP StanzaTask.won + s.continuations.length := rfl
  cases harmed : s.first.armed with
  | false =>
    have hnone := h.unclaimed harmed
    omega
  | true =>
    have htoken := h.token harmed
    refine ⟨rfl, ?_⟩
    cases hflag : s.client.offlineBatch.prevBatchInflight with
    | false => rfl
    | true =>
      rw [hflag, Bool.toNat_true] at htoken
      omega

theorem Inv.afterStanza (h : s.Inv) {task : StanzaTask} (htask : s.stanzas[i]? = some task) :
    (s.afterStanza i task).Inv := by
  have hadv := StanzaTask.advances (h.stanzas task (List.mem_of_getElem? htask))
  unfold PullSystem.afterStanza
  generalize task.run s.client = result at hadv
  obtain ⟨c', next, scheduled⟩ := result
  dsimp only at hadv ⊢
  have hfollows := hadv.follows
  have hwon : (replaceAt s.stanzas i next).countP StanzaTask.won + task.won.toNat =
      s.stanzas.countP StanzaTask.won + next.toList.countP StanzaTask.won :=
    countP_replaceAt _ htask
  have huncounted :
      (replaceAt s.stanzas i next).countP StanzaTask.uncounted + task.uncounted.toNat =
        s.stanzas.countP StanzaTask.uncounted + next.toList.countP StanzaTask.uncounted :=
    countP_replaceAt _ htask
  have htoken := hadv.token
  have hclaims : s.claims = s.stanzas.countP StanzaTask.won + s.continuations.length := rfl
  refine
    { released_le := hfollows.total ▸ h.released_le
      counted := ?_
      inactive := hadv.inactive h.inactive
      incomplete := hfollows.completed.trans h.incomplete
      stanzas := ?_
      continuations := ?_
      armed := hadv.armed.trans h.armed
      first := ?_
      token := ?_
      unclaimed := ?_ }
  · have hcounted := h.counted
    have := hadv.counted
    dsimp only
    omega
  · intro t ht
    rcases mem_replaceAt ht with ht | ht
    · exact hfollows.ok (h.stanzas t ht)
    · exact hadv.ok t ht
  · intro k hk
    rw [hfollows.connection]
    rcases List.mem_append.mp hk with hk | hk
    · exact h.continuations k hk
    · rw [(hadv.sleeps k (Option.mem_toList.mp hk)).1]
      rfl
  · exact h.first.congr hadv.generation hfollows.connection fun hunarmed =>
      hadv.unarmed (h.armed.trans hunarmed)
  · intro harmed
    have := h.token harmed
    simp only [claims, List.length_append]
    omega
  · intro harmed
    have := h.unclaimed harmed
    have hflag := hadv.unarmed (h.armed.trans harmed)
    rw [hflag] at htoken
    simp only [claims, List.length_append]
    omega

theorem Inv.afterContinuation (h : s.Inv) {task : ContinuationTask}
    (htask : s.continuations[i]? = some task) : (s.afterContinuation i task).Inv := by
  unfold PullSystem.afterContinuation
  have hmem := List.mem_of_getElem? htask
  obtain ⟨harmed, hflag⟩ := h.of_continuation hmem
  have htoken := h.token harmed
  rw [hflag] at htoken
  have hclaims : s.claims = s.stanzas.countP StanzaTask.won + s.continuations.length := rfl
  have hgeneration := h.first.generation harmed
  have harmed_ne (hunarmed : s.first.armed = false) : False := by
    cases harmed.symm.trans hunarmed
  rcases ContinuationTask.run_cases (h.continuations task hmem) (h.armed.trans harmed) hgeneration
    h.incomplete with ⟨generation, -, hrun⟩ | ⟨k', sent, hrun, hk'⟩
  · have hlength : (replaceAt s.continuations i none).length + 1 = s.continuations.length + 0 :=
      length_replaceAt htask
    rw [hrun]
    refine
      { h with
        continuations := fun k hk => ?_
        first := h.first.congr rfl rfl fun hunarmed => (harmed_ne hunarmed).elim
        token := fun _ => ?_
        unclaimed := fun hunarmed => (harmed_ne hunarmed).elim }
    · rcases mem_replaceAt hk with hk | hk
      · exact h.continuations k hk
      · cases hk
    · simp only [claims, PullClient.setInflight, Bool.toNat_true]
      omega
  · have hlength : (replaceAt s.continuations i (some k')).length + 1 =
        s.continuations.length + 1 := length_replaceAt htask
    rw [hrun]
    refine
      { h with
        continuations := fun k hk => ?_
        token := fun _ => ?_
        unclaimed := fun hunarmed => (harmed_ne hunarmed).elim }
    · rcases mem_replaceAt hk with hk | hk
      · exact h.continuations k hk
      · rw [← Option.some.inj hk]
        exact hk'
    · simp only [claims, hflag]
      omega

theorem Inv.afterFirst (h : s.Inv) : s.afterFirst.Inv := by
  unfold PullSystem.afterFirst
  have hfirst := h.first
  have harmed := h.armed
  have hunclaimed := h.unclaimed
  have htoken := h.token
  -- before the drain is armed no handler has read anything that the stores change
  have hstanzas : ∀ c', s.client.Follows c' → ∀ t ∈ s.stanzas, t.Ok c' :=
    fun c' hfollows t ht => hfollows.ok (h.stanzas t ht)
  cases hs : s.first with
  | loadConnection =>
    rw [hs] at harmed hunclaimed
    exact { h with armed := harmed, first := rfl, token := fun ht => (by cases ht),
                   unclaimed := hunclaimed }
  | storeGeneration _ | storeActivity =>
    rw [hs] at harmed hunclaimed hfirst
    exact { h with
      armed := harmed, first := hfirst, token := fun ht => (by cases ht), unclaimed := hunclaimed }
  | storeInflight =>
    rw [hs] at harmed hunclaimed hfirst
    exact { h with
      armed := harmed, first := ⟨hfirst, rfl⟩, token := fun ht => (by cases ht)
      unclaimed := hunclaimed }
  | storeArmed =>
    rw [hs] at hunclaimed hfirst
    exact { h with
      stanzas := hstanzas _ ⟨Nat.le_refl _, rfl, rfl, rfl, fun _ => rfl⟩
      armed := rfl, first := hfirst.1
      token := fun _ => (by
        have hflag : s.client.offlineBatch.prevBatchInflight.toNat = 1 := by rw [hfirst.2]; rfl
        exact congrArg₂ (· + ·) (hunclaimed rfl) hflag)
      unclaimed := fun ht => (by cases ht) }
  | send | sending | returned =>
    rw [hs] at harmed hfirst htoken
    exact { h with armed := harmed, first := hfirst, token := htoken,
                   unclaimed := fun ht => (by cases ht) }

theorem Inv.step (h : s.Inv) (hstep : s.step event = some s') : s'.Inv := by
  obtain ⟨-, rfl⟩ | ⟨i, task, -, htask, rfl⟩ | ⟨i, task, -, htask, rfl⟩ |
    ⟨count, hrequests, hmay, rfl⟩ | ⟨hinFlight, rfl⟩ := step_cases hstep
  · exact h.afterFirst
  · exact h.afterStanza htask
  · exact h.afterContinuation htask
  · have hcounted := h.counted
    exact { h with
      released_le := hmay.2.1
      counted := (by dsimp only; omega) }
  · have hcounted := h.counted
    refine { h with counted := ?_, stanzas := ?_, token := ?_, unclaimed := ?_ }
    · rw [List.countP_append]
      simp only [StanzaTask.uncounted, List.countP_singleton, if_true]
      omega
    · exact List.forall_mem_append.mpr ⟨h.stanzas, List.forall_mem_singleton.mpr trivial⟩
    · intro harmed
      simpa [claims, StanzaTask.won] using h.token harmed
    · intro harmed
      simpa [claims, StanzaTask.won] using h.unclaimed harmed

/-! ## The loop goes on -/

/-- A set flag is seen by a stanza that is still to come. -/
def Live (s : PullSystem) : Prop :=
  s.first.armed = true → s.client.offlineBatch.prevBatchInflight = true → s.AnswerPending

/-- When a task sets the flag again, a stanza is still to come. -/
def Timely (s : PullSystem) (event : PullEvent) : Prop :=
  ∀ i generation, event = .continuation i →
    s.continuations[i]? = some (.republish generation) → s.AnswerPending

/-- The events of a run are timely, each where it happens. -/
def TimelyRun : PullSystem → List PullEvent → Prop
  | _, [] => True
  | s, event :: events => s.Timely event ∧ ∀ s', s.step event = some s' → TimelyRun s' events

instance decidableTimely (s : PullSystem) : (event : PullEvent) → Decidable (s.Timely event)
  | .continuation i =>
    decidable_of_iff (∀ task ∈ s.continuations[i]?, task matches .republish _ → s.AnswerPending)
      ⟨fun h j generation hevent htask => by
        cases hevent
        exact h _ htask rfl,
      fun h task htask hrepublish => by
        cases task with
        | republish generation => exact h i generation rfl htask
        | _ => cases hrepublish⟩
  | .first | .stanza _ | .serve _ | .arrive => isTrue nofun

instance decidableTimelyRun (s : PullSystem) :
    (events : List PullEvent) → Decidable (s.TimelyRun events)
  | [] => isTrue trivial
  | event :: events =>
    have := fun s' => decidableTimelyRun s' events
    inferInstanceAs (Decidable (_ ∧ ∀ s' ∈ s.step event, s'.TimelyRun events))

/-- Everything is released once everything is counted. -/
theorem Inv.released_eq (h : s.Inv)
    (hall : s.client.totalMessages ≤ s.client.processedMessages) :
    s.released = s.client.totalMessages := by
  have hcounted := h.counted
  have hle := h.released_le
  omega

theorem Live.afterFirst (h : s.Live) : s.afterFirst.Live := by
  unfold Live AnswerPending PullSystem.afterFirst at *
  cases hs : s.first with
  | loadConnection | storeGeneration _ | storeActivity | storeInflight =>
    intro harmed
    cases harmed
  | storeArmed => exact fun _ _ => .inr (.inr (.inr (.inl rfl)))
  | send => exact fun _ _ => .inr (.inr (.inl (Nat.succ_pos _)))
  | sending | returned =>
    rw [hs] at h
    exact h

theorem Live.afterStanza (h : s.Live) (hinv : s.Inv) {task : StanzaTask}
    (htask : s.stanzas[i]? = some task) : (s.afterStanza i task).Live := by
  have hadv := StanzaTask.advances (hinv.stanzas task (List.mem_of_getElem? htask))
  unfold PullSystem.afterStanza
  generalize task.run s.client = result at hadv
  obtain ⟨c', next, scheduled⟩ := result
  intro harmed hflag
  have htotal := hadv.follows.total
  have hbefore := hadv.clears hflag
  rcases h harmed hbefore with hall | hin | hreq | hunsent | ⟨t, ht, hprospective⟩
  · exact .inl (hall.trans htotal.symm)
  · exact .inr (.inl hin)
  · exact .inr (.inr (.inl hreq))
  · exact .inr (.inr (.inr (.inl hunsent)))
  · by_cases hne : t = task
    · subst hne
      rcases hadv.passes hprospective (hinv.armed.trans harmed) (hinv.first.generation harmed)
        hinv.inactive with ⟨t', ht', hpros'⟩ | hclear | hall
      · exact .inr (.inr (.inr (.inr ⟨t', mem_replaceAt_next ht', hpros'⟩)))
      · exact absurd (hclear.symm.trans hflag) (by decide)
      · exact .inl ((hinv.released_eq hall).trans htotal.symm)
    · exact .inr (.inr (.inr (.inr ⟨t, mem_replaceAt_of_ne htask ht hne, hprospective⟩)))

theorem live_afterContinuation (hinv : s.Inv) {task : ContinuationTask}
    (htask : s.continuations[i]? = some task)
    (htimely : ∀ generation, task = .republish generation → s.AnswerPending) :
    (s.afterContinuation i task).Live := by
  unfold PullSystem.afterContinuation
  have hmem := List.mem_of_getElem? htask
  obtain ⟨harmed, hflag⟩ := hinv.of_continuation hmem
  rcases ContinuationTask.run_cases (hinv.continuations task hmem) (hinv.armed.trans harmed)
    (hinv.first.generation harmed) hinv.incomplete with
    ⟨generation, htask, hrun⟩ | ⟨k', sent, hrun, -⟩
  · rw [hrun]
    exact fun _ _ => htimely generation htask
  · rw [hrun]
    exact fun _ hset => absurd (hflag.symm.trans hset) (by decide)

theorem Live.step (h : s.Live) (hinv : s.Inv) (htimely : s.Timely event)
    (hstep : s.step event = some s') : s'.Live := by
  obtain ⟨-, rfl⟩ | ⟨i, task, -, htask, rfl⟩ | ⟨i, task, hevent, htask, rfl⟩ |
    ⟨count, hrequests, hmay, rfl⟩ | ⟨hinFlight, rfl⟩ := step_cases hstep
  · exact h.afterFirst
  · exact h.afterStanza hinv htask
  · refine live_afterContinuation hinv htask fun generation heq => ?_
    exact htimely i generation hevent (heq ▸ htask)
  · intro harmed hflag
    obtain ⟨-, hle, hsome⟩ := hmay
    -- the answer to the request is something, or everything was released before
    by_cases hleft : s.released < s.client.totalMessages
    · exact .inr (.inl (by dsimp only; omega))
    · exact .inl (by dsimp only; omega)
  · intro harmed hflag
    refine .inr (.inr (.inr (.inr ⟨.loadActive, ?_, rfl⟩)))
    exact List.mem_append_right _ (List.mem_singleton_self _)

/-! ## Runs -/

variable {events : List PullEvent}

theorem run_cons (h : s.run (event :: events) = some s') :
    ∃ next, s.step event = some next ∧ next.run events = some s' :=
  Option.bind_eq_some_iff.mp h

theorem Inv.run (h : s.Inv) (hrun : s.run events = some s') : s'.Inv := by
  induction events generalizing s with
  | nil =>
    cases hrun
    exact h
  | cons event events ih =>
    obtain ⟨next, hstep, hrun⟩ := run_cons hrun
    exact ih (h.step hstep) hrun

theorem Live.run (h : s.Live) (hinv : s.Inv) (htimely : s.TimelyRun events)
    (hrun : s.run events = some s') : s'.Live := by
  induction events generalizing s with
  | nil =>
    cases hrun
    exact h
  | cons event events ih =>
    obtain ⟨next, hstep, hrun⟩ := run_cons hrun
    exact ih (h.step hinv htimely.1 hstep) (hinv.step hstep) (htimely.2 next hstep) hrun

theorem Inv.length_continuations_le (h : s.Inv) : s.continuations.length ≤ 1 := by
  have hclaims : s.claims = s.stanzas.countP StanzaTask.won + s.continuations.length := rfl
  cases harmed : s.first.armed with
  | false =>
    have := h.unclaimed harmed
    omega
  | true =>
    have := h.token harmed
    omega

theorem Inv.released_of_quiescent (h : s.Inv) (hlive : s.Live) (hquiet : s.Quiescent) :
    s.released = s.client.totalMessages := by
  obtain ⟨hfirst, hrequests, hcontinuations, hinFlight, hstanzas⟩ := hquiet
  have harmed : s.first.armed = true := by
    rw [hfirst]
    rfl
  have htoken := h.token harmed
  have hflag : s.client.offlineBatch.prevBatchInflight = true := by
    simpa [claims, hstanzas, hcontinuations] using htoken
  rcases hlive harmed hflag with hall | hin | hreq | hunsent | ⟨t, ht, -⟩
  · exact hall
  · omega
  · omega
  · rw [hfirst] at hunsent
    cases hunsent
  · rw [hstanzas] at ht
    cases ht

/-- No run has two scheduled tasks at a time, and a run in which a stanza is still to come
whenever the flag is set again stops only when the whole backlog is released. -/
theorem pull_loop_runs (connectionGeneration primer rest : Nat) :
    (∀ events s, (start connectionGeneration primer rest).run events = some s →
      s.continuations.length ≤ 1) ∧
    (∀ events s, (start connectionGeneration primer rest).run events = some s →
      (start connectionGeneration primer rest).TimelyRun events → s.Quiescent →
      s.released = s.client.totalMessages) := by
  have hinv := inv_start connectionGeneration primer rest
  refine ⟨fun events s hrun => (hinv.run hrun).length_continuations_le, ?_⟩
  intro events s hrun htimely hquiet
  have hlive : (start connectionGeneration primer rest).Live := fun harmed => by cases harmed
  exact (hinv.run hrun).released_of_quiescent (hlive.run hinv htimely hrun) hquiet

/-- A backlog of four.  Two continuations send their requests and set the flag again before
the answer arrives, the second one with nothing left to release. -/
def drainedEvents : List PullEvent :=
  List.replicate 7 .first ++ [.serve 1] ++ .arrive :: List.replicate 10 (.stanza 0)
    ++ .arrive :: List.replicate 9 (.stanza 0) ++ List.replicate 10 (.continuation 0) ++ [.serve 2]
    ++ .arrive :: List.replicate 10 (.stanza 0) ++ .arrive :: List.replicate 9 (.stanza 0)
    ++ List.replicate 10 (.continuation 0) ++ [.serve 0]

theorem pull_loop_runs_drained :
    ∃ s, (start 7 1 3).run drainedEvents = some s ∧ (start 7 1 3).TimelyRun drainedEvents ∧
      s.Quiescent ∧ s.client.totalMessages = 4 ∧ s.released = s.client.totalMessages := by
  have hrun : (start 7 1 3).run drainedEvents = some _ := rfl
  have htimely : (start 7 1 3).TimelyRun drainedEvents := by decide +kernel
  refine ⟨_, hrun, htimely, ?_, rfl, (pull_loop_runs 7 1 3).2 _ _ hrun htimely ?_⟩ <;>
  · unfold Quiescent
    decide

/-- The answer to the second request is processed before the task that sent it sets the
flag again, and a stanza of the backlog is never released. -/
theorem pull_loop_stops_early :
    ∃ events s, (start 7 1 3).run events = some s ∧ s.Quiescent ∧
      s.released < s.client.totalMessages := by
  refine ⟨List.replicate 7 .first ++ [.serve 1, .arrive] ++ List.replicate 10 (.stanza 0) ++
    [.arrive] ++ List.replicate 9 (.stanza 0) ++ List.replicate 6 (.continuation 0) ++
    [.serve 1, .arrive] ++ List.replicate 9 (.stanza 0) ++ List.replicate 4 (.continuation 0),
    ?_⟩
  refine ⟨_, rfl, ?_, ?_⟩
  · unfold Quiescent
    decide
  · decide

/-- No run counts a stanza that the server has not released, and the count closes the drain
only when every stanza of the backlog has arrived and is counted.  The end marker and the
watchdog, which close it without the count, have no event here. -/
theorem drain_closes_last (connectionGeneration primer rest : Nat)
    (hrun : (start connectionGeneration primer rest).run events = some s) :
    s.client.processedMessages ≤ s.released ∧ s.released ≤ s.client.totalMessages ∧
      (s.client.active = false → s.client.processedMessages = s.client.totalMessages ∧
        s.inFlight = 0 ∧ s.stanzas.countP StanzaTask.uncounted = 0) := by
  have h := (inv_start connectionGeneration primer rest).run hrun
  have hcounted := h.counted
  have hreleased := h.released_le
  refine ⟨by omega, hreleased, fun hclosed => ?_⟩
  have hall := h.inactive hclosed
  omega

/-- The count closes the drain with the fourth stanza. -/
theorem drain_closes_last_drained :
    ∃ s, (start 7 1 3).run drainedEvents = some s ∧ s.client.active = false ∧
      s.client.totalMessages = 4 ∧ s.client.processedMessages = s.client.totalMessages := by
  have hrun : (start 7 1 3).run drainedEvents = some _ := rfl
  exact ⟨_, hrun, rfl, rfl, ((drain_closes_last 7 1 3 hrun).2.2 rfl).1⟩

end PullSystem

end WaCore.Inbound
