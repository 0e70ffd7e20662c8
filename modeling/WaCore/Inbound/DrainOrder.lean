import WaCore.Inbound.CommitQueue
import WaCore.Inbound.DispatchRecovery
import WaCore.Inbound.DrainTasks

/-!
# The order of the drain

However the tasks around the batcher interleave, the messages of the drain are
handed over in the order in which they arrived, none is lost, and no live message
comes before one of them.

During the drain there is one permit, so a task that holds it is alone with the
batch: `Running` is what holds while such a task runs, and `Inv` between two steps.
A running task takes the whole batch, so nothing is left when it switches to live
mode after its commit.
-/

namespace WaCore.Inbound

/-! ## Invariants -/

variable {c : Client}

namespace Task

/-- The commit of a drained batch that the task waits for. -/
def drainCommit (task : Task) : Option Commit := task.commit.filter (·.origin = .offlineDrain)

/-- The task has taken the batch. -/
def tookBatch (task : Task) : Prop :=
  task.drainCommit.isSome ∨ ∃ permit call wasDraining, task = .flushSignal permit call wasDraining

/-- The connection that the task works for. -/
def generation : Task → Option Nat
  | flush call | flushCommit _ call _ _ | flushSignal _ call _ => call.expectedGeneration
  | publishing generation _ => some generation
  | _ => none

/-- What holds of a task that waits. -/
structure Ok (setup : Setup) (c : Client) (task : Task) : Prop where
  fits : ∀ commit, task.commit = some commit → commit.Fits setup c
  taken : task.tookBatch → c.batcher.entries = []
  current : ∀ g, task.generation = some g → g ≤ c.connectionGeneration
  published : ∀ g, task = .publishing g true →
    g < c.connectionGeneration ∨ c.batcher.active = false

variable {task : Task}

theorem commit_eq_none_of_permit (h : task.permit = none) : task.commit = none := by
  cases task <;> first | rfl | cases h

theorem not_tookBatch (hcommit : task.commit = none)
    (hsignal : ∀ permit call wasDraining, task ≠ .flushSignal permit call wasDraining) :
    ¬ task.tookBatch := by
  rintro (hdrain | ⟨permit, call, wasDraining, htask⟩)
  · rw [drainCommit, hcommit] at hdrain
    cases hdrain
  · exact hsignal permit call wasDraining htask

theorem not_tookBatch_of_permit (h : task.permit = none) : ¬ task.tookBatch := by
  refine not_tookBatch (commit_eq_none_of_permit h) ?_
  rintro permit call wasDraining rfl
  cases h

theorem drainCommit_eq_none_of_permit (h : task.permit = none) : task.drainCommit = none := by
  rw [drainCommit, commit_eq_none_of_permit h]
  rfl

/-- In live mode no drained batch is being committed. -/
theorem Ok.drainCommit_eq_none {setup : Setup} (h : task.Ok setup c)
    (hlive : c.batcher.active = false) : task.drainCommit = none := by
  rw [drainCommit, Option.filter_eq_none_iff]
  intro commit hcommit horigin
  exact (h.fits commit hcommit).not_drain hlive (of_decide_eq_true horigin)

theorem Ok.congr {setup : Setup} {c' : Client} (h : task.Ok setup c)
    (hactive : c'.batcher.active = c.batcher.active)
    (hgeneration : c'.connectionGeneration = c.connectionGeneration)
    (hentries : task.tookBatch → c'.batcher.entries = []) : task.Ok setup c' where
  fits commit hcommit := (h.fits commit hcommit).congr hactive
  taken := hentries
  current g hg := by
    rw [hgeneration]
    exact h.current g hg
  published g hg := by
    rw [hgeneration, hactive]
    exact h.published g hg

end Task

namespace System

variable (setup : Setup)

/-- Nobody holds the permit of the drain, or one task does. -/
def Serialized (s : System) : Prop :=
  (s.client.semaphore.available = 1 ∧ ∀ t, (s.tasks t).permit = none)
    ∨ ∃ t, s.client.semaphore.available = 0
      ∧ (s.tasks t).permit = some s.client.semaphore.generation
      ∧ ∀ t', t' ≠ t → (s.tasks t').permit = none

/-- The commit of a drained batch that the system waits for, if any. -/
def Drains (s : System) (commit : Option Commit) : Prop :=
  ∃ t, (s.tasks t).drainCommit = commit ∧ ∀ t', t' ≠ t → (s.tasks t').drainCommit = none

/-- What holds between two steps. -/
structure Inv (s : System) : Prop where
  tasks : ∀ t, (s.tasks t).Ok setup s.client
  permits : s.client.batcher.active = true → s.Serialized
  live : s.client.batcher.active = false → s.client.batcher.entries = []
  logged : s.client.Logged setup
  moves : ∃ commit, s.Drains commit ∧ Moves setup .empty (s.client.queueWith commit)

/-- What holds while a task runs that has a permit. -/
structure Running (s : System) (t permit : Nat) (commit : Option Commit) : Prop where
  others : ∀ t', t' ≠ t → (s.tasks t').Ok setup s.client
  alone : s.client.batcher.active = true → s.client.semaphore.available = 0
    ∧ permit = s.client.semaphore.generation ∧ ∀ t', t' ≠ t → (s.tasks t').permit = none
  live : s.client.batcher.active = false → s.client.batcher.entries = [] ∧ commit = none
  logged : s.client.Logged setup
  moves : Moves setup .empty (s.client.queueWith commit)

variable {setup : Setup} {s : System} {t permit : Nat} {commit : Option Commit} {task : Task}

/-! ## From one step to the next -/

/-- A task with a permit runs. -/
theorem Inv.running (h : Inv setup s) (htask : s.tasks t = task)
    (hpermit : task.permit = some permit) : Running setup s t permit task.drainCommit := by
  subst htask
  obtain ⟨commit, ⟨t₀, hcommit, hothers⟩, hmoves⟩ := h.moves
  have halone : s.client.batcher.active = true → s.client.semaphore.available = 0
      ∧ permit = s.client.semaphore.generation ∧ ∀ t', t' ≠ t → (s.tasks t').permit = none := by
    intro hactive
    rcases h.permits hactive with ⟨-, hnone⟩ | ⟨t₁, havailable, hpermit₁, hnone⟩
    · rw [hnone t] at hpermit
      cases hpermit
    · by_cases ht : t = t₁
      · subst ht
        rw [hpermit] at hpermit₁
        exact ⟨havailable, Option.some_inj.mp hpermit₁, hnone⟩
      · rw [hnone t ht] at hpermit
        cases hpermit
  have hsame : commit = (s.tasks t).drainCommit := by
    by_cases ht : t₀ = t
    · rw [← hcommit, ht]
    · rw [hothers t fun heq => ht heq.symm, ← hcommit]
      cases hactive : s.client.batcher.active with
      | true => exact Task.drainCommit_eq_none_of_permit ((halone hactive).2.2 t₀ ht)
      | false => exact (h.tasks t₀).drainCommit_eq_none hactive
  exact ⟨fun t' _ => h.tasks t', halone,
    fun hlive => ⟨h.live hlive, (h.tasks t).drainCommit_eq_none hlive⟩, h.logged, hsame ▸ hmoves⟩

/-- A task runs that has just got its permit. -/
theorem Inv.acquire (h : Inv setup s) (havailable : 0 < s.client.semaphore.available) :
    Running setup s.acquire t s.client.semaphore.generation none := by
  obtain ⟨commit, ⟨t₀, hcommit, hothers⟩, hmoves⟩ := h.moves
  have hfree : s.client.batcher.active = true → s.client.semaphore.available = 1
      ∧ ∀ t, (s.tasks t).permit = none := by
    intro hactive
    rcases h.permits hactive with hfree | ⟨t₁, hnone, -⟩
    · exact hfree
    · omega
  have hcommit₀ : commit = none := by
    rw [← hcommit]
    cases hactive : s.client.batcher.active with
    | true => exact Task.drainCommit_eq_none_of_permit ((hfree hactive).2 t₀)
    | false => exact (h.tasks t₀).drainCommit_eq_none hactive
  subst hcommit₀
  refine ⟨fun t' _ => ?_, fun hactive => ⟨?_, rfl, fun t' _ => (hfree hactive).2 t'⟩,
    fun hlive => ⟨h.live hlive, rfl⟩, h.logged.congr rfl id, hmoves⟩
  · exact (h.tasks t').congr rfl rfl (h.tasks t').taken
  · show s.client.semaphore.available - 1 = 0
    rw [(hfree hactive).1]

/-- In live mode the others have no drained batch; before it they have no permit. -/
theorem Running.drainCommit_eq_none (h : Running setup s t permit commit) {t' : Nat}
    (ht' : t' ≠ t) : (s.tasks t').drainCommit = none := by
  cases hactive : s.client.batcher.active with
  | true => exact Task.drainCommit_eq_none_of_permit ((h.alone hactive).2.2 t' ht')
  | false => exact (h.others t' ht').drainCommit_eq_none hactive

@[simp] theorem setTask_same (s : System) (t : Nat) (task : Task) :
    (s.setTask t task).tasks t = task := by
  simp [setTask]

theorem setTask_ne (s : System) {t' : Nat} (task : Task) (h : t' ≠ t) :
    (s.setTask t task).tasks t' = s.tasks t' := by
  simp [setTask, h]

theorem forall_setTask {P : Task → Prop} (h : P task) (hothers : ∀ t', t' ≠ t → P (s.tasks t')) :
    ∀ t', P ((s.setTask t task).tasks t') :=
  (Function.forall_update_iff s.tasks fun _ => P).mpr ⟨h, hothers⟩

/-- The task waits again, and keeps its permit. -/
theorem Running.setTask (h : Running setup s t permit commit)
    (hpermit : task.permit = some permit) (hcommit : task.drainCommit = commit)
    (hok : task.Ok setup s.client) : Inv setup (s.setTask t task) := by
  refine ⟨forall_setTask hok h.others, fun hactive => .inr ⟨t, (h.alone hactive).1, ?_,
    fun t' ht' => ?_⟩, fun hlive => (h.live hlive).1, h.logged, commit, ⟨t, ?_, fun t' ht' => ?_⟩,
    h.moves⟩
  · rw [setTask_same, hpermit, (h.alone hactive).2.1]
    rfl
  · rw [setTask_ne s task ht']
    exact (h.alone hactive).2.2 t' ht'
  · rw [setTask_same, hcommit]
  · rw [setTask_ne s task ht']
    exact h.drainCommit_eq_none ht'

/-- A task without a permit changes what it waits for. -/
theorem Inv.setTask (h : Inv setup s) (hbefore : (s.tasks t).permit = none)
    (hpermit : task.permit = none) (hok : task.Ok setup s.client) :
    Inv setup (s.setTask t task) := by
  have hsame : ∀ t', ((s.setTask t task).tasks t').permit = (s.tasks t').permit
      ∧ ((s.setTask t task).tasks t').drainCommit = (s.tasks t').drainCommit := by
    intro t'
    by_cases ht' : t' = t
    · rw [ht', setTask_same, hpermit, hbefore, Task.drainCommit_eq_none_of_permit hpermit,
        Task.drainCommit_eq_none_of_permit hbefore]
      exact ⟨rfl, rfl⟩
    · rw [setTask_ne s task ht']
      exact ⟨rfl, rfl⟩
  obtain ⟨commit, ⟨t₀, hcommit, hothers⟩, hmoves⟩ := h.moves
  refine ⟨forall_setTask hok fun t' _ => h.tasks t', fun hactive => ?_, h.live, h.logged, commit,
    ⟨t₀, ?_, fun t' ht' => ?_⟩, hmoves⟩
  · rcases h.permits hactive with ⟨havailable, hnone⟩ | ⟨t₁, havailable, hpermit₁, hnone⟩
    · exact .inl ⟨havailable, fun t' => (hsame t').1.trans (hnone t')⟩
    · exact .inr ⟨t₁, havailable, (hsame t₁).1.trans hpermit₁,
        fun t' ht' => (hsame t').1.trans (hnone t' ht')⟩
  · rw [(hsame t₀).2, hcommit]
  · rw [(hsame t').2, hothers t' ht']

/-- The task gives its permit back. -/
theorem Running.release (h : Running setup s t permit none) (hpermit : task.permit = none)
    (hok : task.Ok setup s.client) : Inv setup (s.release permit t task) := by
  have hstable : ∀ task' : Task, task'.Ok setup s.client →
      task'.Ok setup (s.release permit t task).client := fun task' hok' =>
    hok'.congr rfl rfl hok'.taken
  refine ⟨forall_setTask (hstable task hok) fun t' ht' => hstable _ (h.others t' ht'),
    fun hactive => .inl ⟨?_, forall_setTask (P := (·.permit = none)) hpermit (h.alone hactive).2.2⟩,
    fun hlive => (h.live hlive).1, h.logged.congr rfl id, none, ⟨t, ?_, fun t' ht' => ?_⟩, h.moves⟩
  · obtain ⟨havailable, hcurrent, -⟩ := h.alone hactive
    show (if permit = s.client.semaphore.generation then
      { s.client.semaphore with available := s.client.semaphore.available + 1 }
      else s.client.semaphore).available = 1
    rw [if_pos hcurrent, havailable]
  · rw [System.release, setTask_same, Task.drainCommit_eq_none_of_permit hpermit]
  · rw [System.release, setTask_ne _ _ ht']
    exact h.drainCommit_eq_none ht'

/-- The client changes, and stays in its mode. -/
theorem Running.update (h : Running setup s t permit commit) {commit' : Option Commit}
    (hmode : Client.SameMode s.client c) (hlogged : c.Logged setup)
    (hmoves : Moves setup (s.client.queueWith commit) (c.queueWith commit'))
    (hlive : s.client.batcher.active = false → c.batcher.entries = [] ∧ commit' = none) :
    Running setup { s with client := c } t permit commit' := by
  refine ⟨fun t' ht' => (h.others t' ht').congr hmode.active hmode.generation fun htook => ?_,
    fun hactive => ?_, fun hinactive => hlive (hmode.active ▸ hinactive), hlogged,
    h.moves.trans hmoves⟩
  · cases hactive : s.client.batcher.active with
    | true => exact absurd htook (Task.not_tookBatch_of_permit ((h.alone hactive).2.2 t' ht'))
    | false => exact (hlive hactive).1
  · obtain ⟨havailable, hpermit, hnone⟩ := h.alone (hmode.active ▸ hactive)
    refine ⟨?_, ?_, hnone⟩
    · rw [hmode.semaphore, havailable]
    · rw [hmode.semaphore, hpermit]

/-- The running task switches to live mode, with nothing left in the batch. -/
theorem Running.deactivate (h : Running setup s t permit none)
    (hentries : s.client.batcher.entries = []) (hactive : c.batcher.active = false)
    (hempty : c.batcher.entries = [])
    (hgeneration : c.connectionGeneration = s.client.connectionGeneration)
    (hhistory : c.history = s.client.history) :
    Running setup { s with client := c } t permit none := by
  have hinactive : ∀ {P : Prop}, c.batcher.active = true → P := fun h => by
    rw [hactive] at h
    cases h
  refine ⟨fun t' ht' => ⟨fun commit hcommit => ⟨?_, ?_⟩, fun _ => hempty, fun g hg => ?_,
    fun g _ => .inr hactive⟩, fun h => hinactive h, fun _ => ⟨hempty, rfl⟩,
    h.logged.congr hhistory hinactive, ?_⟩
  · have hnone := h.drainCommit_eq_none ht'
    rw [Task.drainCommit, Option.filter_eq_none_iff] at hnone
    exact ⟨fun horigin => absurd (decide_eq_true horigin) (hnone commit hcommit), hinactive⟩
  · exact ((h.others t' ht').fits commit hcommit).hook
  · rw [hgeneration]
    exact (h.others t' ht').current g hg
  · have hqueue : c.queueWith none = s.client.queueWith none := by
      rw [Client.queueWith, Client.queueWith, Client.queue, Client.queue, hhistory, hempty, hentries]
    rw [hqueue]
    exact h.moves

/-! ## Commits of a running task -/

/-- A running task has got this far with a commit. -/
structure After (setup : Setup) (s : System) (t permit : Nat) (r : Client × Progress) : Prop where
  running : Running setup { s with client := r.1 } t permit (drainPart r.2.commit)
  fits : ∀ commit, r.2 = .waiting commit → commit.Fits setup r.1
  empty : r.2 ≠ .done false → r.1.batcher.entries = []
  generation : r.1.connectionGeneration = s.client.connectionGeneration

variable {r : Client × Progress}

theorem Running.after (commit : Option Commit) (h : Running setup s t permit (drainPart commit))
    (hr : Client.Commits setup s.client commit r) : After setup s t permit r := by
  refine ⟨h.update hr.mode (hr.logged h.logged) hr.moves fun hlive => ⟨hr.empty (.inr hlive), ?_⟩,
    fun commit' hcommit' => (hr.fits commit' hcommit').congr hr.mode.active,
    fun hdone => hr.empty (.inl hdone), hr.mode.generation⟩
  cases hprogress : r.2 with
  | done durable => rfl
  | waiting commit' =>
    exact drainPart_of_live commit' ((hr.fits commit' hprogress).not_drain hlive)

/-- The running task takes the batch. -/
theorem Running.takeAndCommit (h : Running setup s t permit none) :
    After setup s t permit (s.client.takeAndCommit setup) :=
  Running.after none h (Client.commits_takeAndCommit fun hlive => (h.live hlive).1)

/-! ## The tasks of the system -/

theorem ok_of_trivial (hcommit : task.commit = none)
    (hsignal : ∀ permit call wasDraining, task ≠ .flushSignal permit call wasDraining)
    (hgeneration : task.generation = none) (hpublished : ∀ g, task ≠ .publishing g true) :
    task.Ok setup c where
  fits commit h := by
    rw [hcommit] at h
    cases h
  taken h := absurd h (Task.not_tookBatch hcommit hsignal)
  current g h := by
    rw [hgeneration] at h
    cases h
  published g h := absurd h (hpublished g)

theorem ok_idle (c : Client) : Task.idle.Ok setup c := ok_of_trivial rfl nofun rfl nofun

theorem ok_stanza (c : Client) (permit : Nat) : (Task.stanza permit).Ok setup c :=
  ok_of_trivial rfl nofun rfl nofun

theorem Running.completeDeferred (h : Running setup s t permit none)
    (hentries : s.client.batcher.entries = []) :
    Running setup { s with client := s.client.completeDeferredLiveTransition } t permit none :=
  h.deactivate hentries rfl hentries rfl rfl

/-- The task waits for its commit. -/
theorem After.wait {client : Client} {commit : Commit}
    (h : After setup s t permit (client, .waiting commit)) (hpermit : task.permit = some permit)
    (hcommit : task.commit = some commit)
    (hcurrent : ∀ g, task.generation = some g → g ≤ client.connectionGeneration)
    (hpublished : ∀ g, task ≠ .publishing g true) :
    Inv setup (System.setTask { s with client } t task) := by
  refine h.running.setTask hpermit (congrArg drainPart hcommit)
    ⟨fun commit' hcommit' => ?_, fun _ => h.empty (by rintro ⟨⟩), hcurrent,
      fun g hg => absurd hg (hpublished g)⟩
  obtain rfl := Option.some.inj (hcommit.symm.trans hcommit')
  exact h.fits commit rfl

theorem After.stanza (h : After setup s t permit r) (last : Bool) :
    Inv setup (s.stanzaProgress t permit last r) := by
  obtain ⟨client, progress⟩ := r
  cases progress with
  | waiting commit => exact h.wait rfl rfl nofun nofun
  | done durable =>
    have hrunning : Running setup { s with client } t permit none := h.running
    cases last with
    | false => exact hrunning.setTask rfl rfl (ok_stanza client permit)
    | true =>
      rw [stanzaProgress, if_pos rfl]
      split
      · rename_i hdeferred
        obtain rfl : durable = true := (Bool.and_eq_true_iff.mp hdeferred).1
        exact (hrunning.completeDeferred (h.empty (by rintro ⟨⟩))).release rfl (ok_idle _)
      · exact hrunning.release rfl (ok_idle client)

section Flush

variable {call : FlushCall} {durable : Bool} (h : Running setup s t permit none)
  (hcurrent : ∀ g, call.expectedGeneration = some g → g ≤ s.client.connectionGeneration)
include h hcurrent

/-- The task of the finisher after its flush. -/
theorem Running.flushReturn
    (hpublished : ∀ g, call = .finisher g → durable = true →
      g < s.client.connectionGeneration ∨ s.client.batcher.active = false) :
    Inv setup (s.flushReturn t permit call durable) := by
  cases call with
  | finisher generation =>
    refine h.release rfl ⟨nofun, fun htook => absurd htook (Task.not_tookBatch_of_permit rfl),
      ?_, ?_⟩
    · rintro g ⟨⟩
      exact hcurrent generation rfl
    · rintro g ⟨⟩
      exact hpublished generation rfl rfl
  | timer epoch => exact h.release rfl (ok_idle _)
  | retry generation => exact h.release rfl (ok_idle _)
  | plain => exact h.release rfl (ok_idle _)

/-- A flush whose connection is gone leaves the mode alone. -/
theorem Running.flushStale
    (hstale : call.expectedGeneration.any (· ≠ s.client.connectionGeneration) = true) :
    Inv setup (s.flushReturn t permit call durable) := by
  refine h.flushReturn hcurrent fun g hcall _ => .inl ?_
  subst hcall
  have hne : g ≠ s.client.connectionGeneration := by
    simpa [FlushCall.expectedGeneration] using hstale
  exact Nat.lt_of_le_of_ne (hcurrent g rfl) hne

theorem Running.flushDone (wasDraining : Bool)
    (hempty : durable = true → s.client.batcher.entries = []) :
    Inv setup (s.flushDone t permit call wasDraining durable) := by
  rw [System.flushDone]
  split
  · rename_i hstale
    exact h.flushStale hcurrent hstale
  · cases hdurable : durable with
    | true =>
      have hentries := hempty hdurable
      split
      · have hlive := h.deactivate (c := { s.client with batcher := s.client.batcher.deactivate })
          hentries rfl hentries rfl rfl
        exact hlive.flushReturn hcurrent fun g _ _ => .inr rfl
      · rename_i hkeep
        have hnot : ∀ g, call = .finisher g → durable = true →
            g < s.client.connectionGeneration ∨ s.client.batcher.active = false := by
          rintro g rfl -
          exact absurd rfl hkeep
        split
        · have hlive := h.completeDeferred hentries
          exact hlive.flushReturn hcurrent fun g _ _ => .inr rfl
        · exact h.flushReturn hcurrent fun g hcall _ => hnot g hcall hdurable
    | false =>
      have hfail : ∀ g, call = .finisher g → false = true →
          g < s.client.connectionGeneration ∨ s.client.batcher.active = false := by
        rintro g - ⟨⟩
      rw [Bool.false_and]
      split
      · rw [if_neg (by decide)]
        split
        · have hdeferred := h.update
            (c := { s.client with batcher := s.client.batcher.deferLiveTransition })
            ⟨rfl, rfl, rfl⟩ (h.logged.congr rfl id) .refl h.live
          exact hdeferred.flushReturn hcurrent hfail
        · exact h.flushReturn hcurrent hfail
      · exact h.flushReturn hcurrent hfail

omit h hcurrent in
theorem After.flush (h : After setup s t permit r) (wasDraining : Bool)
    (hcurrent : ∀ g, call.expectedGeneration = some g → g ≤ s.client.connectionGeneration) :
    Inv setup (s.flushProgress t permit call wasDraining r) := by
  rw [← h.generation] at hcurrent
  obtain ⟨client, progress⟩ := r
  cases progress with
  | waiting commit => exact h.wait rfl rfl hcurrent nofun
  | done durable =>
    refine Running.flushDone h.running hcurrent wasDraining ?_
    rintro rfl
    exact h.empty (by rintro ⟨⟩)

/-- A flush that has its permit. -/
theorem Running.flushUnderPermit : Inv setup (s.flushUnderPermit setup t permit call) := by
  rw [System.flushUnderPermit]
  split
  · rename_i hstale
    exact h.flushStale hcurrent hstale
  · split
    · rename_i hepoch
      refine h.flushReturn hcurrent ?_
      rintro g rfl
      cases hepoch
    · split
      · rename_i hentries
        have hqueue : ({ s.client with batcher := s.client.batcher.take.2 } : Client).queueWith none
            = s.client.queueWith none := by
          rw [Client.queueWith, Client.queueWith, Client.queue, Client.queue, hentries]
          rfl
        have htaken : Running setup
            { s with client := { s.client with batcher := s.client.batcher.take.2 } } t permit none :=
          h.update ⟨rfl, rfl, rfl⟩ (h.logged.congr rfl id) (hqueue ▸ .refl) fun _ => ⟨rfl, rfl⟩
        exact htaken.setTask rfl rfl ⟨by rintro _ ⟨⟩, fun _ => rfl, hcurrent, by rintro _ ⟨⟩⟩
      · exact h.takeAndCommit.flush _ hcurrent

end Flush

theorem After.teardown (h : After setup s t permit r) :
    Inv setup (s.teardownProgress t permit r) := by
  obtain ⟨client, progress⟩ := r
  cases progress with
  | waiting commit => exact h.wait rfl rfl nofun nofun
  | done durable => exact h.running.setTask rfl rfl (ok_of_trivial rfl nofun rfl nofun)

/-- In live mode the semaphore does not matter. -/
theorem Inv.swapMessageSemaphore (h : Inv setup s) (hlive : s.client.batcher.active = false)
    (permits : Nat) : Inv setup { s with client := s.client.swapMessageSemaphore permits } where
  tasks t' := (h.tasks t').congr rfl rfl (h.tasks t').taken
  permits hactive := by
    rw [show s.client.batcher.active = true from hactive] at hlive
    cases hlive
  live := h.live
  logged := h.logged.congr rfl id
  moves := h.moves

theorem setTask_eq_self (h : s.tasks t = task) : s.setTask t task = s := by
  rw [setTask, ← h, Function.update_eq_self]

/-- A message joins the batch. -/
theorem Running.enqueue (h : Running setup s t permit none)
    (hactive : s.client.batcher.active = true) (item : InboundMessage) (trackCommit : Bool) :
    Running setup { s with client := (s.client.enqueueInboundCommit setup item trackCommit).1 }
      t permit none := by
  refine h.update ?_ ?_ (.single ?_) fun hlive => ?_
  · rw [Client.enqueueInboundCommit]
    split <;> exact ⟨rfl, rfl, rfl⟩
  · rw [Client.enqueueInboundCommit]
    split <;> exact ⟨h.logged.calls, h.logged.events, h.logged.handed, h.logged.noHook,
      h.logged.suppressed⟩
  · rw [Client.enqueueInboundCommit]
    split <;> exact .arrive (s.client.queueWith none) item
  · rw [hactive] at hlive
    cases hlive

/-- A task is dropped. -/
theorem Inv.cancel (h : Inv setup s) (t : Nat) : Inv setup (s.cancel setup t) := by
  cases hpermit : (s.tasks t).permit with
  | none =>
    rw [System.cancel, Task.commit_eq_none_of_permit hpermit]
    rw [hpermit]
    exact h.setTask hpermit rfl (ok_idle _)
  | some permit =>
    have hrunning := h.running rfl hpermit
    cases hcommit : (s.tasks t).commit with
    | none =>
      rw [Task.drainCommit, hcommit] at hrunning
      rw [System.cancel, hcommit]
      rw [hpermit]
      exact Running.release hrunning rfl (ok_idle _)
    | some commit =>
      have hfits := (h.tasks t).fits commit hcommit
      rw [Task.drainCommit, hcommit] at hrunning
      have hcancelled := Running.after (r := (s.client.cancelCommit setup commit, .done false))
        (some commit) hrunning ⟨Client.advances_cancelCommit hfits, by rintro _ ⟨⟩, fun hlive => ?_⟩
      · rw [System.cancel, hcommit]
        rw [hpermit]
        exact hcancelled.running.release rfl (ok_idle _)
      · have hinactive := hlive.resolve_left fun h => h rfl
        rw [Client.cancelCommit_of_live (hfits.not_drain hinactive)]
        exact h.live hinactive

theorem Inv.newGeneration (h : Inv setup s) : Inv setup { s with client := { s.client with
    connectionGeneration := s.client.connectionGeneration + 1 } } where
  tasks t :=
    ⟨fun commit hcommit => ⟨((h.tasks t).fits commit hcommit).mode,
        ((h.tasks t).fits commit hcommit).hook⟩, (h.tasks t).taken,
      fun g hg => Nat.le_succ_of_le ((h.tasks t).current g hg),
      fun g hg => ((h.tasks t).published g hg).imp_left Nat.lt_succ_of_lt⟩
  permits := h.permits
  live := h.live
  logged := h.logged.congr rfl id
  moves := h.moves

/-- The gate is accessed. -/
theorem Inv.access (h : Inv setup s) (event : GateEvent) (publications : Nat) :
    Inv setup { s with client := { s.client.access event with publications } } where
  tasks t := (h.tasks t).congr rfl rfl (h.tasks t).taken
  permits := h.permits
  live := h.live
  logged := ⟨h.logged.calls, h.logged.events, h.logged.handed, h.logged.noHook,
    fun m hm => (h.logged.suppressed m hm).append _⟩
  moves := h.moves

/-- The task of a commit that returns from an `await` runs, and goes on with it. -/
theorem Inv.resume (h : Inv setup s) {commit : Commit} (htask : s.tasks t = task)
    (hpermit : task.permit = some permit) (hcommit : task.commit = some commit)
    (ok : Bool) : After setup s t permit (s.client.resume setup commit ok) := by
  have hok : task.Ok setup s.client := htask ▸ h.tasks t
  have hfits := hok.fits commit hcommit
  have hrunning := h.running htask hpermit
  rw [Task.drainCommit, hcommit] at hrunning
  refine Running.after (some commit) hrunning (Client.commits_resume hfits ?_ _)
  cases hactive : s.client.batcher.active with
  | true =>
    refine hok.taken (.inl ?_)
    rw [Task.drainCommit, hcommit, show Option.filter _ (some commit) = some commit from
      drainPart_of_drain commit (hfits.mode.mpr hactive)]
    rfl
  | false => exact h.live hactive

/-- Every step keeps the invariant. -/
theorem Step.inv {s' : System} (hstep : Step setup s s') (h : Inv setup s) : Inv setup s' := by
  cases hstep with
  | startStanza t hidle havailable =>
    exact (h.acquire havailable).setTask rfl rfl (ok_stanza _ _)
  | @message t permit htask item trackCommit =>
    have hrunning := h.running htask rfl
    rw [commitOrBatchInbound]
    cases hactive : s.client.batcher.active with
    | false =>
      exact (Running.after none hrunning
        (Client.commits_live hactive (h.live hactive) item)).stanza false
    | true =>
      have hqueued := (Running.enqueue hrunning hactive item trackCommit).setTask rfl rfl
        (ok_stanza _ permit)
      have hself : System.setTask
          { s with client := (s.client.enqueueInboundCommit setup item trackCommit).1 } t
            (.stanza permit)
          = { s with client := (s.client.enqueueInboundCommit setup item trackCommit).1 } :=
        setTask_eq_self htask
      rw [hself] at hqueued
      exact hqueued
  | @identityChange t permit htask =>
    have hrunning := h.running htask rfl
    rw [commitHoldingPermit]
    split
    · exact (Running.takeAndCommit hrunning).stanza false
    · exact h
  | @stanzaCommit t permit commit last htask ok =>
    exact (h.resume htask rfl rfl ok).stanza last
  | @endStanza t permit htask =>
    have hrunning := h.running htask rfl
    rw [System.endStanza]
    split
    · exact (Running.takeAndCommit hrunning).stanza true
    · exact Running.release hrunning rfl (ok_idle _)
  | callFlush t hidle call hgeneration =>
    refine h.setTask (by rw [hidle]; rfl) rfl ⟨nofun,
      fun htook => absurd htook (Task.not_tookBatch_of_permit rfl), fun g hg => ?_, nofun⟩
    rw [show call.expectedGeneration = some g from hg] at hgeneration
    exact (of_decide_eq_true hgeneration).le
  | @startFlush t call htask havailable =>
    have hok := h.tasks t
    rw [htask] at hok
    exact (h.acquire havailable).flushUnderPermit hok.current
  | @flushCommit t permit call wasDraining commit htask ok =>
    have hok := h.tasks t
    rw [htask] at hok
    exact (h.resume htask rfl rfl ok).flush _ hok.current
  | @flushSignal t permit call wasDraining htask ok =>
    have hok := h.tasks t
    rw [htask] at hok
    exact Running.flushDone (h.running htask rfl) hok.current wasDraining fun _ =>
      hok.taken (.inr ⟨permit, call, wasDraining, rfl⟩)
  | @publishLive t generation durable htask claimed =>
    have hok := h.tasks t
    rw [htask] at hok
    have hbefore : (s.tasks t).permit = none := by
      rw [htask]
      rfl
    rw [System.publishLive]
    split
    · rename_i hpublish
      simp only [Bool.and_eq_true, decide_eq_true_eq] at hpublish
      obtain ⟨⟨hgeneration, -⟩, rfl⟩ := hpublish
      have hlive : s.client.batcher.active = false := by
        rcases hok.published generation rfl with hlt | hlive
        · omega
        · exact hlive
      exact (h.swapMessageSemaphore hlive 64).setTask hbefore rfl (ok_idle _)
    · exact h.setTask hbefore rfl (ok_idle _)
  | callTeardown t hidle =>
    exact h.setTask (by rw [hidle]; rfl) rfl (ok_of_trivial rfl nofun rfl nofun)
  | @startTeardown t htask havailable =>
    exact (h.acquire havailable).takeAndCommit.teardown
  | @teardownCommit t permit commit htask ok =>
    exact (h.resume htask rfl rfl ok).teardown
  | @settled t permit htask =>
    have hrunning := h.running htask rfl
    exact Running.release hrunning rfl (ok_idle _)
  | newGeneration => exact h.newGeneration
  | cancel t => exact h.cancel t
  | recover m => exact h.access _ _
  | access event => exact h.access event _

theorem inv_start : Inv setup start where
  tasks _ := ok_idle _
  permits _ := .inl ⟨rfl, fun _ => rfl⟩
  live h := by cases h
  logged := ⟨.nil, .nil, fun _ => rfl, fun _ => rfl, nofun⟩
  moves := ⟨none, ⟨0, rfl, fun _ _ => rfl⟩, .refl⟩

theorem Reachable.inv (h : Reachable setup s) : Inv setup s := by
  induction h with
  | start => exact inv_start
  | step _ hstep ih => exact hstep.inv ih

/-! ## The drain -/

/-- A client without a hook, and messages with two identities. -/
def sampleSetup : Setup where
  wire message := [UInt8.ofNat message]
  carriesSecretEncrypted _ := false
  info info := ⟨if info < 12 then "A" else "B",
    ⟨⟨"1", .pn, 0, 0, 0⟩, ⟨"1", .pn, 0, 0, 0⟩, false, none, none⟩⟩
  hashOne identity := if identity.id = "A" then 1 else 2
  digest bytes := .replicate 16 (bytes.headD 0)
  hook := false
  dispatchGate := true

/-- A message, its resend and one that was recovered before are drained.  The first flush
fails; the flush at the end of the drain takes the batch and commits it, and a live message
follows. -/
theorem exists_drained : ∃ s s', Reachable sampleSetup s ∧ s.client.batcher.active = true
    ∧ s.tasks 1 = .flushCommit 0 (.finisher 0) true
      ⟨[⟨1, 10⟩, ⟨2, 12⟩], [⟨1, 10⟩, ⟨2, 12⟩], .offlineDrain, none, .flushing⟩
    ∧ Reachable sampleSetup s' ∧ s'.client.history.arrived = [⟨1, 10⟩, ⟨1, 11⟩, ⟨2, 12⟩]
    ∧ s'.client.history.collapsed = [⟨1, 11⟩] ∧ s'.client.history.recovered = [⟨2, 12⟩]
    ∧ s'.client.history.events = [(.offlineDrain, [⟨1, 10⟩]), (.live, [⟨3, 13⟩])] := by
  have h₀ : Reachable sampleSetup _ := .step .start (.recover start ⟨2, 20⟩)
  have h₁ := h₀.step (.access _ (.complete 0) rfl)
  have h₂ := h₁.step (.startStanza _ 0 rfl (by decide))
  have h₃ := h₂.step (.message _ (t := 0) rfl ⟨1, 10⟩ false)
  have h₄ := h₃.step (.message _ (t := 0) rfl ⟨1, 11⟩ false)
  have h₅ := h₄.step (.message _ (t := 0) rfl ⟨2, 12⟩ false)
  have h₆ := h₅.step (.endStanza _ (t := 0) rfl)
  have h₇ := h₆.step (.callFlush _ 1 rfl .plain rfl)
  have h₈ := h₇.step (.startFlush _ (t := 1) rfl (by decide))
  have h₉ := h₈.step (.flushCommit _ (t := 1) rfl false)
  have h₁₀ := h₉.step (.callFlush _ 1 rfl (.finisher 0) rfl)
  have h₁₁ := h₁₀.step (.startFlush _ (t := 1) rfl (by decide))
  have h₁₂ := h₁₁.step (.flushCommit _ (t := 1) rfl true)
  have h₁₃ := h₁₂.step (.startStanza _ 0 rfl (by decide))
  have h₁₄ := h₁₃.step (.message _ (t := 0) rfl ⟨3, 13⟩ false)
  exact ⟨_, _, h₁₁, rfl, rfl, h₁₄, rfl, rfl, by decide +kernel, by decide +kernel⟩

/-- During the drain no two tasks hold a permit at once, and none is left while one does; a
task that has taken the batch finds it empty until it is done; and in live mode nothing of
the drain is pending or being committed. -/
theorem Reachable.drain_exclusive (h : Reachable setup s) :
    (s.client.batcher.active = true → ∀ t t', (s.tasks t).permit ≠ none →
        (s.tasks t').permit ≠ none → t = t' ∧ s.client.semaphore.available = 0)
      ∧ (∀ t, (s.tasks t).tookBatch → s.client.batcher.entries = [])
      ∧ (s.client.batcher.active = false → s.client.batcher.entries = []
        ∧ ∀ t, (s.tasks t).drainCommit = none) := by
  have hinv := h.inv
  refine ⟨fun hactive t t' ht ht' => ?_, fun t => (hinv.tasks t).taken, fun hlive =>
    ⟨hinv.live hlive, fun t => (hinv.tasks t).drainCommit_eq_none hlive⟩⟩
  rcases hinv.permits hactive with ⟨-, hnone⟩ | ⟨holder, havailable, -, hnone⟩
  · exact absurd (hnone t) ht
  · have halone : ∀ t, (s.tasks t).permit ≠ none → t = holder :=
      fun t ht => by_contra fun hne => ht (hnone t hne)
    exact ⟨(halone t ht).trans (halone t' ht').symm, havailable⟩

theorem drain_exclusive_sample : ∃ s, Reachable sampleSetup s ∧ s.client.batcher.active = true
    ∧ (s.tasks 1).tookBatch ∧ s.client.semaphore.available = 0
    ∧ s.client.batcher.entries = [] := by
  obtain ⟨s, -, hreachable, hactive, htask, -⟩ := exists_drained
  obtain ⟨hpermits, htaken, -⟩ := hreachable.drain_exclusive
  have hpermit : (s.tasks 1).permit ≠ none := by
    rw [htask]
    exact nofun
  have htook : (s.tasks 1).tookBatch := by
    rw [htask]
    exact .inl rfl
  exact ⟨s, hreachable, hactive, htook, (hpermits hactive 1 1 hpermit hpermit).2, htaken 1 htook⟩

end System

end WaCore.Inbound
