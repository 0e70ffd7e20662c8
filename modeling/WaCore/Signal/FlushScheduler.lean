import Mathlib.Data.UInt
import Mathlib.Logic.Relation

/-!
# The scheduler of the Signal flush

`schedule_signal_flush` and the worker that it arms (`signal_flush.rs`).  Calls and
workers share one word, a generation with two flags, and change it by
compare-and-exchange only.  `FlushScheduler.Step` has a rule for each of their atomic
steps; an exchange may always fail, as `compare_exchange_weak` may.

The gate around a flush is left out: it only forbids orders of steps that are allowed
here.  How long a worker sleeps is left out as well.  A call has taken effect when its
exchange succeeds, and a worker counts from the exchange on that arms it.
-/

namespace WaCore.Signal

/-- `signal_flush_state`, unpacked: the generation, and `FLUSH_RUNNING` and
`FLUSH_DIRTY`. -/
structure FlushWord where
  generation : Nat
  running : Bool
  dirty : Bool
  deriving DecidableEq, Repr

def FLUSH_RUNNING : UInt64 := 0b01

def FLUSH_DIRTY : UInt64 := 0b10

def packFlushState (generation flags : UInt64) : UInt64 := (generation <<< 2) ||| flags

namespace FlushWord

def flags (word : FlushWord) : UInt64 :=
  (if word.running then FLUSH_RUNNING else 0) ||| (if word.dirty then FLUSH_DIRTY else 0)

/-- The 64 bits that are exchanged. -/
def packed (word : FlushWord) : UInt64 := packFlushState (.ofNat word.generation) word.flags

theorem toNat_packed {word : FlushWord} (h : word.generation < 2 ^ 62) :
    word.packed.toNat = 4 * word.generation + word.flags.toNat := by
  have hflags : word.flags.toNat < 2 ^ 2 := by
    rw [flags]
    split <;> split <;> decide
  have hshift : (UInt64.ofNat word.generation <<< 2).toNat = word.generation <<< 2 := by
    rw [UInt64.toNat_shiftLeft, UInt64.toNat_ofNat_of_lt' (by dsimp only [UInt64.size]; omega)]
    refine Nat.mod_eq_of_lt ?_
    change word.generation <<< 2 < _
    rw [Nat.shiftLeft_eq]
    omega
  rw [packed, packFlushState, UInt64.toNat_or, hshift, ← Nat.shiftLeft_add_eq_or_of_lt hflags,
    Nat.shiftLeft_eq, Nat.mul_comm]

/-- A generation has 62 bits: two words that fit are the same if their bits are. -/
theorem packed_inj {word word' : FlushWord} (h : word.generation < 2 ^ 62)
    (h' : word'.generation < 2 ^ 62) : word.packed = word'.packed ↔ word = word' := by
  refine ⟨fun heq => ?_, congrArg packed⟩
  have hnat := congrArg UInt64.toNat heq
  rw [toNat_packed h, toNat_packed h'] at hnat
  obtain ⟨generation, running, dirty⟩ := word
  obtain ⟨generation', running', dirty'⟩ := word'
  cases running <;> cases dirty <;> cases running' <;> cases dirty' <;>
    simp [flags, FLUSH_RUNNING, FLUSH_DIRTY] at hnat ⊢ <;> omega

end FlushWord

/-- What a call of `schedule_signal_flush` does next. -/
inductive ScheduleStage where
  | loadConnection
  | loadState
  | exchange (cur : FlushWord)
  deriving DecidableEq, Repr

structure ScheduleCall where
  laneGeneration : Nat
  stage : ScheduleStage
  deriving DecidableEq, Repr

/-- What a worker does next. -/
inductive WorkerStage where
  | sleeping
  | loadConnection
  /-- The flush is under way that began after so many calls. -/
  | flushing (started : Nat)
  /-- The flush has succeeded. -/
  | loadState
  | exchange (cur : FlushWord)
  /-- The flush has failed. -/
  | failed
  deriving DecidableEq, Repr

structure FlushWorker where
  generation : Nat
  stage : WorkerStage
  deriving DecidableEq, Repr

structure FlushScheduler where
  connectionGeneration : Nat
  word : FlushWord
  calls : Nat → Option ScheduleCall
  workers : Nat → Option FlushWorker
  /-- The calls for the live generation that have taken effect. -/
  completed : Nat
  /-- Those of them that were there when a flush began that has succeeded. -/
  covered : Nat

namespace FlushScheduler

def start : FlushScheduler := ⟨0, ⟨0, false, false⟩, fun _ => none, fun _ => none, 0, 0⟩

def setCall (s : FlushScheduler) (t : Nat) (call : Option ScheduleCall) : FlushScheduler :=
  { s with calls := Function.update s.calls t call }

def setWorker (s : FlushScheduler) (k : Nat) (worker : Option FlushWorker) : FlushScheduler :=
  { s with workers := Function.update s.workers k worker }

/-- A call for this generation has made its exchange, or has found none to make. -/
def complete (s : FlushScheduler) (laneGeneration : Nat) (word : FlushWord) : FlushScheduler :=
  { s with
    word := word
    completed := s.completed + if laneGeneration = s.connectionGeneration then 1 else 0 }

/-- One atomic step of a call or a worker, or a new connection. -/
inductive Step (s : FlushScheduler) : FlushScheduler → Prop where
  | connect :
    Step s { s with connectionGeneration := s.connectionGeneration + 1, completed := 0, covered := 0 }
  /-- The generation of the caller was the live one at some time. -/
  | call {t laneGeneration : Nat} (hfree : s.calls t = none)
    (hlane : laneGeneration ≤ s.connectionGeneration) :
    Step s (s.setCall t (some ⟨laneGeneration, .loadConnection⟩))
  | loadConnection {t lane : Nat} (h : s.calls t = some ⟨lane, .loadConnection⟩) :
    Step s (s.setCall t (if s.connectionGeneration ≠ lane then none else some ⟨lane, .loadState⟩))
  | loadState {t lane : Nat} (h : s.calls t = some ⟨lane, .loadState⟩) :
    Step s (if lane < s.word.generation then (s.complete lane s.word).setCall t none
      else s.setCall t (some ⟨lane, .exchange s.word⟩))
  /-- No worker of this generation runs, and the call arms one. -/
  | arm {t lane k : Nat} (h : s.calls t = some ⟨lane, .exchange s.word⟩)
    (hidle : ¬ (s.word.generation = lane ∧ s.word.running = true)) (hfree : s.workers k = none) :
    Step s (((s.complete lane ⟨lane, true, false⟩).setCall t none).setWorker k
      (some ⟨lane, .sleeping⟩))
  | mark {t lane : Nat} (h : s.calls t = some ⟨lane, .exchange s.word⟩)
    (hrunning : s.word.generation = lane ∧ s.word.running = true) :
    Step s ((s.complete lane { s.word with dirty := true }).setCall t none)
  | exchangeFails {t lane : Nat} {cur : FlushWord} (h : s.calls t = some ⟨lane, .exchange cur⟩) :
    Step s (s.setCall t (some ⟨lane, .loadConnection⟩))
  | wake {k g : Nat} (h : s.workers k = some ⟨g, .sleeping⟩) :
    Step s (s.setWorker k (some ⟨g, .loadConnection⟩))
  | begin {k g : Nat} (h : s.workers k = some ⟨g, .loadConnection⟩) :
    Step s (s.setWorker k
      (if s.connectionGeneration ≠ g then none else some ⟨g, .flushing s.completed⟩))
  | succeed {k g started : Nat} (h : s.workers k = some ⟨g, .flushing started⟩) :
    Step s ({ s with covered := if g = s.connectionGeneration then max s.covered started
      else s.covered }.setWorker k (some ⟨g, .loadState⟩))
  | fail {k g started : Nat} (h : s.workers k = some ⟨g, .flushing started⟩) :
    Step s (s.setWorker k (some ⟨g, .failed⟩))
  | retry {k g : Nat} (h : s.workers k = some ⟨g, .failed⟩) :
    Step s (s.setWorker k (if s.word.generation ≠ g then none else some ⟨g, .sleeping⟩))
  | settle {k g : Nat} (h : s.workers k = some ⟨g, .loadState⟩) :
    Step s (s.setWorker k (if s.word.generation ≠ g then none else some ⟨g, .exchange s.word⟩))
  /-- One more window if a call has marked the word, or else the worker ends. -/
  | settled {k g : Nat} (h : s.workers k = some ⟨g, .exchange s.word⟩) :
    Step s ({ s with word := ⟨g, s.word.dirty, false⟩ }.setWorker k
      (if s.word.dirty then some ⟨g, .sleeping⟩ else none))
  | settleFails {k g : Nat} {cur : FlushWord} (h : s.workers k = some ⟨g, .exchange cur⟩) :
    Step s (s.setWorker k (some ⟨g, .loadState⟩))

def Reachable (s : FlushScheduler) : Prop := Relation.ReflTransGen Step start s

end FlushScheduler

/-- The worker has yet to begin a flush after the `i`-th call, or is at one. -/
def FlushWorker.Covers (word : FlushWord) (i : Nat) (w : FlushWorker) : Prop :=
  match w.stage with
  | .sleeping | .loadConnection | .failed => True
  | .flushing started => i ≤ started ∨ word.dirty = true
  | .loadState | .exchange _ => word.dirty = true

theorem FlushWorker.covers_of_dirty {word : FlushWord} (h : word.dirty = true) (i : Nat)
    (w : FlushWorker) : w.Covers word i := by
  obtain ⟨g, stage⟩ := w
  cases stage with
  | flushing started => exact .inr h
  | loadState => exact h
  | exchange cur => exact h
  | _ => trivial

/-! ## The invariant -/

structure ScheduleCall.Ok (connectionGeneration : Nat) (c : ScheduleCall) : Prop where
  lane_le : c.laneGeneration ≤ connectionGeneration
  exchange : ∀ cur, c.stage = .exchange cur → cur.generation ≤ c.laneGeneration

structure FlushWorker.Ok (word : FlushWord) (w : FlushWorker) : Prop where
  generation_le : w.generation ≤ word.generation
  running : w.generation = word.generation → word.running = true
  exchange : ∀ cur, w.stage = .exchange cur → cur.generation = w.generation

/-- No two workers have the same generation. -/
def Distinct (workers : Nat → Option FlushWorker) : Prop :=
  ∀ k k' w w', workers k = some w → workers k' = some w' → w.generation = w'.generation → k = k'

theorem update_cases {workers : Nat → Option FlushWorker} {worker : Option FlushWorker} {k k' : Nat}
    {w : FlushWorker} (h : Function.update workers k worker k' = some w) :
    (k' = k ∧ worker = some w) ∨ (k' ≠ k ∧ workers k' = some w) := by
  by_cases hk : k' = k
  · subst hk
    rw [Function.update_self] at h
    exact .inl ⟨rfl, h⟩
  · rw [Function.update_of_ne hk] at h
    exact .inr ⟨hk, h⟩

/-- A worker takes the place of one with its generation, or has a new one. -/
theorem Distinct.update {workers : Nat → Option FlushWorker} {worker : Option FlushWorker} {k : Nat}
    (h : Distinct workers) (hfresh : ∀ w, worker = some w → ∀ k' w', workers k' = some w' → k' ≠ k →
      w'.generation ≠ w.generation) : Distinct (Function.update workers k worker) := by
  intro k₁ k₂ w₁ w₂ h₁ h₂ heq
  rcases update_cases h₁ with ⟨rfl, hw₁⟩ | ⟨hk₁, hw₁⟩
  · rcases update_cases h₂ with ⟨rfl, -⟩ | ⟨hk₂, hw₂⟩
    · rfl
    · exact absurd heq.symm (hfresh w₁ hw₁ k₂ w₂ hw₂ hk₂)
  · rcases update_cases h₂ with ⟨rfl, hw₂⟩ | ⟨-, hw₂⟩
    · exact absurd heq (hfresh w₂ hw₂ k₁ w₁ hw₁ hk₁)
    · exact h k₁ k₂ w₁ w₂ hw₁ hw₂ heq

namespace FlushScheduler

/-- The word is armed for the live generation. -/
def Armed (s : FlushScheduler) : Prop :=
  s.word.generation = s.connectionGeneration ∧ s.word.running = true

/-- A worker of the live generation covers the calls that no flush has covered. -/
def Owned (s : FlushScheduler) : Prop :=
  ∃ k w, s.workers k = some w ∧ w.generation = s.connectionGeneration
    ∧ ∀ i, s.covered < i → i ≤ s.completed → w.Covers s.word i

structure Inv (s : FlushScheduler) : Prop where
  generation_le : s.word.generation ≤ s.connectionGeneration
  calls : ∀ t c, s.calls t = some c → c.Ok s.connectionGeneration
  workers : ∀ k w, s.workers k = some w → w.Ok s.word
  distinct : Distinct s.workers
  armed : s.Armed → s.Owned
  idle : ¬ s.Armed → s.completed ≤ s.covered

variable {s s' : FlushScheduler} {t k g lane : Nat} {w : FlushWorker}

theorem Inv.setCall {call : Option ScheduleCall} (h : Inv s)
    (hcall : ∀ c, call = some c → c.Ok s.connectionGeneration) : Inv (s.setCall t call) :=
  { h with
    calls := (Function.forall_update_iff s.calls
      (p := fun _ call => ∀ c, call = some c → c.Ok s.connectionGeneration)).mpr
        ⟨hcall, fun t' _ => h.calls t'⟩ }

/-- A worker goes on, or ends if it is not the one of the live generation; at a success
more calls are covered. -/
theorem Inv.setStage (h : Inv s) (hw : s.workers k = some w) (stage : Option WorkerStage)
    {covered : Nat} (hcovered : s.covered ≤ covered)
    (hstage : ∀ cur, stage = some (.exchange cur) → cur.generation = w.generation)
    (hlive : w.generation = s.connectionGeneration → ∃ stage', stage = some stage'
      ∧ ∀ i, covered < i → i ≤ s.completed → w.Covers s.word i →
        FlushWorker.Covers s.word i ⟨w.generation, stage'⟩) :
    Inv (setWorker { s with covered } k (stage.map (⟨w.generation, ·⟩))) := by
  refine { h with workers := fun k' w' hw' => ?_, distinct := h.distinct.update ?_,
                  armed := fun harmed => ?_, idle := fun hidle => Nat.le_trans (h.idle hidle) hcovered }
  · rcases update_cases hw' with ⟨-, hw'⟩ | ⟨-, hw'⟩
    · obtain ⟨stage', rfl, rfl⟩ := Option.map_eq_some_iff.mp hw'
      exact ⟨(h.workers k w hw).generation_le, (h.workers k w hw).running,
        fun cur hcur => hstage cur (congrArg some hcur)⟩
    · exact h.workers k' w' hw'
  · intro w' hw' k' w'' hw'' hne heq
    obtain ⟨stage', -, rfl⟩ := Option.map_eq_some_iff.mp hw'
    exact hne (h.distinct k' k w'' w hw'' hw heq)
  · obtain ⟨k', w', hw', hgeneration, hall⟩ := h.armed harmed
    have hall : ∀ i, covered < i → i ≤ s.completed → w'.Covers s.word i := fun i hi =>
      hall i (Nat.lt_of_le_of_lt hcovered hi)
    by_cases hk : k' = k
    · subst hk
      obtain rfl := Option.some.inj (hw.symm.trans hw')
      obtain ⟨stage', rfl, hstage'⟩ := hlive hgeneration
      exact ⟨k', _, Function.update_self .., hgeneration,
        fun i hi hle => hstage' i hi hle (hall i hi hle)⟩
    · exact ⟨k', w', (Function.update_of_ne hk ..).trans hw', hgeneration, hall⟩

/-- A worker ends that is not one of the live generation. -/
theorem Inv.retire (h : Inv s) (hw : s.workers k = some w)
    (hstale : w.generation ≠ s.connectionGeneration) : Inv (s.setWorker k none) :=
  h.setStage hw none (Nat.le_refl _) nofun fun hlive => absurd hlive hstale

/-- The generation of a worker that has not the word's is not live. -/
theorem Inv.stale (h : Inv s) (hw : s.workers k = some w)
    (hne : s.word.generation ≠ w.generation) : w.generation ≠ s.connectionGeneration := by
  have hworker := (h.workers k w hw).generation_le
  have hword := h.generation_le
  omega

theorem Inv.arm (h : Inv s) (hle : s.word.generation ≤ lane) (hlane : lane ≤ s.connectionGeneration)
    (hidle : ¬ (s.word.generation = lane ∧ s.word.running = true)) :
    Inv ((s.complete lane ⟨lane, true, false⟩).setWorker k (some ⟨lane, .sleeping⟩)) where
  generation_le := hlane
  calls := h.calls
  workers k' w' hw' := by
    rcases update_cases hw' with ⟨-, ⟨⟩⟩ | ⟨-, hw'⟩
    · exact ⟨Nat.le_refl _, fun _ => rfl, nofun⟩
    · have hok := h.workers k' w' hw'
      exact ⟨Nat.le_trans hok.generation_le hle, fun _ => rfl, hok.exchange⟩
  distinct := by
    refine h.distinct.update ?_
    rintro _ ⟨⟩ k' w' hw' - heq
    have hok := h.workers k' w' hw'
    have hsame : s.word.generation = lane :=
      Nat.le_antisymm hle (Nat.le_trans (Nat.le_of_eq heq.symm) hok.generation_le)
    exact hidle ⟨hsame, hok.running (heq.trans hsame.symm)⟩
  armed harmed := ⟨k, _, Function.update_self .., harmed.1, fun _ _ _ => trivial⟩
  idle hnot := by
    have hne : lane ≠ s.connectionGeneration := fun heq => hnot ⟨heq, rfl⟩
    have hbefore := h.idle fun harmed => hne (Nat.le_antisymm hlane (harmed.1 ▸ hle))
    simpa [complete, setWorker, hne] using hbefore

theorem Inv.mark (h : Inv s) (hrunning : s.word.generation = lane ∧ s.word.running = true) :
    Inv (s.complete lane { s.word with dirty := true }) :=
  { h with
    workers := fun k w hw => ⟨(h.workers k w hw).generation_le, (h.workers k w hw).running,
      (h.workers k w hw).exchange⟩
    armed := fun harmed => (by
      obtain ⟨k, w, hw, hgeneration, -⟩ := h.armed harmed
      exact ⟨k, w, hw, hgeneration, fun i _ _ => w.covers_of_dirty rfl i⟩)
    idle := fun hnot => (by
      have hne : lane ≠ s.connectionGeneration := fun heq => hnot ⟨hrunning.1.trans heq, hrunning.2⟩
      simpa [complete, hne] using h.idle hnot) }

/-- The worker of the word's generation goes on for one more window, or ends if no call
is left to be covered. -/
theorem Inv.settled (h : Inv s) (hw : s.workers k = some ⟨g, .exchange s.word⟩) :
    Inv ({ s with word := ⟨g, s.word.dirty, false⟩ }.setWorker k
      (if s.word.dirty then some ⟨g, .sleeping⟩ else none)) := by
  have hg : s.word.generation = g := (h.workers k _ hw).exchange _ rfl
  have hother : ∀ k' w', s.workers k' = some w' → k' ≠ k → w'.generation ≠ g :=
    fun k' w' hw' hne heq => hne (h.distinct k' k w' _ hw' hw heq)
  refine ⟨hg ▸ h.generation_le, h.calls, fun k' w' hw' => ?_, h.distinct.update ?_,
    fun harmed => ?_, fun hnot => ?_⟩
  · rcases update_cases hw' with ⟨-, hw'⟩ | ⟨hne, hw'⟩
    · obtain ⟨hdirty, hw'⟩ := Option.ite_none_right_eq_some.mp hw'
      cases hw'
      exact ⟨Nat.le_refl _, fun _ => hdirty, nofun⟩
    · have hok := h.workers k' w' hw'
      exact ⟨hg ▸ hok.generation_le, fun heq => absurd heq (hother k' w' hw' hne), hok.exchange⟩
  · intro w' hw'
    cases (Option.ite_none_right_eq_some.mp hw').2
    exact hother
  · have hdirty : s.word.dirty = true := harmed.2
    refine ⟨k, ⟨g, .sleeping⟩, ?_, harmed.1, fun _ _ _ => trivial⟩
    exact (Function.update_self ..).trans (if_pos hdirty)
  · by_cases harmed : s.Armed
    · -- the worker is the one of the live generation, and nothing is marked
      obtain ⟨k', w', hw', hlive, hall⟩ := h.armed harmed
      obtain rfl := h.distinct k' k w' _ hw' hw (hlive.trans (harmed.1.symm.trans hg))
      obtain rfl := Option.some.inj (hw.symm.trans hw')
      by_contra hlt
      exact hnot ⟨hlive, hall s.completed (Nat.lt_of_not_le hlt) (Nat.le_refl _)⟩
    · exact h.idle harmed

theorem Step.inv (hstep : Step s s') (h : Inv s) : Inv s' := by
  cases hstep with
  | connect =>
    refine { h with generation_le := Nat.le_succ_of_le h.generation_le, calls := fun t c hc => ?_
                    armed := fun harmed => ?_, idle := fun _ => Nat.le_refl _ }
    · exact ⟨Nat.le_succ_of_le (h.calls t c hc).lane_le, (h.calls t c hc).exchange⟩
    · exact absurd harmed.1 (Nat.ne_of_lt (Nat.lt_succ_of_le h.generation_le))
  | call hfree hlane =>
    refine h.setCall ?_
    rintro _ ⟨⟩
    exact ⟨hlane, nofun⟩
  | @loadConnection t lane hcall =>
    refine h.setCall fun c hc => ?_
    split at hc
    · cases hc
    · cases hc
      exact ⟨(h.calls t _ hcall).lane_le, nofun⟩
  | @loadState t lane hcall =>
    split
    · rename_i hlt
      have hne : lane ≠ s.connectionGeneration :=
        Nat.ne_of_lt (Nat.lt_of_lt_of_le hlt h.generation_le)
      rw [complete, if_neg hne]
      exact h.setCall nofun
    · rename_i hle
      refine h.setCall ?_
      rintro _ ⟨⟩
      refine ⟨(h.calls t _ hcall).lane_le, ?_⟩
      rintro _ ⟨⟩
      exact Nat.le_of_not_lt hle
  | @arm t lane k hcall hidle hfree =>
    have hok := h.calls t _ hcall
    exact (h.arm (hok.exchange _ rfl) hok.lane_le hidle).setCall nofun
  | mark hcall hrunning => exact (h.mark hrunning).setCall nofun
  | @exchangeFails t lane cur hcall =>
    refine h.setCall ?_
    rintro _ ⟨⟩
    exact ⟨(h.calls t _ hcall).lane_le, nofun⟩
  | wake hw =>
    exact h.setStage hw (some .loadConnection) (Nat.le_refl _) nofun
      fun _ => ⟨_, rfl, fun _ _ _ _ => trivial⟩
  | begin hw =>
    split
    · rename_i hne
      exact h.retire hw hne.symm
    · exact h.setStage hw (some (.flushing s.completed)) (Nat.le_refl _) nofun
        fun _ => ⟨_, rfl, fun _ _ hle _ => .inl hle⟩
  | @succeed k g started hw =>
    refine h.setStage hw (some .loadState) ?_ nofun fun hlive => ⟨_, rfl, fun i hi _ hcovers => ?_⟩
    · split
      · exact Nat.le_max_left _ _
      · exact Nat.le_refl _
    · rw [if_pos hlive] at hi
      exact hcovers.resolve_left fun hle => absurd (Nat.le_max_right s.covered started) (by omega)
  | fail hw =>
    exact h.setStage hw (some .failed) (Nat.le_refl _) nofun
      fun _ => ⟨_, rfl, fun _ _ _ _ => trivial⟩
  | retry hw =>
    split
    · rename_i hne
      exact h.retire hw (h.stale hw hne)
    · exact h.setStage hw (some .sleeping) (Nat.le_refl _) nofun
        fun _ => ⟨_, rfl, fun _ _ _ _ => trivial⟩
  | settle hw =>
    split
    · rename_i hne
      exact h.retire hw (h.stale hw hne)
    · rename_i heq
      refine h.setStage hw (some (.exchange s.word)) (Nat.le_refl _) ?_
        fun _ => ⟨_, rfl, fun _ _ _ hcovers => hcovers⟩
      rintro _ ⟨⟩
      exact not_ne_iff.mp heq
  | settled hw => exact h.settled hw
  | settleFails hw =>
    exact h.setStage hw (some .loadState) (Nat.le_refl _) nofun
      fun _ => ⟨_, rfl, fun _ _ _ hcovers => hcovers⟩

theorem inv_start : Inv start :=
  ⟨Nat.le_refl _, nofun, nofun, nofun, fun harmed => (by cases harmed.2), fun _ => Nat.le_refl _⟩

theorem Reachable.inv (h : Reachable s) : Inv s := by
  induction h with
  | refl => exact inv_start
  | tail _ hstep ih => exact hstep.inv ih

/-- Up to 2 ^ 62 connections, the bits that a call or a worker expects to find are there
exactly if its word is. -/
theorem Reachable.exchanges (h : Reachable s) (hfew : s.connectionGeneration < 2 ^ 62) :
    (∀ t lane cur, s.calls t = some ⟨lane, .exchange cur⟩ →
      (cur.packed = s.word.packed ↔ cur = s.word))
    ∧ ∀ k g cur, s.workers k = some ⟨g, .exchange cur⟩ →
      (cur.packed = s.word.packed ↔ cur = s.word) := by
  have hinv := h.inv
  have hword := hinv.generation_le
  refine ⟨fun t lane cur hcall => ?_, fun k g cur hworker => ?_⟩
  · obtain ⟨hlane, hcur⟩ := hinv.calls t _ hcall
    have hle := hcur cur rfl
    exact FlushWord.packed_inj (by dsimp only at hlane hle; omega) (by omega)
  · obtain ⟨hle, -, hcur⟩ := hinv.workers k _ hworker
    have heq := hcur cur rfl
    exact FlushWord.packed_inj (by dsimp only at hle heq; omega) (by omega)

/-- No step goes back to an older generation. -/
theorem Step.generation_le (hstep : Step s s') (h : Inv s) : s.word.generation ≤ s'.word.generation := by
  cases hstep with
  | loadState hcall => split <;> exact Nat.le_refl _
  | arm hcall hidle hfree => exact (h.calls _ _ hcall).exchange _ rfl
  | settled hw => exact Nat.le_of_eq ((h.workers _ _ hw).exchange _ rfl)
  | _ => exact Nat.le_refl _

/-- There is at most one worker for a generation, the word never goes back to an older
one, and while a call for the live generation is not covered by a flush that began after
it and succeeded, a worker of this generation has yet to begin such a flush or is at one. -/
theorem Reachable.no_request_lost (h : Reachable s) :
    Distinct s.workers ∧ (∀ s', Step s s' → s.word.generation ≤ s'.word.generation)
      ∧ ∀ i, s.covered < i → i ≤ s.completed → s.Armed ∧ ∃ k w, s.workers k = some w
        ∧ w.generation = s.connectionGeneration ∧ w.Covers s.word i := by
  have hinv := h.inv
  refine ⟨hinv.distinct, fun s' hstep => hstep.generation_le hinv, fun i hi hle => ?_⟩
  have harmed : s.Armed := by
    by_contra hnot
    exact absurd (hinv.idle hnot) (by omega)
  obtain ⟨k, w, hw, hgeneration, hall⟩ := hinv.armed harmed
  exact ⟨harmed, k, w, hw, hgeneration, hall i hi hle⟩

/-- The first call arms a worker, which sleeps. -/
theorem no_request_lost_first : ∃ s, Reachable s ∧ s.completed = 1 ∧ s.covered = 0 ∧ s.Armed := by
  have hcall : Reachable _ := .single (.call (t := 0) rfl (Nat.le_refl 0))
  have hloaded := (hcall.tail (.loadConnection (t := 0) rfl)).tail (.loadState (t := 0) rfl)
  have harmed := hloaded.tail (.arm (t := 0) (k := 0) rfl (by decide) rfl)
  exact ⟨_, harmed, rfl, rfl, (Reachable.no_request_lost harmed).2.2 1 (by decide) (by decide) |>.1⟩

end FlushScheduler

end WaCore.Signal
