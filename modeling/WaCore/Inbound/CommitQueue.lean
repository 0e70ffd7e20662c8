import Mathlib.Logic.Relation
import WaCore.Inbound.CommitBatch
import WaCore.Lib.BatchQueue

/-!
# The batcher as a queue

A commit of the drain moves a `BatchQueue`: taking the batch, putting it back,
making it durable and dispatching it are the moves of the queue, and what a live
commit does is none.  `Advances` says so of a client and what a commit makes of it,
together with what the commit leaves alone.
-/

namespace WaCore.Inbound

/-! ## What is collapsed -/

variable {items : List InboundMessage}

namespace Setup

variable (setup : Setup)

variable {seen : Seen} {before : List InboundMessage}

theorem keepFilter_of_keepsAll (h : setup.keepsAll seen items = true) :
    setup.keepFilter seen items = items := by
  induction items generalizing seen with
  | nil => rfl
  | cons item items ih =>
    rw [keepsAll, Bool.and_eq_true] at h
    rw [keepFilter]
    dsimp only
    rw [if_pos h.1, ih h.2]

/-- A batch is not collapsed with the gate off. -/
theorem kept_eq (items : List InboundMessage) :
    (setup.kept items = items ∧ setup.collapsed items = [] ∧ setup.dispatchGate = false)
      ∨ (setup.kept items = setup.keepFilter noneSeen items
        ∧ setup.collapsed items = setup.keepRest noneSeen items ∧ setup.dispatchGate = true) := by
  rw [kept, collapsed]
  cases hgate : setup.dispatchGate with
  | false => exact .inl ⟨rfl, rfl, rfl⟩
  | true =>
    refine .inr ⟨?_, rfl, rfl⟩
    rw [if_pos rfl, dedupBatchByMessage]
    split
    · match items with
      | [] | [_] => rfl
    · split
      · rename_i hall
        exact (setup.keepFilter_of_keepsAll hall).symm
      · rfl

/-- The repeat of a message: from another stanza, with the same identity and the same
encoded form. -/
def Repeats (k item : InboundMessage) : Prop :=
  k.info ≠ item.info ∧ (setup.identity k).same (setup.identity item) = true
    ∧ setup.wire k.message = setup.wire item.message

/-- The same with the keys of the identities, which are what the filter compares. -/
def RepeatsKey (k item : InboundMessage) : Prop :=
  k.info ≠ item.info ∧ setup.dispatchKey k = setup.dispatchKey item
    ∧ setup.wire k.message = setup.wire item.message

/-- Different identities have different keys. -/
def KeysDiffer (items : List InboundMessage) : Prop :=
  ∀ a ∈ items, ∀ b ∈ items, setup.dispatchKey a = setup.dispatchKey b →
    (setup.identity a).same (setup.identity b) = true

/-- What was seen is kept under its key. -/
structure SeenOf (before : List InboundMessage) (seen : Seen) : Prop where
  kept : ∀ key, ∀ k ∈ seen key, k ∈ before
  key : ∀ key, ∀ k ∈ seen key, setup.dispatchKey k = key

variable {setup} in
theorem SeenOf.mono (h : setup.SeenOf before seen) (item : InboundMessage) :
    setup.SeenOf (before ++ [item]) seen :=
  ⟨fun key k hk => List.mem_append_left _ (h.kept key k hk), h.key⟩

variable {setup} in
theorem SeenOf.insert (h : setup.SeenOf before seen) (item : InboundMessage) :
    setup.SeenOf (before ++ [item]) (Function.update seen (setup.dispatchKey item)
      (seen (setup.dispatchKey item) ++ [item])) := by
  have hcases : ∀ {key k}, k ∈ Function.update seen (setup.dispatchKey item)
      (seen (setup.dispatchKey item) ++ [item]) key →
      k ∈ seen key ∨ (k = item ∧ key = setup.dispatchKey item) := by
    intro key k hk
    by_cases hkey : key = setup.dispatchKey item
    · subst hkey
      rw [Function.update_self] at hk
      exact (List.mem_append.mp hk).imp_right fun hk => ⟨List.mem_singleton.mp hk, rfl⟩
    · rw [Function.update_of_ne hkey] at hk
      exact .inl hk
  refine ⟨fun key k hk => ?_, fun key k hk => ?_⟩
  · rcases hcases hk with hk | ⟨rfl, -⟩
    · exact List.mem_append_left _ (h.kept key k hk)
    · exact List.mem_append_right _ List.mem_cons_self
  · rcases hcases hk with hk | ⟨rfl, hkey⟩
    · exact h.key key k hk
    · exact hkey.symm

theorem keep_snd_of_dropped {item : InboundMessage} (h : ¬ (setup.keep seen item).1 = true) :
    (setup.keep seen item).2 = seen := by
  rw [keep] at h ⊢
  split
  · rfl
  · split
    · rfl
    · rename_i hcap hany
      rw [if_neg hcap, if_neg hany] at h
      exact absurd rfl h

/-- One round of the filter: the item is kept, or repeats one that is. -/
theorem keep_cases (h : setup.SeenOf before seen) (item : InboundMessage) :
    ((setup.keep seen item).1 = true ∧ setup.SeenOf (before ++ [item]) (setup.keep seen item).2)
      ∨ ((setup.keep seen item).1 = false ∧ (setup.keep seen item).2 = seen
        ∧ ∃ k ∈ before, setup.RepeatsKey k item) := by
  rw [keep]
  split
  · exact .inl ⟨rfl, h.mono item⟩
  · split
    · rename_i hany
      obtain ⟨k, hk, hrepeats⟩ := List.any_eq_true.mp hany
      rw [repeats, Bool.and_eq_true, Bool.or_eq_true, decide_eq_true_eq, decide_eq_true_eq,
        decide_eq_true_eq] at hrepeats
      refine .inr ⟨rfl, rfl, k, h.kept _ k hk, hrepeats.1, h.key _ k hk, ?_⟩
      rcases hrepeats.2 with hsame | hwire
      · rw [hsame]
      · exact hwire
    · exact .inl ⟨rfl, h.insert item⟩

theorem collapse_keepFilter (h : setup.SeenOf before seen) (items : List InboundMessage) :
    Collapse setup.RepeatsKey before items (setup.keepFilter seen items)
      (setup.keepRest seen items) := by
  induction items generalizing before seen with
  | nil => exact .nil before
  | cons item items ih =>
    rw [keepFilter, keepRest]
    dsimp only
    rcases setup.keep_cases h item with ⟨hkept, hseen⟩ | ⟨hdropped, hseen, hrepeats⟩
    · rw [if_pos hkept, if_pos hkept]
      exact .keep item (ih hseen)
    · rw [hdropped, hseen]
      exact .drop item hrepeats (ih h)

/-- The filter keeps what it has kept before. -/
theorem keepFilter_append (seen : Seen) (items more : List InboundMessage) :
    setup.keepFilter seen items <+: setup.keepFilter seen (setup.keepFilter seen items ++ more) := by
  induction items generalizing seen with
  | nil => exact List.nil_prefix
  | cons item items ih =>
    rw [keepFilter]
    dsimp only
    split
    · rename_i hkept
      rw [List.cons_append, keepFilter]
      dsimp only
      rw [if_pos hkept]
      exact List.cons_prefix_cons.mpr ⟨rfl, ih _⟩
    · rename_i hdropped
      rw [keep_snd_of_dropped setup hdropped]
      exact ih seen

/-- A message is only left out if an earlier one is kept that it repeats. -/
def thinning : Thinning setup.RepeatsKey where
  kept := setup.kept
  rest := setup.collapsed
  collapse items := by
    rcases setup.kept_eq items with ⟨hkept, hrest, -⟩ | ⟨hkept, hrest, -⟩
    · rw [hkept, hrest]
      exact .all [] items
    · rw [hkept, hrest]
      exact setup.collapse_keepFilter ⟨fun _ _ h => h, fun _ _ h => by cases h⟩ items
  kept_append items more := by
    rcases setup.kept_eq items with ⟨hkept, -, hgate⟩ | ⟨hkept, -, hgate⟩
    · rw [hkept, kept, hgate]
      exact List.prefix_append items more
    · rcases setup.kept_eq (setup.kept items ++ more) with ⟨-, -, hoff⟩ | ⟨hkept', -⟩
      · rw [hgate] at hoff
        cases hoff
      · rw [hkept', hkept]
        exact setup.keepFilter_append _ items more

theorem RepeatsKey.repeats {setup : Setup} {all : List InboundMessage}
    (hkeys : setup.KeysDiffer all) {k item : InboundMessage} (hk : k ∈ all) (hitem : item ∈ all)
    (h : setup.RepeatsKey k item) : setup.Repeats k item :=
  ⟨h.1, hkeys k hk item hitem h.2.1, h.2.2⟩

/-- The gate suppressed the message at its admission. -/
def Suppressed (accesses : List GateEvent) (m : InboundMessage) : Prop :=
  ∃ before guard rest, accesses = before ++ setup.admission m guard :: rest
    ∧ DispatchGate.Suppresses setup.hashOne before (setup.admission m guard)

variable {setup} in
theorem Suppressed.append {accesses : List GateEvent} {m : InboundMessage}
    (h : setup.Suppressed accesses m) (more : List GateEvent) :
    setup.Suppressed (accesses ++ more) m := by
  obtain ⟨before, guard, rest, rfl, hsuppresses⟩ := h
  exact ⟨before, guard, rest ++ more, by simp, hsuppresses⟩

/-- What the gate lets through of a batch stays in order, and the rest it suppresses. -/
theorem admitBatch_spec (guard : Nat) (accesses : List GateEvent) (items : List InboundMessage) :
    (setup.admitBatch guard accesses items).1.Sublist items
      ∧ ((setup.admitBatch guard accesses items).1
        ++ (setup.admitBatch guard accesses items).2).Perm items
      ∧ ∀ m ∈ (setup.admitBatch guard accesses items).2,
        setup.Suppressed (accesses ++ items.map (setup.admission · guard)) m := by
  induction items generalizing accesses with
  | nil => exact ⟨.slnil, .nil, by simp [admitBatch]⟩
  | cons item items ih =>
    obtain ⟨hsub, hperm, hsuppressed⟩ := ih (accesses ++ [setup.admission item guard])
    rw [List.append_assoc] at hsuppressed
    rw [admitBatch]
    dsimp only
    split
    · rename_i hsuppress
      refine ⟨hsub.cons item, List.perm_middle.trans (hperm.cons item), fun m hm => ?_⟩
      rcases List.mem_cons.mp hm with rfl | hm
      · exact ⟨accesses, guard, _, rfl, hsuppress⟩
      · exact hsuppressed m hm
    · exact ⟨hsub.cons_cons item, hperm.cons item, hsuppressed⟩

end Setup

/-! ## The queue of a client -/

/-- The batched messages of a log. -/
def drainMessages (log : List (BatchOrigin × List InboundMessage)) : List InboundMessage :=
  (log.filter (·.1 = .offlineDrain)).flatMap (·.2)

namespace Client

/-- The queue that a client has, with these messages under way. -/
def queue (c : Client) (inFlight inHand : List InboundMessage) : BatchQueue InboundMessage where
  waiting := c.batcher.entries
  inFlight := inFlight
  inHand := inHand
  arrived := c.history.arrived
  givenUp := c.history.collapsed
  handedOver := c.history.settled
  shown := drainMessages c.history.events
  heldBack := c.history.recovered
  abandoned := c.history.abandoned

end Client

/-- What a commit of the drain holds before its batch is durable. -/
def inFlight : Option Commit → List InboundMessage
  | some commit => if commit.stage.armed then commit.items else []
  | none => []

/-- What it holds after that. -/
def inHand : Option Commit → List InboundMessage
  | some commit => if commit.stage.armed then [] else commit.items
  | none => []

/-- The queue of a client whose commit of the drain is this one, if any. -/
def Client.queueWith (c : Client) (commit : Option Commit) : BatchQueue InboundMessage :=
  c.queue (inFlight commit) (inHand commit)

abbrev Moves (setup : Setup) := Relation.ReflTransGen (BatchQueue.Step setup.thinning)

theorem drainMessages_singleton (origin : BatchOrigin) (items : List InboundMessage) :
    drainMessages [(origin, items)] = if origin = .offlineDrain then items else [] := by
  cases origin <;> simp [drainMessages]

theorem drainMessages_append (log log' : List (BatchOrigin × List InboundMessage)) :
    drainMessages (log ++ log') = drainMessages log ++ drainMessages log' := by
  rw [drainMessages, List.filter_append, List.flatMap_append]
  rfl

/-- The commit, if its batch is one of the drain. -/
def drainPart (commit : Option Commit) : Option Commit := commit.filter (·.origin = .offlineDrain)

theorem drainPart_of_drain (commit : Commit) (h : commit.origin = .offlineDrain) :
    drainPart (some commit) = some commit := by
  simp [drainPart, h]

theorem drainPart_of_live (commit : Commit) (h : ¬ commit.origin = .offlineDrain) :
    drainPart (some commit) = none := by
  simp [drainPart, h]

/-! ## What the parts of a commit leave alone -/

namespace Client

section Frames

variable (setup : Setup) (c : Client) (ticket : Option Nat)

theorem resolveTicket_eq (state : InboundCommitTicketState) :
    ∃ tickets, c.resolveTicket state ticket = { c with tickets } := by
  cases ticket with
  | none => exact ⟨_, rfl⟩
  | some ticket => exact ⟨_, rfl⟩

theorem reinsert_eq (items : List InboundMessage) :
    ∃ batcher tickets, c.reinsert setup items ticket = { c with batcher, tickets }
      ∧ batcher.entries = items ++ c.batcher.entries ∧ batcher.active = c.batcher.active := by
  unfold reinsert
  split
  · obtain ⟨tickets, heq⟩ := resolveTicket_eq { c with batcher := _ } ticket .dropped
    exact ⟨_, tickets, heq, rfl, rfl⟩
  · exact ⟨_, _, rfl, rfl, rfl⟩

theorem markDurable_eq (commit : Commit) :
    ∃ tickets, c.markDurable commit = { c with
      tickets
      history := { c.history with settled := c.history.settled
        ++ if commit.origin = .offlineDrain then commit.items else [] } } := by
  obtain ⟨tickets, heq⟩ := c.resolveTicket_eq commit.commitTicket .durable
  refine ⟨tickets, ?_⟩
  rw [markDurable, heq]
  split
  · rfl
  · rw [List.append_nil]

end Frames

end Client

/-- The parts of a client that a commit does not touch. -/
structure Client.SameMode (c c' : Client) : Prop where
  active : c'.batcher.active = c.batcher.active
  semaphore : c'.semaphore = c.semaphore
  generation : c'.connectionGeneration = c.connectionGeneration

namespace Client.SameMode

theorem refl (c : Client) : SameMode c c := ⟨rfl, rfl, rfl⟩

end Client.SameMode

/-! ## Moves -/

/-- The commit that goes on. -/
def Progress.commit : Progress → Option Commit
  | done _ => none
  | waiting commit => some commit

namespace Client

variable {setup : Setup} {c : Client} {commit : Commit} {r : Client × Progress}

theorem queueWith_of_armed (c : Client) (h : commit.stage.armed = true) :
    c.queueWith (some commit) = c.queue commit.items [] := by
  rw [queueWith, inFlight, inHand, if_pos h, if_pos h]

theorem queueWith_of_not_armed (c : Client) (h : commit.stage.armed = false) :
    c.queueWith (some commit) = c.queue [] commit.items := by
  rw [queueWith, inFlight, inHand, h]
  rfl

theorem queueWith_of_stage (c : Client) {stage : CommitStage} (h : stage.armed = commit.stage.armed) :
    c.queueWith (some { commit with stage }) = c.queueWith (some commit) := by
  rw [queueWith, queueWith, inFlight, inHand, inFlight, inHand, ← h]

/-- The commit of a batch begins with what is kept of it. -/
theorem takeAndCommit_of_ne (h : c.batcher.entries ≠ []) :
    c.takeAndCommit setup
      = ({ c with
            batcher := c.batcher.take.2
            history := { c.history with
              collapsed := c.history.collapsed ++ setup.collapsed c.batcher.entries } },
          .waiting ⟨setup.kept c.batcher.entries, c.batcher.entries, .offlineDrain,
            c.batcher.commitTicket, if setup.hook then .arena else .flushing⟩) := if_neg h

/-- A batch becomes durable. -/
theorem markDurable_moves (setup : Setup) (c : Client) (harmed : commit.stage.armed = true) :
    Moves setup (c.queueWith (drainPart (some commit)))
      ((c.markDurable commit).queueWith (drainPart (some { commit with stage := .hook }))) := by
  obtain ⟨tickets, heq⟩ := c.markDurable_eq commit
  rw [heq]
  by_cases hdrain : commit.origin = .offlineDrain
  · rw [if_pos hdrain, drainPart_of_drain commit hdrain,
      drainPart_of_drain { commit with stage := .hook } hdrain, queueWith_of_armed _ harmed]
    exact .single (.handOver (c.queue commit.items []) rfl)
  · rw [if_neg hdrain, drainPart_of_live commit hdrain,
      drainPart_of_live { commit with stage := .hook } hdrain, List.append_nil]
    exact .refl

theorem recovered_publish (setup : Setup) (c : Client) (commit : Commit) :
    (c.publish setup commit).history.recovered = if commit.origin = .offlineDrain then
      c.history.recovered ++ (setup.admitBatch c.publications c.history.accesses commit.items).2
      else c.history.recovered := rfl

/-- It is dispatched. -/
theorem publish_moves (harmed : commit.stage.armed = false) :
    Moves setup (c.queueWith (drainPart (some commit)))
      ((c.publish setup commit).queueWith none) := by
  obtain ⟨hsub, hperm, -⟩ := setup.admitBatch_spec c.publications c.history.accesses commit.items
  have hqueue : (c.publish setup commit).queueWith none = { c.queue [] [] with
      shown := drainMessages c.history.events ++ if commit.origin = .offlineDrain then
        (setup.admitBatch c.publications c.history.accesses commit.items).1 else []
      heldBack := (c.publish setup commit).history.recovered } := by
    rw [← drainMessages_singleton, ← drainMessages_append]
    simp only [queueWith, queue, publish]
    split
    · rename_i hnone
      rw [hnone, drainMessages_append, drainMessages_singleton, ite_self, List.append_nil]
      rfl
    · rfl
  rw [hqueue, recovered_publish]
  by_cases hdrain : commit.origin = .offlineDrain
  · rw [if_pos hdrain, if_pos hdrain, drainPart_of_drain commit hdrain,
      queueWith_of_not_armed _ harmed]
    exact .single (.display (c.queue [] commit.items) hsub hperm)
  · rw [if_neg hdrain, if_neg hdrain, drainPart_of_live commit hdrain, List.append_nil]
    exact .refl

end Client

/-! ## What is handed out -/

/-- Drained batches come first in a log, and there are only those before live mode. -/
def DrainFirst (active : Bool) (log : List (BatchOrigin × List InboundMessage)) : Prop :=
  ∃ drained live, log = drained ++ live ∧ (∀ e ∈ drained, e.1 = .offlineDrain)
    ∧ (∀ e ∈ live, e.1 = .live) ∧ (active = true → live = [])

namespace DrainFirst

variable {active : Bool} {log : List (BatchOrigin × List InboundMessage)}

theorem nil : DrainFirst active [] := ⟨[], [], rfl, by simp, by simp, fun _ => rfl⟩

/-- A batch is logged in the mode it belongs to. -/
theorem append (h : DrainFirst active log) {origin : BatchOrigin} (items : List InboundMessage)
    (hmode : origin = .offlineDrain ↔ active = true) :
    DrainFirst active (log ++ [(origin, items)]) := by
  obtain ⟨drained, live, rfl, hdrained, hlive, hnone⟩ := h
  by_cases hactive : active = true
  · obtain rfl := hnone hactive
    refine ⟨drained ++ [(origin, items)], [], by simp, ?_, by simp, fun _ => rfl⟩
    exact List.forall_mem_append.mpr
      ⟨hdrained, List.forall_mem_singleton.mpr (hmode.mpr hactive)⟩
  · refine ⟨drained, live ++ [(origin, items)], List.append_assoc _ _ _, hdrained, ?_,
      fun h => absurd h hactive⟩
    refine List.forall_mem_append.mpr ⟨hlive, List.forall_mem_singleton.mpr ?_⟩
    cases origin with
    | offlineDrain => exact absurd (hmode.mp rfl) hactive
    | live => rfl

theorem mono (h : DrainFirst active log) {active' : Bool} (hactive : active' = true → active = true) :
    DrainFirst active' log := by
  obtain ⟨drained, live, hlog, hdrained, hlive, hnone⟩ := h
  exact ⟨drained, live, hlog, hdrained, hlive, fun h => hnone (hactive h)⟩

end DrainFirst

/-- The logs of a client. -/
structure Client.Logged (setup : Setup) (c : Client) : Prop where
  calls : DrainFirst c.batcher.active c.history.hookCalls
  events : DrainFirst c.batcher.active c.history.events
  handed : setup.hook = true → drainMessages c.history.hookCalls = c.history.settled
  noHook : setup.hook = false → c.history.abandoned = []
  suppressed : ∀ m ∈ c.history.recovered, setup.Suppressed c.history.accesses m

/-- A commit fits the mode of its client, and without a hook it only waits for the
flush. -/
structure Commit.Fits (setup : Setup) (c : Client) (commit : Commit) : Prop where
  mode : commit.origin = .offlineDrain ↔ c.batcher.active = true
  hook : commit.stage ≠ .flushing → setup.hook = true

theorem Commit.Fits.not_drain {setup : Setup} {c : Client} {commit : Commit}
    (h : commit.Fits setup c) (hlive : c.batcher.active = false) :
    ¬ commit.origin = .offlineDrain := by
  rw [h.mode, hlive]
  decide

theorem Commit.Fits.congr {setup : Setup} {c c' : Client} {commit : Commit}
    (h : commit.Fits setup c) (hactive : c'.batcher.active = c.batcher.active) :
    commit.Fits setup c' := ⟨by rw [hactive]; exact h.mode, h.hook⟩

namespace Client

variable {setup : Setup} {c c' : Client} {commit : Commit} {r : Client × Progress}

/-- The logs stay as they are, also where the batcher is switched to live mode. -/
theorem Logged.congr (h : c.Logged setup) (hhistory : c'.history = c.history)
    (hactive : c'.batcher.active = true → c.batcher.active = true) : c'.Logged setup := by
  constructor
  · rw [hhistory]
    exact h.calls.mono hactive
  · rw [hhistory]
    exact h.events.mono hactive
  · rw [hhistory]
    exact h.handed
  · rw [hhistory]
    exact h.noHook
  · rw [hhistory]
    exact h.suppressed

theorem ne_flushing_of_not_armed (h : commit.stage.armed = false) : commit.stage ≠ .flushing := by
  intro hstage
  rw [hstage] at h
  cases h

/-- What a commit makes of a client. -/
structure Advances (setup : Setup) (c : Client) (commit : Option Commit) (c' : Client)
    (commit' : Option Commit) : Prop where
  mode : SameMode c c'
  logged : c.Logged setup → c'.Logged setup
  moves : Moves setup (c.queueWith (drainPart commit)) (c'.queueWith (drainPart commit'))

theorem advances_live (h : ¬ commit.origin = .offlineDrain) :
    Advances setup c (some commit) c none :=
  ⟨.refl c, id, by rw [drainPart_of_live commit h]; exact .refl⟩

/-- Only a batch of the drain is put back. -/
theorem advances_dropGuard (harmed : commit.stage.armed = true) :
    Advances setup c (some commit) (c.dropGuard setup commit) none := by
  unfold dropGuard
  split
  · rename_i hdrain
    obtain ⟨batcher, tickets, heq, hentries, hactive⟩ :=
      c.reinsert_eq setup commit.commitTicket commit.items
    rw [heq]
    refine ⟨⟨hactive, rfl, rfl⟩, fun h => h.congr rfl fun h => hactive ▸ h, .single ?_⟩
    rw [drainPart_of_drain commit hdrain, queueWith_of_armed _ harmed]
    show BatchQueue.Step _ _ { c.queue [] [] with waiting := batcher.entries }
    rw [hentries]
    exact .restore (c.queue commit.items [])
  · rename_i hlive
    exact advances_live hlive

theorem advances_abandon (harmed : commit.stage.armed = false) (hhook : setup.hook = true) :
    Advances setup c (some commit) (c.abandon commit) none := by
  unfold abandon
  split
  · rename_i hdrain
    refine ⟨⟨rfl, rfl, rfl⟩, fun h => ⟨h.calls, h.events, h.handed, fun hnone => ?_, h.suppressed⟩,
      .single ?_⟩
    · rw [hhook] at hnone
      cases hnone
    · rw [drainPart_of_drain commit hdrain, queueWith_of_not_armed _ harmed]
      exact .abandon (c.queue [] commit.items)
  · rename_i hlive
    exact advances_live hlive

theorem logged_publish (h : c.Logged setup)
    (hmode : commit.origin = .offlineDrain ↔ c.batcher.active = true) :
    (c.publish setup commit).Logged setup := by
  refine ⟨h.calls, ?_, h.handed, h.noHook, fun m hm => ?_⟩
  · rw [publish]
    dsimp only
    split
    · exact h.events
    · exact h.events.append _ hmode
  · have hnow := (setup.admitBatch_spec c.publications c.history.accesses commit.items).2.2 m
    have hcases : m ∈ c.history.recovered
        ∨ m ∈ (setup.admitBatch c.publications c.history.accesses commit.items).2 := by
      rw [recovered_publish] at hm
      split at hm
      · exact List.mem_append.mp hm
      · exact .inl hm
    rw [publish]
    dsimp only
    rcases hcases with hm | hm
    · exact ((h.suppressed m hm).append _).append _
    · exact (hnow hm).append _

theorem advances_publish (harmed : commit.stage.armed = false)
    (hmode : commit.origin = .offlineDrain ↔ c.batcher.active = true) :
    Advances setup c (some commit) (c.publish setup commit) none :=
  ⟨⟨rfl, rfl, rfl⟩, fun h => logged_publish h hmode, publish_moves harmed⟩

section Durable

variable (harmed : commit.stage.armed = true)
  (hmode : commit.origin = .offlineDrain ↔ c.batcher.active = true)
include harmed hmode

theorem advances_callHook (hhook : setup.hook = true) :
    Advances setup c (some commit) (c.callHook commit).1
      (some { commit with stage := .hook }) := by
  have hmoves := markDurable_moves setup c harmed
  obtain ⟨tickets, heq⟩ := c.markDurable_eq commit
  rw [callHook]
  rw [heq] at hmoves ⊢
  refine ⟨⟨rfl, rfl, rfl⟩, fun h => ⟨h.calls.append _ hmode, h.events, fun _ => ?_, ?_,
    h.suppressed⟩, hmoves⟩
  · rw [drainMessages_append, h.handed hhook, drainMessages_singleton]
  · rw [hhook]
    rintro ⟨⟩

/-- Without a hook a durable batch is dispatched at once. -/
theorem advances_dispatch (hhook : setup.hook = false) :
    Advances setup c (some commit) ((c.markDurable commit).publish setup commit) none := by
  have hmoves := markDurable_moves setup c harmed
  obtain ⟨tickets, heq⟩ := c.markDurable_eq commit
  rw [heq] at hmoves ⊢
  refine ⟨⟨rfl, rfl, rfl⟩, fun h =>
    logged_publish ⟨h.calls, h.events, ?_, h.noHook, h.suppressed⟩ hmode,
    hmoves.trans (publish_moves rfl)⟩
  rw [hhook]
  rintro ⟨⟩

end Durable

theorem entries_markDurable : (c.markDurable commit).batcher.entries = c.batcher.entries := by
  obtain ⟨tickets, heq⟩ := c.markDurable_eq commit
  rw [heq]

/-- A client and what a commit has got to. -/
structure Commits (setup : Setup) (c : Client) (commit : Option Commit) (r : Client × Progress) :
    Prop extends Advances setup c commit r.1 r.2.commit where
  fits : ∀ commit', r.2 = .waiting commit' → commit'.Fits setup c
  /-- Only a commit of the drain that fails puts messages back. -/
  empty : r.2 ≠ .done false ∨ c.batcher.active = false → r.1.batcher.entries = []

/-- The commit is over; it put nothing back, or it is one of the drain that failed. -/
theorem Advances.done (h : Advances setup c (some commit) c' none) {ok : Bool}
    (hempty : ok = true ∨ c.batcher.active = false → c'.batcher.entries = []) :
    Commits setup c (some commit) (c', .done ok) :=
  ⟨h, by rintro _ ⟨⟩, fun hr => hempty (hr.imp_left fun hne => by cases ok; exacts [absurd rfl hne, rfl])⟩

section Resume

variable (hfits : commit.Fits setup c) (hempty : c.batcher.entries = [])
include hfits hempty

theorem commits_goOn {stage : CommitStage} (harmed : stage.armed = commit.stage.armed)
    (hhook : stage ≠ .flushing → setup.hook = true) :
    Commits setup c (some commit) (c, .waiting { commit with stage }) := by
  refine ⟨⟨.refl c, id, ?_⟩, ?_, fun _ => hempty⟩
  · show Moves setup _ (c.queueWith (drainPart (some { commit with stage })))
    by_cases hdrain : commit.origin = .offlineDrain
    · rw [drainPart_of_drain commit hdrain, drainPart_of_drain { commit with stage } hdrain,
        queueWith_of_stage c harmed]
    · rw [drainPart_of_live commit hdrain, drainPart_of_live { commit with stage } hdrain]
  · rintro _ ⟨⟩
    exact ⟨hfits.mode, hhook⟩

theorem commits_dropGuard (harmed : commit.stage.armed = true) :
    Commits setup c (some commit) (c.dropGuard setup commit, .done false) := by
  refine (advances_dropGuard harmed).done fun hlive => ?_
  rw [dropGuard, if_neg (hfits.not_drain (hlive.resolve_left nofun))]
  exact hempty

theorem commits_callHook (harmed : commit.stage.armed = true) (hhook : setup.hook = true) :
    Commits setup c (some commit) (c.callHook commit) := by
  refine ⟨advances_callHook harmed hfits.mode hhook, ?_, fun _ => entries_markDurable.trans hempty⟩
  rintro _ ⟨⟩
  exact ⟨hfits.mode, fun _ => hhook⟩

/-- The call returns that a commit waits for. -/
theorem commits_resume (ok : Bool) :
    Commits setup c (some commit) (c.resume setup commit ok) := by
  have hmode := hfits.mode
  obtain ⟨items, arrived, origin, ticket, stage⟩ := commit
  rw [resume.eq_def]
  dsimp only
  cases stage with
  | arena => exact commits_goOn hfits hempty rfl fun _ => hfits.hook nofun
  | storing =>
    dsimp only
    split
    · exact commits_dropGuard hfits hempty rfl
    · split
      · exact commits_goOn hfits hempty rfl (absurd rfl)
      · exact commits_callHook hfits hempty rfl (hfits.hook nofun)
  | flushing =>
    dsimp only
    split
    · exact commits_dropGuard hfits hempty rfl
    · split
      · rename_i hhook
        exact commits_callHook hfits hempty rfl hhook
      · rename_i hnone
        exact (advances_dispatch rfl hmode (Bool.eq_false_iff.mpr hnone)).done fun _ =>
          entries_markDurable.trans hempty
  | hook =>
    dsimp only
    split
    · exact commits_goOn hfits hempty rfl fun _ => hfits.hook nofun
    · refine (advances_abandon rfl (hfits.hook nofun)).done fun _ => ?_
      unfold Client.abandon
      split <;> exact hempty
  | deleting => exact (advances_publish rfl hmode).done fun _ => hempty

end Resume

theorem advances_cancelCommit (hfits : commit.Fits setup c) :
    Advances setup c (some commit) (c.cancelCommit setup commit) none := by
  rw [cancelCommit]
  cases harmed : commit.stage.armed with
  | true => exact advances_dropGuard harmed
  | false => exact advances_abandon harmed (hfits.hook (ne_flushing_of_not_armed harmed))

theorem cancelCommit_of_live (h : ¬ commit.origin = .offlineDrain) :
    c.cancelCommit setup commit = c := by
  rw [cancelCommit]
  split <;> exact if_neg h

/-! ## Taking the batch -/

theorem commits_takeAndCommit (hlive : c.batcher.active = false → c.batcher.entries = []) :
    Commits setup c none (c.takeAndCommit setup) := by
  by_cases h : c.batcher.entries = []
  · have hsame : ({ c with batcher := c.batcher.take.2 } : Client).queueWith none
        = c.queueWith none := by
      rw [queueWith, queueWith, queue, queue, h]
      rfl
    rw [show c.takeAndCommit setup = ({ c with batcher := c.batcher.take.2 }, .done true)
      from if_pos h]
    exact ⟨⟨⟨rfl, rfl, rfl⟩, fun h => h.congr rfl id, hsame ▸ .refl⟩, by rintro _ ⟨⟩, fun _ => rfl⟩
  · rw [takeAndCommit_of_ne h]
    have hactive : c.batcher.active = true :=
      by_contra fun hnot => h (hlive (Bool.eq_false_iff.mpr hnot))
    refine ⟨⟨⟨rfl, rfl, rfl⟩, fun h => ⟨h.calls, h.events, h.handed, h.noHook, h.suppressed⟩,
      .single ?_⟩, ?_, fun _ => rfl⟩
    · have harmed : (if setup.hook then CommitStage.arena else .flushing).armed = true := by
        cases setup.hook <;> rfl
      show BatchQueue.Step _ _ (Client.queueWith _ (some _))
      rw [queueWith_of_armed _ harmed]
      exact .take (c.queueWith none) rfl rfl
    · rintro _ ⟨⟩
      refine ⟨⟨fun _ => hactive, fun _ => rfl⟩, fun hstage => ?_⟩
      by_contra hhook
      exact hstage (if_neg hhook)

/-- With a hook a live message waits for its row; without one it is dispatched. -/
theorem commits_live (hlive : c.batcher.active = false) (hempty : c.batcher.entries = [])
    (item : InboundMessage) :
    Commits setup c none (c.commitInboundBatch setup [item] .live none) := by
  have hmode : BatchOrigin.live = .offlineDrain ↔ c.batcher.active = true := by
    rw [hlive]
    decide
  rw [commitInboundBatch.eq_def]
  dsimp only
  cases hhook : setup.hook with
  | true =>
    refine ⟨⟨.refl c, id, .refl⟩, ?_, fun _ => hempty⟩
    rintro _ ⟨⟩
    exact ⟨hmode, fun _ => hhook⟩
  | false =>
    have hadvances := @advances_dispatch setup c ⟨setup.kept [item], [item], .live, none, .arena⟩
      rfl hmode hhook
    exact ⟨⟨hadvances.mode, hadvances.logged, hadvances.moves⟩, by rintro _ ⟨⟩, fun _ => hempty⟩

end Client

end WaCore.Inbound
