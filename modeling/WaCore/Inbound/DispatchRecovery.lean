import Mathlib.Data.List.Induction
import WaCore.Inbound.DispatchGate

/-!
# The gate suppresses what was recovered

A payload is claimed as recovered by an admission from the phone that was let through, and
by nothing else.  That survives every access to the table, so an ordinary message that is
suppressed has a payload that was recovered before.
-/

namespace WaCore.Inbound

section Claims

variable {P : DispatchPayload → Prop} {tokens : Nat → Publication} {table : DispatchTable}
  {claim : DispatchClaim}

/-- What is known of every payload of the claim. -/
def DispatchClaim.All (P : DispatchPayload → Prop) (claim : DispatchClaim) : Prop :=
  ∀ payload ∈ claim.payloads, P payload

def DispatchTable.All (P : DispatchPayload → Prop) (table : DispatchTable) : Prop :=
  ∀ key claim, table.lookup key = some claim → claim.All P

theorem DispatchClaim.All.prune (h : claim.All P) : (claim.prune tokens).All P :=
  fun payload hpayload => h payload (List.mem_filter.mp hpayload).1

namespace DispatchTable.All

theorem insert (h : table.All P) (key : UInt64) (hclaim : claim.All P) :
    All P (table.insert key claim) := by
  intro key' claim' hlook
  by_cases hkey : key' = key
  · rw [hkey, AList.lookup_insert] at hlook
    exact Option.some.inj hlook ▸ hclaim
  · rw [AList.lookup_insert_ne hkey] at hlook
    exact h key' claim' hlook

theorem erase (h : table.All P) (key : UInt64) : All P (table.erase key) := by
  intro key' claim' hlook
  by_cases hkey : key' = key
  · rw [hkey, AList.lookup_erase] at hlook
    cases hlook
  · rw [AList.lookup_erase_ne hkey] at hlook
    exact h key' claim' hlook

theorem dropStale (h : table.All P) (key : UInt64) : All P (dropStale tokens table key) := by
  unfold Inbound.dropStale
  split
  · exact h
  · rename_i claim hlook
    dsimp only
    split
    · exact h.erase key
    · exact h.insert key (h key claim hlook).prune

theorem recoveryKey (h : table.All P) (key alternate : UInt64) :
    All P (recoveryKey tokens table key alternate).1 := by
  unfold Inbound.recoveryKey
  split
  · exact h
  · rename_i claim hlook
    have hclaim : (claim.prune tokens).All P := (h alternate claim hlook).prune
    dsimp only
    split
    · exact h.insert alternate hclaim
    · exact h.insert alternate hclaim

/-- An access works on a claim of the table or on a new one. -/
theorem withMessageDispatch {R : Type} (h : table.All P) (tokens : Nat → Publication)
    (hashOne : DispatchIdentity → UInt64) (info : MessageInfo) (pdo : Bool)
    (update : DispatchClaim → DispatchClaim × R) :
    let result := withMessageDispatch tokens hashOne table info pdo update
    ∃ claim : DispatchClaim, claim.All P ∧ result.2 = (update claim).2
      ∧ ((update claim).1.All P → All P result.1) := by
  have hdropped : All P (Inbound.dropStale tokens table (dispatchKey hashOne info)) :=
    h.dropStale _
  unfold Inbound.withMessageDispatch
  dsimp only
  generalize Inbound.dropStale tokens table (dispatchKey hashOne info) = table at hdropped
  split
  · rename_i claim hlook
    have hclaim : (claim.prune tokens).All P := (hdropped _ claim hlook).prune
    refine ⟨_, ?_, rfl, hdropped.insert _⟩
    split
    · exact hclaim
    · exact hclaim
  · -- the key has no claim: the one of the other spelling, or a new one
    generalize hfound : (if pdo = true then _ else _ : DispatchTable × Option UInt64) = found
    have hall : All P found.1 := by
      subst hfound
      split
      · exact hdropped
      · cases dispatchAlias hashOne info with
        | none => exact hdropped
        | some alternate => exact hdropped.recoveryKey _ alternate
    split
    · rename_i key claim hbind
      obtain ⟨key', -, hmap⟩ := Option.bind_eq_some_iff.mp hbind
      obtain ⟨claim', hlook, hpair⟩ := Option.map_eq_some_iff.mp hmap
      obtain ⟨rfl, rfl⟩ := Prod.mk.inj hpair
      exact ⟨_, (hall key' claim' hlook).prune, rfl, hall.insert key'⟩
    · generalize Option.or _ _ = aliasKey
      refine ⟨⟨[], aliasKey⟩, List.forall_mem_nil P, rfl, fun hupdated => ?_⟩
      dsimp only
      split
      · exact hall
      · exact hall.insert _ hupdated

end DispatchTable.All

/-! ## Admissions -/

variable {fingerprint : DispatchFingerprint} {pdo hookCommitted : Bool} {guard : Nat}

theorem meetFirst_cases {payloads : List DispatchPayload} {met : List DispatchPayload × Bool}
    (h : DispatchClaim.meetFirst tokens fingerprint pdo hookCommitted guard payloads = some met) :
    ∃ before payload after, payloads = before ++ payload :: after
      ∧ payload.fingerprint = fingerprint ∧ payload.live tokens = true
      ∧ met = (before
          ++ (DispatchClaim.meetPayload tokens payload pdo hookCommitted guard).1 :: after,
        (DispatchClaim.meetPayload tokens payload pdo hookCommitted guard).2) := by
  induction payloads generalizing met with
  | nil => cases h
  | cons payload payloads ih =>
    unfold DispatchClaim.meetFirst at h
    split at h
    · rename_i hmatch
      obtain ⟨hfingerprint, hlive⟩ := Bool.and_eq_true_iff.mp hmatch
      cases h
      exact ⟨[], payload, payloads, rfl, of_decide_eq_true hfingerprint, hlive, rfl⟩
    · obtain ⟨met', hmet', rfl⟩ := Option.map_eq_some_iff.mp h
      obtain ⟨before, found, after, rfl, hfingerprint, hlive, rfl⟩ := ih hmet'
      exact ⟨payload :: before, found, after, rfl, hfingerprint, hlive, rfl⟩

/-- A payload that is claimed as recovered was so before, and only such a one suppresses an
ordinary message. -/
theorem meetPayload_spec (tokens : Nat → Publication) (payload : DispatchPayload)
    (pdo hookCommitted : Bool) (guard : Nat) :
    let met := DispatchClaim.meetPayload tokens payload pdo hookCommitted guard
    (met.1.state ≠ .decrypted → payload.state ≠ .decrypted
      ∧ met.1.fingerprint = payload.fingerprint ∧ met.1.publication = payload.publication)
      ∧ (pdo = false → met.2 = true → payload.state ≠ .decrypted) := by
  dsimp only
  unfold DispatchClaim.meetPayload
  split
  · rename_i hpdo
    exact ⟨fun h => ⟨h, rfl, rfl⟩, fun h => absurd hpdo (by rw [h]; decide)⟩
  · split
    · rename_i hstate
      split
      · exact ⟨fun _ => ⟨hstate, rfl, rfl⟩, fun _ _ => hstate⟩
      · exact ⟨fun _ => ⟨hstate, rfl, rfl⟩, fun _ _ => hstate⟩
    · rename_i hstate
      split
      · exact ⟨fun h => absurd h hstate, fun _ => nofun⟩
      · exact ⟨fun h => absurd h hstate, fun _ => nofun⟩

/-- What is known of the recovered payloads stays known, if it is known of this one. -/
theorem DispatchClaim.All.admitPayload {Q : DispatchFingerprint → Nat → Prop}
    (h : claim.All fun p => p.state ≠ .decrypted → Q p.fingerprint p.publication)
    (hnew : (claim.admitPayload tokens fingerprint pdo hookCommitted guard).2 = false →
      pdo = true → Q fingerprint guard) :
    (claim.admitPayload tokens fingerprint pdo hookCommitted guard).1.All
      fun p => p.state ≠ .decrypted → Q p.fingerprint p.publication := by
  unfold DispatchClaim.admitPayload at hnew ⊢
  split
  · rename_i met hmet
    obtain ⟨before, payload, after, hpayloads, -, -, rfl⟩ := meetFirst_cases hmet
    rw [DispatchClaim.All, hpayloads, List.forall_mem_append, List.forall_mem_cons] at h
    refine List.forall_mem_append.mpr ⟨h.1, List.forall_mem_cons.mpr ⟨fun hstate => ?_, h.2.2⟩⟩
    obtain ⟨hstate, hfingerprint, hpublication⟩ :=
      (meetPayload_spec tokens payload pdo hookCommitted guard).1 hstate
    rw [hfingerprint, hpublication]
    exact h.2.1 hstate
  · rename_i hmet
    rw [hmet] at hnew
    dsimp only at hnew ⊢
    split
    · rename_i hroom
      rw [if_pos hroom] at hnew
      refine List.forall_mem_append.mpr ⟨h, List.forall_mem_singleton.mpr fun hstate => ?_⟩
      cases pdo with
      | true => exact hnew rfl rfl
      | false => exact absurd rfl hstate
    · exact h

end Claims

/-! ## Runs of the gate -/

namespace DispatchGate

variable (hashOne : DispatchIdentity → UInt64)

/-- One of the events admitted the payload from the phone under the guard, and was let
through. -/
def Recovery (events : List GateEvent) (fingerprint : DispatchFingerprint) (guard : Nat) : Prop :=
  ∃ before info hookCommitted rest,
    events = before ++ .admission info true (some fingerprint) hookCommitted guard :: rest
      ∧ ¬ Suppresses hashOne before (.admission info true (some fingerprint) hookCommitted guard)

variable {hashOne} {events : List GateEvent}

theorem Recovery.concat {fingerprint : DispatchFingerprint} {guard : Nat}
    (h : Recovery hashOne events fingerprint guard) (event : GateEvent) :
    Recovery hashOne (events ++ [event]) fingerprint guard := by
  obtain ⟨before, info, hookCommitted, rest, rfl, hpassed⟩ := h
  exact ⟨before, info, hookCommitted, rest ++ [event], by simp, hpassed⟩

end DispatchGate

end WaCore.Inbound
