import Mathlib.Data.List.Nodup
import Mathlib.Logic.Relation
import Mathlib.Tactic.Common

/-!
# Counters leased ahead of their use

A device uses the counters of some chains one after the other and must never use
one twice, also when it crashes and goes on from what it last wrote to stable
storage.  To write before every use is slow.  So it leases: what it writes says
up to which counter the current chain may have been used, and a device that is
loaded starts there.  Only a use that leaves the lease raises it, and has to wait
until that has been written.

`Sys` is such a device in the abstract.  `raises` counts how often a lease was
raised; an image of the device on stable storage and a use of a counter carry its
value at their time.  A use may be published once an image is durable since
whose time no lease was raised up to the use, that is, once the image's value is
not less than the use's.  `Step` says what each of the device's actions may do to
the positions of its chains, `Safe` is kept by all of them, and
`Safe.published_nodup` is the result.
-/

namespace WaCore.Lease

/-- Where chains stand: `p c n` says that the next counter of `c` is `n`. -/
abbrev Positions (χ : Type) := χ → Nat → Prop

/-- A use of a counter of a chain. -/
structure Use (χ : Type) where
  chain : χ
  counter : Nat
  raises : Nat

/-- A copy of the device, and where a device that is loaded from it starts. -/
structure Image (χ : Type) where
  resumes : Positions χ
  raises : Nat

structure Sys (χ : Type) where
  current : Positions χ
  leased : Positions χ
  raises : Nat
  durable : Image χ
  /-- An image that is being written. -/
  staged : Option (Image χ)
  unsent : List (Use χ)
  published : List (Use χ)

namespace Sys

variable {χ : Type}

def uses (s : Sys χ) : List (Use χ) := s.unsent ++ s.published

/-- The images that the device may be loaded from, now or later. -/
def IsImage (s : Sys χ) (i : Image χ) : Prop := i = s.durable ∨ s.staged = some i

/-- The chain has not been used and is in no image. -/
structure Fresh (s : Sys χ) (c : χ) : Prop where
  unused : ∀ u ∈ s.uses, u.chain ≠ c
  unknown : ∀ i, s.IsImage i → ∀ n, ¬ i.resumes c n

/-- The chains went forward, or are new, and no lease was raised. -/
structure Moves (s : Sys χ) (current leased : Positions χ) : Prop where
  forward : ∀ c n, current c n → (∃ m ≤ n, s.current c m) ∨ s.Fresh c
  kept : ∀ c n k, current c n → leased c k → n < k → (∃ l, s.leased c l ∧ k ≤ l) ∨ s.Fresh c

/-- The counter `n` of `c` is used, and the others went forward. -/
structure Uses (s : Sys χ) (c : χ) (n : Nat) (current : Positions χ) : Prop where
  next : s.current c n
  past : ∀ m, current c m → n < m
  forward : ∀ c n, current c n → ∃ m ≤ n, s.current c m

end Sys

/-- The actions of a device. -/
inductive Step {χ : Type} : Sys χ → Sys χ → Prop where
  | move (s : Sys χ) (current leased : Positions χ) (h : s.Moves current leased) :
    Step s { s with current := current, leased := leased }
  /-- A lease is raised, or a use is held back as if it were. -/
  | raise (s : Sys χ) : Step s { s with raises := s.raises + 1 }
  /-- A use below the lease. -/
  | use (s : Sys χ) (c : χ) (n k : Nat) (current leased : Positions χ) (h : s.Uses c n current)
    (hk : s.leased c k) (hn : n < k)
    (hkept : ∀ c n k, current c n → leased c k → n < k → ∃ l, s.leased c l ∧ k ≤ l) :
    Step s { s with current := current, leased := leased, unsent := ⟨c, n, s.raises⟩ :: s.unsent }
  /-- A use that raises the lease. -/
  | useRaising (s : Sys χ) (c : χ) (n : Nat) (current leased : Positions χ) (h : s.Uses c n current) :
    Step s { s with current := current, leased := leased, raises := s.raises + 1
                    unsent := ⟨c, n, s.raises + 1⟩ :: s.unsent }
  /-- An image is taken, which resumes past the lease. -/
  | stage (s : Sys χ) (resumes : Positions χ)
    (hforward : ∀ c n, resumes c n → ∃ m ≤ n, s.current c m)
    (hleased : ∀ c n k m, s.current c n → s.leased c k → n < k → resumes c m → k ≤ m) :
    Step s { s with staged := some ⟨resumes, s.raises⟩ }
  | abort (s : Sys χ) : Step s { s with staged := none }
  | commit (s : Sys χ) (i : Image χ) (h : s.staged = some i) :
    Step s { s with durable := i, staged := none }
  | publish (s : Sys χ) (before after : List (Use χ)) (u : Use χ)
    (hu : s.unsent = before ++ u :: after) (hready : u.raises ≤ s.durable.raises) :
    Step s { s with unsent := before ++ after, published := u :: s.published }
  /-- The device is loaded from the durable image. -/
  | crash (s : Sys χ) (current leased : Positions χ)
    (hforward : ∀ c n, current c n → ∃ m ≤ n, s.durable.resumes c m)
    (hleased : ∀ c n k, current c n → leased c k → k ≤ n) :
    Step s { s with current := current, leased := leased, raises := s.durable.raises
                    staged := none, unsent := [] }

/-! ## The invariant -/

/-- What holds of a device at all times. -/
structure Safe {χ : Type} (s : Sys χ) : Prop where
  /-- Every chain stands past its uses. -/
  past : ∀ u ∈ s.uses, ∀ n, s.current u.chain n → u.counter < n
  /-- An image resumes past the uses that no lease was raised before since its
  time. -/
  resumes : ∀ i, s.IsImage i → ∀ u ∈ s.uses, u.raises ≤ i.raises →
    ∀ n, i.resumes u.chain n → u.counter < n
  /-- An image since whose time no lease was raised covers the current one. -/
  covers : ∀ i, s.IsImage i → i.raises = s.raises → ∀ c n k m, s.current c n → s.leased c k →
    n < k → i.resumes c m → k ≤ m
  durable_le : ∀ i, s.IsImage i → s.durable.raises ≤ i.raises
  image_le : ∀ i, s.IsImage i → i.raises ≤ s.raises
  use_le : ∀ u ∈ s.uses, u.raises ≤ s.raises
  published_le : ∀ u ∈ s.published, u.raises ≤ s.durable.raises
  distinct : (s.uses.map fun u => (u.chain, u.counter)).Nodup

namespace Safe

variable {χ : Type} {s s' : Sys χ}

/-- Positions that went forward are past the uses. -/
theorem past_of_forward (h : Safe s) {current : Positions χ}
    (hforward : ∀ c n, current c n → (∃ m ≤ n, s.current c m) ∨ s.Fresh c) :
    ∀ u ∈ s.uses, ∀ n, current u.chain n → u.counter < n := by
  intro u hu n hn
  rcases hforward _ n hn with ⟨m, hm, hcurrent⟩ | hfresh
  · exact Nat.lt_of_lt_of_le (h.past u hu m hcurrent) hm
  · exact absurd rfl (hfresh.unused u hu)

variable {current leased : Positions χ}

/-- An image that covers the lease still does when the chains went forward and no
lease was raised. -/
theorem covers_of_moves (h : Safe s) (hmoves : s.Moves current leased) :
    ∀ i, s.IsImage i → i.raises = s.raises → ∀ c n k m, current c n → leased c k → n < k →
      i.resumes c m → k ≤ m := by
  intro i hi hraises c n k m hn hk hlt hm
  rcases hmoves.kept c n k hn hk hlt with ⟨l, hl, hkl⟩ | hfresh
  · rcases hmoves.forward c n hn with ⟨n', hn', hcurrent⟩ | hfresh
    · exact Nat.le_trans hkl (h.covers i hi hraises c n' l m hcurrent hl (by omega) hm)
    · exact absurd hm (hfresh.unknown i hi m)
  · exact absurd hm (hfresh.unknown i hi m)

theorem move (h : Safe s) (hmoves : s.Moves current leased) :
    Safe { s with current := current, leased := leased } where
  past := h.past_of_forward hmoves.forward
  resumes := h.resumes
  covers := h.covers_of_moves hmoves
  durable_le := h.durable_le
  image_le := h.image_le
  use_le := h.use_le
  published_le := h.published_le
  distinct := h.distinct

theorem raise (h : Safe s) : Safe { s with raises := s.raises + 1 } where
  past := h.past
  resumes := h.resumes
  covers i hi hraises := by
    have hle := h.image_le i hi
    dsimp only at hraises
    omega
  durable_le := h.durable_le
  image_le i hi := Nat.le_succ_of_le (h.image_le i hi)
  use_le u hu := Nat.le_succ_of_le (h.use_le u hu)
  published_le := h.published_le
  distinct := h.distinct

/-- A counter that is used has not been. -/
theorem not_mem_uses (h : Safe s) {c : χ} {n : Nat} (hnext : s.current c n) :
    (c, n) ∉ s.uses.map fun u => (u.chain, u.counter) := by
  intro hmem
  obtain ⟨u, hu, heq⟩ := List.mem_map.mp hmem
  cases heq
  exact Nat.lt_irrefl _ (h.past u hu _ hnext)

/-- A use keeps the invariant if every image that may be published from resumes
past it. -/
theorem addUse (h : Safe s) {c : χ} {n : Nat} {r : Nat} (huses : s.Uses c n current)
    (hr : s.raises ≤ r) (hresumes : ∀ i, s.IsImage i → r ≤ i.raises → ∀ m, i.resumes c m → n < m)
    (hcovers : ∀ i, s.IsImage i → i.raises = r → ∀ c n k m, current c n → leased c k → n < k →
      i.resumes c m → k ≤ m) :
    Safe { s with current := current, leased := leased, raises := r
                  unsent := ⟨c, n, r⟩ :: s.unsent } where
  past := by
    have hold := h.past_of_forward fun c n hn => .inl (huses.forward c n hn)
    exact List.forall_mem_cons.mpr ⟨huses.past, hold⟩
  resumes i hi := List.forall_mem_cons.mpr ⟨hresumes i hi, h.resumes i hi⟩
  covers := hcovers
  durable_le := h.durable_le
  image_le i hi := Nat.le_trans (h.image_le i hi) hr
  use_le := List.forall_mem_cons.mpr ⟨Nat.le_refl _, fun u hu => Nat.le_trans (h.use_le u hu) hr⟩
  published_le := h.published_le
  distinct := List.nodup_cons.mpr ⟨h.not_mem_uses huses.next, h.distinct⟩

/-- The durable image and a new one that resumes past the lease. -/
theorem stage (h : Safe s) {resumes : Positions χ}
    (hforward : ∀ c n, resumes c n → ∃ m ≤ n, s.current c m)
    (hleased : ∀ c n k m, s.current c n → s.leased c k → n < k → resumes c m → k ≤ m) :
    Safe { s with staged := some ⟨resumes, s.raises⟩ } where
  past := h.past
  resumes := by
    rintro i (rfl | hi) u hu hle n hn
    · exact h.resumes _ (.inl rfl) u hu hle n hn
    · cases hi
      obtain ⟨m, hm, hcurrent⟩ := hforward _ n hn
      exact Nat.lt_of_lt_of_le (h.past u hu m hcurrent) hm
  covers := by
    rintro i (rfl | hi) hraises
    · exact h.covers _ (.inl rfl) hraises
    · cases hi
      exact hleased
  durable_le := by
    rintro i (rfl | hi)
    · exact Nat.le_refl _
    · cases hi
      exact h.image_le _ (.inl rfl)
  image_le := by
    rintro i (rfl | hi)
    · exact h.image_le _ (.inl rfl)
    · cases hi
      exact Nat.le_refl _
  use_le := h.use_le
  published_le := h.published_le
  distinct := h.distinct

/-- Nothing but one of the images is left. -/
theorem keep (h : Safe s) {i : Image χ} (hi : s.IsImage i) :
    Safe { s with durable := i, staged := none } := by
  have hall : ∀ j, Sys.IsImage { s with durable := i, staged := none } j → j = i :=
    fun j hj => hj.resolve_right nofun
  refine ⟨h.past, fun j hj => ?_, fun j hj => ?_, fun j hj => ?_, fun j hj => ?_, h.use_le,
    fun u hu => Nat.le_trans (h.published_le u hu) (h.durable_le i hi), h.distinct⟩
  all_goals obtain rfl := hall j hj
  · exact h.resumes _ hi
  · exact h.covers _ hi
  · exact Nat.le_refl _
  · exact h.image_le _ hi

theorem publish (h : Safe s) {before after : List (Use χ)} {u : Use χ}
    (hu : s.unsent = before ++ u :: after) (hready : u.raises ≤ s.durable.raises) :
    Safe { s with unsent := before ++ after, published := u :: s.published } := by
  have hperm : (before ++ after ++ u :: s.published).Perm s.uses := by
    rw [Sys.uses, hu]
    exact List.perm_middle.trans (List.perm_middle.symm.append_right _)
  have hmem : ∀ v, v ∈ before ++ after ++ u :: s.published ↔ v ∈ s.uses := fun v => hperm.mem_iff
  refine ⟨fun v hv => h.past v ((hmem v).mp hv),
    fun i hi v hv => h.resumes i hi v ((hmem v).mp hv), h.covers, h.durable_le, h.image_le,
    fun v hv => h.use_le v ((hmem v).mp hv), List.forall_mem_cons.mpr ⟨hready, h.published_le⟩, ?_⟩
  exact (hperm.map _).nodup_iff.mpr h.distinct

theorem crash (h : Safe s) (hforward : ∀ c n, current c n → ∃ m ≤ n, s.durable.resumes c m)
    (hleased : ∀ c n k, current c n → leased c k → k ≤ n) :
    Safe { s with current := current, leased := leased, raises := s.durable.raises
                  staged := none, unsent := [] } := by
  have hpublished : ∀ u ∈ s.published, u ∈ s.uses := fun u hu => List.mem_append_right _ hu
  have hall : ∀ i, (i = s.durable ∨ none = some i) → i = s.durable :=
    fun i hi => hi.resolve_right nofun
  refine ⟨fun u hu n hn => ?_, fun i hi u hu => ?_, fun i hi hraises c n k m hn hk hlt => ?_,
    fun i hi => ?_, fun i hi => ?_, h.published_le, h.published_le, ?_⟩
  · obtain ⟨m, hm, hresumes⟩ := hforward _ n hn
    exact Nat.lt_of_lt_of_le
      (h.resumes _ (.inl rfl) u (hpublished u hu) (h.published_le u hu) m hresumes) hm
  · obtain rfl := hall i hi
    exact h.resumes _ (.inl rfl) u (hpublished u hu)
  · have hle := hleased c n k hn hk
    omega
  · obtain rfl := hall i hi
    exact Nat.le_refl _
  · obtain rfl := hall i hi
    exact Nat.le_refl _
  · have hdistinct := h.distinct
    rw [Sys.uses, List.map_append] at hdistinct
    exact hdistinct.of_append_right

/-- Every action keeps the invariant. -/
theorem step (h : Safe s) (hstep : Step s s') : Safe s' := by
  cases hstep with
  | move current leased hmoves => exact h.move hmoves
  | raise => exact h.raise
  | use c n k current leased huses hk hn hkept =>
    have hmoves : s.Moves current leased :=
      ⟨fun c n hn => .inl (huses.forward c n hn), fun c n k hc hl hlt => .inl (hkept c n k hc hl hlt)⟩
    refine h.addUse huses (Nat.le_refl _) (fun i hi hle m hm => ?_) (h.covers_of_moves hmoves)
    have hraises := Nat.le_antisymm (h.image_le i hi) hle
    exact Nat.lt_of_lt_of_le hn (h.covers i hi hraises c n k m huses.next hk hn hm)
  | useRaising c n current leased huses =>
    have hold : ∀ i, s.IsImage i → i.raises < s.raises + 1 :=
      fun i hi => Nat.lt_succ_of_le (h.image_le i hi)
    exact h.addUse huses (Nat.le_succ _)
      (fun i hi hle => absurd hle (Nat.not_le.mpr (hold i hi)))
      fun i hi heq => absurd heq (Nat.ne_of_lt (hold i hi))
  | stage resumes hforward hleased => exact h.stage hforward hleased
  | abort => exact h.keep (.inl rfl)
  | commit i hi => exact h.keep (.inr hi)
  | publish before after u hu hready => exact h.publish hu hready
  | crash current leased hforward hleased => exact h.crash hforward hleased

theorem run (h : Safe s) (hrun : Relation.ReflTransGen Step s s') : Safe s' := by
  induction hrun with
  | refl => exact h
  | tail _ hstep ih => exact ih.step hstep

/-- No two published uses are of the same counter of a chain. -/
theorem published_nodup (h : Safe s) :
    (s.published.map fun u => (u.chain, u.counter)).Nodup := by
  have hdistinct := h.distinct
  rw [Sys.uses, List.map_append] at hdistinct
  exact hdistinct.of_append_right

/-- A device that has done nothing is safe. -/
theorem start {current leased resumes : Positions χ}
    (hleased : ∀ c n k m, current c n → leased c k → n < k → resumes c m → k ≤ m) :
    Safe ⟨current, leased, 0, ⟨resumes, 0⟩, none, [], []⟩ := by
  have hall : ∀ i : Image χ, (i = ⟨resumes, 0⟩ ∨ none = some i) → i = ⟨resumes, 0⟩ :=
    fun i hi => hi.resolve_right nofun
  refine ⟨nofun, fun _ _ _ => nofun, fun i hi _ => ?_, fun i _ => Nat.zero_le _, fun i hi => ?_, nofun,
    nofun, .nil⟩
  · obtain rfl := hall i hi
    exact hleased
  · obtain rfl := hall i hi
    exact Nat.le_refl _

end Safe

end WaCore.Lease
