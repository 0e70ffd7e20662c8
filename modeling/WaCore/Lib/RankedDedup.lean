import Mathlib.Data.List.Induction
import Mathlib.Data.List.Pairwise

/-!
# Deduplication with two ranks in one pass

Elements come one after the other, some of a high rank, and two of them may clash.
`keepFirst` keeps an element that clashes with nothing that was kept, so the first of two
clashing elements wins.  `offer` does the same, except that an element of high rank that
clashes only with elements of low rank takes their places.

The kept elements of high rank are those that `keepFirst` keeps of the elements of high
rank alone (`filter_high_dedup`).  For the elements of low rank the order of arrival
matters: an element that is displaced later may have turned away another one before.
Where that does not happen the kept ones are again a function of the two sublists
(`filter_low_dedup`).
-/

namespace WaCore.RankedDedup

variable {α β : Type} (clash : α → α → Prop) [DecidableRel clash]
  (high : α → Prop) [DecidablePred high]

def keepFirst (kept : List α) (x : α) : List α :=
  if ∃ k ∈ kept, clash k x then kept else kept ++ [x]

/-- The elements that clash with no earlier one that was kept. -/
def firstWins (l : List α) : List α := l.foldl (keepFirst clash) []

def offer (kept : List α) (x : α) : List α :=
  if ∃ k ∈ kept, clash k x then
    if high x ∧ ∀ k ∈ kept, clash k x → ¬ high k then
      kept.filter (fun k => ¬ clash k x) ++ [x]
    else kept
  else kept ++ [x]

def dedup (l : List α) : List α := l.foldl (offer clash high) []

/-! ## One element -/

section Step

variable {clash high} {kept : List α} {x : α}

theorem keepFirst_of_clash (h : ∃ k ∈ kept, clash k x) : keepFirst clash kept x = kept :=
  if_pos h

theorem keepFirst_of_free (h : ¬ ∃ k ∈ kept, clash k x) :
    keepFirst clash kept x = kept ++ [x] :=
  if_neg h

theorem offer_of_free (h : ¬ ∃ k ∈ kept, clash k x) : offer clash high kept x = kept ++ [x] :=
  if_neg h

/-- What `offer` does with an element that clashes. -/
theorem offer_cases (high : α → Prop) [DecidablePred high] (h : ∃ k ∈ kept, clash k x) :
    (high x ∧ (∀ k ∈ kept, clash k x → ¬ high k) ∧
      offer clash high kept x = kept.filter (fun k => ¬ clash k x) ++ [x]) ∨
    ((high x → ∃ k ∈ kept, clash k x ∧ high k) ∧ offer clash high kept x = kept) := by
  unfold offer
  rw [if_pos h]
  by_cases hwins : high x ∧ ∀ k ∈ kept, clash k x → ¬ high k
  · exact .inl ⟨hwins.1, hwins.2, if_pos hwins⟩
  · refine .inr ⟨?_, if_neg hwins⟩
    intro hhigh
    by_contra hnone
    apply hwins
    refine ⟨hhigh, fun k hk hclash hkhigh => ?_⟩
    exact hnone ⟨k, hk, hclash, hkhigh⟩

theorem pairwise_offer (h : kept.Pairwise fun a b => ¬ clash a b) :
    (offer clash high kept x).Pairwise fun a b => ¬ clash a b := by
  by_cases hclash : ∃ k ∈ kept, clash k x
  · obtain ⟨-, -, heq⟩ | ⟨-, heq⟩ := offer_cases high hclash
    · rw [heq, List.pairwise_append]
      refine ⟨h.filter _, List.pairwise_singleton _ _, ?_⟩
      intro a ha b hb
      rw [List.mem_singleton.mp hb]
      simpa using (List.mem_filter.mp ha).2
    · rw [heq]
      exact h
  · rw [offer_of_free hclash, List.pairwise_append]
    refine ⟨h, List.pairwise_singleton _ _, ?_⟩
    intro a ha b hb hab
    rw [List.mem_singleton.mp hb] at hab
    exact hclash ⟨a, ha, hab⟩

theorem offer_sublist : (offer clash high kept x).Sublist (kept ++ [x]) := by
  by_cases hclash : ∃ k ∈ kept, clash k x
  · obtain ⟨-, -, heq⟩ | ⟨-, heq⟩ := offer_cases high hclash
    · rw [heq]
      exact List.filter_sublist.append_right _
    · rw [heq]
      exact List.sublist_append_left _ _
  · simp [offer_of_free hclash]

theorem filter_one {p : α → Prop} [DecidablePred p] :
    [x].filter (fun a => p a) = if p x then [x] else [] := by
  by_cases hx : p x <;> simp [hx]

/-- Among the kept elements with `p` the first one wins, if no element with `p` is
displaced, and one that is turned away clashes with one that has `p`. -/
theorem filter_offer {p : α → Prop} [DecidablePred p]
    (hdisplaced : high x → (∀ k ∈ kept, clash k x → ¬ high k) → ∀ k ∈ kept, clash k x → ¬ p k)
    (hturned : p x → (high x → ∃ k ∈ kept, clash k x ∧ high k) → (∃ k ∈ kept, clash k x) →
      ∃ k ∈ kept, clash k x ∧ p k) :
    (offer clash high kept x).filter (fun a => p a) =
      if p x then keepFirst clash (kept.filter fun a => p a) x
      else kept.filter fun a => p a := by
  by_cases hclash : ∃ k ∈ kept, clash k x
  · obtain ⟨hhigh, hlow, heq⟩ | ⟨hother, heq⟩ := offer_cases high hclash
    · have hnone := hdisplaced hhigh hlow
      have hfree : ¬ ∃ k ∈ kept.filter (fun a => p a), clash k x := by
        rintro ⟨k, hk, hkx⟩
        obtain ⟨hk, hpk⟩ := List.mem_filter.mp hk
        exact hnone k hk hkx (by simpa using hpk)
      have hkept : (kept.filter fun k => ¬ clash k x).filter (fun a => p a) =
          kept.filter fun a => p a := by
        rw [List.filter_filter]
        refine List.filter_congr fun k hk => ?_
        by_cases hkx : clash k x
        · simp [hnone k hk hkx]
        · simp [hkx]
      rw [heq, keepFirst_of_free hfree, List.filter_append, hkept, filter_one]
      split <;> simp
    · rw [heq]
      split
      · rename_i hx
        obtain ⟨k, hk, hkx, hpk⟩ := hturned hx hother hclash
        exact (keepFirst_of_clash ⟨k, List.mem_filter.mpr ⟨hk, by simpa using hpk⟩, hkx⟩).symm
      · rfl
  · have hfree : ¬ ∃ k ∈ kept.filter (fun a => p a), clash k x := by
      rintro ⟨k, hk, hkx⟩
      exact hclash ⟨k, (List.mem_filter.mp hk).1, hkx⟩
    rw [offer_of_free hclash, keepFirst_of_free hfree, List.filter_append, filter_one]
    split <;> simp

end Step

/-! ## Whole lists -/

theorem firstWins_concat (l : List α) (x : α) :
    firstWins clash (l ++ [x]) = keepFirst clash (firstWins clash l) x := by
  rw [firstWins, List.foldl_append]
  rfl

theorem dedup_concat (l : List α) (x : α) :
    dedup clash high (l ++ [x]) = offer clash high (dedup clash high l) x := by
  rw [dedup, List.foldl_append]
  rfl

theorem firstWins_grows (l l' : List α) : firstWins clash l <+: firstWins clash (l ++ l') := by
  induction l' using List.reverseRecOn with
  | nil => simp
  | append_singleton l' x ih =>
    rw [← List.append_assoc, firstWins_concat]
    refine ih.trans ?_
    unfold keepFirst
    split
    · exact List.prefix_rfl
    · exact List.prefix_append _ _

theorem pairwise_dedup (l : List α) : (dedup clash high l).Pairwise fun a b => ¬ clash a b := by
  induction l using List.reverseRecOn with
  | nil => exact List.Pairwise.nil
  | append_singleton l x ih =>
    rw [dedup_concat]
    exact pairwise_offer ih

theorem dedup_sublist (l : List α) : (dedup clash high l).Sublist l := by
  induction l using List.reverseRecOn with
  | nil => exact List.Sublist.refl _
  | append_singleton l x ih =>
    rw [dedup_concat]
    exact offer_sublist.trans (ih.append_right _)

/-- The same over a whole list. -/
theorem filter_dedup {clash high} [DecidableRel clash] [DecidablePred high] {p : α → Prop}
    [DecidablePred p] {l : List α}
    (hdisplaced : ∀ before x after, before ++ x :: after = l → high x →
      (∀ k ∈ dedup clash high before, clash k x → ¬ high k) →
        ∀ k ∈ dedup clash high before, clash k x → ¬ p k)
    (hturned : ∀ before x after, before ++ x :: after = l → p x →
      (high x → ∃ k ∈ dedup clash high before, clash k x ∧ high k) →
        (∃ k ∈ dedup clash high before, clash k x) →
          ∃ k ∈ dedup clash high before, clash k x ∧ p k) (before after : List α)
    (hl : before ++ after = l) :
    (dedup clash high before).filter (fun a => p a) =
      firstWins clash (before.filter fun a => p a) := by
  induction before using List.reverseRecOn generalizing after with
  | nil => rfl
  | append_singleton before x ih =>
    rw [List.append_assoc] at hl
    rw [dedup_concat, filter_offer (hdisplaced before x after hl) (hturned before x after hl),
      ih _ hl, List.filter_append, filter_one]
    split
    · rw [firstWins_concat]
    · rw [List.append_nil]

theorem filter_high_dedup (l : List α) :
    (dedup clash high l).filter (fun a => high a) =
      firstWins clash (l.filter fun a => high a) :=
  filter_dedup (fun _ _ _ _ _ hlow => hlow) (fun _ _ _ _ hx hother _ => hother hx) l []
    (List.append_nil l)

theorem firstWins_subset (l : List α) : firstWins clash l ⊆ l := by
  induction l using List.reverseRecOn with
  | nil => exact List.Subset.refl _
  | append_singleton l x ih =>
    rw [firstWins_concat]
    unfold keepFirst
    split
    · exact List.Subset.trans ih (List.subset_append_left _ _)
    · exact List.append_subset.mpr
        ⟨List.Subset.trans ih (List.subset_append_left _ _), List.subset_append_right _ _⟩

/-- An element is kept by `firstWins`, or clashes with an earlier one that is. -/
theorem mem_firstWins_or (before after : List α) (x : α) :
    x ∈ firstWins clash (before ++ x :: after) ∨
      ∃ k ∈ before, k ∈ firstWins clash (before ++ x :: after) ∧ clash k x := by
  have hgrows := firstWins_grows clash (before ++ [x]) after
  have hbefore := firstWins_grows clash before (x :: after)
  rw [List.append_assoc] at hgrows
  by_cases hclash : ∃ k ∈ firstWins clash before, clash k x
  · obtain ⟨k, hk, hkx⟩ := hclash
    refine .inr ⟨k, ?_, hbefore.subset hk, hkx⟩
    exact firstWins_subset clash before hk
  · refine .inl (hgrows.subset ?_)
    rw [firstWins_concat, keepFirst_of_free hclash]
    exact List.mem_append_right _ (List.mem_singleton_self x)

/-! ## Elements of low rank -/

/-- An element of the list clashes with one of high rank that is kept. -/
def Doomed (l : List α) (x : α) : Prop :=
  ∃ k ∈ firstWins clash (l.filter fun a => high a), clash k x

instance decidableDoomed (l : List α) : DecidablePred (Doomed clash high l) :=
  fun _ => inferInstanceAs (Decidable (∃ k ∈ _, _))

section Low

variable {clash high} {l : List α}

/-- No displaced element of low rank turned away one that is not displaced. -/
def Undisturbed (clash : α → α → Prop) [DecidableRel clash] (high : α → Prop)
    [DecidablePred high] (l : List α) : Prop :=
  (l.filter fun a => ¬ high a).Pairwise fun d c =>
    Doomed clash high l d → ¬ Doomed clash high l c → ¬ clash d c

/-- An element of high rank that is kept for now is kept to the end. -/
theorem mem_firstWins_of_mem_dedup {before after : List α} {k : α} (hl : before ++ after = l)
    (hk : k ∈ dedup clash high before) (hhigh : high k) :
    k ∈ firstWins clash (l.filter fun a => high a) := by
  have hmem : k ∈ (dedup clash high before).filter fun a => high a :=
    List.mem_filter.mpr ⟨hk, by simpa using hhigh⟩
  rw [filter_high_dedup] at hmem
  rw [← hl, List.filter_append]
  exact (firstWins_grows clash _ _).subset hmem

/-- The kept elements of low rank that stay to the end. -/
theorem filter_staying_dedup (hsymm : ∀ a b, clash a b → clash b a)
    (hfree : Undisturbed clash high l) :
    (dedup clash high l).filter (fun a => ¬ high a ∧ ¬ Doomed clash high l a) =
      firstWins clash (l.filter fun a => ¬ high a ∧ ¬ Doomed clash high l a) := by
  refine filter_dedup ?_ ?_ l [] (List.append_nil l)
  · -- what is displaced clashes with an element of high rank that is kept to the end
    intro before x after hl hhigh hlow k hk hkx hstays
    refine hstays.2 ⟨x, ?_, hsymm k x hkx⟩
    refine mem_firstWins_of_mem_dedup ((List.append_cons ..).symm.trans hl) ?_ hhigh
    rw [dedup_concat]
    obtain ⟨-, -, heq⟩ | ⟨hother, -⟩ := offer_cases high ⟨k, hk, hkx⟩
    · rw [heq]
      exact List.mem_append_right _ (List.mem_singleton_self x)
    · obtain ⟨k', hk', hkx', hhigh'⟩ := hother hhigh
      exact absurd hhigh' (hlow k' hk' hkx')
  · rintro before x after hl ⟨hlow, hstays⟩ - ⟨k, hk, hkx⟩
    have hkhigh : ¬ high k := fun hkhigh => hstays ⟨k, mem_firstWins_of_mem_dedup hl hk hkhigh, hkx⟩
    refine ⟨k, hk, hkx, hkhigh, fun hdoomed => ?_⟩
    have hkmem : k ∈ before.filter fun a => ¬ high a :=
      List.mem_filter.mpr ⟨(dedup_sublist clash high before).subset hk, by simpa using hkhigh⟩
    have hpair := hfree
    rw [Undisturbed, ← hl, List.filter_append, List.filter_cons, if_pos (by simpa using hlow),
      hl] at hpair
    exact (List.pairwise_append.mp hpair).2.2 k hkmem x List.mem_cons_self hdoomed hstays hkx

/-- Nothing of low rank that clashes with a kept element of high rank is kept. -/
theorem not_doomed_of_mem_dedup (hsymm : ∀ a b, clash a b → clash b a) {x : α}
    (hx : x ∈ dedup clash high l) (hlow : ¬ high x) : ¬ Doomed clash high l x := by
  rintro ⟨k, hk, hkx⟩
  rw [← filter_high_dedup] at hk
  obtain ⟨hk, hkhigh⟩ := List.mem_filter.mp hk
  have hkhigh : high k := by simpa using hkhigh
  have hne : k ≠ x := by
    rintro rfl
    exact hlow hkhigh
  have : Std.Symm fun a b => ¬ clash a b := ⟨fun a b hab hba => hab (hsymm b a hba)⟩
  exact (pairwise_dedup clash high l).forall hk hx hne hkx

theorem filter_low_dedup (hsymm : ∀ a b, clash a b → clash b a)
    (hfree : Undisturbed clash high l) :
    (dedup clash high l).filter (fun a => ¬ high a) =
      firstWins clash ((l.filter fun a => ¬ high a).filter fun a => ¬ Doomed clash high l a) := by
  have hstaying := filter_staying_dedup hsymm hfree
  rw [List.filter_filter]
  refine Eq.trans ?_ (hstaying.trans ?_)
  · apply List.filter_congr
    intro x hx
    by_cases hlow : high x
    · simp [hlow]
    · simp [not_doomed_of_mem_dedup hsymm hx hlow]
  · congr 1
    apply List.filter_congr
    simp [Bool.and_comm]

end Low

/-! ## Elements read through a function -/

theorem offer_map (f : β → α) (kept : List β) (x : β) :
    (offer (fun a b => clash (f a) (f b)) (fun a => high (f a)) kept x).map f =
      offer clash high (kept.map f) (f x) := by
  unfold offer
  simp only [List.mem_map, exists_exists_and_eq_and, forall_exists_index, and_imp,
    forall_apply_eq_imp_iff₂]
  split
  · split
    · rw [List.map_append, List.filter_map]
      rfl
    · rfl
  · rw [List.map_append]
    rfl

theorem dedup_map (f : β → α) (l : List β) :
    (dedup (fun a b => clash (f a) (f b)) (fun a => high (f a)) l).map f =
      dedup clash high (l.map f) := by
  induction l using List.reverseRecOn with
  | nil => rfl
  | append_singleton l x ih =>
    rw [dedup_concat, offer_map, ih, List.map_append, List.map_singleton, dedup_concat]

end WaCore.RankedDedup
