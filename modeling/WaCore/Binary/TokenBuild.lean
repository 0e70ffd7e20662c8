import Mathlib.Data.Nat.Size
import WaCore.Binary.TokenTable

/-!
# What the build puts into the token table

A build that comes to an end has collected the tokens of the dictionaries with the
kinds their places declare (`Collected`), has packed an entry for each that
describes it (`Describes`), and has put the entries into slots where a search from
their keys finds them, with at least one slot left free (`TokenSlots.Holds`).
-/

namespace WaCore.Binary

open Utf8

/-! ## Filling the slots -/

variable {e : TokenEntry} {k : Nat} {values : List (String × Nat)} {tokens : Tokens}

namespace TokenSlots

/-- What a slot holds. -/
def entryAt (t : TokenSlots) (s : Nat) : Option TokenEntry := do
  let x ← t.keys[s]?
  let info ← t.info[s]?
  let off ← t.off[s]?
  if x = 0 then none else some ⟨x, info, off⟩

/-- The slots of a table after some entries. -/
structure Holds (home : UInt32 → Nat) (size : Nat) (entries : List TokenEntry) (t : TokenSlots) :
    Prop where
  keys_length : t.keys.length = size
  info_length : t.info.length = size
  off_length : t.off.length = size
  used : t.keys.countP (· ≠ 0) = entries.length
  reaches : ∀ e ∈ entries, Probing.Reaches size t.entryAt (home e.x) e
  known : ∀ s e, t.entryAt s = some e → e ∈ entries

variable {home : UInt32 → Nat} {size : Nat} {entries : List TokenEntry} {t : TokenSlots}

theorem entryAt_eq_none_iff (h : t.Holds home size entries) {s : Nat} (hs : s < size) :
    t.entryAt s = none ↔ t.keys[s]? = some 0 := by
  have hkeys := List.getElem?_eq_getElem (h.keys_length ▸ hs)
  have hinfo := List.getElem?_eq_getElem (h.info_length ▸ hs)
  have hoff := List.getElem?_eq_getElem (h.off_length ▸ hs)
  rw [entryAt, hkeys, hinfo, hoff]
  simp

theorem entryAt_set (h : t.Holds home size entries) {s : Nat} (hs : s < size) (hx : e.x ≠ 0) :
    entryAt ⟨t.keys.set s e.x, t.info.set s e.info, t.off.set s e.off⟩
      = Function.update t.entryAt s (some e) := by
  funext i
  rw [Function.update_apply]
  split
  · rename_i hi
    subst hi
    simp [entryAt, h.keys_length, h.info_length, h.off_length, hs, hx]
  · rename_i hne
    have hne : s ≠ i := fun heq => hne heq.symm
    simp [entryAt, hne]

theorem holds_empty (size : Nat) : (empty size).Holds home size [] where
  keys_length := List.length_replicate
  info_length := List.length_replicate
  off_length := List.length_replicate
  used := by simp [empty]
  reaches := nofun
  known s e he := by
    simp only [entryAt, empty, List.getElem?_replicate] at he
    split at he <;> simp at he

theorem freeSlot_cases {keys : List UInt32} {disp h s : Nat}
    (hfree : freeSlot keys size disp h = some s) :
    keys[h]? = some 0 ∧ s = h
      ∨ keys[h]? ≠ some 0 ∧ ∃ disp', disp = disp' + 1
        ∧ freeSlot keys size disp' ((h + 1) &&& (size - 1)) = some s := by
  rw [freeSlot.eq_def] at hfree
  cases hkey : keys[h]? with
  | none => simp [hkey] at hfree
  | some key =>
    rw [hkey] at hfree
    dsimp only at hfree
    split at hfree
    · rename_i hzero
      cases hfree
      exact .inl ⟨by rw [hzero], rfl⟩
    · rename_i hne
      cases disp with
      | zero => cases hfree
      | succ disp => exact .inr ⟨by simpa using hne, disp, rfl, hfree⟩

/-- The loop for a free slot stops at the first one. -/
theorem freeSlot_eq_some {disp h s : Nat} {keys : List UInt32} (hh : h < 2 ^ k)
    (hfree : freeSlot keys (2 ^ k) disp h = some s) :
    ∃ d, s = (h + d) % 2 ^ k ∧ keys[s]? = some 0
      ∧ ∀ i < d, keys[(h + i) % 2 ^ k]? ≠ some 0 := by
  have hhere : (h + 0) % 2 ^ k = h := Nat.mod_eq_of_lt hh
  induction disp generalizing h with
  | zero =>
    rcases freeSlot_cases hfree with ⟨hzero, rfl⟩ | ⟨-, disp, hdisp, -⟩
    · exact ⟨0, hhere.symm, hzero, nofun⟩
    · cases hdisp
  | succ disp ih =>
    rcases freeSlot_cases hfree with ⟨hzero, rfl⟩ | ⟨hne, disp', hdisp, hrest⟩
    · exact ⟨0, hhere.symm, hzero, nofun⟩
    · cases hdisp
      rw [Nat.and_two_pow_sub_one_eq_mod] at hrest
      have hnext : (h + 1) % 2 ^ k < 2 ^ k := Nat.mod_lt _ (Nat.two_pow_pos k)
      obtain ⟨d, hs, hzero, hfull⟩ := ih hnext hrest (Nat.mod_eq_of_lt hnext)
      refine ⟨d + 1, hs.trans (Probing.succ_step h d), hzero, fun i hi => ?_⟩
      cases i with
      | zero => rwa [hhere]
      | succ i =>
        rw [← Probing.succ_step]
        exact hfull i (Nat.lt_of_succ_lt_succ hi)

variable {mul : UInt32}

/-- An entry is put where a search finds it. -/
theorem Holds.insert {shift : UInt32} {t' : TokenSlots} (hhome : ∀ x, homeSlot mul shift x < 2 ^ k)
    (h : t.Holds (homeSlot mul shift) (2 ^ k) entries) (hx : e.x ≠ 0)
    (hinsert : t.insert mul shift (2 ^ k) e = some t') :
    t'.Holds (homeSlot mul shift) (2 ^ k) (entries ++ [e]) := by
  obtain ⟨s, hs, heq⟩ := Option.bind_eq_some_iff.mp hinsert
  cases heq
  obtain ⟨d, rfl, hzero, hfull⟩ := freeSlot_eq_some (hhome e.x) hs
  have hlt : (homeSlot mul shift e.x + d) % 2 ^ k < 2 ^ k := Nat.mod_lt _ (Nat.two_pow_pos k)
  have hentry := entryAt_set h hlt hx
  have hnone := (entryAt_eq_none_iff h hlt).mpr hzero
  refine ⟨?_, ?_, ?_, ?_, ?_, ?_⟩
  · rw [List.length_set, h.keys_length]
  · rw [List.length_set, h.info_length]
  · rw [List.length_set, h.off_length]
  · have hget := (List.getElem?_eq_some_iff.mp hzero).2
    rw [List.countP_set (h.keys_length.symm ▸ hlt), h.used]
    simp [hget, hx]
  · rw [hentry]
    intro e' he'
    rcases List.mem_append.mp he' with he' | he'
    · exact (h.reaches e' he').fill hnone
    · rw [List.mem_singleton.mp he']
      refine Probing.reaches_fill fun i hi => ?_
      rw [ne_eq, entryAt_eq_none_iff h (Nat.mod_lt _ (Nat.two_pow_pos k))]
      exact hfull i hi
  · rw [hentry]
    intro i e' he'
    rw [Function.update_apply] at he'
    split at he'
    · cases he'
      exact List.mem_append_right _ List.mem_cons_self
    · exact List.mem_append_left _ (h.known i e' he')

theorem holds_foldlM {shift : UInt32} {es : List TokenEntry} {t' : TokenSlots}
    (hhome : ∀ x, homeSlot mul shift x < 2 ^ k) (h : t.Holds (homeSlot mul shift) (2 ^ k) entries)
    (hx : ∀ e ∈ es, e.x ≠ 0) (hfill : es.foldlM (TokenSlots.insert mul shift (2 ^ k)) t = some t') :
    t'.Holds (homeSlot mul shift) (2 ^ k) (entries ++ es) := by
  induction es generalizing t entries with
  | nil =>
    cases hfill
    rwa [List.append_nil]
  | cons e es ih =>
    obtain ⟨t₁, hinsert, hrest⟩ := Option.bind_eq_some_iff.mp hfill
    have h₁ := h.insert hhome (hx e List.mem_cons_self) hinsert
    have h₂ := ih h₁ (fun e' he' => hx e' (List.mem_cons_of_mem _ he')) hrest
    rwa [List.append_assoc] at h₂

/-! ### The table that is taken -/

/-- The top `k` bits of a product are a slot. -/
theorem homeSlot_lt (hpos : 0 < k) (hk : k ≤ 32) (mul x : UInt32) :
    homeSlot mul (UInt32.ofNat (32 - k)) x < 2 ^ k := by
  have hlt : (x * mul).toNat < 2 ^ k * 2 ^ (32 - k) := by
    rw [← Nat.pow_add, Nat.add_sub_cancel' hk]
    exact (x * mul).toNat_lt
  rw [homeSlot, UInt32.toNat_shiftRight, UInt32.toNat_ofNat', Nat.shiftRight_eq_div_pow,
    Nat.mod_eq_of_lt (show 32 - k < 2 ^ 32 by omega), Nat.mod_eq_of_lt (show 32 - k < 32 by omega)]
  exact Nat.div_lt_of_lt_mul (by rwa [Nat.mul_comm])

theorem fillAny_eq_some {rounds : Nat} {mul₀ : UInt32}
    (h : fillAny entries k rounds mul₀ = some (mul, t)) : fill entries k mul = some t := by
  induction rounds generalizing mul₀ with
  | zero => cases h
  | succ rounds ih =>
    rw [fillAny] at h
    split at h
    · rename_i hfill
      cases h
      exact hfill
    · exact ih h

theorem grow_eq_some {rounds k₀ : Nat} (hrounds : k₀ + rounds ≤ 33)
    (h : grow entries rounds k₀ = some (mul, t)) :
    ∃ k, k₀ ≤ k ∧ k ≤ 32 ∧ fill entries k mul = some t := by
  induction rounds generalizing k₀ with
  | zero => cases h
  | succ rounds ih =>
    rw [grow] at h
    split at h
    · rename_i hany
      cases h
      exact ⟨k₀, Nat.le_refl _, by omega, fillAny_eq_some hany⟩
    · obtain ⟨k, hk₀, hk, hfill⟩ := ih (by omega) h
      exact ⟨k, by omega, hk, hfill⟩

/-- The table of a build has a power of two slots, more than there are entries,
and holds these. -/
theorem build_eq_some (hne : entries ≠ []) (hx : ∀ e ∈ entries, e.x ≠ 0)
    (h : build entries = some (mul, t)) :
    ∃ k, 0 < k ∧ k ≤ 32 ∧ entries.length < 2 ^ k
      ∧ t.Holds (homeSlot mul (UInt32.ofNat (32 - k))) (2 ^ k) entries := by
  have hpos : 0 < entries.length := List.length_pos_of_ne_nil hne
  have hload := Nat.lt_size_self (entries.length * 4 / 3)
  rw [build] at h
  generalize hsize : Nat.size (entries.length * 4 / 3) = k₀ at h hload
  have hk₀ : 0 < k₀ := by
    rw [← hsize, Nat.size_pos]
    omega
  by_cases hbig : k₀ ≤ 33
  · obtain ⟨k, hle, hk, hfill⟩ := grow_eq_some (by omega) h
    have hkpos : 0 < k := by omega
    refine ⟨k, hkpos, hk, ?_, ?_⟩
    · have := Nat.pow_le_pow_right (show 0 < 2 by decide) hle
      omega
    · exact holds_foldlM (homeSlot_lt hkpos hk mul) (holds_empty _) hx hfill
  · rw [show 33 - k₀ = 0 by omega] at h
    cases h

/-- A slot of it is free. -/
theorem Holds.exists_free (h : t.Holds home size entries) (hlt : entries.length < size) :
    ∃ s < size, t.entryAt s = none := by
  by_contra hnone
  push Not at hnone
  have hall : t.keys.countP (· ≠ 0) = t.keys.length := by
    refine List.countP_eq_length.mpr fun x hmem => decide_eq_true fun hzero => ?_
    obtain ⟨s, hs, rfl⟩ := List.getElem_of_mem hmem
    have hs' : s < size := h.keys_length ▸ hs
    refine hnone s hs' ((entryAt_eq_none_iff h hs').mpr ?_)
    rw [List.getElem?_eq_getElem hs, hzero]
  rw [h.used, h.keys_length] at hall
  omega

end TokenSlots

/-! ## The tokens and their kinds -/

section Values

/-- A loop that adds what each item gives, and keeps a property of the list. -/
theorem foldlM_adds {α β ε : Type} {f : List β → α → Except ε (List β)} {g : α → List β}
    {Q : List β → Prop} {R : α → Prop}
    (hstep : ∀ values a values', Q values → f values a = .ok values' →
      values' = values ++ g a ∧ R a ∧ Q values')
    {items : List α} {values values' : List β} (hQ : Q values)
    (h : items.foldlM f values = .ok values') :
    values' = values ++ items.flatMap g ∧ (∀ a ∈ items, R a) ∧ Q values' := by
  induction items generalizing values with
  | nil =>
    cases h
    exact ⟨(List.append_nil _).symm, nofun, hQ⟩
  | cons a items ih =>
    obtain ⟨values₁, h₁, h⟩ := bind_eq_ok.mp h
    obtain ⟨rfl, hR, hQ₁⟩ := hstep _ _ _ hQ h₁
    obtain ⟨hvalues, hall, hQ'⟩ := ih hQ₁ h
    refine ⟨?_, ?_, hQ'⟩
    · rw [hvalues, List.flatMap_cons, List.append_assoc]
    · intro b hb
      rcases List.mem_cons.mp hb with rfl | hb
      · exact hR
      · exact hall b hb

theorem ensure_eq_ok {condition : Bool} {e : BuildError} {u : Unit} :
    ensure condition e = .ok u ↔ condition = true := by
  cases condition <;> simp [ensure]

/-- The tokens so far are distinct, and none is empty. -/
def Distinct (values : List (String × Nat)) : Prop :=
  (values.map Prod.fst).Nodup ∧ ∀ value ∈ values, value.1 ≠ ""

theorem distinct_nil : Distinct [] := ⟨List.nodup_nil, nofun⟩

variable {token : String}

theorem addToken_eq_ok {values' : List (String × Nat)} {kind : Nat} (hne : token ≠ "")
    (hdistinct : Distinct values) (h : addToken values token kind = .ok values') :
    values' = values ++ [(token, kind)] ∧ Distinct values' := by
  rw [addToken] at h
  split at h
  · cases h
  · rename_i hfind
    cases h
    refine ⟨rfl, ?_, ?_⟩
    · rw [List.map_append, List.nodup_append]
      refine ⟨hdistinct.1, List.nodup_singleton _, ?_⟩
      intro a ha b hb hab
      obtain ⟨value, hvalue, rfl⟩ := List.mem_map.mp ha
      have hother := List.find?_eq_none.mp hfind value hvalue
      rw [List.map_singleton, List.mem_singleton] at hb
      exact hother (decide_eq_true (hab.trans hb))
    · intro value hvalue
      rcases List.mem_append.mp hvalue with hvalue | hvalue
      · exact hdistinct.2 value hvalue
      · rw [List.mem_singleton.mp hvalue]
        exact hne

/-- What an item of a dictionary adds. -/
def itemValue (kind : Nat → Nat) (item : String × Nat) : List (String × Nat) :=
  if item.1 = "" then [] else [(item.1, kind item.2)]

theorem item_eq_ok {item : String × Nat} {kind : Nat → Nat} {R : Prop}
    {values' : List (String × Nat)} {r : Except BuildError (List (String × Nat))}
    (hdistinct : Distinct values) (h : (if item.1 = "" then .ok values else r) = .ok values')
    (hr : r = .ok values' → R ∧ addToken values item.1 (kind item.2) = .ok values') :
    values' = values ++ itemValue kind item ∧ (item.1 ≠ "" → R) ∧ Distinct values' := by
  rw [itemValue]
  split at h
  · rename_i hempty
    cases h
    exact ⟨by rw [if_pos hempty, List.append_nil], fun hne => absurd hempty hne, hdistinct⟩
  · rename_i hne
    obtain ⟨hR, hadd⟩ := hr h
    obtain ⟨hvalues, hdistinct'⟩ := addToken_eq_ok hne hdistinct hadd
    exact ⟨by rw [if_neg hne, hvalues], fun _ => hR, hdistinct'⟩

theorem addSingle_eq_ok (values : List (String × Nat)) (item : String × Nat)
    (values' : List (String × Nat)) (hdistinct : Distinct values)
    (h : addSingle values item = .ok values') :
    values' = values ++ itemValue (fun i => i) item ∧ (item.1 ≠ "" → item.2 < 256)
      ∧ Distinct values' := by
  refine item_eq_ok hdistinct h fun h => ?_
  obtain ⟨_, -, h⟩ := bind_eq_ok.mp h
  obtain ⟨_, hi, h⟩ := bind_eq_ok.mp h
  exact ⟨of_decide_eq_true (ensure_eq_ok.mp hi), h⟩

theorem addDouble_eq_ok (dictIdx : Nat) (values : List (String × Nat)) (item : String × Nat)
    (values' : List (String × Nat)) (hdistinct : Distinct values)
    (h : addDouble dictIdx values item = .ok values') :
    values' = values ++ itemValue (fun i => (dictIdx + 1) * 256 + i) item
      ∧ (item.1 ≠ "" → item.2 < 256 ∧ dictIdx + 1 < 256) ∧ Distinct values' := by
  refine item_eq_ok hdistinct h fun h => ?_
  obtain ⟨_, hi, h⟩ := bind_eq_ok.mp h
  obtain ⟨_, hdict, h⟩ := bind_eq_ok.mp h
  obtain ⟨_, -, h⟩ := bind_eq_ok.mp h
  exact ⟨⟨of_decide_eq_true (ensure_eq_ok.mp hi), of_decide_eq_true (ensure_eq_ok.mp hdict)⟩, h⟩

theorem mem_itemValue {kind : Nat → Nat} {items : List String} :
    (token, k) ∈ items.zipIdx.flatMap (itemValue kind)
      ↔ token ≠ "" ∧ ∃ i, items[i]? = some token ∧ k = kind i := by
  rw [List.mem_flatMap]
  constructor
  · rintro ⟨⟨token', i⟩, hitem, hmem⟩
    rw [itemValue] at hmem
    split at hmem
    · cases hmem
    · rename_i hne
      cases List.mem_singleton.mp hmem
      exact ⟨hne, i, List.mem_zipIdx_iff_getElem?.mp hitem, rfl⟩
  · rintro ⟨hne, i, hi, rfl⟩
    refine ⟨(token, i), List.mem_zipIdx_iff_getElem?.mpr hi, ?_⟩
    rw [itemValue, if_neg hne]
    exact List.mem_cons_self

/-- What a build that goes on has found in the dictionaries. -/
structure Collected (tokens : Tokens) (values : List (String × Nat)) : Prop where
  distinct : Distinct values
  mem_iff : ∀ token k, (token, k) ∈ values ↔ token ≠ ""
    ∧ ((∃ i, tokens.singleByte[i]? = some token ∧ k = i)
      ∨ ∃ dict i, tokens.doubleByte[dict]?.bind (·[i]?) = some token ∧ k = (dict + 1) * 256 + i)
  single_lt : ∀ i token, tokens.singleByte[i]? = some token → token ≠ "" → i < 256
  double_lt : ∀ dict i token, tokens.doubleByte[dict]?.bind (·[i]?) = some token → token ≠ "" →
    i < 256 ∧ dict + 1 < 256

theorem collected_tokenValues (h : tokenValues tokens = .ok values) : Collected tokens values := by
  obtain ⟨values₁, hsingle, hdouble⟩ := bind_eq_ok.mp h
  obtain ⟨rfl, hsingle_lt, hdistinct₁⟩ :=
    foldlM_adds addSingle_eq_ok distinct_nil hsingle
  have hdict : ∀ values (dict : List String × Nat) values', Distinct values →
      dict.1.zipIdx.foldlM (addDouble dict.2) values = .ok values' →
      values' = values ++ dict.1.zipIdx.flatMap (itemValue fun i => (dict.2 + 1) * 256 + i)
        ∧ (∀ item ∈ dict.1.zipIdx, item.1 ≠ "" → item.2 < 256 ∧ dict.2 + 1 < 256)
        ∧ Distinct values' :=
    fun values dict values' hdistinct hdict =>
      foldlM_adds (addDouble_eq_ok dict.2) hdistinct hdict
  obtain ⟨rfl, hdouble_lt, hdistinct⟩ := foldlM_adds hdict hdistinct₁ hdouble
  refine ⟨hdistinct, fun token k => ?_, fun i token hi hne => ?_, fun dict i token hi hne => ?_⟩
  · rw [List.nil_append, List.mem_append, mem_itemValue, List.mem_flatMap]
    constructor
    · rintro (⟨hne, hsingle⟩ | ⟨⟨dict, d⟩, hmem, hitem⟩)
      · exact ⟨hne, .inl hsingle⟩
      · obtain ⟨hne, i, hi, hk⟩ := mem_itemValue.mp hitem
        refine ⟨hne, .inr ⟨d, i, ?_, hk⟩⟩
        rw [List.mem_zipIdx_iff_getElem?.mp hmem]
        exact hi
    · rintro ⟨hne, hsingle | ⟨d, i, hi, hk⟩⟩
      · exact .inl ⟨hne, hsingle⟩
      · obtain ⟨dict, hdict, hi⟩ := Option.bind_eq_some_iff.mp hi
        exact .inr ⟨(dict, d), List.mem_zipIdx_iff_getElem?.mpr hdict,
          mem_itemValue.mpr ⟨hne, i, hi, hk⟩⟩
  · exact hsingle_lt (token, i) (List.mem_zipIdx_iff_getElem?.mpr hi) hne
  · obtain ⟨items, hitems, hi⟩ := Option.bind_eq_some_iff.mp hi
    exact hdouble_lt (items, dict) (List.mem_zipIdx_iff_getElem?.mpr hitems) (token, i)
      (List.mem_zipIdx_iff_getElem?.mpr hi) hne

theorem decodeKind_single (i : UInt8) : decodeKind i.toNat = .single i := by
  rw [decodeKind, if_pos i.toNat_lt, UInt8.ofNat_toNat]

theorem decodeKind_double {dict : UInt8} (hdict : dict.toNat + 1 < 256) (i : UInt8) :
    decodeKind ((dict.toNat + 1) * 256 + i.toNat) = .double dict i := by
  have hi := i.toNat_lt
  have hshift : ((dict.toNat + 1) * 256 + i.toNat) >>> 8 = dict.toNat + 1 := by
    omega
  have hlow : UInt8.ofNat ((dict.toNat + 1) * 256 + i.toNat) = i := by
    rw [← UInt8.toNat_inj, UInt8.toNat_ofNat']
    omega
  have hhigh : UInt8.ofNat (dict.toNat + 1) - 1 = dict := by
    exact UInt8.add_sub_cancel _ _
  rw [decodeKind, if_neg (by omega), hshift, hlow, hhigh]

/-- The kind a build packs for a token is the one its place declares. -/
theorem Collected.declares_iff (h : Collected tokens values) (token : String) (kind : TokenKind) :
    tokens.Declares token kind ↔ ∃ k, (token, k) ∈ values ∧ decodeKind k = kind := by
  constructor
  · cases kind with
    | single i =>
      rintro ⟨hne, hi⟩
      exact ⟨_, (h.mem_iff _ _).mpr ⟨hne, .inl ⟨_, hi, rfl⟩⟩, decodeKind_single i⟩
    | double dict i =>
      rintro ⟨hne, hi⟩
      have hdict := (h.double_lt _ _ _ hi hne).2
      exact ⟨_, (h.mem_iff _ _).mpr ⟨hne, .inr ⟨_, _, hi, rfl⟩⟩, decodeKind_double hdict i⟩
  · rintro ⟨k, hmem, rfl⟩
    obtain ⟨hne, ⟨i, hi, rfl⟩ | ⟨dict, i, hi, rfl⟩⟩ := (h.mem_iff _ _).mp hmem
    · have hlt := h.single_lt _ _ hi hne
      have hk : (UInt8.ofNat k).toNat = k := UInt8.toNat_ofNat_of_lt hlt
      rw [← hk, decodeKind_single]
      exact ⟨hne, hk.symm ▸ hi⟩
    · obtain ⟨hlt, hdict⟩ := h.double_lt _ _ _ hi hne
      have hi' : (UInt8.ofNat i).toNat = i := UInt8.toNat_ofNat_of_lt hlt
      have hd' : (UInt8.ofNat dict).toNat = dict :=
        UInt8.toNat_ofNat_of_lt (Nat.lt_of_succ_lt hdict)
      rw [← hi', ← hd', decodeKind_double (hd'.symm ▸ hdict)]
      refine ⟨hne, ?_⟩
      rw [hi', hd']
      exact hi

/-- The tokens are those with a kind. -/
theorem Collected.mem_all_iff (h : Collected tokens values) :
    token ∈ tokens.all ↔ ∃ k, (token, k) ∈ values := by
  rw [Tokens.all, List.mem_filter, List.mem_append, List.mem_flatten]
  simp only [List.mem_iff_getElem?, decide_eq_true_eq, h.mem_iff, Option.bind_eq_some_iff]
  constructor
  · rintro ⟨⟨i, hi⟩ | ⟨items, ⟨d, hd⟩, i, hi⟩, hne⟩
    · exact ⟨i, hne, .inl ⟨i, hi, rfl⟩⟩
    · exact ⟨_, hne, .inr ⟨d, i, ⟨items, hd, hi⟩, rfl⟩⟩
  · rintro ⟨k, hne, ⟨i, hi, -⟩ | ⟨d, i, ⟨items, hd, hi⟩, -⟩⟩
    · exact ⟨.inl ⟨i, hi⟩, hne⟩
    · exact ⟨.inr ⟨items, ⟨d, hd⟩, i, hi⟩, hne⟩

end Values

/-! ## Packing -/

/-- An entry, with the blob, says what a token is. -/
structure Describes (blob : Bytes) (e : TokenEntry) (b : Bytes) (kind : Nat) : Prop where
  x_eq : e.x = tokenKey b
  x_ne : e.x ≠ 0
  kind_lt : kind < 2 ^ 11
  short : b.length ≤ 4 → e.info = kind ||| ((b.length - 1) <<< 11)
  long : 4 < b.length → e.info = kind ||| (31 <<< 11)
    ∧ ∃ rest, blob.drop e.off = UInt8.ofNat b.length :: b ++ rest

theorem Describes.append {blob : Bytes} {b : Bytes} {kind : Nat} (h : Describes blob e b kind)
    (more : Bytes) : Describes (blob ++ more) e b kind := by
  refine ⟨h.x_eq, h.x_ne, h.kind_lt, h.short, fun hlen => ?_⟩
  obtain ⟨hinfo, rest, hrest⟩ := h.long hlen
  have hoff : e.off ≤ blob.length := by
    by_contra hgt
    rw [List.drop_eq_nil_of_le (by omega)] at hrest
    cases hrest
  refine ⟨hinfo, rest ++ more, ?_⟩
  rw [List.drop_append_of_le_length hoff, hrest, List.append_assoc]

theorem packToken_eq_ok {blob blob' : Bytes} {entries entries' : List TokenEntry}
    {value : String × Nat} (h : packToken (blob, entries) value = .ok (blob', entries')) :
    ∃ more e, blob' = blob ++ more ∧ entries' = entries ++ [e]
      ∧ Describes blob' e (ofString value.1) value.2 := by
  obtain ⟨token, kind⟩ := value
  obtain ⟨_, -, h⟩ := bind_eq_ok.mp h
  obtain ⟨_, hkind, h⟩ := bind_eq_ok.mp h
  obtain ⟨_, hx, h⟩ := bind_eq_ok.mp h
  have hkind : kind < 2 ^ 11 := of_decide_eq_true (ensure_eq_ok.mp hkind)
  have hx : tokenKey (ofString token) ≠ 0 := of_decide_eq_true (ensure_eq_ok.mp hx)
  split at h
  · rename_i hshort
    cases h
    exact ⟨[], _, (List.append_nil _).symm, rfl, rfl, hx, hkind, fun _ => rfl,
      fun hlong => absurd hshort (Nat.not_le.mpr hlong)⟩
  · rename_i hlong
    obtain ⟨_, -, h⟩ := bind_eq_ok.mp h
    cases h
    refine ⟨_, _, rfl, rfl, rfl, hx, hkind, fun hshort => absurd hshort hlong, fun _ => ⟨rfl, [], ?_⟩⟩
    rw [List.drop_left, List.append_nil]

/-- Every token has an entry that describes it, and no other entry is there. -/
theorem foldlM_packToken_eq_ok {blob blob' : Bytes} {entries entries' : List TokenEntry}
    (h : values.foldlM packToken (blob, entries) = .ok (blob', entries')) :
    ∃ more es, blob' = blob ++ more ∧ entries' = entries ++ es
      ∧ List.Forall₂ (fun value e => Describes blob' e (ofString value.1) value.2) values es := by
  induction values generalizing blob entries with
  | nil =>
    cases h
    exact ⟨[], [], (List.append_nil _).symm, (List.append_nil _).symm, .nil⟩
  | cons value values ih =>
    obtain ⟨⟨blob₁, entries₁⟩, h₁, h⟩ := bind_eq_ok.mp h
    obtain ⟨more₁, e, rfl, rfl, hdescribes⟩ := packToken_eq_ok h₁
    obtain ⟨more, es, rfl, rfl, hall⟩ := ih h
    refine ⟨more₁ ++ more, e :: es, List.append_assoc .., ?_, .cons (hdescribes.append more) hall⟩
    rw [List.append_assoc]
    rfl

/-! ## The build as a whole -/

theorem trailingZeros_two_pow {bits : Nat} (h : k < bits) : trailingZeros bits (2 ^ k) = k := by
  induction k generalizing bits with
  | zero =>
    obtain ⟨bits, rfl⟩ := Nat.exists_eq_succ_of_ne_zero (Nat.ne_of_gt h)
    rfl
  | succ k ih =>
    obtain ⟨bits, rfl⟩ := Nat.exists_eq_succ_of_ne_zero (Nat.ne_of_gt (Nat.zero_lt_of_lt h))
    have heven : ¬ 2 ^ (k + 1) % 2 = 1 := by omega
    have hhalf : 2 ^ (k + 1) / 2 = 2 ^ k := by omega
    rw [trailingZeros, if_neg heven, hhalf, ih (Nat.lt_of_succ_lt_succ h)]

theorem le_foldl_max {l : List Nat} {a b : Nat} (h : a ∈ l ∨ a ≤ b) : a ≤ l.foldl max b := by
  induction l generalizing b with
  | nil => exact h.resolve_left List.not_mem_nil
  | cons c l ih =>
    refine ih ?_
    rcases h with h | h
    · rcases List.mem_cons.mp h with rfl | h
      · exact .inr (Nat.le_max_right _ _)
      · exact .inl h
    · exact .inr (Nat.le_trans h (Nat.le_max_left _ _))

/-- What a build has made of the dictionaries. -/
structure Generated (tokens : Tokens) (maps : TokenMaps) (values : List (String × Nat))
    (entries : List TokenEntry) (k : Nat) : Prop where
  collected : Collected tokens values
  described : ∀ value ∈ values, ∃ e ∈ entries,
    Describes maps.tokBlob e (ofString value.1) value.2
  known : ∀ e ∈ entries, ∃ value ∈ values, Describes maps.tokBlob e (ofString value.1) value.2
  le_maxLen : ∀ value ∈ values, (ofString value.1).length ≤ maps.maxTokenLen
  maxLen_lt : maps.maxTokenLen < 256
  holds : maps.slots.Holds (homeSlot maps.tokMul maps.tokShift) (2 ^ k) entries
  length_lt : entries.length < 2 ^ k
  home_lt : ∀ x, homeSlot maps.tokMul maps.tokShift x < 2 ^ k
  mask_eq : maps.tokMask = 2 ^ k - 1

theorem forall₂_exists {α β : Type} {R : α → β → Prop} {as : List α} {bs : List β}
    (h : List.Forall₂ R as bs) : ∀ a ∈ as, ∃ b ∈ bs, R a b := by
  induction h with
  | nil => nofun
  | @cons a b as bs hab _ ih =>
    intro a' ha'
    rcases List.mem_cons.mp ha' with rfl | ha'
    · exact ⟨b, List.mem_cons_self, hab⟩
    · obtain ⟨b', hb', hR⟩ := ih a' ha'
      exact ⟨b', List.mem_cons_of_mem _ hb', hR⟩

theorem generate_eq_ok {maps : TokenMaps} (hne : tokens.all ≠ []) (h : generate tokens = .ok maps) :
    ∃ values entries k, Generated tokens maps values entries k := by
  obtain ⟨values, hvalues, h⟩ := bind_eq_ok.mp h
  obtain ⟨_, hmax, h⟩ := bind_eq_ok.mp h
  obtain ⟨⟨blob, entries⟩, hpack, h⟩ := bind_eq_ok.mp h
  obtain ⟨⟨mul, slots⟩, hbuild, h⟩ := bind_eq_ok.mp h
  cases h
  have hcollected := collected_tokenValues hvalues
  obtain ⟨_, es, -, hes, hall⟩ := foldlM_packToken_eq_ok hpack
  obtain rfl : es = entries := hes.symm
  have hdescribed := forall₂_exists hall
  have hknown := forall₂_exists hall.flip
  have hentries : es ≠ [] := by
    obtain ⟨token, htoken⟩ := List.exists_mem_of_ne_nil _ hne
    obtain ⟨kind, hkind⟩ := hcollected.mem_all_iff.mp htoken
    obtain ⟨e, he, -⟩ := hdescribed _ hkind
    exact List.ne_nil_of_mem he
  have hx : ∀ e ∈ es, e.x ≠ 0 := by
    intro e he
    obtain ⟨value, -, hd⟩ := hknown e he
    exact hd.x_ne
  obtain ⟨k, hpos, hk, hlt, hholds⟩ :=
    TokenSlots.build_eq_some hentries hx (okOr_eq_ok.mp hbuild)
  have hshift : 32 - trailingZeros 64 slots.keys.length = 32 - k := by
    rw [hholds.keys_length, trailingZeros_two_pow (by omega)]
  refine ⟨values, es, k, hcollected, hdescribed, hknown, fun value hvalue => ?_,
    of_decide_eq_true (ensure_eq_ok.mp hmax), ?_, hlt, ?_, ?_⟩
  · exact le_foldl_max (.inl (List.mem_map.mpr ⟨value, hvalue, rfl⟩))
  · rw [hshift]
    exact hholds
  · rw [hshift]
    exact TokenSlots.homeSlot_lt hpos hk mul
  · rw [hholds.keys_length]

end WaCore.Binary
