import WaCore.Binary.JidText

/-!
# Reading a JID that was rendered

A JID is rendered without a device or an agent that is zero, without an agent
where the server has none, and as the server alone when its user is empty.  What
it is read from may spell these out, so the rendered text can be read as another
JID: the user then ends in what looks like a device or an agent.  `RendersBack`
says of a text when this is not so, and `fromStr_display_iff` that it says so
exactly.
-/

namespace WaCore.Binary

open Utf8

/-! ## Splitting at the last separator -/

section Splitting

variable {c : UInt8} {u v d : Bytes}

theorem findByte_of_not_mem (h : c ∉ u) : findByte c u = none := by
  rw [findByte, List.findIdx?_eq_none_iff]
  intro b hb
  exact decide_eq_false fun heq => h (heq ▸ hb)

theorem rfindByte_of_not_mem (h : c ∉ u) : rfindByte c u = none :=
  Option.map_eq_none_iff.mpr (findByte_of_not_mem (mt List.mem_reverse.mp h))

theorem rfindByte_append (hd : c ∉ d) : rfindByte c (v ++ c :: d) = some v.length := by
  have hnone : d.reverse.findIdx? (· = c) = none :=
    findByte_of_not_mem (mt List.mem_reverse.mp hd)
  have hrev : (v ++ c :: d).reverse = d.reverse ++ c :: v.reverse := by simp
  rw [rfindByte, hrev, List.findIdx?_append, hnone, List.findIdx?_cons]
  simp

/-- A text with the separator splits at the last one. -/
theorem exists_split_last (h : c ∈ u) : ∃ v d, u = v ++ c :: d ∧ c ∉ d := by
  obtain ⟨as, bs, heq, hmem⟩ := List.eq_append_cons_of_mem (List.mem_reverse.mpr h)
  refine ⟨bs.reverse, as.reverse, ?_, fun hin => hmem (List.mem_reverse.mp hin)⟩
  rw [← List.reverse_reverse u, heq]
  simp

theorem rsplitOnce_of_not_mem (h : c ∉ u) : rsplitOnce c u = none := by
  rw [rsplitOnce, rfindByte_of_not_mem h]
  rfl

theorem rsplitOnce_append (hd : c ∉ d) : rsplitOnce c (v ++ c :: d) = some (v, d) := by
  rw [rsplitOnce, rfindByte_append hd]
  simp

theorem findByte_append (hv : c ∉ v) (d : Bytes) : findByte c (v ++ c :: d) = some v.length := by
  have hnone : v.findIdx? (· = c) = none := findByte_of_not_mem hv
  rw [findByte, List.findIdx?_append, hnone, List.findIdx?_cons]
  simp

theorem rfindByte_append_eq (c : UInt8) (v rest : Bytes) :
    rfindByte c (v ++ rest) = ((rfindByte c rest).map (v.length + ·)).or (rfindByte c v) := by
  by_cases h : c ∈ rest
  · obtain ⟨w, d, rfl, hd⟩ := exists_split_last h
    rw [← List.append_assoc, rfindByte_append hd, rfindByte_append hd]
    simp
  · rw [rfindByte_of_not_mem h]
    by_cases hv : c ∈ v
    · obtain ⟨w, d, rfl, hd⟩ := exists_split_last hv
      rw [rfindByte_append hd, List.append_assoc, List.cons_append,
        rfindByte_append (List.not_mem_append hd h)]
      rfl
    · rw [rfindByte_of_not_mem (List.not_mem_append hv h), rfindByte_of_not_mem hv]
      rfl

theorem rfindByte_singleton (b : UInt8) : rfindByte c [b] = if b = c then some 0 else none := by
  by_cases hb : b = c <;> simp [rfindByte]

end Splitting

variable {u t srv : Bytes} {n : Nat} {b c : UInt8} {server : Server} {j : Jid}

/-- The scan finds the first `@`, and the last `:` and `.` before it. -/
theorem scanUser_eq_some (hu : (64 : UInt8) ∉ u) (srv : Bytes) (i : Nat)
    (colonPos lastDotPos : Option Nat) :
    scanUser (u ++ 64 :: srv) i colonPos lastDotPos
      = some (i + u.length, ((rfindByte 58 u).map (i + ·)).or colonPos,
          ((rfindByte 46 u).map (i + ·)).or lastDotPos) := by
  induction u generalizing i colonPos lastDotPos with
  | nil => rfl
  | cons b u ih =>
    have hb : ¬ b = 64 := (List.ne_of_not_mem_cons hu).symm
    have hu' := List.not_mem_of_not_mem_cons hu
    have hlength : i + (b :: u).length = i + 1 + u.length := by
      rw [List.length_cons]
      omega
    have hshift : ∀ (o o' : Option Nat) (found : Bool),
        (((o.map (1 + ·)).or (if found then some 0 else none)).map (i + ·)).or o'
          = (o.map (i + 1 + ·)).or (if found then some i else o') := by
      intro o o' found
      cases o <;> cases found <;> simp
      all_goals omega
    have hcolon := hshift (rfindByte 58 u) colonPos (b = 58)
    have hdot := hshift (rfindByte 46 u) lastDotPos (b = 46)
    simp only [decide_eq_true_eq] at hcolon hdot
    have hcons : ∀ c, rfindByte c (b :: u) = ((rfindByte c u).map (1 + ·)).or (rfindByte c [b]) :=
      fun c => rfindByte_append_eq c [b] u
    rw [List.cons_append, scanUser, if_neg hb, hcons, hcons, rfindByte_singleton, rfindByte_singleton,
      hlength, hcolon, hdot]
    split
    · rename_i heq
      rw [ih hu', if_neg (by rw [heq]; decide)]
    · split
      · rw [ih hu']
      · rw [ih hu']

theorem scanUser_eq_none {s : Bytes} (hs : (64 : UInt8) ∉ s) (i : Nat)
    (colonPos lastDotPos : Option Nat) : scanUser s i colonPos lastDotPos = none := by
  induction s generalizing i colonPos lastDotPos with
  | nil => rfl
  | cons b s ih =>
    have hb : ¬ b = 64 := (List.ne_of_not_mem_cons hs).symm
    have hs' := List.not_mem_of_not_mem_cons hs
    rw [scanUser, if_neg hb]
    split
    · exact ih hs' _ _ _
    · split <;> exact ih hs' _ _ _

/-! ## Numbers -/

/-- The number a text says, with digits after an optional `+`. -/
def decimalValue (t : Bytes) : Option Nat :=
  let digits := if t.head? = some 43 then t.tail else t
  if digits ≠ [] ∧ digits.all isAsciiDigit then some (Decimal.value digits) else none

/-- The number a text says, if it is not above a bound. -/
def decimalUpTo (bound : Nat) (t : Bytes) : Option Nat := (decimalValue t).filter (· ≤ bound)

theorem decimalUpTo_of_none {bound : Nat} (h : decimalValue t = none) :
    decimalUpTo bound t = none := by
  rw [decimalUpTo, h]
  rfl

theorem decimalUpTo_of_some {bound : Nat} (h : decimalValue t = some n) :
    decimalUpTo bound t = if n ≤ bound then some n else none := by
  rw [decimalUpTo, h]
  by_cases hle : n ≤ bound <;> simp [Option.filter]

theorem isAsciiDigit_iff : isAsciiDigit b = true ↔ ¬ 9 < b - 48 := by
  have h48 : (48 : UInt8).toNat = 48 := rfl
  have h57 : (57 : UInt8).toNat = 57 := rfl
  have h9 : (9 : UInt8).toNat = 9 := rfl
  have hb := b.toNat_lt
  rw [isAsciiDigit, Bool.and_eq_true, decide_eq_true_eq, decide_eq_true_eq,
    UInt8.le_iff_toNat_le, UInt8.le_iff_toNat_le, UInt8.lt_iff_toNat_lt, UInt8.toNat_sub]
  omega

theorem toNat_sub_of_digit (h : isAsciiDigit b = true) : (b - 48).toNat = b.toNat - 48 := by
  have h48 : (48 : UInt8).toNat = 48 := rfl
  have hb := b.toNat_lt
  rw [isAsciiDigit, Bool.and_eq_true, decide_eq_true_eq, UInt8.le_iff_toNat_le] at h
  rw [UInt8.toNat_sub]
  omega

theorem decimalStep_eq (n : Nat) (b : UInt8) :
    decimalStep n b = if isAsciiDigit b = true ∧ 10 * n + (b.toNat - 48) ≤ 65535
      then some (10 * n + (b.toNat - 48)) else none := by
  by_cases hb : isAsciiDigit b = true
  · rw [decimalStep, if_neg (isAsciiDigit_iff.mp hb), toNat_sub_of_digit hb]
    simp only [hb, true_and]
    split
    · rw [if_neg (by omega)]
    · split
      · rw [if_neg (by omega)]
      · rw [if_pos (by omega)]
  · have hlarge : 9 < b - 48 := Decidable.not_not.mp fun h => hb (isAsciiDigit_iff.mpr h)
    rw [decimalStep, if_pos hlarge]
    simp [hb]

theorem le_foldl_value (digits : Bytes) (n : Nat) :
    n ≤ digits.foldl (fun n b => 10 * n + (b.toNat - 48)) n := by
  induction digits generalizing n with
  | nil => exact Nat.le_refl n
  | cons b digits ih =>
    have hstep : n ≤ 10 * n + (b.toNat - 48) := by omega
    exact Nat.le_trans hstep (ih _)

/-- The loop of the scanner's numbers gives up at the first overflow, and the
number only grows from there. -/
theorem foldlM_decimalStep {digits : Bytes} (hn : n ≤ 65535) :
    digits.foldlM decimalStep n
      = if digits.all isAsciiDigit = true
            ∧ digits.foldl (fun n b => 10 * n + (b.toNat - 48)) n ≤ 65535
        then some (digits.foldl (fun n b => 10 * n + (b.toNat - 48)) n) else none := by
  induction digits generalizing n with
  | nil => simp [hn]
  | cons b digits ih =>
    have hmono := le_foldl_value digits (10 * n + (b.toNat - 48))
    rw [List.foldlM_cons, List.foldl_cons, List.all_cons, decimalStep_eq]
    by_cases hstep : isAsciiDigit b = true ∧ 10 * n + (b.toNat - 48) ≤ 65535
    · rw [if_pos hstep]
      refine (ih hstep.2).trans ?_
      simp only [hstep.1, Bool.true_and]
    · have hnone : ¬ ((isAsciiDigit b && digits.all isAsciiDigit) = true
          ∧ digits.foldl (fun n b => 10 * n + (b.toNat - 48)) (10 * n + (b.toNat - 48)) ≤ 65535) :=
        fun h => hstep ⟨(Bool.and_eq_true_iff.mp h.1).1, Nat.le_trans hmono h.2⟩
      rw [if_neg hstep, if_neg hnone]
      rfl

theorem parseU16Decimal_eq (t : Bytes) : parseU16Decimal t = decimalUpTo 65535 t := by
  have hloop : ∀ digits : Bytes, (if digits = [] then none else digits.foldlM decimalStep 0)
      = ((if digits ≠ [] ∧ digits.all isAsciiDigit = true then some (Decimal.value digits)
          else none) : Option Nat).filter (· ≤ 65535) := by
    intro digits
    by_cases hnil : digits = []
    · simp [hnil]
    · rw [if_neg hnil, foldlM_decimalStep (Nat.zero_le _), ← Decimal.value]
      by_cases hall : digits.all isAsciiDigit = true
      · rw [if_pos (And.intro hnil hall)]
        by_cases hle : Decimal.value digits ≤ 65535
        · rw [if_pos ⟨hall, hle⟩]
          simp [Option.filter, hle]
        · simp [Option.filter, hle]
      · rw [if_neg fun h => hall h.1, if_neg fun h => hall h.2]
        rfl
  exact hloop _

/-- A rendered number is made of digits. -/
theorem isAsciiDigit_of_mem_toString (h : b ∈ ofString (toString n)) : isAsciiDigit b = true := by
  obtain ⟨hlo, hhi⟩ := Decimal.digit_of_mem h
  rw [isAsciiDigit, decide_eq_true hlo, decide_eq_true hhi]
  rfl

/-- A number that was written is read back. -/
theorem decimalUpTo_toString {bound : Nat} (h : n ≤ bound) :
    decimalUpTo bound (ofString (toString n)) = some n := by
  have hne := Decimal.ofString_toString_ne_nil n
  have hdigit : ∀ b ∈ ofString (toString n), isAsciiDigit b = true :=
    fun _ hb => isAsciiDigit_of_mem_toString hb
  have hplus : ¬ (ofString (toString n)).head? = some 43 := by
    intro hhead
    have := hdigit 43 (List.mem_of_mem_head? hhead)
    exact absurd this (by decide)
  have hvalue : decimalValue (ofString (toString n)) = some n := by
    rw [decimalValue, if_neg hplus, if_pos ⟨hne, List.all_eq_true.mpr hdigit⟩,
      Decimal.value_ofString_toString]
  rw [decimalUpTo_of_some hvalue, if_pos h]

/-! ## What a user part says -/

/-- What stands before the last `c`, or the whole text. -/
def beforeLast (c : UInt8) (u : Bytes) : Bytes := ((rsplitOnce c u).map Prod.fst).getD u

/-- The number after the last `c`. -/
def numberAfter (bound : Nat) (c : UInt8) (u : Bytes) : Option Nat :=
  (rsplitOnce c u).bind fun split => decimalUpTo bound split.2

/-- The device of a user part. -/
def deviceNumber (u : Bytes) : Nat := (numberAfter 65535 58 u).getD 0

/-- The agent of what stands before the device. -/
def agentNumber (server : Server) (v : Bytes) : Option Nat :=
  if server = .lid then none else numberAfter 255 46 v

def agentOf (server : Server) (u : Bytes) : Nat := (agentNumber server (beforeLast 58 u)).getD 0

/-- The user, with neither. -/
def userText (server : Server) (u : Bytes) : Bytes :=
  if (agentNumber server (beforeLast 58 u)).isSome then beforeLast 46 (beforeLast 58 u)
  else beforeLast 58 u

/-- When a user part renders back: a user that is empty has no device or agent to
lose, and any other user does not end in what reads as a device or an agent where
none is rendered after it. -/
structure UserRendersBack (server : Server) (u : Bytes) : Prop where
  empty : userText server u = [] →
    deviceNumber u = 0 ∧ (agentOf server u = 0 ∨ server.rendersAgent = false)
  colon : userText server u ≠ [] → deviceNumber u = 0 → (58 : UInt8) ∉ userText server u
  dot : userText server u ≠ [] → (agentOf server u = 0 ∨ server.rendersAgent = false) →
    agentNumber server (userText server u) = none

/-- When a text renders back.  A text with no user part, the name of a server,
does. -/
def RendersBack (s : Bytes) : Prop :=
  ∀ u srv server, s = u ++ 64 :: srv → (64 : UInt8) ∉ u → u ≠ [] →
    Server.parseKnown srv = some server → UserRendersBack server u

section Pieces

variable {c : UInt8} {u v d : Bytes} {bound : Nat}

theorem beforeLast_of_not_mem (h : c ∉ u) : beforeLast c u = u := by
  rw [beforeLast, rsplitOnce_of_not_mem h]
  rfl

theorem beforeLast_append (hd : c ∉ d) : beforeLast c (v ++ c :: d) = v := by
  rw [beforeLast, rsplitOnce_append hd]
  rfl

theorem numberAfter_of_not_mem (h : c ∉ u) : numberAfter bound c u = none := by
  rw [numberAfter, rsplitOnce_of_not_mem h]
  rfl

theorem numberAfter_append (hd : c ∉ d) :
    numberAfter bound c (v ++ c :: d) = decimalUpTo bound d := by
  rw [numberAfter, rsplitOnce_append hd]
  rfl

theorem beforeLast_prefix_of (c : UInt8) (u : Bytes) : beforeLast c u <+: u := by
  by_cases h : c ∈ u
  · obtain ⟨v, d, rfl, hd⟩ := exists_split_last h
    rw [beforeLast_append hd]
    exact List.prefix_append _ _
  · rw [beforeLast_of_not_mem h]

theorem length_beforeLast_lt (h : c ∈ u) : (beforeLast c u).length < u.length := by
  obtain ⟨v, d, rfl, hd⟩ := exists_split_last h
  rw [beforeLast_append hd]
  simp

theorem mem_of_numberAfter (h : numberAfter bound c u = some n) : c ∈ u := by
  by_contra hnot
  rw [numberAfter_of_not_mem hnot] at h
  cases h

theorem userText_prefix_of (server : Server) (u : Bytes) : userText server u <+: beforeLast 58 u := by
  rw [userText]
  split
  · exact beforeLast_prefix_of _ _
  · exact List.prefix_rfl

end Pieces

/-! ## The scanner reads these pieces -/

section Scanner

variable {server : Server} {u srv : Bytes}

theorem splitAtColon_eq (u : Bytes) :
    splitAtColon u (rfindByte 58 u) = (beforeLast 58 u, deviceNumber u) := by
  by_cases h : (58 : UInt8) ∈ u
  · obtain ⟨v, d, rfl, hd⟩ := exists_split_last h
    rw [rfindByte_append hd, splitAtColon, beforeLast_append hd, deviceNumber,
      numberAfter_append hd, parseU16Decimal_eq]
    simp
  · rw [rfindByte_of_not_mem h, beforeLast_of_not_mem h, deviceNumber, numberAfter_of_not_mem h]
    rfl

/-- The dot of the agent is the last one before the device. -/
theorem agentDot_eq (v rest : Bytes) :
    agentDot v (rfindByte 46 (v ++ rest)) = rfindByte 46 v := by
  rw [rfindByte_append_eq]
  cases hrest : rfindByte 46 rest with
  | some i => simp [agentDot]
  | none =>
    cases hv : rfindByte 46 v with
    | none => rfl
    | some i =>
      have hi := (rfindByte_eq_some hv).2
      simp [agentDot, hi]

theorem splitAtDot_eq (v : Bytes) :
    splitAtDot v (rfindByte 46 v)
      = (if (numberAfter 255 46 v).isSome then beforeLast 46 v else v,
          (numberAfter 255 46 v).getD 0) := by
  by_cases h : (46 : UInt8) ∈ v
  · obtain ⟨w, d, rfl, hd⟩ := exists_split_last h
    have hdrop : (w ++ 46 :: d).drop (w.length + 1) = d := by simp
    rw [rfindByte_append hd, splitAtDot, hdrop, parseU16Decimal_eq, numberAfter_append hd,
      beforeLast_append hd]
    cases hvalue : decimalValue d with
    | none =>
      rw [decimalUpTo_of_none hvalue, decimalUpTo_of_none hvalue]
      rfl
    | some n =>
      rw [decimalUpTo_of_some hvalue, decimalUpTo_of_some hvalue]
      by_cases h255 : n ≤ 255
      · have h65535 : n ≤ 65535 := by omega
        simp [h255, h65535]
      · by_cases h65535 : n ≤ 65535 <;> simp [h255, h65535]
  · rw [rfindByte_of_not_mem h, numberAfter_of_not_mem h]
    rfl

theorem scanUser_zero (hu : (64 : UInt8) ∉ u) (srv : Bytes) :
    scanUser (u ++ 64 :: srv) 0 none none
      = some (u.length, rfindByte 58 u, rfindByte 46 u) := by
  rw [scanUser_eq_some hu]
  simp

/-- The scanner takes a user part to its pieces, if the server is known. -/
theorem parseJidRef_eq (hu : (64 : UInt8) ∉ u) (hne : u ≠ []) (srv : Bytes) :
    parseJidRef (u ++ 64 :: srv) = (Server.parseKnown srv).map fun server =>
      ⟨strOf (userText server u), server, UInt8.ofNat (agentOf server u),
        UInt16.ofNat (deviceNumber u), 0⟩ := by
  have htake : (u ++ 64 :: srv).take u.length = u := List.take_left
  have hdrop : (u ++ 64 :: srv).drop (u.length + 1) = srv := by simp
  have hlength : ¬ u.length = 0 := fun h => hne (List.length_eq_zero_iff.mp h)
  rw [parseJidRef, parseJidScan, scanUser_zero hu]
  simp only [Option.bind_eq_bind, Option.bind_some]
  rw [if_neg hlength, htake, hdrop, splitAtColon_eq]
  cases Server.parseKnown srv with
  | none => rfl
  | some server =>
    by_cases hlid : server = .lid
    · subst hlid
      rfl
    · rw [if_neg fun h => hlid (Option.some.inj h)]
      obtain ⟨rest, hrest⟩ := beforeLast_prefix_of 58 u
      have hdot := agentDot_eq (beforeLast 58 u) rest
      rw [hrest] at hdot
      rw [hdot, splitAtDot_eq, Option.map_some, userText, agentOf, agentNumber, if_neg hlid]
      rfl

end Scanner

/-! ## Texts -/

section Texts

theorem valid_beforeLast (hc : c < 0x80) (hu : Valid u) : Valid (beforeLast c u) := by
  by_cases h : c ∈ u
  · obtain ⟨v, d, rfl, hd⟩ := exists_split_last h
    rw [beforeLast_append hd]
    exact (hu.split hc).1
  · rwa [beforeLast_of_not_mem h]

theorem valid_userText (server : Server) (hu : Valid u) : Valid (userText server u) := by
  have hv := valid_beforeLast (show (58 : UInt8) < 0x80 by decide) hu
  rw [userText]
  split
  · exact valid_beforeLast (by decide) hv
  · exact hv

/-- A text has a user part, or the fallback reads the name of a server. -/
theorem text_cases (s : Bytes) :
    (∃ u srv, s = u ++ 64 :: srv ∧ (64 : UInt8) ∉ u ∧ u ≠ [])
      ∨ ∃ srv, s = 64 :: srv ∨ (64 : UInt8) ∉ s ∧ srv = s := by
  by_cases h : (64 : UInt8) ∈ s
  · obtain ⟨u, srv, rfl, hu⟩ := List.eq_append_cons_of_mem h
    by_cases hne : u = []
    · exact .inr ⟨srv, .inl (by rw [hne]; rfl)⟩
    · exact .inl ⟨u, srv, rfl, hu, hne⟩
  · exact .inr ⟨s, .inr ⟨h, rfl⟩⟩

theorem fromStrFallback_of_server {s : Bytes} (hsplit : (splitOnce 64 s).getD ([], s) = ([], srv))
    (hsrv : Server.parseKnown srv = some server) :
    fromStrFallback s = .ok ⟨"", server, 0, 0, 0⟩ := by
  have hpiece : strOf [] = "" := strOf_ofString ""
  have htry : Server.tryFrom srv = .ok server := by rw [Server.tryFrom, hsrv, okOr_some]
  rw [fromStrFallback, hsplit]
  dsimp only
  rw [if_neg fun h => absurd (hsrv.symm.trans h.2) (Option.some_ne_none _)]
  split
  · rw [show fallbackDevice [] = .ok ([], 0) from rfl, htry, ok_bind, hpiece]
    rfl
  · rw [show fallbackDevice [] = .ok ([], 0) from rfl, ok_bind, show fallbackAgent [] = .ok ([],
      0) from rfl, ok_bind, htry, ok_bind, hpiece]
    rfl

theorem tryFrom_eq_ok (h : Server.tryFrom srv = .ok server) :
    Server.parseKnown srv = some server := okOr_eq_ok.mp h

/-- The fallback accepts a known server only. -/
theorem parseKnown_of_fromStrFallback {s user : Bytes}
    (hsplit : (splitOnce 64 s).getD ([], s) = (user, srv)) (h : fromStrFallback s = .ok j) :
    ∃ server, Server.parseKnown srv = some server := by
  rw [fromStrFallback, hsplit] at h
  dsimp only at h
  split at h
  · cases h
  · split at h
    · obtain ⟨_, -, h⟩ := bind_eq_ok.mp h
      obtain ⟨server, hserver, -⟩ := bind_eq_ok.mp h
      exact ⟨server, tryFrom_eq_ok hserver⟩
    · obtain ⟨_, -, h⟩ := bind_eq_ok.mp h
      obtain ⟨_, -, h⟩ := bind_eq_ok.mp h
      obtain ⟨server, hserver, -⟩ := bind_eq_ok.mp h
      exact ⟨server, tryFrom_eq_ok hserver⟩

theorem splitOnce_append (hu : (64 : UInt8) ∉ u) (srv : Bytes) :
    splitOnce 64 (u ++ 64 :: srv) = some (u, srv) := by
  rw [splitOnce, findByte_append hu]
  simp

theorem splitOnce_of_not_mem {s : Bytes} (h : (64 : UInt8) ∉ s) : splitOnce 64 s = none := by
  rw [splitOnce, findByte_of_not_mem h]
  rfl

/-- The scanner leaves a text without a user part to the fallback. -/
theorem parseJidRef_of_no_user {s : Bytes} (h : s = 64 :: srv ∨ (64 : UInt8) ∉ s ∧ srv = s) :
    parseJidRef s = none ∧ (splitOnce 64 s).getD ([], s) = ([], srv) := by
  rcases h with rfl | ⟨hs, rfl⟩
  · exact ⟨rfl, rfl⟩
  · rw [parseJidRef, parseJidScan, scanUser_eq_none hs, splitOnce_of_not_mem hs]
    exact ⟨rfl, rfl⟩

end Texts

namespace Jid

variable {s : String}

theorem fromStr_of_user (hs : ofString s = u ++ 64 :: srv) (hu : (64 : UInt8) ∉ u) (hne : u ≠ [])
    (hsrv : Server.parseKnown srv = some server) :
    fromStr s = .ok ⟨strOf (userText server u), server, UInt8.ofNat (agentOf server u),
      UInt16.ofNat (deviceNumber u), 0⟩ := by
  rw [fromStr, hs, parseJidRef_eq hu hne, hsrv]
  rfl

theorem fromStr_of_server
    (hs : ofString s = 64 :: srv ∨ (64 : UInt8) ∉ ofString s ∧ srv = ofString s)
    (hsrv : Server.parseKnown srv = some server) : fromStr s = .ok ⟨"", server, 0, 0, 0⟩ := by
  obtain ⟨hscan, hsplit⟩ := parseJidRef_of_no_user hs
  rw [fromStr, hscan]
  exact fromStrFallback_of_server hsplit hsrv

/-- A text that is accepted has a known server, and a user part or none. -/
theorem fromStr_cases (h : fromStr s = .ok j) :
    (∃ u srv server, ofString s = u ++ 64 :: srv ∧ (64 : UInt8) ∉ u ∧ u ≠ []
        ∧ Server.parseKnown srv = some server
        ∧ j = ⟨strOf (userText server u), server, UInt8.ofNat (agentOf server u),
            UInt16.ofNat (deviceNumber u), 0⟩)
      ∨ (∃ server, j = ⟨"", server, 0, 0, 0⟩) ∧ RendersBack (ofString s) := by
  rcases text_cases (ofString s) with ⟨u, srv, hs, hu, hne⟩ | ⟨srv, hsrv⟩
  · cases hsrv : Server.parseKnown srv with
    | some server =>
      rw [fromStr_of_user hs hu hne hsrv] at h
      exact .inl ⟨u, srv, server, hs, hu, hne, hsrv, (Except.ok.inj h).symm⟩
    | none =>
      rw [fromStr, hs, parseJidRef_eq hu hne, hsrv] at h
      have hsplit : (splitOnce 64 (u ++ 64 :: srv)).getD ([], u ++ 64 :: srv) = (u, srv) := by
        rw [splitOnce_append hu]
        rfl
      obtain ⟨server, hserver⟩ := parseKnown_of_fromStrFallback hsplit h
      rw [hsrv] at hserver
      cases hserver
  · have hback : RendersBack (ofString s) := by
      intro u srv server hs hu hne _
      rcases hsrv with hs' | ⟨hno, -⟩
      · rw [hs] at hs'
        cases u with
        | nil => exact absurd rfl hne
        | cons b u =>
          cases hs'
          exact absurd List.mem_cons_self hu
      · rw [hs] at hno
        exact absurd (List.mem_append_right u List.mem_cons_self) hno
    have hsplit := parseJidRef_of_no_user hsrv
    have hfallback := h
    rw [fromStr, hsplit.1] at hfallback
    obtain ⟨server, hserver⟩ := parseKnown_of_fromStrFallback hsplit.2 hfallback
    rw [fromStr_of_server hsrv hserver] at h
    exact .inr ⟨⟨server, (Except.ok.inj h).symm⟩, hback⟩

/-! ## Rendering and reading again -/

/-- The rendered agent. -/
def agentText (j : Jid) : Bytes :=
  if 0 < j.agent ∧ j.server.rendersAgent then 46 :: ofString (toString j.agent.toNat) else []

/-- The rendered device. -/
def deviceText (j : Jid) : Bytes :=
  if 0 < j.device then 58 :: ofString (toString j.device.toNat) else []

theorem ofString_display (hne : j.user ≠ "") :
    ofString (jidRefToCompact j)
      = ofString j.user ++ agentText j ++ deviceText j ++ 64 :: ofString j.server.asStr := by
  rw [jidRefToCompact, if_neg hne, agentText, deviceText, ofString_append, ofString_append]
  split <;> split <;> simp [show ofString "." = [46] from rfl, show ofString ":" = [58] from rfl,
    show ofString "@" = [64] from rfl]

theorem not_mem_digits (n : Nat) (hc : ¬ (48 ≤ c ∧ c ≤ 57)) :
    c ∉ ofString (toString n) := fun h => hc (Decimal.digit_of_mem h)

/-- A number that may be rendered behind a separator. -/
theorem not_mem_numberText {p : Prop} [Decidable p] {sep : UInt8} (n : Nat)
    (hc : ¬ (48 ≤ c ∧ c ≤ 57)) (hsep : c ≠ sep) :
    c ∉ if p then sep :: ofString (toString n) else [] := by
  split
  · exact List.not_mem_cons_of_ne_of_not_mem hsep (not_mem_digits _ hc)
  · exact List.not_mem_nil

theorem not_mem_agentText (j : Jid) (hc : ¬ (48 ≤ c ∧ c ≤ 57)) (hdot : c ≠ 46) :
    c ∉ agentText j := not_mem_numberText _ hc hdot

theorem not_mem_deviceText (j : Jid) (hc : ¬ (48 ≤ c ∧ c ≤ 57)) (hcolon : c ≠ 58) :
    c ∉ deviceText j := not_mem_numberText _ hc hcolon

/-- The text that is read as the user part. -/
def userPartText (j : Jid) : Bytes := ofString j.user ++ agentText j ++ deviceText j

/-- The JID that is read from a rendered one. -/
theorem fromStr_display (hne : j.user ≠ "") (hat : (64 : UInt8) ∉ ofString j.user) :
    fromStr (jidRefToCompact j) = .ok
      ⟨strOf (userText j.server (userPartText j)), j.server,
        UInt8.ofNat (agentOf j.server (userPartText j)),
        UInt16.ofNat (deviceNumber (userPartText j)), 0⟩ := by
  refine fromStr_of_user (ofString_display hne) ?_ ?_ (Server.parseKnown_asStr _)
  · rw [userPartText, List.mem_append, List.mem_append]
    rintro ((h | h) | h)
    · exact hat h
    · exact not_mem_agentText j (by decide) (by decide) h
    · exact not_mem_deviceText j (by decide) (by decide) h
  · intro hnil
    have huser := (List.append_eq_nil_iff.mp (List.append_eq_nil_iff.mp hnil).1).1
    exact hne (ofString_injective (huser.trans ofString_empty.symm))

/-- The device is read back, if the user does not end in one. -/
theorem pieces_of_device (x : Bytes) (hcolon : j.device = 0 → (58 : UInt8) ∉ x) :
    beforeLast 58 (x ++ deviceText j) = x ∧ deviceNumber (x ++ deviceText j) = j.device.toNat := by
  rw [deviceText]
  split
  · have hdigits := not_mem_digits (c := 58) j.device.toNat (by decide)
    have hle : j.device.toNat ≤ 65535 := Nat.le_of_lt_succ j.device.toNat_lt
    rw [beforeLast_append hdigits, deviceNumber, numberAfter_append hdigits,
      decimalUpTo_toString hle]
    exact ⟨rfl, rfl⟩
  · rename_i hzero
    have hdevice : j.device = 0 := by
      have : ¬ 0 < j.device.toNat := hzero
      exact UInt16.toNat_inj.mp (by simpa using Nat.eq_zero_of_not_pos this)
    rw [List.append_nil, beforeLast_of_not_mem (hcolon hdevice), deviceNumber,
      numberAfter_of_not_mem (hcolon hdevice), hdevice]
    exact ⟨rfl, rfl⟩

theorem valid_userPartText (j : Jid) : Valid (userPartText j) := by
  have hnumber : ∀ (p : Prop) [Decidable p] (sep : String) (n : Nat),
      Valid (if p then ofString sep ++ ofString (toString n) else []) := by
    intro p _ sep n
    split
    · exact (valid_ofString sep).append (valid_ofString _)
    · exact valid_nil
  exact ((valid_ofString _).append (hnumber _ "." _)).append (hnumber _ ":" _)

/-- A user that is read shorter is another one. -/
theorem eq_false_of_length_lt {j' : Jid} {piece : Bytes} (hpiece : Valid piece)
    (hj' : j'.user = strOf piece) (hlt : piece.length < (ofString j.user).length) :
    ¬ j'.same j = true := by
  intro heq
  have huser : j'.user = j.user := by
    simp only [same, Bool.and_eq_true, decide_eq_true_eq] at heq
    exact heq.1.1.1.1
  rw [← huser, hj', ofString_strOf hpiece] at hlt
  exact Nat.lt_irrefl _ hlt

theorem agentText_of_rendered (h : 0 < j.agent ∧ j.server.rendersAgent = true) :
    agentText j = 46 :: ofString (toString j.agent.toNat) := if_pos h

theorem agentText_of_not_rendered (h : ¬ (0 < j.agent ∧ j.server.rendersAgent = true)) :
    agentText j = [] := if_neg h

theorem not_rendered_iff :
    ¬ (0 < j.agent ∧ j.server.rendersAgent = true)
      ↔ j.agent = 0 ∨ j.server.rendersAgent = false := by
  have hpos : ¬ 0 < j.agent ↔ j.agent = 0 := by
    rw [← UInt8.toNat_inj]
    exact Nat.not_lt.trans Nat.le_zero
  rw [not_and_or, hpos, Bool.not_eq_true]

/-- A rendered agent is read back. -/
theorem pieces_of_agent (h : 0 < j.agent ∧ j.server.rendersAgent = true) (U : Bytes) :
    agentNumber j.server (U ++ agentText j) = some j.agent.toNat
      ∧ beforeLast 46 (U ++ agentText j) = U := by
  have hlid : ¬ j.server = .lid := by
    intro heq
    rw [heq] at h
    exact absurd h.2 (by decide)
  have hdigits := not_mem_digits (c := 46) j.agent.toNat (by decide)
  have hle : j.agent.toNat ≤ 255 := Nat.le_of_lt_succ j.agent.toNat_lt
  rw [agentText_of_rendered h, agentNumber, if_neg hlid, numberAfter_append hdigits,
    decimalUpTo_toString hle, beforeLast_append hdigits]
  exact ⟨rfl, rfl⟩

theorem deviceText_of_zero (h : j.device = 0) : deviceText j = [] := by
  rw [deviceText, h]
  rfl

/-- A user with a `:` is cut there, if no device is rendered. -/
theorem length_userText_lt_of_colon (hdevice : j.device = 0)
    (hcolon : (58 : UInt8) ∈ ofString j.user) :
    (userText j.server (userPartText j)).length < (ofString j.user).length := by
  obtain ⟨v, d, hsplit, hd⟩ := exists_split_last hcolon
  have hrest : (58 : UInt8) ∉ d ++ agentText j := by
    rw [List.mem_append]
    exact fun h => h.elim hd (not_mem_agentText j (by decide) (by decide))
  have hbefore : beforeLast 58 (userPartText j) = v := by
    rw [userPartText, deviceText_of_zero hdevice, List.append_nil, hsplit, List.append_assoc,
      List.cons_append, beforeLast_append hrest]
  have hle := (userText_prefix_of j.server (userPartText j)).length_le
  rw [hbefore] at hle
  rw [hsplit, List.length_append, List.length_cons]
  omega

/-- What stands before the device is the user with the agent. -/
theorem pieces_of_userPartText (hcolon : j.device = 0 → (58 : UInt8) ∉ ofString j.user) :
    beforeLast 58 (userPartText j) = ofString j.user ++ agentText j
      ∧ deviceNumber (userPartText j) = j.device.toNat := by
  refine pieces_of_device _ fun hdevice => ?_
  rw [List.mem_append]
  exact fun h => h.elim (hcolon hdevice) (not_mem_agentText j (by decide) (by decide))

/-- A user that ends in a number after a dot is cut there, if no agent is
rendered. -/
theorem length_userText_lt_of_dot (hcolon : j.device = 0 → (58 : UInt8) ∉ ofString j.user)
    (hagent : j.agent = 0 ∨ j.server.rendersAgent = false)
    (hdot : agentNumber j.server (ofString j.user) = some n) :
    (userText j.server (userPartText j)).length < (ofString j.user).length := by
  have hbefore := (pieces_of_userPartText hcolon).1
  rw [agentText_of_not_rendered (not_rendered_iff.mpr hagent), List.append_nil] at hbefore
  have hmem : (46 : UInt8) ∈ ofString j.user := by
    rw [agentNumber] at hdot
    split at hdot
    · cases hdot
    · exact mem_of_numberAfter hdot
  rw [userText, hbefore, hdot]
  exact length_beforeLast_lt hmem

/-- Otherwise the user and the agent are read back. -/
theorem userText_agentOf_userPartText (hcolon : j.device = 0 → (58 : UInt8) ∉ ofString j.user)
    (hdot : (j.agent = 0 ∨ j.server.rendersAgent = false) → agentNumber j.server (ofString j.user) = none) :
    userText j.server (userPartText j) = ofString j.user
      ∧ (if j.server.rendersAgent then UInt8.ofNat (agentOf j.server (userPartText j)) else 0)
        = j.identityAgent := by
  have hbefore := (pieces_of_userPartText hcolon).1
  by_cases hrendered : 0 < j.agent ∧ j.server.rendersAgent = true
  · obtain ⟨hnumber, huser⟩ := pieces_of_agent hrendered (ofString j.user)
    rw [userText, agentOf, hbefore, hnumber, huser, Option.getD_some, UInt8.ofNat_toNat]
    exact ⟨rfl, rfl⟩
  · have hagent := not_rendered_iff.mp hrendered
    rw [agentText_of_not_rendered hrendered, List.append_nil] at hbefore
    rw [userText, agentOf, hbefore, hdot hagent]
    refine ⟨rfl, ?_⟩
    rw [identityAgent]
    rcases hagent with hagent | hagent
    · rw [hagent]
      rfl
    · rw [hagent]
      rfl

/-- A JID with a user renders back exactly if the user does not end in what reads
as a device or an agent where none is rendered. -/
theorem display_iff (hne : j.user ≠ "") (hat : (64 : UInt8) ∉ ofString j.user)
    (hintegrator : j.integrator = 0) :
    (∃ j', fromStr (jidRefToCompact j) = .ok j' ∧ j'.same j = true)
      ↔ (j.device = 0 → (58 : UInt8) ∉ ofString j.user)
        ∧ ((j.agent = 0 ∨ j.server.rendersAgent = false) →
          agentNumber j.server (ofString j.user) = none) := by
  have hread := fromStr_display hne hat
  have hvalid : Valid (userText j.server (userPartText j)) :=
    valid_userText j.server (valid_userPartText j)
  constructor
  · rintro ⟨j', hj', heq⟩
    rw [hread] at hj'
    have huser : j'.user = strOf (userText j.server (userPartText j)) := by
      rw [← Except.ok.inj hj']
    have hshort := fun hlt => eq_false_of_length_lt hvalid huser hlt heq
    have hcolon : j.device = 0 → (58 : UInt8) ∉ ofString j.user :=
      fun hdevice hmem => hshort (length_userText_lt_of_colon hdevice hmem)
    refine ⟨hcolon, fun hagent => ?_⟩
    cases hdot : agentNumber j.server (ofString j.user) with
    | none => rfl
    | some n => exact absurd (length_userText_lt_of_dot hcolon hagent hdot) hshort
  · rintro ⟨hcolon, hdot⟩
    obtain ⟨huser, hagent⟩ := userText_agentOf_userPartText hcolon hdot
    have hdevice := (pieces_of_userPartText hcolon).2
    refine ⟨_, hread, ?_⟩
    rw [huser, hdevice, strOf_ofString]
    simpa [same, hintegrator] using .inr hagent

/-! ## The text it was read from -/

theorem le_of_decimalUpTo {bound : Nat} (h : decimalUpTo bound t = some n) : n ≤ bound :=
  of_decide_eq_true (Option.filter_eq_some_iff.mp h).2

theorem getD_numberAfter_le (bound : Nat) (c : UInt8) (u : Bytes) :
    (numberAfter bound c u).getD 0 ≤ bound := by
  cases hnumber : numberAfter bound c u with
  | none => exact Nat.zero_le _
  | some n =>
    obtain ⟨split, -, hn⟩ := Option.bind_eq_some_iff.mp hnumber
    exact le_of_decimalUpTo hn

theorem agentOf_le (server : Server) (u : Bytes) : agentOf server u ≤ 255 := by
  rw [agentOf, agentNumber]
  split
  · exact Nat.zero_le _
  · exact getD_numberAfter_le _ _ _

theorem ofNat_device_eq_zero (u : Bytes) :
    UInt16.ofNat (deviceNumber u) = 0 ↔ deviceNumber u = 0 := by
  have hle : deviceNumber u ≤ 65535 := getD_numberAfter_le _ _ _
  rw [← UInt16.toNat_inj]
  exact Eq.congr_left (Nat.mod_eq_of_lt (by omega))

theorem ofNat_agent_eq_zero (server : Server) (u : Bytes) :
    UInt8.ofNat (agentOf server u) = 0 ↔ agentOf server u = 0 := by
  have hle := agentOf_le server u
  rw [← UInt8.toNat_inj]
  exact Eq.congr_left (Nat.mod_eq_of_lt (by omega))

/-- The user part of a text is the one it was split into. -/
theorem rendersBack_iff (hu : (64 : UInt8) ∉ u) (hne : u ≠ [])
    (hsrv : Server.parseKnown srv = some server) :
    RendersBack (u ++ 64 :: srv) ↔ UserRendersBack server u := by
  refine ⟨fun h => h u srv server rfl hu hne hsrv, ?_⟩
  intro h u' srv' server' heq hu' _ hsrv'
  have hsplit := splitOnce_append hu srv
  rw [heq, splitOnce_append hu' srv'] at hsplit
  cases hsplit
  rw [hsrv] at hsrv'
  cases hsrv'
  exact h

theorem fromStr_asStr (server : Server) : fromStr server.asStr = .ok ⟨"", server, 0, 0, 0⟩ :=
  fromStr_of_server (.inr ⟨Server.at_not_mem_asStr server, rfl⟩) (Server.parseKnown_asStr server)

/-- An empty user renders as the server, and loses its device and its agent. -/
theorem display_iff_of_empty (server : Server) (agent : UInt8) (device : UInt16) :
    (∃ j', fromStr (jidRefToCompact ⟨"", server, agent, device, 0⟩) = .ok j'
        ∧ j'.same ⟨"", server, agent, device, 0⟩ = true)
      ↔ device = 0 ∧ (agent = 0 ∨ server.rendersAgent = false) := by
  rw [jidRefToCompact_of_user_empty rfl, fromStr_asStr]
  constructor
  · rintro ⟨j', ⟨⟩, heq⟩
    simp only [same, identityAgent, Bool.and_eq_true, Bool.or_eq_true, decide_eq_true_eq] at heq
    refine ⟨heq.1.1.2.symm, ?_⟩
    rcases heq.2 with hagent | hagent
    · exact .inl hagent.symm
    · cases hrenders : server.rendersAgent with
      | false => exact .inr rfl
      | true =>
        rw [hrenders] at hagent
        exact .inl hagent.symm
  · rintro ⟨rfl, hagent⟩
    rcases hagent with rfl | hagent
    · simp [same]
    · simp [same, identityAgent, hagent]

/-- A text that is accepted names the JID that its own rendering names, exactly if
it renders back. -/
theorem fromStr_display_iff {s : String} {j : Jid} (h : fromStr s = .ok j) :
    (∃ j', fromStr (jidRefToCompact j) = .ok j' ∧ j'.same j = true) ↔ RendersBack (ofString s) := by
  rcases fromStr_cases h with ⟨u, srv, server, hs, hu, hne, hsrv, rfl⟩ | ⟨⟨server, rfl⟩, hback⟩
  · have hvalid : Valid u := ((hs ▸ valid_ofString s).split (by decide)).1
    have hpiece := ofString_strOf (valid_userText server hvalid)
    rw [hs, rendersBack_iff hu hne hsrv]
    by_cases hempty : userText server u = []
    · have huser : strOf (userText server u) = "" := by
        rw [hempty]
        exact strOf_ofString ""
      rw [huser, display_iff_of_empty, ofNat_device_eq_zero, ofNat_agent_eq_zero]
      exact ⟨fun hlost => ⟨fun _ => hlost, fun hn => absurd hempty hn, fun hn => absurd hempty hn⟩,
        fun hback => hback.empty hempty⟩
    · have huser : strOf (userText server u) ≠ "" := by
        intro hnil
        rw [hnil] at hpiece
        exact hempty hpiece.symm
      have hat : (64 : UInt8) ∉ userText server u := by
        intro hmem
        have hin := (userText_prefix_of server u).trans (beforeLast_prefix_of 58 u)
        exact hu (hin.subset hmem)
      rw [display_iff huser (hpiece.symm ▸ hat) rfl]
      rw [hpiece, ofNat_device_eq_zero, ofNat_agent_eq_zero]
      exact ⟨fun hend => ⟨fun hn => absurd hn hempty, fun _ => hend.1, fun _ => hend.2⟩,
        fun hback => ⟨hback.colon hempty, hback.dot hempty⟩⟩
  · refine ⟨fun _ => hback, fun _ => ?_⟩
    exact (display_iff_of_empty server 0 0).mpr ⟨rfl, .inl rfl⟩

/-- A phone number with two dotted numbers: the second is its agent, which is not
rendered, and then the first is read as one. -/
theorem two_dotted_numbers_change :
    fromStr "1.2.3@s.whatsapp.net" = .ok ⟨"1.2", .pn, 3, 0, 0⟩
      ∧ fromStr (jidRefToCompact ⟨"1.2", .pn, 3, 0, 0⟩) = .ok ⟨"1", .pn, 2, 0, 0⟩
      ∧ same ⟨"1", .pn, 2, 0, 0⟩ ⟨"1.2", .pn, 3, 0, 0⟩ = false := by
  refine ⟨by decide +kernel, by decide +kernel, by decide +kernel⟩

theorem fromStr_display_iff_lid :
    fromStr "1.5:2@lid" = .ok ⟨"1.5", .lid, 0, 2, 0⟩
      ∧ ((∃ j', fromStr (jidRefToCompact ⟨"1.5", .lid, 0, 2, 0⟩) = .ok j'
          ∧ j'.same ⟨"1.5", .lid, 0, 2, 0⟩ = true) ↔ RendersBack (ofString "1.5:2@lid")) := by
  have hread : fromStr "1.5:2@lid" = .ok ⟨"1.5", .lid, 0, 2, 0⟩ := by decide +kernel
  exact ⟨hread, fromStr_display_iff hread⟩

end Jid

end WaCore.Binary
