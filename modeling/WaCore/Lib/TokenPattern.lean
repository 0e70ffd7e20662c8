import Mathlib.Data.Option.Basic
import Mathlib.Tactic.Common

/-!
# Handshakes by token patterns

Key agreements in the style of the Noise protocol framework.  A message is a list
of tokens and a payload: a party sends its ephemeral or its static key, or both
mix the result of a Diffie-Hellman function into their keys.  The parties agree
because they run the same operations on the same transcript.

A message is kept as the list of its parts; how these are put into one byte string
is not part of this.  `Known` tells which keys were sent, `Aligned` that two
parties stand at the same point of a handshake, and `readMessage_writeMessage` that
a message keeps that.
-/

namespace WaCore.Pattern

/-- The functions that a handshake is built on. -/
structure Primitives where
  Hash : Type
  Key : Type
  Secret : Type
  Pub : Type
  Priv : Type
  Msg : Type
  pub : Priv → Pub
  encode : Pub → Msg
  decode : Msg → Option Pub
  dh : Priv → Pub → Option Secret
  mixHash : Hash → Msg → Hash
  mixKey : Hash → Secret → Option (Hash × Key)
  split : Hash → Option (Key × Key)
  encrypt : Key → Nat → Hash → Msg → Option Msg
  decrypt : Key → Nat → Hash → Msg → Option Msg

/-- What is assumed of them. -/
structure Primitives.Lawful (P : Primitives) : Prop where
  decode_encode : ∀ p, P.decode (P.encode p) = some p
  dh_comm : ∀ a b, ∃ secret, P.dh a (P.pub b) = some secret ∧ P.dh b (P.pub a) = some secret
  mixKey_isSome : ∀ ck secret, ∃ r, P.mixKey ck secret = some r
  split_isSome : ∀ ck, ∃ keys, P.split ck = some keys
  decrypt_encrypt : ∀ key n ad m, ∃ c, P.encrypt key n ad m = some c ∧ P.decrypt key n ad c = some m

/-- The transcript and the keys of a party.  There is no cipher key at first. -/
structure Symmetric (P : Primitives) where
  h : P.Hash
  ck : P.Hash
  key : Option P.Key
  n : Nat

namespace Symmetric

variable {P : Primitives}

def mixHash (sym : Symmetric P) (m : P.Msg) : Symmetric P := { sym with h := P.mixHash sym.h m }

def mixKey (sym : Symmetric P) (secret : P.Secret) : Option (Symmetric P) := do
  let (ck, key) ← P.mixKey sym.ck secret
  pure { sym with ck := ck, key := some key, n := 0 }

/-- Encrypt a part of a message; without a key it is sent as it is. -/
def encryptAndHash (sym : Symmetric P) (m : P.Msg) : Option (P.Msg × Symmetric P) :=
  match sym.key with
  | none => some (m, sym.mixHash m)
  | some key => do
    let c ← P.encrypt key sym.n sym.h m
    pure (c, { sym.mixHash c with n := sym.n + 1 })

def decryptAndHash (sym : Symmetric P) (c : P.Msg) : Option (P.Msg × Symmetric P) :=
  match sym.key with
  | none => some (c, sym.mixHash c)
  | some key => do
    let m ← P.decrypt key sym.n sym.h c
    pure (m, { sym.mixHash c with n := sym.n + 1 })

variable {sym : Symmetric P} {key : P.Key}

theorem encryptAndHash_of_key (h : sym.key = some key) (m : P.Msg) :
    sym.encryptAndHash m = (P.encrypt key sym.n sym.h m).map fun c =>
      (c, { sym.mixHash c with n := sym.n + 1 }) := by
  rw [encryptAndHash, h]
  dsimp only
  cases P.encrypt key sym.n sym.h m <;> rfl

theorem decryptAndHash_of_key (h : sym.key = some key) (c : P.Msg) :
    sym.decryptAndHash c = (P.decrypt key sym.n sym.h c).map fun m =>
      (m, { sym.mixHash c with n := sym.n + 1 }) := by
  rw [decryptAndHash, h]
  dsimp only
  cases P.decrypt key sym.n sym.h c <;> rfl

/-- A part is read as it was written, and the transcripts stay the same. -/
theorem decryptAndHash_encryptAndHash (hP : P.Lawful) (sym : Symmetric P) (m : P.Msg) :
    ∃ c sym', sym.encryptAndHash m = some (c, sym') ∧ sym.decryptAndHash c = some (m, sym') := by
  cases hkey : sym.key with
  | none => exact ⟨m, sym.mixHash m, by rw [encryptAndHash, hkey], by rw [decryptAndHash, hkey]⟩
  | some key =>
    obtain ⟨c, hencrypt, hdecrypt⟩ := hP.decrypt_encrypt key sym.n sym.h m
    refine ⟨c, { sym.mixHash c with n := sym.n + 1 }, ?_, ?_⟩
    · rw [encryptAndHash_of_key hkey, hencrypt, Option.map_some]
    · rw [decryptAndHash_of_key hkey, hdecrypt, Option.map_some]

/-- A new key starts with its first nonce. -/
theorem mixKey_eq_some {sym' : Symmetric P} {secret : P.Secret} (h : sym.mixKey secret = some sym')
    : ∃ key, sym'.key = some key ∧ sym'.n = 0 := by
  obtain ⟨⟨ck, key⟩, -, hsym⟩ := Option.bind_eq_some_iff.mp h
  cases hsym
  exact ⟨key, rfl, rfl⟩

theorem decryptAndHash_eq_some {sym' : Symmetric P} (hkey : sym.key = some key) {m c : P.Msg}
    (h : sym.decryptAndHash c = some (m, sym')) : sym'.key = some key ∧ sym'.n = sym.n + 1 := by
  rw [decryptAndHash_of_key hkey] at h
  obtain ⟨m', -, hsym⟩ := Option.map_eq_some_iff.mp h
  cases hsym
  exact ⟨hkey, rfl⟩

theorem mixKey_isSome (hP : P.Lawful) (sym : Symmetric P) (secret : P.Secret) :
    ∃ sym', sym.mixKey secret = some sym' := by
  obtain ⟨⟨ck, key⟩, hmix⟩ := hP.mixKey_isSome sym.ck secret
  exact ⟨{ sym with ck := ck, key := some key, n := 0 }, by simp [mixKey, hmix]⟩

end Symmetric

/-! ## Parties and tokens -/

inductive Role where
  | initiator
  | responder
  deriving DecidableEq

structure Party (P : Primitives) where
  role : Role
  s : P.Priv
  e : P.Priv
  rs : Option P.Pub
  re : Option P.Pub
  sym : Symmetric P

/-- Which keys are agreed on: the first letter is for the initiator's key. -/
inductive Dh where
  | ee
  | es
  | se
  | ss
  deriving DecidableEq

inductive Token where
  | e
  | s
  | mix (d : Dh)
  deriving DecidableEq

variable {d : Dh}

section Messages

variable {P : Primitives}

def Party.agree (p : Party P) : Dh → Option P.Secret
  | .ee => p.re.bind (P.dh p.e)
  | .ss => p.rs.bind (P.dh p.s)
  | .es =>
    match p.role with
    | .initiator => p.rs.bind (P.dh p.e)
    | .responder => p.re.bind (P.dh p.s)
  | .se =>
    match p.role with
    | .initiator => p.re.bind (P.dh p.s)
    | .responder => p.rs.bind (P.dh p.e)

def Party.mix (p : Party P) (d : Dh) : Option (Party P) := do
  let secret ← p.agree d
  let sym ← p.sym.mixKey secret
  pure { p with sym := sym }

/-- The parts that a token adds to a message. -/
def writeToken (p : Party P) : Token → Option (List P.Msg × Party P)
  | .e =>
    let m := P.encode (P.pub p.e)
    some ([m], { p with sym := p.sym.mixHash m })
  | .s => do
    let (c, sym) ← p.sym.encryptAndHash (P.encode (P.pub p.s))
    pure ([c], { p with sym := sym })
  | .mix d => do
    let p ← p.mix d
    pure ([], p)

def readToken (p : Party P) : Token → List P.Msg → Option (List P.Msg × Party P)
  | .e, m :: parts => do
    let re ← P.decode m
    pure (parts, { p with re := some re, sym := p.sym.mixHash m })
  | .s, c :: parts => do
    let (m, sym) ← p.sym.decryptAndHash c
    let rs ← P.decode m
    pure (parts, { p with rs := some rs, sym := sym })
  | .mix d, parts => do
    let p ← p.mix d
    pure (parts, p)
  | _, [] => none

def writeTokens (p : Party P) : List Token → Option (List P.Msg × Party P)
  | [] => some ([], p)
  | t :: tokens => do
    let (first, p) ← writeToken p t
    let (parts, p) ← writeTokens p tokens
    pure (first ++ parts, p)

def readTokens (p : Party P) : List Token → List P.Msg → Option (List P.Msg × Party P)
  | [], parts => some (parts, p)
  | t :: tokens, parts => do
    let (parts, p) ← readToken p t parts
    readTokens p tokens parts

/-- A message with a payload. -/
def writeMessage (p : Party P) (tokens : List Token) (payload : P.Msg) :
    Option (List P.Msg × Party P) := do
  let (parts, p) ← writeTokens p tokens
  let (c, sym) ← p.sym.encryptAndHash payload
  pure (parts ++ [c], { p with sym := sym })

def readMessage (p : Party P) (tokens : List Token) (parts : List P.Msg) :
    Option (P.Msg × Party P) := do
  let (parts, p) ← readTokens p tokens parts
  let (payload, sym) ← parts.head?.bind p.sym.decryptAndHash
  pure (payload, { p with sym := sym })

section Inversion

variable {p p' : Party P} {t : Token} {tokens : List Token} {parts parts' : List P.Msg} {m : P.Msg}

theorem mix_eq_some (h : p.mix d = some p') :
    ∃ secret sym, p.agree d = some secret ∧ p.sym.mixKey secret = some sym
      ∧ p' = { p with sym := sym } := by
  obtain ⟨secret, hsecret, h⟩ := Option.bind_eq_some_iff.mp h
  obtain ⟨sym, hsym, h⟩ := Option.bind_eq_some_iff.mp h
  cases h
  exact ⟨secret, sym, hsecret, hsym, rfl⟩

theorem readToken_e_eq_some (h : readToken p .e (m :: parts) = some (parts', p')) :
    ∃ re, P.decode m = some re ∧ parts' = parts
      ∧ p' = { p with re := some re, sym := p.sym.mixHash m } := by
  obtain ⟨re, hdecode, h⟩ := Option.bind_eq_some_iff.mp h
  cases h
  exact ⟨re, hdecode, rfl, rfl⟩

theorem readToken_s_eq_some (h : readToken p .s (m :: parts) = some (parts', p')) :
    ∃ plain sym rs, p.sym.decryptAndHash m = some (plain, sym) ∧ P.decode plain = some rs
      ∧ parts' = parts ∧ p' = { p with rs := some rs, sym := sym } := by
  obtain ⟨⟨plain, sym⟩, hdecrypt, h⟩ := Option.bind_eq_some_iff.mp h
  obtain ⟨rs, hdecode, h⟩ := Option.bind_eq_some_iff.mp h
  cases h
  exact ⟨plain, sym, rs, hdecrypt, hdecode, rfl, rfl⟩

theorem readToken_mix_eq_some (h : readToken p (.mix d) parts = some (parts', p')) :
    p.mix d = some p' ∧ parts' = parts := by
  obtain ⟨p'', hmix, h⟩ := Option.bind_eq_some_iff.mp h
  cases h
  exact ⟨hmix, rfl⟩

theorem writeToken_s_eq_some (h : writeToken p .s = some (parts, p')) :
    ∃ c sym, p.sym.encryptAndHash (P.encode (P.pub p.s)) = some (c, sym) ∧ parts = [c]
      ∧ p' = { p with sym := sym } := by
  obtain ⟨⟨c, sym⟩, hencrypt, h⟩ := Option.bind_eq_some_iff.mp h
  cases h
  exact ⟨c, sym, hencrypt, rfl, rfl⟩

theorem writeToken_mix_eq_some (h : writeToken p (.mix d) = some (parts, p')) :
    p.mix d = some p' ∧ parts = [] := by
  obtain ⟨p'', hmix, h⟩ := Option.bind_eq_some_iff.mp h
  cases h
  exact ⟨hmix, rfl⟩

variable {payload : P.Msg}

theorem writeMessage_nil_eq_some (h : writeMessage p [] payload = some (parts, p')) :
    ∃ c sym, p.sym.encryptAndHash payload = some (c, sym) ∧ parts = [c]
      ∧ p' = { p with sym := sym } := by
  obtain ⟨⟨c, sym⟩, hc, h⟩ := Option.bind_eq_some_iff.mp h
  cases h
  exact ⟨c, sym, hc, rfl, rfl⟩

theorem writeMessage_cons_eq_some (h : writeMessage p (t :: tokens) payload = some (parts, p')) :
    ∃ first p₁ rest, writeToken p t = some (first, p₁)
      ∧ writeMessage p₁ tokens payload = some (rest, p') ∧ parts = first ++ rest := by
  obtain ⟨⟨all, p₂⟩, hall, h⟩ := Option.bind_eq_some_iff.mp h
  obtain ⟨⟨first, p₁⟩, hfirst, hall⟩ := Option.bind_eq_some_iff.mp hall
  obtain ⟨⟨rest, p₃⟩, hrest, hall⟩ := Option.bind_eq_some_iff.mp hall
  cases hall
  obtain ⟨⟨c, sym⟩, hc, h⟩ := Option.bind_eq_some_iff.mp h
  cases h
  refine ⟨first, p₁, rest ++ [c], hfirst, ?_, List.append_assoc first rest [c]⟩
  exact Option.bind_eq_some_iff.mpr
    ⟨_, hrest, Option.bind_eq_some_iff.mpr ⟨_, hc, rfl⟩⟩

theorem readMessage_nil_eq_some (h : readMessage p [] parts = some (payload, p')) :
    ∃ c rest sym, parts = c :: rest ∧ p.sym.decryptAndHash c = some (payload, sym)
      ∧ p' = { p with sym := sym } := by
  obtain ⟨⟨m, sym⟩, hc, h⟩ := Option.bind_eq_some_iff.mp h
  cases h
  obtain ⟨c, hhead, hdecrypt⟩ := Option.bind_eq_some_iff.mp hc
  obtain ⟨rest, rfl⟩ := List.head?_eq_some_iff.mp hhead
  exact ⟨c, rest, sym, rfl, hdecrypt, rfl⟩

theorem readMessage_cons_eq_some {r : P.Msg × Party P}
    (h : readMessage p (t :: tokens) parts = some r) :
    ∃ parts' p', readToken p t parts = some (parts', p') ∧ readMessage p' tokens parts' = some r := by
  obtain ⟨all, hall, h⟩ := Option.bind_eq_some_iff.mp h
  obtain ⟨⟨parts', p'⟩, hfirst, hrest⟩ := Option.bind_eq_some_iff.mp hall
  exact ⟨parts', p', hfirst, Option.bind_eq_some_iff.mpr ⟨all, hrest, h⟩⟩

/-- A part for each key that is sent, and one for the payload. -/
theorem length_of_writeMessage (h : writeMessage p tokens payload = some (parts, p')) :
    parts.length = tokens.countP (fun t => t = .e ∨ t = .s) + 1 := by
  induction tokens generalizing p parts with
  | nil =>
    obtain ⟨c, sym, -, rfl, -⟩ := writeMessage_nil_eq_some h
    rfl
  | cons t tokens ih =>
    obtain ⟨first, p₁, rest, hfirst, hrest, rfl⟩ := writeMessage_cons_eq_some h
    rw [List.length_append, ih hrest]
    cases t with
    | e =>
      cases hfirst
      simp [Nat.add_comm]
    | s =>
      obtain ⟨c, sym, -, rfl, -⟩ := writeToken_s_eq_some hfirst
      simp [Nat.add_comm]
    | mix d =>
      obtain ⟨-, rfl⟩ := writeToken_mix_eq_some hfirst
      simp

theorem writeMessage_e_eq_some (h : writeMessage p (.e :: tokens) payload = some (parts, p')) :
    ∃ rest, parts = P.encode (P.pub p.e) :: rest
      ∧ rest.length = tokens.countP (fun t => t = .e ∨ t = .s) + 1 := by
  obtain ⟨first, p₁, rest, hfirst, hrest, rfl⟩ := writeMessage_cons_eq_some h
  cases hfirst
  exact ⟨rest, rfl, length_of_writeMessage hrest⟩

end Inversion

end Messages

/-! ## Agreement -/

/-- The keys that the other side knows: of the writer of a message, and of its
reader. -/
structure Known where
  we : Bool
  ws : Bool
  re : Bool
  rs : Bool
  deriving DecidableEq

/-- Both sides of an agreement are known. -/
def Known.allows (k : Known) (writer : Role) : Dh → Bool
  | .ee => k.we && k.re
  | .ss => k.ws && k.rs
  | .es =>
    match writer with
    | .initiator => k.we && k.rs
    | .responder => k.re && k.ws
  | .se =>
    match writer with
    | .initiator => k.ws && k.re
    | .responder => k.rs && k.we

/-- What is known after a token, if it may stand there. -/
def Known.afterToken (k : Known) (writer : Role) : Token → Option Known
  | .e => some { k with we := true }
  | .s => some { k with ws := true }
  | .mix d => if k.allows writer d then some k else none

def Known.afterTokens (k : Known) (writer : Role) : List Token → Option Known
  | [] => some k
  | t :: tokens => (k.afterToken writer t).bind (afterTokens · writer tokens)

section Agreement

variable {P : Primitives} {w r : Party P} {k k' : Known}

/-- The writer and the reader of a message stand at the same point. -/
structure Aligned (w r : Party P) (k : Known) : Prop where
  roles : w.role ≠ r.role
  sym : w.sym = r.sym
  reader_re : r.re = if k.we then some (P.pub w.e) else none
  reader_rs : r.rs = if k.ws then some (P.pub w.s) else none
  writer_re : w.re = if k.re then some (P.pub r.e) else none
  writer_rs : w.rs = if k.rs then some (P.pub r.s) else none

/-- The next message goes the other way. -/
def Known.flip (k : Known) : Known := ⟨k.re, k.rs, k.we, k.ws⟩

theorem Aligned.flip (h : Aligned w r k) : Aligned r w k.flip :=
  ⟨h.roles.symm, h.sym.symm, h.writer_re, h.writer_rs, h.reader_re, h.reader_rs⟩

/-- Both parties agree on the secret of a token that may stand there. -/
theorem Aligned.agree (hP : P.Lawful) (h : Aligned w r k) (hd : k.allows w.role d = true) :
    ∃ secret, w.agree d = some secret ∧ r.agree d = some secret := by
  obtain ⟨hroles, -, hre, hrs, hwe, hws⟩ := h
  cases d with
  | ee =>
    obtain ⟨h1, h2⟩ := Bool.and_eq_true_iff.mp hd
    rw [Party.agree, Party.agree, hre, hwe, if_pos h1, if_pos h2]
    exact hP.dh_comm w.e r.e
  | ss =>
    obtain ⟨h1, h2⟩ := Bool.and_eq_true_iff.mp hd
    rw [Party.agree, Party.agree, hrs, hws, if_pos h1, if_pos h2]
    exact hP.dh_comm w.s r.s
  | es =>
    cases hw : w.role <;> cases hr : r.role <;> rw [hw] at hd <;> rw [hw, hr] at hroles
    case initiator.responder =>
      obtain ⟨h1, h2⟩ := Bool.and_eq_true_iff.mp hd
      simp only [Party.agree, hw, hr, hre, hws, if_pos h1, if_pos h2]
      exact hP.dh_comm w.e r.s
    case responder.initiator =>
      obtain ⟨h1, h2⟩ := Bool.and_eq_true_iff.mp hd
      simp only [Party.agree, hw, hr, hwe, hrs, if_pos h1, if_pos h2]
      exact hP.dh_comm w.s r.e
    all_goals exact absurd rfl hroles
  | se =>
    cases hw : w.role <;> cases hr : r.role <;> rw [hw] at hd <;> rw [hw, hr] at hroles
    case initiator.responder =>
      obtain ⟨h1, h2⟩ := Bool.and_eq_true_iff.mp hd
      simp only [Party.agree, hw, hr, hrs, hwe, if_pos h1, if_pos h2]
      exact hP.dh_comm w.s r.e
    case responder.initiator =>
      obtain ⟨h1, h2⟩ := Bool.and_eq_true_iff.mp hd
      simp only [Party.agree, hw, hr, hws, hre, if_pos h1, if_pos h2]
      exact hP.dh_comm w.e r.s
    all_goals exact absurd rfl hroles

/-- A party after some messages has the keys it started with. -/
structure Party.Keeps (p p' : Party P) : Prop where
  role : p'.role = p.role
  s : p'.s = p.s
  e : p'.e = p.e

theorem readToken_writeToken (hP : P.Lawful) (h : Aligned w r k) {t : Token}
    (ht : k.afterToken w.role t = some k') :
    ∃ parts w', writeToken w t = some (parts, w') ∧ w.Keeps w' ∧
      ∀ rest, ∃ r', readToken r t (parts ++ rest) = some (rest, r') ∧ r.Keeps r' ∧
        Aligned w' r' k' := by
  cases t with
  | e =>
    cases ht
    refine ⟨_, _, rfl, ⟨rfl, rfl, rfl⟩, fun rest => ?_⟩
    refine ⟨{ r with re := some (P.pub w.e), sym := r.sym.mixHash (P.encode (P.pub w.e)) }, ?_,
      ⟨rfl, rfl, rfl⟩, ?_⟩
    · simp [readToken, hP.decode_encode]
    · exact ⟨h.roles, by simp only [h.sym], rfl, h.reader_rs, h.writer_re, h.writer_rs⟩
  | s =>
    cases ht
    obtain ⟨c, sym, hwrite, hread⟩ :=
      Symmetric.decryptAndHash_encryptAndHash hP w.sym (P.encode (P.pub w.s))
    refine ⟨[c], { w with sym := sym }, by simp [writeToken, hwrite], ⟨rfl, rfl, rfl⟩,
      fun rest => ?_⟩
    refine ⟨{ r with rs := some (P.pub w.s), sym := sym }, ?_, ⟨rfl, rfl, rfl⟩, ?_⟩
    · simp [readToken, ← h.sym, hread, hP.decode_encode]
    · exact ⟨h.roles, rfl, h.reader_re, rfl, h.writer_re, h.writer_rs⟩
  | mix d =>
    rw [Known.afterToken] at ht
    split at ht
    · rename_i hd
      cases ht
      obtain ⟨secret, hw, hr⟩ := h.agree hP hd
      obtain ⟨sym, hsym⟩ := Symmetric.mixKey_isSome hP w.sym secret
      refine ⟨[], { w with sym := sym }, by simp [writeToken, Party.mix, hw, hsym], ⟨rfl, rfl, rfl⟩,
        fun rest => ⟨{ r with sym := sym }, ?_, ⟨rfl, rfl, rfl⟩, ?_⟩⟩
      · simp [readToken, Party.mix, hr, ← h.sym, hsym]
      · exact ⟨h.roles, rfl, h.reader_re, h.reader_rs, h.writer_re, h.writer_rs⟩
    · cases ht

theorem Party.Keeps.trans {p p' p'' : Party P} (h : p.Keeps p') (h' : p'.Keeps p'') : p.Keeps p'' :=
  ⟨h'.role.trans h.role, h'.s.trans h.s, h'.e.trans h.e⟩

theorem readTokens_writeTokens (hP : P.Lawful) (h : Aligned w r k) {tokens : List Token}
    (ht : k.afterTokens w.role tokens = some k') :
    ∃ parts w', writeTokens w tokens = some (parts, w') ∧ w.Keeps w' ∧
      ∀ rest, ∃ r', readTokens r tokens (parts ++ rest) = some (rest, r') ∧ r.Keeps r' ∧
        Aligned w' r' k' := by
  induction tokens generalizing w r k with
  | nil =>
    cases ht
    exact ⟨[], w, rfl, ⟨rfl, rfl, rfl⟩, fun rest => ⟨r, rfl, ⟨rfl, rfl, rfl⟩, h⟩⟩
  | cons t tokens ih =>
    obtain ⟨k₁, hk₁, ht⟩ := Option.bind_eq_some_iff.mp ht
    obtain ⟨first, w₁, hwrite, hw₁, hread⟩ := readToken_writeToken hP h hk₁
    -- the parts of the later tokens do not depend on the reader
    obtain ⟨r₀, -, hr₀, halign₀⟩ := hread []
    rw [← hw₁.role] at ht
    obtain ⟨parts, w', hwrites, hw', -⟩ := ih halign₀ ht
    refine ⟨first ++ parts, w', by simp [writeTokens, hwrite, hwrites], hw₁.trans hw', fun rest => ?_⟩
    obtain ⟨r₁, hread₁, hr₁, halign₁⟩ := hread (parts ++ rest)
    obtain ⟨parts', w'', hwrites', -, hreads⟩ := ih halign₁ ht
    obtain ⟨rfl, rfl⟩ := Prod.mk.inj (Option.some.inj (hwrites.symm.trans hwrites'))
    obtain ⟨r', hreads', hr', halign'⟩ := hreads rest
    refine ⟨r', ?_, hr₁.trans hr', halign'⟩
    simp [readTokens, hread₁, hreads']

/-- A message is read as it was written, and the parties stay aligned. -/
theorem readMessage_writeMessage (hP : P.Lawful) (h : Aligned w r k) {tokens : List Token}
    (ht : k.afterTokens w.role tokens = some k') (payload : P.Msg) :
    ∃ parts w' r', writeMessage w tokens payload = some (parts, w')
      ∧ readMessage r tokens parts = some (payload, r')
      ∧ w.Keeps w' ∧ r.Keeps r' ∧ Aligned w' r' k' := by
  obtain ⟨parts, w₁, hwrites, hw₁, hreads⟩ := readTokens_writeTokens hP h ht
  obtain ⟨c, sym, hwrite, hread⟩ := Symmetric.decryptAndHash_encryptAndHash hP w₁.sym payload
  obtain ⟨r₁, hreads₁, hr₁, halign⟩ := hreads [c]
  refine ⟨parts ++ [c], { w₁ with sym := sym }, { r₁ with sym := sym }, ?_, ?_,
    ⟨hw₁.role, hw₁.s, hw₁.e⟩, ⟨hr₁.role, hr₁.s, hr₁.e⟩, ?_⟩
  · simp [writeMessage, hwrites, hwrite]
  · simp [readMessage, hreads₁, ← halign.sym, hread]
  · exact ⟨halign.roles, rfl, halign.reader_re, halign.reader_rs, halign.writer_re, halign.writer_rs⟩

end Agreement

end WaCore.Pattern
