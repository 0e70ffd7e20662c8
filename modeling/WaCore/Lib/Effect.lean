import Mathlib.Control.Monad.Basic
import Mathlib.Data.List.Forall2

/-!
# Programs with state and errors

A program over a state `σ` that may stop with an error `ε`.  Unlike a plain
`Except` over a state, what the program did to the state before it failed is
not undone: this is the semantics of a Rust method on `&mut self`, or of one
that writes to a database, when it returns early with `?`.

`Meets m P Q E` is the pre- and postcondition of a program: from a state with
`P` it ends in a value and a state with `Q`, or in an error and a state with
`E`.  There is one rule for each way to build a program.
-/

namespace WaCore

/-- A program over the state `σ` with errors `ε`. -/
abbrev Eff (σ ε : Type) := ExceptT ε (StateM σ)

namespace Eff

variable {σ ε α β : Type}

/-- Run a program from a state: the result, and the state it leaves in either
case. -/
def exec (m : Eff σ ε α) (s : σ) : Except ε α × σ := m.run s

@[simp] theorem exec_pure (a : α) (s : σ) : exec (pure a : Eff σ ε α) s = (.ok a, s) := rfl

@[simp] theorem exec_throw (e : ε) (s : σ) :
    exec (throw e : Eff σ ε α) s = (.error e, s) := rfl

@[simp] theorem exec_get (s : σ) : exec (get : Eff σ ε σ) s = (.ok s, s) := rfl

@[simp] theorem exec_set (s s' : σ) : exec (set s' : Eff σ ε PUnit) s = (.ok (), s') := rfl

@[simp] theorem exec_modify (f : σ → σ) (s : σ) :
    exec (modify f : Eff σ ε PUnit) s = (.ok (), f s) := rfl

theorem exec_bind (m : Eff σ ε α) (f : α → Eff σ ε β) (s : σ) :
    exec (m >>= f) s = match exec m s with
      | (.ok a, s') => exec (f a) s'
      | (.error e, s') => (.error e, s') := by
  change (StateT.bind m (ExceptT.bindCont f)) s = _
  unfold StateT.bind exec
  simp only [ExceptT.run]
  rcases m s with ⟨r, s'⟩
  cases r <;> rfl

variable {m : Eff σ ε α} {f : α → Eff σ ε β} {s s' : σ} {a : α}

theorem exec_bind_ok (h : exec m s = (.ok a, s')) : exec (m >>= f) s = exec (f a) s' := by
  rw [exec_bind, h]

theorem exec_bind_error {e : ε} (h : exec m s = (.error e, s')) : exec (m >>= f) s = (.error e, s') := by
  rw [exec_bind, h]

theorem exec_bind_eq_ok {s s'' : σ} {b : β} :
    exec (m >>= f) s = (.ok b, s'')
      ↔ ∃ a s', exec m s = (.ok a, s') ∧ exec (f a) s' = (.ok b, s'') := by
  rw [exec_bind]
  match exec m s with
  | (.ok a, s') => simp [and_assoc]
  | (.error e, s') => simp

theorem exec_bind_pure_snd (m : Eff σ ε α) (b : β) (s : σ) :
    (exec (m >>= fun _ => pure b) s).2 = (exec m s).2 := by
  rw [exec_bind]
  match exec m s with
  | (.ok a, s') => rfl
  | (.error e, s') => rfl

theorem exec_map (f : α → β) (m : Eff σ ε α) (s : σ) :
    exec (f <$> m) s = ((exec m s).1.map f, (exec m s).2) := by
  rw [map_eq_pure_bind, exec_bind]
  match exec m s with
  | (.ok a, s') => rfl
  | (.error e, s') => rfl

/-- A result as a program that leaves the state alone. -/
def ofExcept (r : Except ε α) : Eff σ ε α := ExceptT.mk (pure r)

@[simp] theorem exec_ofExcept (r : Except ε α) (s : σ) : exec (ofExcept r) s = (r, s) := rfl

/-- Run a program and hand its result over as a value, error or not. -/
def attempt (m : Eff σ ε α) : Eff σ ε (Except ε α) := ExceptT.mk fun s =>
  match exec m s with
  | (r, s') => (.ok r, s')

theorem exec_attempt (m : Eff σ ε α) (s : σ) :
    exec (attempt m) s = (.ok (exec m s).1, (exec m s).2) := rfl

/-- Run a program and, if it fails, undo with `f` what it did. -/
def onFailure (f : σ → σ) (m : Eff σ ε α) : Eff σ ε α := ExceptT.mk fun s =>
  match exec m s with
  | (.ok a, s') => (.ok a, s')
  | (.error e, s') => (.error e, f s')

theorem exec_onFailure (f : σ → σ) (m : Eff σ ε α) (s : σ) :
    exec (onFailure f m) s = match exec m s with
      | (.ok a, s') => (.ok a, s')
      | (.error e, s') => (.error e, f s') := rfl

theorem exec_onFailure_ok {f : σ → σ} :
    exec (onFailure f m) s = (.ok a, s') ↔ exec m s = (.ok a, s') := by
  rw [exec_onFailure]
  match exec m s with
  | (.ok b, s'') => exact Iff.rfl
  | (.error e, s'') => simp

/-! ## Pre- and postconditions -/

/-- From a state with `P` the program ends in a value and a state with `Q`, or
in an error and a state with `E`. -/
def Meets (m : Eff σ ε α) (P : σ → Prop) (Q : α → σ → Prop) (E : ε → σ → Prop) : Prop :=
  ∀ s, P s → match exec m s with
    | (.ok a, s') => Q a s'
    | (.error e, s') => E e s'

section Rules

variable {m : Eff σ ε α} {f : α → Eff σ ε β} {P P' : σ → Prop} {Q Q' : α → σ → Prop}
  {R : β → σ → Prop} {E E' : ε → σ → Prop}

theorem meets_ofExcept (r : Except ε α) (P : σ → Prop) :
    Meets (ofExcept r) P (fun a s => r = .ok a ∧ P s) (fun _ s => P s) := by
  intro s hP
  cases r with
  | ok a => exact ⟨rfl, hP⟩
  | error e => exact hP

theorem Meets.bind (hm : Meets m P Q E) (hf : ∀ a, Meets (f a) (Q a) R E) :
    Meets (m >>= f) P R E := by
  intro s hP
  have h := hm s hP
  rw [exec_bind]
  generalize exec m s = r at h ⊢
  rcases r with ⟨e | a, s'⟩
  · exact h
  · exact hf a s' h

/-- The same when the first program also establishes a fact about its value. -/
theorem Meets.bind_and {q : α → Prop} (hm : Meets m P (fun a s => q a ∧ Q a s) E)
    (hf : ∀ a, q a → Meets (f a) (Q a) R E) : Meets (m >>= f) P R E :=
  hm.bind fun a s hs => hf a hs.1 s hs.2

theorem meets_ofExcept_bind {r : Except ε α} (hf : ∀ a, r = .ok a → Meets (f a) P R fun _ => P) :
    Meets (ofExcept r >>= f) P R fun _ => P :=
  (meets_ofExcept r P).bind_and hf

theorem meets_attempt (hm : Meets m P Q E) (F : ε → σ → Prop) :
    Meets (attempt m) P (fun r s => match r with | .ok a => Q a s | .error e => E e s) F := by
  intro s hP
  have h := hm s hP
  rw [exec_attempt]
  generalize exec m s = r at h ⊢
  rcases r with ⟨e | a, s'⟩ <;> exact h

theorem Meets.mono (hm : Meets m P Q E) (hP : ∀ s, P' s → P s)
    (hQ : ∀ a s, Q a s → Q' a s) (hE : ∀ e s, E e s → E' e s) : Meets m P' Q' E' := by
  intro s h
  have hmeets := hm s (hP s h)
  generalize exec m s = r at hmeets ⊢
  rcases r with ⟨e | a, s'⟩
  · exact hE e s' hmeets
  · exact hQ a s' hmeets

theorem Meets.of_ok (hm : Meets m P Q E) (h : exec m s = (.ok a, s')) (hs : P s) : Q a s' := by
  simpa [h] using hm s hs

theorem Meets.of_error {e : ε} (hm : Meets m P Q E) (h : exec m s = (.error e, s')) (hs : P s) :
    E e s' := by
  simpa [h] using hm s hs

/-- A state condition that holds of both ends holds of the state that is left. -/
theorem Meets.exec_snd {S : σ → Prop} (hm : Meets m P (fun _ => S) (fun _ => S)) {s : σ}
    (hs : P s) : S (exec m s).2 := by
  have hmeets := hm s hs
  generalize exec m s = r at hmeets ⊢
  rcases r with ⟨e | a, s'⟩ <;> exact hmeets

end Rules

end Eff

/-! ## Results

Small programs that only fail: what a success says about their steps. -/

section Results

variable {ε α β : Type}

/-- `Option::ok_or`. -/
def okOr (o : Option α) (e : ε) : Except ε α := o.elim (.error e) .ok

/-- Fail with `e` unless a check passes. -/
def ensure (check : Bool) (e : ε) : Except ε Unit := if check then .ok () else .error e

@[simp] theorem okOr_some (a : α) (e : ε) : okOr (some a) e = .ok a := rfl

@[simp] theorem okOr_none (e : ε) : okOr (none : Option α) e = .error e := rfl

@[simp] theorem ensure_true (e : ε) : ensure true e = .ok () := rfl

@[simp] theorem ensure_false (e : ε) : ensure false e = .error e := rfl

theorem okOr_eq_ok {o : Option α} {e : ε} : okOr o e = .ok a ↔ o = some a := by
  cases o <;> simp

theorem ensure_eq_ok {check : Bool} {e : ε} {u : Unit} : ensure check e = .ok u ↔ check = true := by
  cases check <;> simp

variable {x : Except ε α} {f : α → Except ε β} {l : List α}

theorem toOption_eq_some : x.toOption = some a ↔ x = .ok a := by
  cases x <;> simp [Except.toOption]

theorem mapError_eq_ok {ε' : Type*} {f : ε → ε'} :
    x.mapError f = .ok a ↔ x = .ok a := by
  cases x <;> simp [Except.mapError]

theorem bind_eq_ok {b : β} :
    (x >>= f) = .ok b ↔ ∃ a, x = .ok a ∧ f a = .ok b := by
  cases x with
  | error e => simp [bind, Except.bind]
  | ok a => simp [bind, Except.bind]

@[simp] theorem ok_bind (a : α) (f : α → Except ε β) : (Except.ok a >>= f) = f a := rfl

@[simp] theorem error_bind (e : ε) (f : α → Except ε β) : (Except.error e >>= f) = .error e := rfl

theorem forM_eq_ok {f : α → Except ε PUnit} :
    l.forM f = .ok () ↔ ∀ a ∈ l, f a = .ok () := by
  induction l with
  | nil => exact ⟨fun _ => nofun, fun _ => rfl⟩
  | cons a l ih =>
    rw [List.forall_mem_cons, ← ih]
    refine bind_eq_ok.trans ⟨?_, fun h => ⟨(), h⟩⟩
    rintro ⟨_, h⟩
    exact h

/-- A loop that succeeds gives each element its result. -/
theorem mapM_eq_ok {l' : List β} :
    l.mapM f = .ok l' ↔ List.Forall₂ (fun a b => f a = .ok b) l l' := by
  induction l generalizing l' with
  | nil =>
    rw [List.forall₂_nil_left_iff]
    exact ⟨fun h => (Except.ok.inj h).symm, fun h => congrArg Except.ok h.symm⟩
  | cons a l ih =>
    rw [List.mapM_cons, List.forall₂_cons_left_iff, bind_eq_ok]
    constructor
    · rintro ⟨b, hb, h⟩
      obtain ⟨bs, hbs, h⟩ := bind_eq_ok.mp h
      cases h
      exact ⟨b, bs, hb, ih.mp hbs, rfl⟩
    · rintro ⟨b, bs, hb, hbs, rfl⟩
      exact ⟨b, hb, by rw [ih.mpr hbs]; rfl⟩

/-- A loop that succeeds on every element, in any monad. -/
theorem exists_mapM {m : Type → Type} [Monad m] [LawfulMonad m] {f : α → m β} {P : β → Prop}
    (h : ∀ a ∈ l, ∃ b, f a = pure b ∧ P b) :
    ∃ l', l.mapM f = pure l' ∧ ∀ b ∈ l', P b := by
  induction l with
  | nil => exact ⟨[], List.mapM_nil, nofun⟩
  | cons a l ih =>
    rw [List.forall_mem_cons] at h
    obtain ⟨⟨b, hb, hP⟩, hl⟩ := h
    obtain ⟨l', hl', hall⟩ := ih hl
    refine ⟨b :: l', ?_, List.forall_mem_cons.mpr ⟨hP, hall⟩⟩
    rw [List.mapM_cons, hb, hl', pure_bind, pure_bind]

/-- A conversion of a list is undone by one that undoes it on the elements. -/
theorem mapM_inverse {g : β → Except ε α} {l' : List β} (h : l.mapM f = .ok l')
    (hinverse : ∀ a ∈ l, ∀ b, f a = .ok b → g b = .ok a) :
    l'.mapM g = .ok l := by
  rw [mapM_eq_ok] at h ⊢
  induction h with
  | nil => exact .nil
  | @cons a b l l' hb _ ih =>
    rw [List.forall_mem_cons] at hinverse
    exact .cons (hinverse.1 b hb) (ih hinverse.2)

end Results

end WaCore
