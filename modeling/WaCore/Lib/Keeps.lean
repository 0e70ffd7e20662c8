import WaCore.Lib.Effect

/-!
# What a program leaves alone

`Keeps P m` says that the program `m` does not leave the states with `P`, whether
it ends in a value or in an error.  It is a `Meets` with one condition at all
three places, and has a rule for each way to build a program.
-/

namespace WaCore.Eff

variable {σ ε α β : Type} {P : σ → Prop} {m : Eff σ ε α} {f : α → Eff σ ε β}

/-- The program keeps `P`, also when it fails. -/
def Keeps (P : σ → Prop) (m : Eff σ ε α) : Prop := ∀ s, P s → P (exec m s).2

theorem keeps_iff : Keeps P m ↔ Meets m P (fun _ => P) fun _ => P := by
  refine ⟨fun h s hs => ?_, fun h s hs => h.exec_snd hs⟩
  have hm := h s hs
  generalize exec m s = r at hm ⊢
  rcases r with ⟨e | a, s'⟩ <;> exact hm

theorem keeps_pure (a : α) : Keeps P (pure a : Eff σ ε α) := fun _ h => h

theorem keeps_throw (e : ε) : Keeps P (throw e : Eff σ ε α) := fun _ h => h

theorem keeps_ofExcept (r : Except ε α) : Keeps P (ofExcept r : Eff σ ε α) := fun _ h => h

theorem Keeps.bind (hm : Keeps P m) (hf : ∀ a, Keeps P (f a)) : Keeps P (m >>= f) :=
  keeps_iff.mpr ((keeps_iff.mp hm).bind fun a => keeps_iff.mp (hf a))

/-- What follows a read may use that it has read the state. -/
theorem keeps_get_bind {f : σ → Eff σ ε β} (hf : ∀ s, P s → P (exec (f s) s).2) :
    Keeps P (get >>= f) := fun s hs => hf s hs

/-- A result is used from the state it was computed in. -/
theorem snd_ofExcept_bind {r : Except ε α} {s : σ} (hs : P s)
    (hf : ∀ a, r = .ok a → P (exec (f a) s).2) : P (exec (ofExcept r >>= f) s).2 := by
  cases r with
  | error e => exact hs
  | ok a => exact hf a rfl

/-- What follows a read depends on the state that was read. -/
theorem meets_get_bind {f : σ → Eff σ ε β} {Q : β → σ → Prop} {E : ε → σ → Prop}
    (hf : ∀ s, P s → Meets (f s) P Q E) : Meets (get >>= f) P Q E := fun s hs => hf s hs s hs

/-- A program that is undone when it fails. -/
theorem Meets.onFailure {Q : α → σ → Prop} {E E' : ε → σ → Prop} {g : σ → σ} (hm : Meets m P Q E)
    (hE : ∀ e s, E e s → E' e (g s)) : Meets (Eff.onFailure g m) P Q E' := by
  intro s hs
  have hm := hm s hs
  rw [exec_onFailure]
  generalize exec m s = r at hm ⊢
  rcases r with ⟨e | a, s'⟩
  · exact hE e s' hm
  · exact hm

/-- A program that keeps `P` as one with a pre- and a postcondition. -/
theorem Keeps.meets {E : ε → σ → Prop} (h : Keeps P m) (hE : ∀ e s, P s → E e s) :
    Meets m P (fun _ => P) E :=
  (keeps_iff.mp h).mono (fun _ hs => hs) (fun _ _ hs => hs) hE

/-! ## What a program does not look at -/

section Carries

variable {g : σ → σ} {s : σ} {m' : Eff σ ε α} {f' : α → Eff σ ε β}

/-- From the state that `g` changes, `m` does what `m'` does from the state itself,
and the change is still there afterwards. -/
def Carries (g : σ → σ) (s : σ) (m m' : Eff σ ε α) : Prop :=
  exec m (g s) = ((exec m' s).1, g (exec m' s).2)

theorem Carries.exec_eq {r : Except ε α} {s' : σ} (hm : Carries g s m m') (h : exec m' s = (r, s')) :
    exec m (g s) = (r, g s') := by
  rw [Carries, h] at hm
  exact hm

theorem carries_pure (a : α) : Carries g s (pure a : Eff σ ε α) (pure a) := rfl

theorem carries_throw (e : ε) : Carries g s (throw e : Eff σ ε α) (throw e) := rfl

theorem carries_ofExcept (r : Except ε α) : Carries g s (ofExcept r) (ofExcept r) := rfl

theorem Carries.bind (hm : Carries g s m m')
    (hf : ∀ a s', exec m' s = (.ok a, s') → Carries g s' (f a) (f' a)) :
    Carries g s (m >>= f) (m' >>= f') := by
  rw [Carries] at hm ⊢
  rw [exec_bind, exec_bind, hm]
  cases hexec : exec m' s with
  | mk r s' =>
    cases r with
    | ok a => exact hf a s' hexec
    | error e => rfl

theorem carries_get_bind {f f' : σ → Eff σ ε β} (hf : Carries g s (f (g s)) (f' s)) :
    Carries g s (get >>= f) (get >>= f') := hf

theorem carries_set_bind {t t' : σ} {f f' : PUnit → Eff σ ε β} (ht : t = g t')
    (hf : Carries g t' (f ()) (f' ())) : Carries g s (set t >>= f) (set t' >>= f') := by
  subst ht
  exact hf

theorem carries_ofExcept_bind {r : Except ε α} (hf : ∀ a, r = .ok a → Carries g s (f a) (f' a)) :
    Carries g s (ofExcept r >>= f) (ofExcept r >>= f') := by
  refine (carries_ofExcept r).bind fun a s' h => ?_
  obtain ⟨hr, rfl⟩ := Prod.mk.inj h
  exact hf a hr

end Carries

end WaCore.Eff
