import Mathlib.Control.Monad.Basic

/-!
# Parsers over a list of symbols

A parser takes the symbols that are left and either fails or returns a value
with the symbols it did not use.  The library has five parts:

* `Reads p input r` says what a parser does on a given beginning of its input,
  whatever follows: it uses exactly `input` and returns a value, or it fails.
  Round trips are proved with it, one rule for each way to build a parser.
* `Extends out p q` orders two parsers that may give up with the error `out`
  (a resource ran out): `q` does what `p` does, except where `p` gave up.
* `Bounded out n c p` says that on at most `n` symbols `p` does not give up,
  and uses at least `c` symbols when it succeeds.
* `Streams more p` is for parsers that are run on a beginning of their input:
  a result on it stands, and so does any error other than `more`.
* `Congruent R` is a relation that sequencing keeps, with what follows for the
  other ways to build a parser.

`ample p` is the run of a parser that has as much of its resource as it needs.
-/

namespace WaCore

/-- A parser over symbols `τ` with errors `ε`. -/
abbrev ListParser (τ ε : Type) := StateT (List τ) (Except ε)

namespace ListParser

variable {τ ε α β : Type}

/-- Run `p` a fixed number of times and collect the results. -/
def times (p : ListParser τ ε α) : Nat → ListParser τ ε (List α)
  | 0 => pure []
  | n + 1 => do
    let a ← p
    let as ← times p n
    pure (a :: as)

/-- Run `p` a fixed number of times. -/
def repeated (p : ListParser τ ε Unit) : Nat → ListParser τ ε Unit
  | 0 => pure ()
  | n + 1 => do
    p
    repeated p n

/-- Run `p` and drop its result. -/
def dropped (p : ListParser τ ε α) : ListParser τ ε Unit := do
  let _ ← p
  pure ()

theorem pure_apply (a : α) (input : List τ) :
    (pure a : ListParser τ ε α) input = .ok (a, input) := rfl

theorem throw_apply (e : ε) (input : List τ) :
    (throw e : ListParser τ ε α) input = .error e := rfl

theorem bind_apply (p : ListParser τ ε α) (f : α → ListParser τ ε β) (input : List τ) :
    (p >>= f) input = match p input with
      | .ok (a, rest) => f a rest
      | .error e => .error e := by
  change (p input >>= fun x => f x.1 x.2) = _
  cases p input <;> rfl

variable {p : ListParser τ ε α} {f : α → ListParser τ ε β} {input rest : List τ}

theorem bind_apply_eq_ok {b : β} :
    (p >>= f) input = .ok (b, rest)
      ↔ ∃ a between, p input = .ok (a, between) ∧ f a between = .ok (b, rest) := by
  rw [bind_apply]
  match p input with
  | .ok (a, between) =>
    constructor
    · exact fun h => ⟨a, between, rfl, h⟩
    · rintro ⟨a', between', heq, h⟩
      cases heq
      exact h
  | .error e =>
    constructor
    · exact fun h => nomatch h
    · rintro ⟨a, between, heq, -⟩
      cases heq

theorem bind_ok {a : α} (h : p input = .ok (a, rest)) : (p >>= f) input = f a rest := by
  rw [bind_apply, h]

theorem bind_error {input : List τ} {e : ε} (h : p input = .error e) : (p >>= f) input = .error e := by
  rw [bind_apply, h]

theorem map_error {f : α → β} {input : List τ} {e : ε} (h : p input = .error e) :
    (f <$> p) input = .error e := by
  rw [map_eq_pure_bind]
  exact bind_error h

theorem dropped_bind (p : ListParser τ ε α) (f : α → ListParser τ ε β) :
    dropped (p >>= f) = p >>= fun a => dropped (f a) := by
  simp only [dropped, bind_assoc]

theorem dropped_pure (a : α) : dropped (pure a : ListParser τ ε α) = pure () := by
  simp only [dropped, pure_bind]

theorem dropped_map (f : α → β) (p : ListParser τ ε α) : dropped (f <$> p) = dropped p := by
  simp only [dropped, map_eq_pure_bind, bind_assoc, pure_bind]

/-- Dropping the collected results is dropping each of them. -/
theorem dropped_times (p : ListParser τ ε α) (n : Nat) :
    dropped (times p n) = repeated (dropped p) n := by
  induction n with
  | zero => rfl
  | succ n ih =>
    rw [times, repeated, ← ih]
    simp only [dropped, bind_assoc, pure_bind]

/-! ## What a parser does on a beginning of its input -/

/-- On `input`, whatever follows it, `p` returns the value and leaves what
follows, or, for `none`, fails. -/
def Reads (p : ListParser τ ε α) (input : List τ) : Option α → Prop
  | some a => ∀ rest, p (input ++ rest) = .ok (a, rest)
  | none => ∀ rest, ∃ e, p (input ++ rest) = .error e

section Reads

variable {p : ListParser τ ε α} {f : α → ListParser τ ε β} {input input' : List τ}

theorem reads_pure (a : α) : Reads (pure a : ListParser τ ε α) [] (some a) := fun _ => rfl

theorem reads_throw (e : ε) : Reads (throw e : ListParser τ ε α) [] none := fun _ => ⟨e, rfl⟩

theorem Reads.bind {a : α} {r : Option β} (hp : Reads p input (some a))
    (hf : Reads (f a) input' r) : Reads (p >>= f) (input ++ input') r := by
  have hrun (rest) : (p >>= f) (input ++ input' ++ rest) = f a (input' ++ rest) := by
    rw [List.append_assoc, bind_apply, hp]
  cases r with
  | some b => intro rest; rw [hrun]; exact hf rest
  | none => intro rest; rw [hrun]; exact hf rest

/-- Once a parser fails, nothing after it matters. -/
theorem Reads.bind_none (hp : Reads p input none) :
    Reads (p >>= f) (input ++ input') none := by
  intro rest
  obtain ⟨e, he⟩ := hp (input' ++ rest)
  exact ⟨e, by rw [List.append_assoc, bind_apply, he]⟩

/-- What comes after a parser and reads nothing. -/
theorem Reads.post {r : Option α} {g : α → Option β} (hp : Reads p input r)
    (hf : ∀ a, r = some a → Reads (f a) [] (g a)) : Reads (p >>= f) input (r.bind g) := by
  rw [← List.append_nil input]
  cases r with
  | some a => exact hp.bind (hf a rfl)
  | none => exact hp.bind_none

theorem Reads.map {r : Option α} (g : α → β) (hp : Reads p input r) :
    Reads (g <$> p) input (r.map g) := by
  rw [Option.map_eq_bind]
  exact hp.post fun a _ => reads_pure (g a)

end Reads

/-! ## Relations that sequencing keeps -/

structure Congruent (R : {α : Type} → ListParser τ ε α → ListParser τ ε α → Prop) : Prop where
  pure {α : Type} (a : α) : R (pure a) (pure a)
  bind {α β : Type} {p q : ListParser τ ε α} {f g : α → ListParser τ ε β} (hp : R p q)
    (hf : ∀ a, R (f a) (g a)) : R (p >>= f) (q >>= g)

namespace Congruent

variable {R : {α : Type} → ListParser τ ε α → ListParser τ ε α → Prop} (hR : Congruent R)
  {p q : ListParser τ ε α}
include hR

theorem map (k : α → β) (hp : R p q) : R (k <$> p) (k <$> q) := by
  exact hR.bind hp fun _ => hR.pure _

theorem times (hp : R p q) (n : Nat) : R (ListParser.times p n) (ListParser.times q n) := by
  induction n with
  | zero => exact hR.pure _
  | succ n ih => exact hR.bind hp fun _ => hR.bind ih fun _ => hR.pure _

theorem repeated {p q : ListParser τ ε Unit} (hp : R p q) (n : Nat) :
    R (ListParser.repeated p n) (ListParser.repeated q n) := by
  induction n with
  | zero => exact hR.pure _
  | succ n ih => exact hR.bind hp fun _ => ih

end Congruent

/-! ## Parsers that may give up -/

section Resource

variable (out : ε)

/-- `q` does what `p` does, except where `p` gave up with `out`. -/
def Extends (p q : ListParser τ ε α) : Prop := ∀ input, p input = .error out ∨ p input = q input

/-- On at most `n` symbols `p` does not give up, and a success uses at least
`c` symbols. -/
def Bounded (n c : Nat) (p : ListParser τ ε α) : Prop :=
  ∀ input, input.length ≤ n →
    p input ≠ .error out ∧ ∀ a rest, p input = .ok (a, rest) → rest.length + c ≤ input.length

variable {out} {p q : ListParser τ ε α} {f g : α → ListParser τ ε β}

theorem Extends.refl (p : ListParser τ ε α) : Extends out p p := fun _ => .inr rfl

theorem extends_throw (p : ListParser τ ε α) : Extends out (throw out) p := fun _ => .inl rfl

theorem Extends.trans {r : ListParser τ ε α} (hpq : Extends out p q) (hqr : Extends out q r) :
    Extends out p r := by
  intro input
  rcases hpq input with h | h
  · exact .inl h
  · rw [h]; exact hqr input

theorem Extends.bind (hp : Extends out p q) (hf : ∀ a, Extends out (f a) (g a)) :
    Extends out (p >>= f) (q >>= g) := by
  intro input
  simp only [bind_apply]
  rcases hp input with h | h
  · exact .inl (by rw [h])
  · rw [h]
    match q input with
    | .ok (a, rest) => exact hf a rest
    | .error e => exact .inr rfl

theorem bounded_pure (n : Nat) (a : α) : Bounded out n 0 (pure a : ListParser τ ε α) := by
  intro input hn
  refine ⟨by simp [pure_apply], ?_⟩
  intro b rest h
  cases h
  exact Nat.le_refl _

theorem bounded_throw {e : ε} (n c : Nat) (he : e ≠ out) :
    Bounded out n c (throw e : ListParser τ ε α) := by
  intro input _
  exact ⟨fun h => he (by simpa [throw_apply] using h), fun a rest h => by simp [throw_apply] at h⟩

theorem Bounded.mono {n n' c c' : Nat} (hp : Bounded out n c p) (hn : n' ≤ n) (hc : c' ≤ c) :
    Bounded out n' c' p := by
  intro input hlen
  obtain ⟨hout, hrest⟩ := hp input (Nat.le_trans hlen hn)
  refine ⟨hout, fun a rest h => ?_⟩
  have := hrest a rest h
  omega

/-- Symbols the first parser used are not there for the second. -/
theorem Bounded.bind {n c k : Nat} (hp : Bounded out n c p)
    (hf : ∀ m, n = m + c → ∀ a, Bounded out m k (f a)) : Bounded out n (c + k) (p >>= f) := by
  intro input hn
  obtain ⟨hout, hrest⟩ := hp input hn
  simp only [bind_apply]
  match h : p input with
  | .ok (a, rest) =>
    have hused := hrest a rest h
    obtain ⟨hout', hrest'⟩ := hf (n - c) (by omega) a rest (by omega)
    refine ⟨hout', fun b rest' h' => ?_⟩
    have := hrest' b rest' h'
    omega
  | .error e =>
    refine ⟨fun he => hout ?_, fun a rest hok => by simp at hok⟩
    rw [h]
    simpa using he

/-- The rule for parsers whose use of symbols does not matter. -/
theorem Bounded.bind_zero {n : Nat} (hp : Bounded out n 0 p) (hf : ∀ a, Bounded out n 0 (f a)) :
    Bounded out n 0 (p >>= f) :=
  hp.bind fun _ hm a => (hf a).mono (by omega) (Nat.le_refl 0)

theorem Bounded.map {n c : Nat} (k : α → β) (hp : Bounded out n c p) :
    Bounded out n c (k <$> p) := by
  exact hp.bind fun _ _ _ => bounded_pure _ _

/-! ### Enough of the resource -/

/-- The run of `p` with the amount of the resource that `need` gives for the
length of its input. -/
def ample (need : Nat → Nat) (p : Nat → ListParser τ ε α) : ListParser τ ε α :=
  fun input => p (need input.length) input

variable {need : Nat → Nat} {r : Nat → ListParser τ ε α}

theorem extends_of_le (hmono : ∀ s, Extends out (r s) (r (s + 1))) {s t : Nat} (h : s ≤ t) :
    Extends out (r s) (r t) := by
  induction h with
  | refl => exact .refl _
  | step _ ih => exact ih.trans (hmono _)

/-- With any amount of the resource, a parser does what the ample run does
unless it gives up. -/
theorem extends_ample (hmono : ∀ s, Extends out (r s) (r (s + 1)))
    (hneed : ∀ n, Bounded out n 0 (r (need n))) (s : Nat) :
    Extends out (r s) (ample need r) := by
  intro input
  have hample := (hneed input.length input (Nat.le_refl _)).1
  rcases Nat.le_total s (need input.length) with h | h
  · exact extends_of_le hmono h input
  · have := (extends_of_le hmono h input).resolve_left hample
    exact .inr this.symm

/-- A parser that extends every run is the ample run. -/
theorem ample_eq (hneed : ∀ n, Bounded out n 0 (r (need n)))
    (h : ∀ n, Extends out (r (need n)) q) : ample need r = q := by
  funext input
  exact (h input.length input).resolve_left (hneed input.length input (Nat.le_refl _)).1

end Resource

theorem length_of_times_eq_ok {n : Nat} {as : List α} (h : times p n input = .ok (as, rest)) :
    as.length = n := by
  induction n generalizing input as with
  | zero =>
    cases h
    rfl
  | succ n ih =>
    obtain ⟨a, between, -, h⟩ := bind_apply_eq_ok.mp h
    obtain ⟨as', between', has, h⟩ := bind_apply_eq_ok.mp h
    cases h
    rw [List.length_cons, ih has]

/-! ## Parsers on a beginning of their input -/

/-- A success uses a beginning of the input and stands when more follows, and so
does every failure but `more`. -/
def Streams (more : ε) (p : ListParser τ ε α) : Prop :=
  ∀ input, match p input with
    | .ok (a, rest) => (∃ used, input = used ++ rest)
        ∧ ∀ extra, p (input ++ extra) = .ok (a, rest ++ extra)
    | .error e => e = more ∨ ∀ extra, p (input ++ extra) = .error e

section Streams

variable {more : ε} {p : ListParser τ ε α} {f : α → ListParser τ ε β}

theorem Streams.ok (hp : Streams more p) {a : α} (h : p input = .ok (a, rest)) :
    (∃ used, input = used ++ rest) ∧ ∀ extra, p (input ++ extra) = .ok (a, rest ++ extra) := by
  have hinput := hp input
  rwa [h] at hinput

theorem Streams.error (hp : Streams more p) {input : List τ} {e : ε} (h : p input = .error e) :
    e = more ∨ ∀ extra, p (input ++ extra) = .error e := by
  have hinput := hp input
  rwa [h] at hinput

theorem streams_pure (a : α) : Streams more (pure a : ListParser τ ε α) :=
  fun _ => ⟨⟨[], rfl⟩, fun _ => rfl⟩

theorem streams_throw (e : ε) : Streams more (throw e : ListParser τ ε α) :=
  fun _ => .inr fun _ => rfl

theorem Streams.bind (hp : Streams more p) (hf : ∀ a, Streams more (f a)) :
    Streams more (p >>= f) := by
  intro input
  rw [bind_apply]
  match h : p input with
  | .error e =>
    rcases hp.error h with he | he
    · exact .inl he
    · exact .inr fun extra => by rw [bind_apply, he]
  | .ok (a, rest) =>
    obtain ⟨⟨used, hused⟩, hextra⟩ := hp.ok h
    dsimp only
    match h' : f a rest with
    | .error e =>
      rcases (hf a).error h' with he | he
      · exact .inl he
      · exact .inr fun extra => by rw [bind_apply, hextra]; exact he extra
    | .ok (b, rest') =>
      obtain ⟨⟨used', hused'⟩, hextra'⟩ := (hf a).ok h'
      refine ⟨⟨used ++ used', by rw [hused, hused', List.append_assoc]⟩, fun extra => ?_⟩
      rw [bind_apply, hextra]
      exact hextra' extra

/-- What an input leaves is what is left of it after what was used. -/
theorem Streams.drop_eq (hp : Streams more p) {a : α} (h : p input = .ok (a, rest)) :
    input.drop (input.length - rest.length) = rest := by
  obtain ⟨⟨used, rfl⟩, -⟩ := hp.ok h
  rw [List.length_append, Nat.add_sub_cancel, List.drop_left]

/-- The ample run of parsers that stream streams as well. -/
theorem streams_ample {out : ε} {need : Nat → Nat} {r : Nat → ListParser τ ε α}
    (hmono : ∀ s, Extends out (r s) (r (s + 1))) (hneed : ∀ n, Bounded out n 0 (r (need n)))
    (hstreams : ∀ s, Streams more (r s)) : Streams more (ample need r) := by
  -- for every extension there is one run that does what the ample one does on both inputs
  have hrun : ∀ (input extra : List τ), ∃ s, r s input = ample need r input
      ∧ r s (input ++ extra) = ample need r (input ++ extra) := by
    intro input extra
    refine ⟨need (input ++ extra).length, ?_, rfl⟩
    have hlen : input.length ≤ (input ++ extra).length := by simp
    exact (extends_ample hmono hneed _ input).resolve_left (hneed _ input hlen).1
  intro input
  match h : ample need r input with
  | .ok (a, rest) =>
    refine ⟨?_, fun extra => ?_⟩
    · obtain ⟨s, hs, -⟩ := hrun input []
      exact ((hstreams s).ok (hs.trans h)).1
    · obtain ⟨s, hs, hs'⟩ := hrun input extra
      rw [← hs']
      exact ((hstreams s).ok (hs.trans h)).2 extra
  | .error e =>
    by_cases he : e = more
    · exact .inl he
    · refine .inr fun extra => ?_
      obtain ⟨s, hs, hs'⟩ := hrun input extra
      rw [← hs']
      exact ((hstreams s).error (hs.trans h)).resolve_left he extra

end Streams

end ListParser

end WaCore
