import Mathlib.Logic.Function.Basic

/-!
Rules for computations that return a value or stop with an error. A triple
allows a set of errors and describes the returned value; a run that stops with
an error outside the allowed set meets no triple. Allowing no error is total
correctness, allowing every error is partial correctness.
-/
namespace Enkel.Outcome

variable {ε α β : Type}

/-- `x` returns a value satisfying `Q`, or stops with an error that `E` allows. -/
def Meets (E : ε → Prop) (Q : α → Prop) : Except ε α → Prop
  | .ok a => Q a
  | .error e => E e

/-- Continue only when the condition holds. -/
def require (c : Prop) [Decidable c] (e : ε) : Except ε Unit :=
  if c then .ok () else .error e

@[simp] theorem ok_bind (a : α) (f : α → Except ε β) :
    ((Except.ok a : Except ε α) >>= f) = f a := rfl

@[simp] theorem error_bind (e : ε) (f : α → Except ε β) :
    ((Except.error e : Except ε α) >>= f) = .error e := rfl

theorem meets_ok {E : ε → Prop} {Q : α → Prop} {a : α} (h : Q a) :
    Meets E Q (.ok a : Except ε α) := h

theorem meets_pure {E : ε → Prop} {Q : α → Prop} {a : α} (h : Q a) :
    Meets E Q (pure a : Except ε α) := h

theorem meets_error {E : ε → Prop} {Q : α → Prop} {e : ε} (h : E e) :
    Meets E Q (.error e : Except ε α) := h

theorem meets_throw {E : ε → Prop} {Q : α → Prop} {e : ε} (h : E e) :
    Meets E Q (throw e : Except ε α) := h

theorem meets_bind {E : ε → Prop} {R : α → Prop} {Q : β → Prop} {x : Except ε α}
    {f : α → Except ε β} (hx : Meets E R x) (hf : ∀ a, R a → Meets E Q (f a)) :
    Meets E Q (x >>= f) := by
  cases x with
  | error e => exact hx
  | ok a => exact hf a hx

theorem meets_mono {E E' : ε → Prop} {Q Q' : α → Prop} {x : Except ε α}
    (h : Meets E Q x) (hE : ∀ e, E e → E' e) (hQ : ∀ a, Q a → Q' a) :
    Meets E' Q' x := by
  cases x with
  | error e => exact hE e h
  | ok a => exact hQ a h

theorem meets_post {E : ε → Prop} {Q Q' : α → Prop} {x : Except ε α}
    (h : Meets E Q x) (hQ : ∀ a, Q a → Q' a) : Meets E Q' x :=
  meets_mono h (fun _ he => he) hQ

/-- A required condition may be used afterwards; when it can fail, the error
must be an allowed one. -/
theorem meets_require {E : ε → Prop} {Q : β → Prop} {c : Prop} [Decidable c] {e : ε}
    {f : Unit → Except ε β} (he : ¬ c → E e) (hf : c → Meets E Q (f ())) :
    Meets E Q (require c e >>= f) := by
  by_cases hc : c
  · rw [require, if_pos hc]
    exact hf hc
  · rw [require, if_neg hc]
    exact he hc

theorem meets_ite {E : ε → Prop} {Q : α → Prop} {c : Prop} [Decidable c]
    {x y : Except ε α} (hx : c → Meets E Q x) (hy : ¬ c → Meets E Q y) :
    Meets E Q (if c then x else y) := by
  by_cases hc : c
  · simpa [hc] using hx hc
  · simpa [hc] using hy hc

/-- Two triples of one run hold together, with the errors that both allow. -/
theorem meets_and {E E' : ε → Prop} {Q R : α → Prop} {x : Except ε α}
    (hQ : Meets E Q x) (hR : Meets E' R x) :
    Meets (fun e => E e ∧ E' e) (fun a => Q a ∧ R a) x := by
  cases x with
  | error e => exact ⟨hQ, hR⟩
  | ok a => exact ⟨hQ, hR⟩

/-- Reading a triple off a run that returned. -/
theorem Meets.of_eq_ok {E : ε → Prop} {Q : α → Prop} {x : Except ε α} {a : α}
    (h : Meets E Q x) (hx : x = .ok a) : Q a := by
  subst hx
  exact h

/-- Every run meets the triple that allows every error and repeats the result. -/
theorem meets_self (x : Except ε α) : Meets (fun _ => True) (fun a => x = .ok a) x := by
  cases x with
  | error e => trivial
  | ok a => rfl

/-- A triple may use how its run ended. -/
theorem Meets.and_eq {E : ε → Prop} {Q : α → Prop} {x : Except ε α} (h : Meets E Q x) :
    Meets (fun e => x = .error e ∧ E e) (fun a => x = .ok a ∧ Q a) x := by
  cases x with
  | error e => exact ⟨rfl, h⟩
  | ok a => exact ⟨rfl, h⟩

theorem meets_true_iff {Q : α → Prop} {x : Except ε α} :
    Meets (fun _ => True) Q x ↔ ∀ a, x = .ok a → Q a := by
  constructor
  · intro h a ha
    exact h.of_eq_ok ha
  · intro h
    exact meets_post (meets_self x) h

theorem Meets.ok_or_error {E : ε → Prop} {Q : α → Prop} {x : Except ε α}
    (h : Meets E Q x) : (∃ a, x = .ok a ∧ Q a) ∨ ∃ e, x = .error e ∧ E e := by
  cases x with
  | error e => exact Or.inr ⟨e, rfl, h⟩
  | ok a => exact Or.inl ⟨a, rfl, h⟩

/-- The error of a run, if it stopped. -/
def errorOf : Except ε α → Option ε
  | .ok _ => none
  | .error e => some e

theorem errorOf_eq_some {x : Except ε α} {e : ε} : errorOf x = some e ↔ x = .error e := by
  cases x <;> simp [errorOf]

theorem exists_ok_of_errorOf {x : Except ε α} (h : errorOf x = none) : ∃ a, x = .ok a := by
  cases x with
  | error e => cases h
  | ok a => exact ⟨a, rfl⟩

theorem bind_eq_ok {x : Except ε α} {f : α → Except ε β} {b : β} :
    x >>= f = .ok b ↔ ∃ a, x = .ok a ∧ f a = .ok b := by
  cases x with
  | error e => simp [bind, Except.bind]
  | ok a => simp [bind, Except.bind]

theorem pure_eq_ok {a b : α} : (pure a : Except ε α) = .ok b ↔ a = b :=
  Except.ok.injEq a b ▸ Iff.rfl

theorem require_eq_ok {c : Prop} [Decidable c] {e : ε} {u : Unit} :
    require c e = .ok u ↔ c := by
  by_cases hc : c <;> simp [require, hc]

@[simp] theorem require_true {c : Prop} [Decidable c] {e : ε} (hc : c) :
    require c e = .ok () := by
  simp [require, hc]

/-- What follows a run only matters for the result that it has. -/
theorem bind_congr_ok {x : Except ε α} {f g : α → Except ε β}
    (h : ∀ a, x = .ok a → f a = g a) : x >>= f = x >>= g := by
  cases x with
  | error e => rfl
  | ok a => exact h a rfl

theorem mapError_ok {ε' : Type} (a : α) (f : ε → ε') :
    (.ok a : Except ε α).mapError f = .ok a := rfl

theorem mapError_error {ε' : Type} (e : ε) (f : ε → ε') :
    (.error e : Except ε α).mapError f = .error (f e) := rfl

/-- Renaming the errors of a run keeps its result. -/
theorem mapError_eq_ok {ε' : Type} {x : Except ε α} {f : ε → ε'} {a : α} :
    x.mapError f = .ok a ↔ x = .ok a := by
  cases x <;> simp [mapError_ok, mapError_error]

/-- A triple of a run whose errors are renamed. -/
theorem meets_mapError {ε' : Type} {E : ε → Prop} {E' : ε' → Prop} {Q : α → Prop}
    {x : Except ε α} {f : ε → ε'} (h : Meets E Q x) (hE : ∀ e, E e → E' (f e)) :
    Meets E' Q (x.mapError f) := by
  cases x with
  | error e => exact hE e h
  | ok a => exact h

/-- The run returns. -/
def Succeeds (x : Except ε α) : Prop := ∃ a, x = .ok a

@[simp] theorem succeeds_ok (a : α) : Succeeds (.ok a : Except ε α) := ⟨a, rfl⟩

@[simp] theorem succeeds_pure (a : α) : Succeeds (pure a : Except ε α) := ⟨a, rfl⟩

@[simp] theorem not_succeeds_error (e : ε) : ¬ Succeeds (.error e : Except ε α) := nofun

@[simp] theorem not_succeeds_throw (e : ε) : ¬ Succeeds (throw e : Except ε α) := nofun

@[simp] theorem succeeds_require_bind {c : Prop} [Decidable c] {e : ε} {f : Unit → Except ε β} :
    Succeeds (require c e >>= f) ↔ c ∧ Succeeds (f ()) := by
  by_cases hc : c <;> simp [require, hc]

@[simp] theorem succeeds_require {c : Prop} [Decidable c] {e : ε} :
    Succeeds (require c e) ↔ c := by
  by_cases hc : c <;> simp [require, hc]

/-- What cannot stop after a run does not matter for whether it returns. -/
theorem succeeds_bind {x : Except ε α} {f : α → Except ε β} (h : ∀ a, Succeeds (f a)) :
    Succeeds (x >>= f) ↔ Succeeds x := by
  cases x with
  | error e => simp
  | ok a => simp [h]

@[simp] theorem succeeds_map {x : Except ε α} {f : α → β} :
    Succeeds (f <$> x) ↔ Succeeds x := by
  cases x <;> simp [Functor.map, Except.map]

@[simp] theorem succeeds_mapError {ε' : Type} {x : Except ε α} {f : ε → ε'} :
    Succeeds (x.mapError f) ↔ Succeeds x := by
  cases x <;> simp [mapError_ok, mapError_error]

/-- The run does not stop with this error. -/
def Avoids (e : ε) (x : Except ε α) : Prop := x ≠ .error e

section Avoids
variable {e e' : ε}

@[simp] theorem avoids_ok (a : α) : Avoids e (.ok a : Except ε α) := nofun

@[simp] theorem avoids_pure (a : α) : Avoids e (pure a : Except ε α) := nofun

@[simp] theorem avoids_error : Avoids e (.error e' : Except ε α) ↔ e' ≠ e := by
  simp [Avoids]

@[simp] theorem avoids_throw : Avoids e (throw e' : Except ε α) ↔ e' ≠ e := avoids_error

theorem avoids_bind {x : Except ε α} {f : α → Except ε β} :
    Avoids e (x >>= f) ↔ Avoids e x ∧ ∀ a, x = .ok a → Avoids e (f a) := by
  cases x <;> simp

theorem avoids_require {c : Prop} [Decidable c] : Avoids e (require c e') ↔ (e' = e → c) := by
  by_cases hc : c <;> simp [require, hc]

/-- A condition whose failure is another error. -/
theorem avoids_require_bind {c : Prop} [Decidable c] {f : Unit → Except ε β} (he : e' ≠ e)
    (hf : c → Avoids e (f ())) : Avoids e (require c e' >>= f) :=
  avoids_bind.mpr ⟨avoids_require.mpr fun h => absurd h he, fun _ h => hf (require_eq_ok.mp h)⟩

theorem avoids_mapError {ε' : Type} {x : Except ε α} {f : ε → ε'} (hf : Function.Injective f) :
    Avoids (f e) (x.mapError f) ↔ Avoids e x := by
  cases x <;> simp [Avoids, mapError_ok, mapError_error, hf.eq_iff]

theorem avoids_mapError_of_ne {ε' : Type} {x : Except ε α} {f : ε → ε'} {e : ε'}
    (hf : ∀ a, f a ≠ e) : Avoids e (x.mapError f) := by
  cases x <;> simp [Avoids, mapError_ok, mapError_error, hf]

theorem avoids_foldlM {σ : Type} {f : σ → α → Except ε σ} (hf : ∀ s a, Avoids e (f s a))
    {l : List α} {s : σ} : Avoids e (l.foldlM f s) := by
  induction l generalizing s with
  | nil => exact avoids_pure s
  | cons a l ih =>
    rw [List.foldlM_cons]
    exact avoids_bind.mpr ⟨hf s a, fun s' _ => ih⟩

end Avoids

/-- A fold of fallible steps refines the fold of the abstract steps when every
single step does. -/
theorem meets_foldlM {σ τ : Type} {E : ε → Prop} {R : σ → τ → Prop}
    {f : σ → α → Except ε σ} {g : τ → α → τ} (l : List α)
    (hstep : ∀ a ∈ l, ∀ s t, R s t → Meets E (fun s' => R s' (g t a)) (f s a))
    {s : σ} {t : τ} (h : R s t) : Meets E (fun s' => R s' (l.foldl g t)) (l.foldlM f s) := by
  induction l generalizing s t with
  | nil => exact meets_pure h
  | cons a l ih =>
    rw [List.foldlM_cons, List.foldl_cons]
    refine meets_bind (hstep a List.mem_cons_self s t h) fun s' hs' => ?_
    exact ih (fun b hb => hstep b (List.mem_cons_of_mem a hb)) hs'

-- Triples are used through the rules above; unfolding one would run the program.
attribute [irreducible] Meets

end Enkel.Outcome
