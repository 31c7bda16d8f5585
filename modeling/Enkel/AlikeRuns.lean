import Enkel.RequestRuns

/-!
Computations that do the same. A postcondition of the one carries the facts on which the next
step of both depends, so that two programs are compared step by step.
-/
namespace Enkel.AlikeRuns

open Outcome

variable {α β ε ε' σ ρ : Type}

/-- Two computations with one outcome, and a property of what they return. -/
def Alike (Q : α → Prop) (x y : Except ε α) : Prop := x = y ∧ Meets (fun _ => True) Q x

variable {Q : α → Prop} {P : β → Prop} {x y x' y' : Except ε α}

theorem Alike.ok {a : α} (h : Q a) : Alike Q (.ok a : Except ε α) (.ok a) := ⟨rfl, meets_ok h⟩

theorem Alike.pure {a : α} (h : Q a) : Alike Q (Pure.pure a : Except ε α) (Pure.pure a) :=
  ⟨rfl, meets_pure h⟩

theorem Alike.error (e : ε) : Alike Q (.error e : Except ε α) (.error e) :=
  ⟨rfl, meets_error trivial⟩

/-- A computation is like itself, with what is known of its result. -/
theorem Alike.of_eq (h : ∀ a, x = .ok a → Q a) : Alike Q x x := ⟨rfl, meets_true_iff.mpr h⟩

theorem Alike.bind {f g : α → Except ε β} (h : Alike Q x y)
    (hnext : ∀ a, Q a → Alike P (f a) (g a)) : Alike P (x >>= f) (y >>= g) := by
  obtain ⟨rfl, hpost⟩ := h
  refine ⟨bind_congr_ok fun a ha => ?_, meets_bind hpost fun a ha => (hnext a ha).2⟩
  exact (hnext a (hpost.of_eq_ok ha)).1

theorem Alike.ite {c : Prop} [Decidable c] (hthen : c → Alike Q x y)
    (helse : ¬ c → Alike Q x' y') : Alike Q (if c then x else x') (if c then y else y') := by
  by_cases hc : c
  · rw [if_pos hc, if_pos hc]
    exact hthen hc
  · rw [if_neg hc, if_neg hc]
    exact helse hc

/-- Both branches of a choice go on with the same steps. -/
theorem Alike.branch {c : Prop} [Decidable c] {f g : α → Except ε β} (hthen : c → Alike Q x y)
    (helse : ¬ c → Alike Q x' y') (hnext : ∀ a, Q a → Alike P (f a) (g a)) :
    Alike P (if c then x >>= f else x' >>= f) (if c then y >>= g else y' >>= g) :=
  Alike.ite (fun hc => (hthen hc).bind hnext) fun hc => (helse hc).bind hnext

theorem Alike.mapError (h : Alike Q x y) (f : ε → ε') : Alike Q (x.mapError f) (y.mapError f) :=
  ⟨congrArg _ h.1, meets_mapError h.2 fun _ _ => trivial⟩

/-- Two machines that do the same in every state with an invariant. -/
theorem Alike.run {step step' : ρ → σ → Except ε σ} {I : σ → Prop}
    (hstep : ∀ r s, I s → Alike I (step r s) (step' r s)) (requests : List ρ) {s : σ} (hs : I s) :
    Alike I (RequestRuns.run step requests s) (RequestRuns.run step' requests s) := by
  induction requests generalizing s with
  | nil => exact Alike.ok hs
  | cons r requests ih => exact (hstep r s hs).bind fun s' hs' => ih hs'

end Enkel.AlikeRuns
