import Mathlib.Data.Nat.Notation
import Enkel.Outcome

/-!
Computations that note what they read, up to the point where they return or stop. Whether
all the reads have a property is asked step by step: of what follows, only for the values
that a step returns.
-/
namespace Enkel.Trace

open Outcome

/-- What was read, in this order, and the outcome. -/
structure Traced (ρ ε α : Type) where
  reads : List ρ
  result : Except ε α

namespace Traced

variable {ρ ε α β : Type}

def bind (x : Traced ρ ε α) (f : α → Traced ρ ε β) : Traced ρ ε β :=
  match x.result with
  | .ok a => ⟨x.reads ++ (f a).reads, (f a).result⟩
  | .error e => ⟨x.reads, .error e⟩

instance : Monad (Traced ρ ε) where
  pure a := ⟨[], .ok a⟩
  bind := bind

def note (r : ρ) : Traced ρ ε Unit := ⟨[r], .ok ()⟩

/-- A step that reads nothing. -/
def silent (x : Except ε α) : Traced ρ ε α := ⟨[], x⟩

/-- All that is read has the property. -/
def All (P : ρ → Prop) (x : Traced ρ ε α) : Prop := ∀ r ∈ x.reads, P r

instance {P : ρ → Prop} [DecidablePred P] (x : Traced ρ ε α) : Decidable (x.All P) :=
  inferInstanceAs (Decidable (∀ r ∈ x.reads, P r))

@[simp] theorem result_pure (a : α) : (pure a : Traced ρ ε α).result = .ok a := rfl

@[simp] theorem result_note (r : ρ) : (note r : Traced ρ ε Unit).result = .ok () := rfl

@[simp] theorem result_silent (x : Except ε α) : (silent x : Traced ρ ε α).result = x := rfl

/-- Without the reads it is the computation of the outcomes. -/
@[simp] theorem result_bind (x : Traced ρ ε α) (f : α → Traced ρ ε β) :
    (x >>= f).result = x.result >>= fun a => (f a).result := by
  change (bind x f).result = _
  unfold bind
  cases x.result with
  | error e => rfl
  | ok a => rfl

theorem result_require_bind {c : Prop} [Decidable c] {e : ε} {f : Unit → Traced ρ ε β} {b : β} :
    (silent (require c e) >>= f).result = .ok b ↔ c ∧ (f ()).result = .ok b := by
  rw [result_bind, result_silent, bind_eq_ok]
  constructor
  · exact fun ⟨_, hc, h⟩ => ⟨require_eq_ok.mp hc, h⟩
  · exact fun ⟨hc, h⟩ => ⟨(), require_true hc, h⟩

variable {P : ρ → Prop}

@[simp] theorem all_pure (a : α) : (pure a : Traced ρ ε α).All P := fun _ h => nomatch h

@[simp] theorem all_silent (x : Except ε α) : (silent x : Traced ρ ε α).All P :=
  fun _ h => nomatch h

@[simp] theorem all_note {r : ρ} : (note r : Traced ρ ε Unit).All P ↔ P r := by
  unfold All note
  rw [List.forall_mem_singleton]

theorem all_bind {x : Traced ρ ε α} {f : α → Traced ρ ε β} :
    (x >>= f).All P ↔ x.All P ∧ ∀ a, x.result = .ok a → (f a).All P := by
  change (bind x f).All P ↔ _
  unfold bind All
  cases h : x.result with
  | error e => simp
  | ok a => simp [or_imp, forall_and]

theorem all_unit_bind {x : Traced ρ ε Unit} {f : Unit → Traced ρ ε β} :
    (x >>= f).All P ↔ x.All P ∧ (x.result = .ok () → (f ()).All P) :=
  all_bind.trans ⟨fun h => ⟨h.1, h.2 ()⟩, fun h => ⟨h.1, fun _ => h.2⟩⟩

theorem all_silent_bind {x : Except ε α} {f : α → Traced ρ ε β} :
    (silent x >>= f).All P ↔ ∀ a, x = .ok a → (f a).All P := by
  rw [all_bind]
  simp

theorem all_require_bind {c : Prop} [Decidable c] {e : ε} {f : Unit → Traced ρ ε β} :
    (silent (require c e) >>= f).All P ↔ (c → (f ()).All P) := by
  rw [all_silent_bind]
  constructor
  · exact fun h hc => h () (require_true hc)
  · exact fun h _ hc => h (require_eq_ok.mp hc)

theorem all_ite {c : Prop} [Decidable c] {x y : Traced ρ ε α} :
    (if c then x else y).All P ↔ (c → x.All P) ∧ (¬ c → y.All P) := by
  by_cases hc : c
  · simp [hc]
  · simp [hc]

/-- What is asked of every element and those before it. -/
theorem forall_index_cons {Q : List α → α → Prop} {a : α} {l : List α} :
    (∀ i (hi : i < (a :: l).length), Q ((a :: l).take i) (a :: l)[i]) ↔
      Q [] a ∧ ∀ i (hi : i < l.length), Q (a :: l.take i) l[i] := by
  constructor
  · exact fun h => ⟨h 0 (Nat.succ_pos _), fun i hi => h (i + 1) (Nat.succ_lt_succ hi)⟩
  · rintro ⟨hfirst, hrest⟩ i hi
    cases i with
    | zero => exact hfirst
    | succ i => exact hrest i (Nat.lt_of_succ_lt_succ hi)

theorem forall_index_range {Q : List ℕ → ℕ → Prop} {n : ℕ} :
    (∀ i (hi : i < (List.range n).length), Q ((List.range n).take i) (List.range n)[i]) ↔
      ∀ i < n, Q (List.range i) i := by
  simp only [List.length_range, List.getElem_range, List.take_range]
  refine forall₂_congr fun i hi => ?_
  rw [Nat.min_eq_left (Nat.le_of_lt hi)]

theorem forM_cons (f : α → Traced ρ ε Unit) (a : α) (l : List α) :
    (a :: l).forM f = f a >>= fun _ => l.forM f := rfl

theorem result_forM {f : α → Traced ρ ε Unit} {l : List α} :
    (l.forM f).result = .ok () ↔ ∀ a ∈ l, (f a).result = .ok () := by
  induction l with
  | nil => simp [List.forM]
  | cons a l ih =>
    rw [forM_cons, result_bind, bind_eq_ok, List.forall_mem_cons, ← ih]
    exact ⟨fun ⟨_, h⟩ => h, fun h => ⟨(), h⟩⟩

/-- What a loop reads is what its turns read, up to the first that stops. -/
theorem all_forM {f : α → Traced ρ ε Unit} {l : List α} :
    (l.forM f).All P ↔ ∀ i (hi : i < l.length),
      (∀ a ∈ l.take i, (f a).result = .ok ()) → (f l[i]).All P := by
  induction l with
  | nil => simp [List.forM]
  | cons a l ih =>
    rw [forM_cons, all_unit_bind, ih,
      forall_index_cons (Q := fun before a => (∀ x ∈ before, (f x).result = .ok ()) → (f a).All P)]
    simp only [List.forall_mem_cons, List.not_mem_nil, false_implies, implies_true, true_implies,
      and_imp]
    exact and_congr_right fun _ => ⟨fun h i hi hfirst => h hfirst i hi,
      fun h hfirst i hi => h i hi hfirst⟩

theorem all_forM_of {f : α → Traced ρ ε Unit} {l : List α} (h : ∀ a ∈ l, (f a).All P) :
    (l.forM f).All P :=
  all_forM.mpr fun i hi _ => h l[i] (List.getElem_mem hi)

theorem all_forM_range {f : ℕ → Traced ρ ε Unit} {n : ℕ} :
    ((List.range n).forM f).All P ↔
      ∀ i < n, (∀ j < i, (f j).result = .ok ()) → (f i).All P := by
  rw [all_forM, forall_index_range
    (Q := fun before i => (∀ j ∈ before, (f j).result = .ok ()) → (f i).All P)]
  simp only [List.mem_range]

end Traced

end Enkel.Trace
