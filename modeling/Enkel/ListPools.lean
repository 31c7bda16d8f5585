import Enkel.IntrusiveList
import Mathlib.Algebra.BigOperators.Group.Finset.Basic

/-!
Cells of one memory that are in use or threaded on one of several lists. Taking a cell from a
list, giving one back to any list and storing into cells in use leave every cell in exactly one
of these places.
-/
namespace Enkel.ListPools

open IntrusiveList

/-- The cells in use and the lists that start at the heads are together the given cells. -/
structure Pooled {κ P : Type} [Fintype κ] [Zero P] (next : P → P) (head : κ → P)
    (free : κ → List P) (used cells : Multiset P) : Prop where
  chain : ∀ k, Chain next (head k) (free k)
  sum_eq : used + ∑ k, (free k : Multiset P) = cells
  nodup : cells.Nodup

section Sums
variable {κ P : Type} [Fintype κ] [DecidableEq κ] {free : κ → List P} {k : κ} {a : P} {l : List P}

/-- A cell more in one list is a cell more in all of them. -/
theorem sum_push (free : κ → List P) (k : κ) (a : P) :
    ∑ k', (Function.update free k (a :: free k) k' : Multiset P) =
      a ::ₘ ∑ k', (free k' : Multiset P) := by
  have hrest : ∑ k' ∈ Finset.univ.erase k, (Function.update free k (a :: free k) k' : Multiset P) =
      ∑ k' ∈ Finset.univ.erase k, (free k' : Multiset P) := by
    apply Finset.sum_congr rfl
    intro k' hk'
    rw [Function.update_of_ne (Finset.ne_of_mem_erase hk')]
  rw [← Finset.add_sum_erase _ _ (Finset.mem_univ k),
    ← Finset.add_sum_erase _ (fun k' => (free k' : Multiset P)) (Finset.mem_univ k), hrest,
    Function.update_self, ← Multiset.cons_coe, Multiset.cons_add]

theorem sum_pop (hl : free k = a :: l) : ∑ k', (free k' : Multiset P) =
    a ::ₘ ∑ k', (Function.update free k l k' : Multiset P) := by
  rw [← sum_push, Function.update_self, Function.update_idem, ← hl, Function.update_eq_self]

end Sums

variable {κ P : Type} [Fintype κ] [Zero P] {next next' : P → P} {head : κ → P} {free : κ → List P}
  {used cells : Multiset P} {k : κ} {a : P} {l : List P}

theorem Pooled.mem_of_used (h : Pooled next head free used cells) (ha : a ∈ used) : a ∈ cells :=
  h.sum_eq ▸ Multiset.mem_add.mpr (Or.inl ha)

theorem Pooled.mem_of_free (h : Pooled next head free used cells) (ha : a ∈ free k) :
    a ∈ cells := by
  rw [← h.sum_eq, Multiset.mem_add, Multiset.mem_sum]
  exact Or.inr ⟨k, Finset.mem_univ k, ha⟩

theorem Pooled.not_mem_free (h : Pooled next head free used cells) (ha : a ∈ used) :
    a ∉ free k := by
  intro hmem
  have hnodup := h.nodup
  rw [← h.sum_eq, Multiset.nodup_add] at hnodup
  have hfree : a ∈ ∑ k, (free k : Multiset P) := Multiset.mem_sum.mpr ⟨k, Finset.mem_univ k, hmem⟩
  exact Multiset.disjoint_left.mp hnodup.2.2 ha hfree

theorem Pooled.congr (h : Pooled next head free used cells) (heq : ∀ a ∈ cells, next' a = next a) :
    Pooled next' head free used cells :=
  ⟨fun k => (h.chain k).congr fun a ha => heq a (h.mem_of_free ha), h.sum_eq, h.nodup⟩

/-- The first cell of a list is taken. -/
theorem Pooled.take [DecidableEq κ] (h : Pooled next head free used cells)
    (hl : free k = a :: l) :
    Pooled next (Function.update head k (next a)) (Function.update free k l) (a ::ₘ used)
      cells := by
  constructor
  · exact (chains_pop h.chain hl).2.2
  · rw [Multiset.cons_add, ← Multiset.add_cons, ← sum_pop hl]
    exact h.sum_eq
  · exact h.nodup

variable [DecidableEq P]

/-- A store into a cell in use leaves the lists as they are. -/
theorem Pooled.store (h : Pooled next head free used cells) (ha : a ∈ used) (v : P) :
    Pooled (Function.update next a v) head free used cells :=
  ⟨fun k => (h.chain k).update (h.not_mem_free ha) v, h.sum_eq, h.nodup⟩

/-- A cell in use is put in front of a list. -/
theorem Pooled.give [DecidableEq κ] (h : Pooled next head free (a ::ₘ used) cells) (hne : a ≠ 0) :
    Pooled (Function.update next a (head k)) (Function.update head k a)
      (Function.update free k (a :: free k)) used cells := by
  have hnot : ∀ k', a ∉ free k' := fun k' => h.not_mem_free (Multiset.mem_cons_self a used)
  constructor
  · exact chains_push h.chain hne hnot k
  · rw [sum_push, Multiset.add_cons, ← Multiset.cons_add]
    exact h.sum_eq
  · exact h.nodup

end Enkel.ListPools
