import Mathlib.Data.List.Nodup
import Mathlib.Logic.Function.Basic

/-!
Lists threaded through a memory: each cell holds the pointer to the next one and
zero ends the list. A memory and a head determine at most one such list, which
therefore visits no cell twice; storing into other cells leaves it as it is.
-/
namespace Enkel.IntrusiveList

variable {P : Type} [Zero P]

/-- `l` holds the cells that following the pointers from `head` visits, up to zero. -/
def Chain (next : P → P) : P → List P → Prop
  | head, [] => head = 0
  | head, a :: l => head = a ∧ a ≠ 0 ∧ Chain next (next a) l

variable {next next' : P → P} {head a : P} {l l' : List P}

@[simp] theorem chain_nil : Chain next head [] ↔ head = 0 := Iff.rfl

@[simp] theorem chain_cons :
    Chain next head (a :: l) ↔ head = a ∧ a ≠ 0 ∧ Chain next (next a) l := Iff.rfl

theorem Chain.eq_nil (h : Chain next head l) (hhead : head = 0) : l = [] := by
  cases l with
  | nil => rfl
  | cons a l => exact absurd (h.1.symm.trans hhead) h.2.1

theorem Chain.exists_cons (h : Chain next head l) (hhead : head ≠ 0) :
    ∃ rest, l = head :: rest ∧ Chain next (next head) rest := by
  cases l with
  | nil => exact absurd h hhead
  | cons a rest =>
    obtain ⟨rfl, -, hrest⟩ := h
    exact ⟨rest, rfl, hrest⟩

theorem Chain.unique (h : Chain next head l) (h' : Chain next head l') : l = l' := by
  induction l generalizing head l' with
  | nil => exact (h'.eq_nil h).symm
  | cons a l ih =>
    obtain ⟨rfl, hne, hrest⟩ := h
    obtain ⟨rest, rfl, hrest'⟩ := h'.exists_cons hne
    rw [ih hrest hrest']

/-- Each visited cell begins the list of the cells behind it. -/
theorem Chain.exists_suffix (h : Chain next head l) (ha : a ∈ l) :
    ∃ rest, Chain next a (a :: rest) ∧ rest.length < l.length := by
  induction l generalizing head with
  | nil => cases ha
  | cons b l ih =>
    rcases List.mem_cons.mp ha with rfl | ha
    · exact ⟨l, ⟨rfl, h.2⟩, Nat.lt_succ_self _⟩
    · obtain ⟨rest, hrest, hlt⟩ := ih h.2.2 ha
      exact ⟨rest, hrest, Nat.lt_succ_of_lt hlt⟩

theorem Chain.nodup (h : Chain next head l) : l.Nodup := by
  induction l generalizing head with
  | nil => exact List.nodup_nil
  | cons a l ih =>
    refine List.nodup_cons.mpr ⟨fun ha => ?_, ih h.2.2⟩
    obtain ⟨rest, hrest, hlt⟩ := h.2.2.exists_suffix ha
    have heq := hrest.2.2.unique h.2.2
    rw [heq] at hlt
    exact Nat.lt_irrefl _ hlt

theorem Chain.congr (h : Chain next head l) (heq : ∀ a ∈ l, next' a = next a) :
    Chain next' head l := by
  induction l generalizing head with
  | nil => exact h
  | cons a l ih =>
    obtain ⟨hhead, hne, hrest⟩ := h
    refine ⟨hhead, hne, ?_⟩
    rw [heq a List.mem_cons_self]
    exact ih hrest fun b hb => heq b (List.mem_cons_of_mem a hb)

/-- The first cell of one of several lists is taken. -/
theorem chains_pop {κ : Type} [DecidableEq κ] {heads : κ → P} {lists : κ → List P} {k : κ}
    (h : ∀ k, Chain next (heads k) (lists k)) (hl : lists k = a :: l) :
    heads k = a ∧ a ≠ 0 ∧ ∀ k', Chain next (Function.update heads k (next a) k')
      (Function.update lists k l k') := by
  have hcons := h k
  rw [hl, chain_cons] at hcons
  obtain ⟨hhead, hne, hrest⟩ := hcons
  refine ⟨hhead, hne, fun k' => ?_⟩
  by_cases hk : k' = k
  · subst hk
    simpa only [Function.update_self] using hrest
  · simpa only [Function.update_of_ne hk] using h k'

variable [DecidableEq P]

theorem Chain.update (h : Chain next head l) (ha : a ∉ l) (v : P) :
    Chain (Function.update next a v) head l :=
  h.congr fun _ hb => Function.update_of_ne (ne_of_mem_of_not_mem hb ha) v next

theorem Chain.push (h : Chain next head l) (hne : a ≠ 0) (ha : a ∉ l) :
    Chain (Function.update next a head) a (a :: l) := by
  refine ⟨rfl, hne, ?_⟩
  rw [Function.update_self]
  exact h.update ha head

/-- A cell is put in front of one of several lists. -/
theorem chains_push {κ : Type} [DecidableEq κ] {heads : κ → P} {lists : κ → List P}
    (h : ∀ k, Chain next (heads k) (lists k)) (hne : a ≠ 0) (ha : ∀ k, a ∉ lists k) (k k' : κ) :
    Chain (Function.update next a (heads k)) (Function.update heads k a k')
      (Function.update lists k (a :: lists k) k') := by
  by_cases hk : k' = k
  · subst hk
    simpa only [Function.update_self] using (h k').push hne (ha k')
  · simpa only [Function.update_of_ne hk] using (h k').update (ha k') _

end Enkel.IntrusiveList
