import Mathlib.Data.Finset.Card
import Mathlib.Data.Finset.Union
import Enkel.Refill

/-!
How many pages a call of MapPages takes when the list does not run empty. It
takes one for every table that is missing on the way to its pages, so a call
finds enough pages exactly when the list is at least as long as the number of
missing tables.
-/
namespace Enkel.Paging

open Outcome MemoryState KernelMemory

/-- The entries of the upper levels that lead to a page. -/
def pagePrefixes (x : ℕ) : Finset (List ℕ) :=
  {[pml4Index x], [pml4Index x, pdptIndex x], path x}

/-- The entries of the upper levels that lead to the pages of a call. -/
def callPrefixes (v turns : ℕ) : Finset (List ℕ) :=
  (Finset.range turns).biUnion fun i => pagePrefixes (v + 4096 * i)

/-- Number of tables missing behind the given entries. -/
def missing (k : KernelMemory) (S : Finset (List ℕ)) : ℕ :=
  (S.filter fun q => tableAt k q = none).card

/-- Between the two states only tables behind entries in `S` were added, each
with a page of the list. -/
structure Counted (S : Finset (List ℕ)) (k k' : KernelMemory) : Prop where
  length : k'.pagingFree.length + missing k S = k.pagingFree.length + missing k' S
  suffix : k'.pagingFree <:+ k.pagingFree
  outside : ∀ q, q.length ≤ 3 → q ∉ S → (tableAt k' q = none ↔ tableAt k q = none)

theorem prefixes_callPrefixes {v turns i : ℕ} (hi : i < turns) :
    Prefixes (· ∈ callPrefixes v turns) (v + 4096 * i) := by
  have hmem : ∀ q ∈ pagePrefixes (v + 4096 * i), q ∈ callPrefixes v turns := fun q hq =>
    Finset.mem_biUnion.mpr ⟨i, Finset.mem_range.mpr hi, hq⟩
  exact ⟨hmem _ (by simp [pagePrefixes]), hmem _ (by simp [pagePrefixes]),
    hmem _ (by simp [pagePrefixes])⟩

theorem length_of_mem_callPrefixes (v turns : ℕ) : ∀ q ∈ callPrefixes v turns, q.length ≤ 3 := by
  intro q h
  obtain ⟨i, -, hq⟩ := Finset.mem_biUnion.mp h
  simp only [pagePrefixes, Finset.mem_insert, Finset.mem_singleton] at hq
  rcases hq with rfl | rfl | rfl <;> simp [path]

theorem ne_nil_of_mem_callPrefixes {v turns : ℕ} {q : List ℕ} (h : q ∈ callPrefixes v turns) :
    q ≠ [] := by
  obtain ⟨i, -, hq⟩ := Finset.mem_biUnion.mp h
  simp only [pagePrefixes, Finset.mem_insert, Finset.mem_singleton] at hq
  rcases hq with rfl | rfl | rfl <;> simp [path]

/-- The tables on the way to a page exist with its page table. -/
theorem table_of_mem_pagePrefixes {k : KernelMemory} {x : ℕ} (h : tableAt k (path x) ≠ none)
    {q : List ℕ} (hq : q ∈ pagePrefixes x) : tableAt k q ≠ none := by
  simp only [pagePrefixes, Finset.mem_insert, Finset.mem_singleton] at hq
  intro hnone
  rcases hq with rfl | rfl | rfl
  · exact h (RadixTable.walk_none_of_initial hnone ⟨[_, _], rfl⟩)
  · exact h (RadixTable.walk_none_of_initial hnone ⟨[_], rfl⟩)
  · exact h hnone

section NextTable
variable {k : KernelMemory} {q : List ℕ} {t i : ℕ}

/-- Without refills a missing table takes the head of the list. -/
theorem nextTable_zero (hk : Ok k) (hq : q.length ≤ 2) (ht : tableAt k q = some t)
    (reservedMask : ℕ) :
    Meets (fun e => e = .pagingListEmpty → k.pagingFree = [] ∧ tableAt k (q ++ [i]) = none)
      (fun r => (tableAt k (q ++ [i]) ≠ none ∧ r.2 = k) ∨
        (tableAt k (q ++ [i]) = none ∧ tableAt r.2 (q ++ [i]) ≠ none ∧
          (∃ page, k.pagingFree = page :: r.2.pagingFree) ∧
          ∀ p, p.length ≤ 3 → p ≠ q ++ [i] → (tableAt r.2 p = none ↔ tableAt k p = none)))
      (nextTable (getPML4FreePage 0) t i reservedMask k) := by
  have hsnoc := tableAt_snoc (i := i) ht
  unfold nextTable
  refine meets_ite (fun hpresent => ?_) fun hpresent => ?_
  · refine meets_ok (Or.inl ⟨?_, rfl⟩)
    rw [hsnoc, next, if_pos hpresent]
    simp
  · have habsent : tableAt k (q ++ [i]) = none := by
      rw [hsnoc, next, if_neg hpresent]
    refine meets_bind (meets_mono (takePage_meets hk False)
      (fun e he _ => ⟨he.2, habsent⟩) fun _ h => h) fun r hr => ?_
    obtain ⟨page, k1⟩ := r
    obtain ⟨hk1, henv, hfresh, hpool, hsame⟩ := hr
    have ht1 := henv.walk q t (by omega) ht
    refine meets_require (fun _ h => by cases h) fun _ => ?_
    refine meets_require (fun _ h => by cases h) fun _ => ?_
    have hat := fun (r : List ℕ) (hr : r.length ≤ 3) => tableAt_link (i := i) hk1.tables hq ht1
      hfresh.spare.pageAddress hfresh.spare.unlinked hfresh.cleared hr
    refine meets_pure (Or.inr ⟨habsent, ?_, ?_, fun p hp hne => ?_⟩)
    · rw [hat _ (by simp; omega), if_pos List.prefix_rfl, if_pos rfl]
      simp
    · exact ⟨page, hpool⟩
    · rw [hat p hp]
      by_cases hpre : q ++ [i] <+: p
      · rw [if_pos hpre, if_neg hne]
        exact iff_of_true rfl (RadixTable.walk_none_of_initial habsent hpre)
      · rw [if_neg hpre, hsame.tableAt hp]

end NextTable

section Counted
variable {S : Finset (List ℕ)} {k k0 k' : KernelMemory}

theorem Counted.refl (S : Finset (List ℕ)) (k : KernelMemory) : Counted S k k :=
  ⟨rfl, List.suffix_rfl, fun _ _ _ => Iff.rfl⟩

theorem missing_mono (k : KernelMemory) {S S' : Finset (List ℕ)} (h : S ⊆ S') :
    missing k S ≤ missing k S' :=
  Finset.card_le_card (Finset.filter_subset_filter _ h)

theorem missing_eq_zero (h : ∀ q ∈ S, tableAt k q ≠ none) :
    missing k S = 0 := by
  unfold missing
  rw [Finset.card_eq_zero, Finset.filter_eq_empty_iff]
  exact h

theorem missing_eq_card (h : ∀ q ∈ S, tableAt k q = none) :
    missing k S = S.card := by
  unfold missing
  rw [Finset.filter_true_of_mem h]

theorem missing_congr (h : ∀ q ∈ S, (tableAt k' q = none ↔ tableAt k q = none)) :
    missing k' S = missing k S := by
  unfold missing
  congr 1
  exact Finset.filter_congr h

theorem missing_callPrefixes_eq_zero {v turns : ℕ}
    (h : ∀ i < turns, tableAt k (path (v + 4096 * i)) ≠ none) :
    missing k (callPrefixes v turns) = 0 := by
  refine missing_eq_zero fun q hq => ?_
  obtain ⟨i, hi, hmem⟩ := Finset.mem_biUnion.mp hq
  exact table_of_mem_pagePrefixes (h i (Finset.mem_range.mp hi)) hmem

/-- States with the same tables and the same list count alike. -/
theorem Counted.congr (h : Counted S k0 k) (hpool : k'.pagingFree = k.pagingFree)
    (hat : ∀ q, q.length ≤ 3 → tableAt k' q = tableAt k q) (hS : ∀ q ∈ S, q.length ≤ 3) :
    Counted S k0 k' := by
  have hmissing : missing k' S = missing k S := missing_congr fun q hq => by rw [hat q (hS q hq)]
  refine ⟨by rw [hpool, hmissing, h.length], by rw [hpool]; exact h.suffix, fun q hq hnot => ?_⟩
  rw [hat q hq]
  exact h.outside q hq hnot

theorem Counted.trans {k1 k2 : KernelMemory} (h : Counted S k k1) (h' : Counted S k1 k2) :
    Counted S k k2 := by
  refine ⟨?_, h'.suffix.trans h.suffix, fun q hq hnot => ?_⟩
  · have h1 := h.length
    have h2 := h'.length
    omega
  · rw [h'.outside q hq hnot, h.outside q hq hnot]

/-- Entries that a call does not need may be counted as well. -/
theorem Counted.mono {T : Finset (List ℕ)} (h : Counted S k k') (hsub : S ⊆ T)
    (hS : ∀ q ∈ T, q.length ≤ 3) : Counted T k k' := by
  have hsplit : ∀ k, missing k T = missing k S + missing k (T \ S) := by
    intro k
    unfold missing
    rw [← Finset.card_union_of_disjoint (Finset.disjoint_filter_filter Finset.disjoint_sdiff),
      ← Finset.filter_union, Finset.union_sdiff_of_subset hsub]
  have hrest : missing k' (T \ S) = missing k (T \ S) := missing_congr fun q hq => by
    rw [Finset.mem_sdiff] at hq
    exact h.outside q (hS q hq.1) hq.2
  refine ⟨?_, h.suffix, fun q hq hnot => h.outside q hq fun hmem => hnot (hsub hmem)⟩
  have := h.length
  rw [hsplit k, hsplit k', hrest]
  omega

theorem missing_of_added {q : List ℕ} (hq : q ∈ S) (habsent : tableAt k q = none)
    (hpresent : tableAt k' q ≠ none)
    (hother : ∀ p ∈ S, p ≠ q → (tableAt k' p = none ↔ tableAt k p = none)) :
    missing k S = missing k' S + 1 := by
  have hmem : q ∈ S.filter fun p => tableAt k p = none := Finset.mem_filter.mpr ⟨hq, habsent⟩
  have herase : S.filter (fun p => tableAt k' p = none) =
      (S.filter fun p => tableAt k p = none).erase q := by
    ext p
    simp only [Finset.mem_erase, Finset.mem_filter]
    constructor
    · rintro ⟨hp, hnone⟩
      have hne : p ≠ q := by
        rintro rfl
        exact hpresent hnone
      exact ⟨hne, hp, (hother p hp hne).mp hnone⟩
    · rintro ⟨hne, hp, hnone⟩
      exact ⟨hp, (hother p hp hne).mpr hnone⟩
  unfold missing
  rw [herase, Finset.card_erase_add_one hmem]

theorem tableSource_zero (hS : ∀ q ∈ S, q.length ≤ 3) (k0 : KernelMemory) :
    TableSource (· ∈ S) (Counted S k0) False
      (fun e => e = .pagingListEmpty ∧ k0.pagingFree.length < missing k0 S)
      (getPML4FreePage 0) where
  next := by
    intro k q t i reservedMask hk hcount hq ht hmem hmask
    refine meets_mono (meets_and
      (nextTable_meets (i := i) getPML4FreePage_zero_spec hk hq ht hmask)
      (nextTable_zero hk hq ht reservedMask)) (fun e he => ?_) fun r hr => ?_
    · obtain ⟨he1 | ⟨h, -⟩, he2⟩ := he
      · obtain ⟨hempty, habsent⟩ := he2 he1
        have hpos : 0 < missing k S :=
          Finset.card_pos.mpr ⟨_, Finset.mem_filter.mpr ⟨hmem, habsent⟩⟩
        have hlength := hcount.length
        rw [hempty, List.length_nil] at hlength
        exact Or.inl ⟨he1, by omega⟩
      · exact h.elim
    · obtain ⟨⟨hk', henv, hat⟩, hcase⟩ := hr
      refine ⟨hk', henv, hat, ?_⟩
      rcases hcase with ⟨-, heq⟩ | ⟨habsent, hpresent, ⟨page, hpool⟩, hother⟩
      · rw [heq]
        exact hcount
      · have hmissing := missing_of_added hmem habsent hpresent
          fun p hp hne => hother p (hS p hp) hne
        have hsuffix : r.2.pagingFree <:+ k.pagingFree := by
          rw [hpool]
          exact List.suffix_cons page _
        refine ⟨?_, hsuffix.trans hcount.suffix, fun p hp hnot => ?_⟩
        · have hlength := hcount.length
          rw [hpool, List.length_cons] at hlength
          omega
        · rw [hother p hp (fun h => hnot (h ▸ hmem))]
          exact hcount.outside p hp hnot
  leaf := by
    intro k v p pt m hk hcount hv hpt
    exact hcount.congr rfl (fun q hq => tableAt_leaf hk hpt hq) hS

/-- With a page for every missing table the list never runs empty, at any depth. -/
theorem tableSource_enough (hS : ∀ q ∈ S, q.length ≤ 3) (k0 : KernelMemory) (depth : ℕ)
    (henough : missing k0 S ≤ k0.pagingFree.length) :
    TableSource (· ∈ S) (Counted S k0) False (fun _ => False) (getPML4FreePage depth) where
  next := by
    intro k q t i reservedMask hk hcount hq ht hmem hmask
    have heq : nextTable (getPML4FreePage depth) t i reservedMask k =
        nextTable (getPML4FreePage 0) t i reservedMask k := by
      unfold nextTable
      by_cases hpresent : k.entries t i &&& present = 0
      · have habsent : tableAt k (q ++ [i]) = none := by
          rw [tableAt_snoc ht, next_eq_none_iff.mpr hpresent]
        have hpos : 0 < missing k S :=
          Finset.card_pos.mpr ⟨_, Finset.mem_filter.mpr ⟨hmem, habsent⟩⟩
        have hlength := hcount.length
        rw [getPML4FreePage_of_ne_nil (fun hnil => ?_) depth]
        rw [hnil, List.length_nil] at hlength
        omega
      · rw [if_pos hpresent, if_pos hpresent]
    rw [heq]
    refine meets_mono ((tableSource_zero hS k0).next hk hcount hq ht hmem hmask) (fun e he => ?_)
      fun _ h => h
    rcases he with ⟨-, hshort⟩ | ⟨h, -⟩
    · omega
    · exact h.elim
  leaf := (tableSource_zero hS k0).leaf

end Counted

/-- Number of tables that a call will have to add. -/
def missingTables (k : KernelMemory) (v size : ℕ) : ℕ :=
  missing k (callPrefixes v (callTurns v size))

section Call
variable {E : Fault → Prop} {k : KernelMemory} {m : Mapping} {v p size depth : ℕ}

/-- MapPages while the list does not run empty: the trees are what the two tags
make them, the pages have their words, everything else is as before, and one
page of the list was taken for every missing table. -/
theorem mapPages_counted_meets
    (hsrc : TableSource (· ∈ callPrefixes v (callTurns v size))
      (Counted (callPrefixes v (callTurns v size)) k) False E (getPML4FreePage depth))
    (hk : Ok k) (hlt : size < 2 ^ 64) :
    Meets (CallFault False E m k v p size)
      (fun k' => Ok k' ∧ k'.pagingFree.length + missingTables k v size = k.pagingFree.length ∧
        Counted (callPrefixes v (callTurns v size)) k k' ∧
        ∃ kt, Called False m v p size k kt k')
      (k.mapPages depth v p size m) := by
  have hS := length_of_mem_callPrefixes v (callTurns v size)
  unfold KernelMemory.mapPages
  refine meets_post (mapPagesWith_meets hsrc (fun k1 physical virt h =>
    h.congr rfl (fun _ _ => rfl) hS) hk (Counted.refl _ k) hlt fun i hi =>
    prefixes_callPrefixes hi) fun k' hk' => ?_
  obtain ⟨hok, hcount, kt, hc⟩ := hk'
  have hlength := hcount.length
  rw [missing_callPrefixes_eq_zero hc.mapped.table] at hlength
  exact ⟨hok, hlength, hcount, kt, hc⟩

theorem mapPages_zero_meets (hk : Ok k) (hlt : size < 2 ^ 64) :
    Meets (CallFault False (fun e => e = .pagingListEmpty ∧
        k.pagingFree.length < missingTables k v size) m k v p size)
      (fun k' => Ok k' ∧ k'.pagingFree.length + missingTables k v size = k.pagingFree.length ∧
        Counted (callPrefixes v (callTurns v size)) k k' ∧
        ∃ kt, Called False m v p size k kt k')
      (k.mapPages 0 v p size m) :=
  mapPages_counted_meets (tableSource_zero (length_of_mem_callPrefixes _ _) k) hk hlt

theorem mapPages_enough_meets (depth : ℕ) (hk : Ok k) (hlt : size < 2 ^ 64)
    (hpool : missingTables k v size ≤ k.pagingFree.length) :
    Meets (CallFault False (fun _ => False) m k v p size)
      (fun k' => Ok k' ∧ k'.pagingFree.length + missingTables k v size = k.pagingFree.length ∧
        Counted (callPrefixes v (callTurns v size)) k k' ∧
        ∃ kt, Called False m v p size k kt k')
      (k.mapPages depth v p size m) :=
  mapPages_counted_meets (tableSource_enough (length_of_mem_callPrefixes _ _) k depth hpool) hk hlt

end Call

end Enkel.Paging
