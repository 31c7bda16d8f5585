import Enkel.TagRange

/-!
FindMinimumSizeFreeBlock on well-formed trees. The search is the first fit
among the free leaves from left to right; the cached maxima only skip subtrees
without a fitting leaf. A leaf at address zero is never returned, since zero
is the failure value. Neighbouring free leaves under different branches stay
separate leaves, so the answer depends on the leaves and not on the pages.
-/
namespace Enkel.MemoryState

open Outcome

/-- Bounds of the free leaves below a node, from left to right. -/
def freeLeaves : StateNode → ℕ → ℕ → List (ℕ × ℕ)
  | .leaf _ _ .free, low, high => [(low, high)]
  | .leaf _ _ _, _, _ => []
  | .branch _ address left right _ _, low, high =>
    freeLeaves left low address ++ freeLeaves right address high

/-- The lower bound of the first leaf off address zero that is large enough, or zero. -/
def firstFit (leaves : List (ℕ × ℕ)) (minSize : ℕ) : ℕ :=
  ((leaves.find? fun b => decide (b.1 ≠ 0 ∧ minSize ≤ b.2 - b.1)).map Prod.fst).getD 0

theorem firstFit_cons (b : ℕ × ℕ) (leaves : List (ℕ × ℕ)) (minSize : ℕ) :
    firstFit (b :: leaves) minSize =
      if b.1 ≠ 0 ∧ minSize ≤ b.2 - b.1 then b.1 else firstFit leaves minSize := by
  unfold firstFit
  by_cases h : b.1 ≠ 0 ∧ minSize ≤ b.2 - b.1 <;> simp [h]

theorem firstFit_append (a b : List (ℕ × ℕ)) (minSize : ℕ) :
    firstFit (a ++ b) minSize =
      if firstFit a minSize ≠ 0 then firstFit a minSize else firstFit b minSize := by
  induction a with
  | nil => rfl
  | cons x a ih =>
    rw [List.cons_append, firstFit_cons, firstFit_cons, ih]
    by_cases h : x.1 ≠ 0 ∧ minSize ≤ x.2 - x.1
    · rw [if_pos h, if_pos h, if_pos h.1]
    · rw [if_neg h, if_neg h]

theorem firstFit_ne_zero_iff {leaves : List (ℕ × ℕ)} {minSize : ℕ} :
    firstFit leaves minSize ≠ 0 ↔ ∃ b ∈ leaves, b.1 ≠ 0 ∧ minSize ≤ b.2 - b.1 := by
  induction leaves with
  | nil => simp [firstFit]
  | cons x leaves ih =>
    rw [firstFit_cons]
    by_cases h : x.1 ≠ 0 ∧ minSize ≤ x.2 - x.1
    · rw [if_pos h]
      exact ⟨fun _ => ⟨x, List.mem_cons_self, h⟩, fun _ => h.1⟩
    · rw [if_neg h, ih]
      constructor
      · intro ⟨b, hb, hfit⟩
        exact ⟨b, List.mem_cons_of_mem x hb, hfit⟩
      · intro ⟨b, hb, hfit⟩
        rcases List.mem_cons.mp hb with rfl | hb
        · exact absurd hfit h
        · exact ⟨b, hb, hfit⟩

/-- A successful search names the lower bound of a leaf that fits. -/
theorem exists_leaf_of_firstFit {leaves : List (ℕ × ℕ)} {minSize v : ℕ}
    (h : firstFit leaves minSize = v) (hv : v ≠ 0) :
    ∃ high, (v, high) ∈ leaves ∧ minSize ≤ high - v := by
  induction leaves with
  | nil => exact absurd h.symm hv
  | cons x leaves ih =>
    rw [firstFit_cons] at h
    split_ifs at h with hx
    · exact ⟨x.2, by rw [← h]; exact List.mem_cons_self, by rw [← h]; exact hx.2⟩
    · obtain ⟨high, hmem, hfit⟩ := ih h
      exact ⟨high, List.mem_cons_of_mem x hmem, hfit⟩

theorem size_le_largestLeaf {node : StateNode} {low high : ℕ} {b : ℕ × ℕ}
    (h : b ∈ freeLeaves node low high) : b.2 - b.1 ≤ largestLeaf node low high := by
  induction node generalizing low high with
  | leaf node address state =>
    cases state with
    | free =>
      have hb : b = (low, high) := by simpa [freeLeaves] using h
      simp [hb, largestLeaf]
    | reserved => simp [freeLeaves] at h
    | used => simp [freeLeaves] at h
  | branch node address left right remaining largest ihl ihr =>
    simp only [freeLeaves, List.mem_append] at h
    simp only [largestLeaf]
    rcases h with h | h
    · exact (ihl h).trans (Nat.le_max_left _ _)
    · exact (ihr h).trans (Nat.le_max_right _ _)

/-- Skipping a subtree by its cached maximum loses no fitting leaf. -/
theorem firstFit_eq_zero_of_largestLeaf {node : StateNode} {low high minSize : ℕ}
    (h : ¬ largestLeaf node low high ≥ minSize) :
    firstFit (freeLeaves node low high) minSize = 0 := by
  by_contra hne
  obtain ⟨b, hb, -, hfit⟩ := firstFit_ne_zero_iff.mp hne
  have hle := size_le_largestLeaf hb
  omega

theorem findMinimumSizeFreeBlockInternal_eq {node : StateNode} {low high : ℕ}
    (h : WellFormed node low high) (hhigh : high < 2 ^ 48) (minSize : ℕ) :
    findMinimumSizeFreeBlockInternal node minSize low high =
      .ok (firstFit (freeLeaves node low high) minSize) := by
  induction node generalizing low high with
  | leaf node address state =>
    cases state with
    | free =>
      have haddr : address = high := h.2
      have hlarge : getLargestFree (.leaf node address .free) low address = .ok (high - low) := by
        rw [haddr] at h ⊢
        exact getLargestFree_eq h hhigh
      have hfit : firstFit [(low, high)] minSize =
          if high - low ≥ minSize then low else 0 := by
        rw [firstFit_cons]
        by_cases hz : low = 0
        · simp [hz, firstFit]
        · by_cases hs : minSize ≤ high - low <;> simp [hz, hs, firstFit]
      simp only [findMinimumSizeFreeBlockInternal, hlarge, ok_bind, freeLeaves, hfit]
      by_cases hs : high - low ≥ minSize <;> simp [hs, pure, Except.pure]
    | reserved => rfl
    | used => rfl
  | branch node address left right remaining largest ihl ihr =>
    obtain ⟨-, hleft, hright, -⟩ := h
    have hlt := hright.lt
    have hl := ihl hleft (by omega)
    have hr := ihr hright hhigh
    simp only [findMinimumSizeFreeBlockInternal, getLargestFree_eq hleft (by omega),
      getLargestFree_eq hright hhigh, ok_bind, freeLeaves, firstFit_append, hl, hr]
    have hcand : (if largestLeaf left low address ≥ minSize then
        Except.ok (firstFit (freeLeaves left low address) minSize)
        else (pure 0 : Except Fault ℕ)) =
        .ok (firstFit (freeLeaves left low address) minSize) := by
      by_cases hs : largestLeaf left low address ≥ minSize
      · rw [if_pos hs]
      · rw [if_neg hs, firstFit_eq_zero_of_largestLeaf hs]
        rfl
    rw [hcand, ok_bind]
    by_cases hz : firstFit (freeLeaves left low address) minSize ≠ 0
    · rw [if_pos hz, if_pos hz]
      rfl
    · rw [if_neg hz, if_neg hz]
      by_cases hs : largestLeaf right address high ≥ minSize
      · rw [if_pos hs]
      · rw [if_neg hs, firstFit_eq_zero_of_largestLeaf hs]
        rfl

/-- A free leaf lies within the outer bounds, at aligned addresses, and all its pages are free. -/
theorem freeLeaves_spec {node : StateNode} {low high : ℕ} (h : WellFormed node low high)
    (hlow : Aligned low) {b : ℕ × ℕ} (hb : b ∈ freeLeaves node low high) :
    low ≤ b.1 ∧ b.1 < b.2 ∧ b.2 ≤ high ∧ Aligned b.1 ∧
      ∀ p, b.1 ≤ p → p < b.2 → getPageStateInternal node p = .free := by
  induction node generalizing low high with
  | leaf node address state =>
    cases state with
    | free =>
      have hb' : b = (low, high) := by simpa [freeLeaves] using hb
      subst hb'
      exact ⟨le_rfl, h.1, le_rfl, hlow, fun _ _ _ => rfl⟩
    | reserved => simp [freeLeaves] at hb
    | used => simp [freeLeaves] at hb
  | branch node address left right remaining largest ihl ihr =>
    obtain ⟨haddress, hleft, hright, -⟩ := h
    have hl := hleft.lt
    have hr := hright.lt
    simp only [freeLeaves, List.mem_append] at hb
    rcases hb with hb | hb
    · obtain ⟨h1, h2, h3, h4, h5⟩ := ihl hleft hlow hb
      refine ⟨h1, h2, by omega, h4, fun p hp hp' => ?_⟩
      have hpa : p < address := by omega
      simpa [getPageStateInternal, hpa] using h5 p hp hp'
    · obtain ⟨h1, h2, h3, h4, h5⟩ := ihr hright haddress hb
      refine ⟨by omega, h2, h3, h4, fun p hp hp' => ?_⟩
      have hpa : ¬ p < address := by omega
      simpa [getPageStateInternal, hpa] using h5 p hp hp'

/-- The free leaves of a whole tree. -/
def leaves (m : MemoryState) : List (ℕ × ℕ) := freeLeaves m.stateRoot 0 m.highestAddress

theorem findMinimumSizeFreeBlock_eq {m : MemoryState} (hm : m.Valid) (minSize : ℕ) :
    m.findMinimumSizeFreeBlock minSize = .ok (firstFit m.leaves minSize) :=
  findMinimumSizeFreeBlockInternal_eq hm.wellFormed hm.lt minSize

/-- What a caller may rely on when the search succeeds. -/
theorem firstFit_spec {m : MemoryState} (hm : m.Valid) {minSize v : ℕ}
    (h : firstFit m.leaves minSize = v) (hv : v ≠ 0) :
    Aligned v ∧ pageSize ≤ v ∧ v + minSize ≤ m.highestAddress ∧ v < m.highestAddress ∧
      ∀ p, v ≤ p → p < v + minSize ∨ p = v → m.getPageState p = .free := by
  obtain ⟨high, hmem, hfit⟩ := exists_leaf_of_firstFit h hv
  obtain ⟨-, hlt, hhigh, haligned, hfree⟩ := freeLeaves_spec hm.wellFormed rfl hmem
  simp only at hlt hhigh haligned hfree
  have hpage : pageSize ≤ v := by
    unfold Aligned at haligned
    unfold pageSize
    omega
  refine ⟨haligned, hpage, by omega, by omega, fun p hp hp' => hfree p hp ?_⟩
  omega

/-- The further to the right a free leaf is, the higher its address. -/
theorem freeLeaves_sorted {node : StateNode} {low high : ℕ} (h : WellFormed node low high)
    (hlow : Aligned low) : (freeLeaves node low high).Pairwise fun a b => a.1 < b.1 := by
  induction node generalizing low high with
  | leaf node address state => cases state <;> simp [freeLeaves]
  | branch node address left right remaining largest ihl ihr =>
    obtain ⟨haddress, hleft, hright, -⟩ := h
    refine List.pairwise_append.mpr ⟨ihl hleft hlow, ihr hright haddress, fun a ha b hb => ?_⟩
    obtain ⟨-, hlt, hend, -⟩ := freeLeaves_spec hleft hlow ha
    obtain ⟨hstart, -⟩ := freeLeaves_spec hright haddress hb
    omega

/-- On leaves in the order of their addresses first fit finds the lowest one. -/
theorem firstFit_le {leaves : List (ℕ × ℕ)} {minSize : ℕ}
    (hsorted : leaves.Pairwise fun a b => a.1 < b.1) {b : ℕ × ℕ} (hb : b ∈ leaves)
    (hfit : b.1 ≠ 0 ∧ minSize ≤ b.2 - b.1) : firstFit leaves minSize ≤ b.1 := by
  induction leaves with
  | nil => exact absurd hb List.not_mem_nil
  | cons x leaves ih =>
    obtain ⟨hhead, htail⟩ := List.pairwise_cons.mp hsorted
    rw [firstFit_cons]
    rcases List.mem_cons.mp hb with rfl | hb
    · rw [if_pos hfit]
    · split_ifs
      · exact (hhead b hb).le
      · exact ih htail hb

/-- In every state that tags reach, a search succeeds exactly when some free
leaf off address zero is large enough. -/
theorem search_succeeds_iff_leaf (highestAddress : ℕ) (hpos : 0 < highestAddress)
    (haligned : Aligned highestAddress) (hle : highestAddress ≤ pageMask)
    (calls : List TagCall) (hcalls : ValidCalls highestAddress calls) (m : MemoryState)
    (hm : (init highestAddress).tagCalls calls = .ok m) (minSize : ℕ) :
    ∃ v, m.findMinimumSizeFreeBlock minSize = .ok v ∧
      (v ≠ 0 ↔ ∃ b ∈ m.leaves, b.1 ≠ 0 ∧ minSize ≤ b.2 - b.1) ∧
      (v ≠ 0 → ∀ p, v ≤ p → p < v + minSize → m.getPageState p = .free) := by
  have hvalid : m.Valid := ((tagCalls_meets hpos haligned hle hcalls).of_eq_ok hm).1
  refine ⟨_, findMinimumSizeFreeBlock_eq hvalid minSize, firstFit_ne_zero_iff, fun hv p hp hp' => ?_⟩
  exact (firstFit_spec hvalid rfl hv).2.2.2.2 p hp (Or.inl hp')

/-- Three tags that leave the free pages 1 and 2 under different branches. -/
def fragmentingCalls : List TagCall :=
  [⟨0x2000, 0x8000, .used⟩, ⟨0, 0x1000, .used⟩, ⟨0x2000, 0x3000, .free⟩]

theorem fragmentingCalls_run :
    ∃ m, (init 0x8000).tagCalls fragmentingCalls = .ok m ∧
      m.Represents 0x8000 (pageMap (fun _ => .free) fragmentingCalls) := by
  have hcalls : ValidCalls 0x8000 fragmentingCalls := by
    unfold fragmentingCalls ValidCalls ValidRange
    decide
  rcases (tagCalls_meets (by decide) (by decide) (by decide) hcalls).ok_or_error with
    h | ⟨e, he, hempty⟩
  · exact h
  · rcases hempty with rfl | rfl
    · exact absurd he (by decide +kernel)
    · exact absurd he (by decide +kernel)

theorem search_succeeds_iff_leaf_fragmented :
    ∃ m, (init 0x8000).tagCalls fragmentingCalls = .ok m ∧
      ∃ v, m.findMinimumSizeFreeBlock 0x1000 = .ok v ∧
        (v ≠ 0 ↔ ∃ b ∈ m.leaves, b.1 ≠ 0 ∧ 0x1000 ≤ b.2 - b.1) ∧
        (v ≠ 0 → ∀ p, v ≤ p → p < v + 0x1000 → m.getPageState p = .free) := by
  obtain ⟨m, hm, -⟩ := fragmentingCalls_run
  have hcalls : ValidCalls 0x8000 fragmentingCalls := by
    unfold fragmentingCalls ValidCalls ValidRange
    decide
  exact ⟨m, hm, search_succeeds_iff_leaf 0x8000 (by decide) (by decide) (by decide)
    fragmentingCalls hcalls m hm 0x1000⟩

/-- The lower bounds of the free leaves off address zero that have `minSize` bytes. -/
def fitting (m : MemoryState) (minSize : ℕ) : Set ℕ :=
  {low | ∃ high, (low, high) ∈ m.leaves ∧ low ≠ 0 ∧ minSize ≤ high - low}

theorem firstFit_isLeast {m : MemoryState} (hm : m.Valid) {minSize : ℕ}
    (hne : firstFit m.leaves minSize ≠ 0) :
    IsLeast (m.fitting minSize) (firstFit m.leaves minSize) := by
  obtain ⟨high, hmem, hfit⟩ := exists_leaf_of_firstFit rfl hne
  refine ⟨⟨high, hmem, hne, hfit⟩, ?_⟩
  rintro low ⟨high, hmem, hfit⟩
  exact firstFit_le (freeLeaves_sorted hm.wellFormed rfl) hmem hfit

/-- In every state that tags reach, a search finds the lowest free leaf that fits, as a
scan of all leaves from left to right does, and returns zero when no leaf fits. -/
theorem search_finds_lowest (highestAddress : ℕ) (hpos : 0 < highestAddress)
    (haligned : Aligned highestAddress) (hle : highestAddress ≤ pageMask)
    (calls : List TagCall) (hcalls : ValidCalls highestAddress calls) (m : MemoryState)
    (hm : (init highestAddress).tagCalls calls = .ok m) (minSize : ℕ) :
    ∃ v, m.findMinimumSizeFreeBlock minSize = .ok v ∧ v = firstFit m.leaves minSize ∧
      (v = 0 ↔ m.fitting minSize = ∅) ∧ (v ≠ 0 → IsLeast (m.fitting minSize) v) := by
  have hvalid : m.Valid := ((tagCalls_meets hpos haligned hle hcalls).of_eq_ok hm).1
  refine ⟨_, findMinimumSizeFreeBlock_eq hvalid minSize, rfl, ?_, firstFit_isLeast hvalid⟩
  constructor
  · intro hzero
    rw [Set.eq_empty_iff_forall_notMem]
    rintro low ⟨high, hmem, hfit⟩
    exact firstFit_ne_zero_iff.mpr ⟨(low, high), hmem, hfit⟩ hzero
  · intro hempty
    by_contra hne
    exact (hempty ▸ (firstFit_isLeast hvalid hne).1 : _ ∈ (∅ : Set ℕ))

theorem search_finds_lowest_fragmented :
    ∃ m, (init 0x8000).tagCalls fragmentingCalls = .ok m ∧
      ∃ v, m.findMinimumSizeFreeBlock 0x1000 = .ok v ∧ v = firstFit m.leaves 0x1000 ∧
        (v = 0 ↔ m.fitting 0x1000 = ∅) ∧ (v ≠ 0 → IsLeast (m.fitting 0x1000) v) := by
  obtain ⟨m, hm, -⟩ := fragmentingCalls_run
  have hcalls : ValidCalls 0x8000 fragmentingCalls := by
    unfold fragmentingCalls ValidCalls ValidRange
    decide
  exact ⟨m, hm, search_finds_lowest 0x8000 (by decide) (by decide) (by decide)
    fragmentingCalls hcalls m hm 0x1000⟩

/-- Pages 1 and 2 are free and their neighbours are not, yet a search for two pages fails. -/
theorem search_misses_divided_run :
    ∃ m, (init 0x8000).tagCalls fragmentingCalls = .ok m ∧
      (∀ p, 0x1000 ≤ p → p < 0x3000 → m.getPageState p = .free) ∧
      m.getPageState 0 = .used ∧ m.getPageState 0x3000 = .used ∧
      m.findMinimumSizeFreeBlock 0x2000 = .ok 0 := by
  obtain ⟨m, hm, -, -, hpages⟩ := fragmentingCalls_run
  have hsearch : ((init 0x8000).tagCalls fragmentingCalls >>= fun m =>
      m.findMinimumSizeFreeBlock 0x2000) = .ok 0 := by decide +kernel
  rw [hm, ok_bind] at hsearch
  refine ⟨m, hm, fun p hp hp' => ?_, ?_, ?_, hsearch⟩
  · rw [hpages p (by omega)]
    have h1 : ¬ p < 0x1000 := by omega
    by_cases h2 : 0x2000 ≤ p
    · have h3 : p < 0x3000 := by omega
      have h4 : p < 0x8000 := by omega
      simp [pageMap, fragmentingCalls, tagged, h1, h2, h3, h4]
    · simp [pageMap, fragmentingCalls, tagged, h1, h2]
  · rw [hpages 0 (by decide)]
    decide
  · rw [hpages 0x3000 (by decide)]
    decide

end Enkel.MemoryState
