import Enkel.TagRange

/-!
The sizes that the branches of a page-state tree cache. FindMinimumSizeFreeBlock
chooses its way down by them, so they have to be right at every depth: Remaining
is the number of free bytes below the branch and Largest the size of the largest
free leaf below it. TagRange keeps the tree well formed, and in a well-formed
tree the caches are exact below every node that a recursion reaches.
-/
namespace Enkel.MemoryState

/-- The nodes of a tree, with the outer bounds under which they are reached. -/
inductive Reached (root : StateNode) (low high : ℕ) : StateNode → ℕ → ℕ → Prop
  | root : Reached root low high root low high
  | left {node address left right remaining largest outerLow outerHigh} :
      Reached root low high (.branch node address left right remaining largest)
        outerLow outerHigh →
      Reached root low high left outerLow address
  | right {node address left right remaining largest outerLow outerHigh} :
      Reached root low high (.branch node address left right remaining largest)
        outerLow outerHigh →
      Reached root low high right address outerHigh

/-- The sizes of the Free leaves below a node, from low to high. -/
def freeLeafSizes : StateNode → ℕ → ℕ → List ℕ
  | .leaf _ _ .free, low, high => [high - low]
  | .leaf _ _ _, _, _ => []
  | .branch _ address left right _ _, low, high =>
    freeLeafSizes left low address ++ freeLeafSizes right address high

/-- The largest member of a list of sizes, zero if there is none. -/
def largestOf (sizes : List ℕ) : ℕ := sizes.foldr max 0

theorem largestOf_append (xs ys : List ℕ) :
    largestOf (xs ++ ys) = max (largestOf xs) (largestOf ys) := by
  induction xs with
  | nil => simp [largestOf]
  | cons x xs ih =>
    simp only [largestOf, List.cons_append, List.foldr_cons] at ih ⊢
    rw [ih, max_assoc]

theorem freeBytes_eq_sum (node : StateNode) (low high : ℕ) :
    freeBytes node low high = (freeLeafSizes node low high).sum := by
  induction node generalizing low high with
  | leaf node address state => cases state <;> simp [freeBytes, freeLeafSizes]
  | branch node address left right remaining largest ihl ihr =>
    simp [freeBytes, freeLeafSizes, ihl, ihr]

theorem largestLeaf_eq_largestOf (node : StateNode) (low high : ℕ) :
    largestLeaf node low high = largestOf (freeLeafSizes node low high) := by
  induction node generalizing low high with
  | leaf node address state => cases state <;> simp [largestLeaf, freeLeafSizes, largestOf]
  | branch node address left right remaining largest ihl ihr =>
    simp only [largestLeaf, freeLeafSizes, largestOf_append, ihl, ihr]

variable {root : StateNode} {low high : ℕ}

/-- What a node says about itself when it is reached with the given bounds. -/
def TellsTruth : StateNode → ℕ → ℕ → Prop
  | .leaf _ address _, low, high => low < high ∧ address = high
  | .branch node address left right remaining largest, low, high =>
    low < address ∧ address < high ∧
      remaining =
        (freeLeafSizes (.branch node address left right remaining largest) low high).sum ∧
      largest =
        largestOf (freeLeafSizes (.branch node address left right remaining largest) low high)

theorem WellFormed.tellsTruth {node : StateNode} (h : WellFormed node low high) :
    TellsTruth node low high := by
  cases node with
  | leaf node address state => exact h
  | branch node address left right remaining largest =>
    obtain ⟨-, hleft, hright, -, hremaining, hlargest⟩ := h
    refine ⟨hleft.lt, hright.lt, ?_, ?_⟩
    · rw [← freeBytes_eq_sum]
      exact hremaining
    · rw [← largestLeaf_eq_largestOf]
      exact hlargest

/-- Every node that is reached in a well-formed tree is well formed. -/
theorem Reached.wellFormed (hroot : WellFormed root low high) {node : StateNode}
    {outerLow outerHigh : ℕ} (h : Reached root low high node outerLow outerHigh) :
    WellFormed node outerLow outerHigh := by
  induction h with
  | root => exact hroot
  | left _ ih => exact ih.2.1
  | right _ ih => exact ih.2.2.1

/-- After any sequence of tags every node tells the truth, unless a node list
ran empty on the way. -/
theorem caches_exact (highestAddress : ℕ) (hpos : 0 < highestAddress)
    (haligned : Aligned highestAddress) (hle : highestAddress ≤ pageMask) (calls : List TagCall)
    (hcalls : ValidCalls highestAddress calls) :
    (∃ m, (init highestAddress).tagCalls calls = .ok m ∧
      ∀ node outerLow outerHigh,
        Reached m.stateRoot 0 highestAddress node outerLow outerHigh →
          TellsTruth node outerLow outerHigh) ∨
    (init highestAddress).tagCalls calls = .error .leafListEmpty ∨
    (init highestAddress).tagCalls calls = .error .branchListEmpty := by
  rcases (tagCalls_meets hpos haligned hle hcalls).ok_or_error with
    ⟨m, hm, hrep⟩ | ⟨e, he, hempty⟩
  · obtain ⟨hvalid, rfl, -⟩ := hrep
    refine Or.inl ⟨m, hm, fun node outerLow outerHigh hreached => ?_⟩
    apply WellFormed.tellsTruth
    exact hreached.wellFormed hvalid.wellFormed
  · rcases hempty with rfl | rfl
    · exact Or.inr (Or.inl he)
    · exact Or.inr (Or.inr he)

/-- The tags that cut Used and Reserved ranges out of the middle and merge some back. -/
theorem caches_exact_split :
    ∃ m, (init 0x8000).tagCalls splitCalls = .ok m ∧
      ∀ node outerLow outerHigh, Reached m.stateRoot 0 0x8000 node outerLow outerHigh →
        TellsTruth node outerLow outerHigh := by
  rcases caches_exact 0x8000 (by decide) (by decide) (by decide) splitCalls
    (by unfold splitCalls ValidCalls ValidRange; decide) with h | h | h
  · exact h
  · exact absurd h (by decide +kernel)
  · exact absurd h (by decide +kernel)

end Enkel.MemoryState
